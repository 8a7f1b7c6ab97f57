import Mathlib.Data.List.TakeWhile

/-! Scans: the part of a text before the first character that is not in a class.

A scan is given by its result: the text is the part and what stops it, every
character of the part is in the class, and the first one behind it is not. -/
namespace DotQuery.Text

variable {p : Char → Bool}

/-- The text is empty or starts with a character outside the class. -/
def Stops (p : Char → Bool) (s : List Char) : Prop :=
  ∀ c ∈ s.head?, p c = false

theorem stops_nil : Stops p [] := by
  intro c hc
  cases hc

theorem stops_cons {c : Char} {s : List Char} (h : p c = false) : Stops p (c :: s) := by
  intro d hd
  cases hd
  exact h

theorem Stops.front {s t : List Char} (h : Stops p (s ++ t)) : Stops p s := by
  intro c hc
  refine h c ?_
  rw [List.head?_append, Option.mem_def.1 hc]
  rfl

theorem takeWhile_append_stops {a b : List Char} (ha : ∀ c ∈ a, p c = true) (hb : Stops p b) :
    (a ++ b).takeWhile p = a := by
  rw [List.takeWhile_append_of_pos ha]
  cases b with
  | nil => simp
  | cons c b => simp [hb c rfl]

theorem dropWhile_append_stops {a b : List Char} (ha : ∀ c ∈ a, p c = true) (hb : Stops p b) :
    (a ++ b).dropWhile p = b := by
  rw [List.dropWhile_append_of_pos ha]
  cases b with
  | nil => rfl
  | cons c b => simp [hb c rfl]

theorem dropWhile_stops (p : Char → Bool) (s : List Char) : Stops p (s.dropWhile p) := by
  intro c hc
  have h := List.head?_dropWhile_not p s
  rw [Option.mem_def.1 hc] at h
  exact h

/-- Every text is a scan and what stops it. -/
theorem exists_scan (p : Char → Bool) (s : List Char) :
    ∃ a b, s = a ++ b ∧ (∀ c ∈ a, p c = true) ∧ Stops p b :=
  ⟨s.takeWhile p, s.dropWhile p, List.takeWhile_append_dropWhile.symm,
    fun _ hc => List.mem_takeWhile_imp hc, dropWhile_stops p s⟩

/-- A text is cut by a scan in one way only. -/
theorem scan_unique {a b a' b' : List Char} (h : a ++ b = a' ++ b') (ha : ∀ c ∈ a, p c = true)
    (hb : Stops p b) (ha' : ∀ c ∈ a', p c = true) (hb' : Stops p b') : a = a' ∧ b = b' := by
  have ht := takeWhile_append_stops ha hb
  have hd := dropWhile_append_stops ha hb
  rw [h, takeWhile_append_stops ha' hb'] at ht
  rw [h, dropWhile_append_stops ha' hb'] at hd
  exact ⟨ht.symm, hd.symm⟩

/-! ### Ends -/

/-- The last of two texts is that of the second one, or of the first if the second is
empty. -/
theorem forall_mem_getLast?_append {p : Char → Prop} {s t : List Char}
    (hs : ∀ c ∈ s.getLast?, p c) (ht : ∀ c ∈ t.getLast?, p c) : ∀ c ∈ (s ++ t).getLast?, p c := by
  intro c hc
  rw [List.getLast?_append] at hc
  rcases Option.or_eq_some_iff.1 hc with hc | ⟨-, hc⟩
  · exact ht c hc
  · exact hs c hc

/-- The text is empty or ends with a character of the class. -/
def EndsIn (p : Char → Bool) (s : List Char) : Prop :=
  ∀ c ∈ s.getLast?, p c = true

theorem endsIn_of_all {s : List Char} (h : ∀ c ∈ s, p c = true) : EndsIn p s :=
  fun c hc => h c (List.mem_of_getLast? hc)

theorem endsIn_nil : EndsIn p [] := by
  intro c hc
  cases hc

theorem endsIn_singleton {c : Char} (h : p c = true) : EndsIn p [c] := by
  intro d hd
  cases hd
  exact h

theorem EndsIn.behind {s : List Char} (h : EndsIn p s) (hne : s ≠ []) (t : List Char) :
    EndsIn p (t ++ s) := by
  intro c hc
  rw [List.getLast?_append] at hc
  rcases Option.or_eq_some_iff.1 hc with hc | ⟨hnone, -⟩
  · exact h c hc
  · exact absurd (List.getLast?_eq_none_iff.1 hnone) hne

/-- Every text is cut before the characters of the class at its end. -/
theorem exists_ends (p : Char → Bool) (s : List Char) :
    ∃ a b, s = a ++ b ∧ (∀ c ∈ b, p c = true) ∧ ∀ c ∈ a.getLast?, p c = false := by
  obtain ⟨b, a, hs, hb, ha⟩ := exists_scan p s.reverse
  refine ⟨a.reverse, b.reverse, ?_, fun c hc => hb c (List.mem_reverse.1 hc), fun c hc => ?_⟩
  · rw [← List.reverse_append, ← hs, List.reverse_reverse]
  · rw [List.getLast?_reverse] at hc
    exact ha c hc

theorem EndsIn.append {s t : List Char} (hs : EndsIn p s) (ht : EndsIn p t) : EndsIn p (s ++ t) :=
  forall_mem_getLast?_append hs ht

end DotQuery.Text
