import DotQuery.Text.Place

/-! Slices of a text, given by bytes.

A slice can only begin and end between characters of the text. Where it would begin or end
inside a character or behind the end of the text, there is none. -/
namespace DotQuery.Text

/-- The text behind the first `n` bytes. -/
def dropBytes? (n : Nat) : List Char → Option (List Char)
  | [] => if n = 0 then some [] else none
  | c :: s =>
    if n = 0 then some (c :: s)
    else if c.utf8Size ≤ n then dropBytes? (n - c.utf8Size) s
    else none

/-- The first `n` bytes of a text. -/
def takeBytes? (n : Nat) : List Char → Option (List Char)
  | [] => if n = 0 then some [] else none
  | c :: s =>
    if n = 0 then some []
    else if c.utf8Size ≤ n then (takeBytes? (n - c.utf8Size) s).map (c :: ·)
    else none

/-- The text from one byte up to another. -/
def slice? (s : List Char) (first last : Nat) : Option (List Char) :=
  if first ≤ last then (dropBytes? first s).bind (takeBytes? (last - first)) else none

/-- The character behind the first `n` bytes, none in the inner option if the text ends
there. -/
def peek? (s : List Char) (n : Nat) : Option (Option Char) :=
  (dropBytes? n s).map List.head?

theorem dropBytes?_zero (s : List Char) : dropBytes? 0 s = some s := by
  cases s <;> simp [dropBytes?]

theorem takeBytes?_zero (s : List Char) : takeBytes? 0 s = some [] := by
  cases s <;> simp [takeBytes?]

theorem byteLength_pos_of_cons (c : Char) (s : List Char) : byteLength (c :: s) ≠ 0 := by
  have := c.utf8Size_pos
  rw [byteLength_cons]
  omega

theorem byteLength_append_one (a : List Char) (c : Char) :
    byteLength (a ++ [c]) = byteLength a + c.utf8Size := by
  simp

theorem dropBytes?_append (a b : List Char) : dropBytes? (byteLength a) (a ++ b) = some b := by
  induction a with
  | nil => exact dropBytes?_zero b
  | cons c a ih =>
    have hne := byteLength_pos_of_cons c a
    have hle : c.utf8Size ≤ byteLength (c :: a) := by simp
    rw [List.cons_append, dropBytes?, if_neg hne, if_pos hle, byteLength_cons,
      Nat.add_sub_cancel_left, ih]

theorem takeBytes?_append (a b : List Char) : takeBytes? (byteLength a) (a ++ b) = some a := by
  induction a with
  | nil => exact takeBytes?_zero b
  | cons c a ih =>
    have hne := byteLength_pos_of_cons c a
    have hle : c.utf8Size ≤ byteLength (c :: a) := by simp
    rw [List.cons_append, takeBytes?, if_neg hne, if_pos hle, byteLength_cons,
      Nat.add_sub_cancel_left, ih]
    rfl

/-- What stands behind the first bytes of a text is cut off between two characters. -/
theorem dropBytes?_eq_some_iff {n : Nat} {s rest : List Char} :
    dropBytes? n s = some rest ↔ ∃ read, s = read ++ rest ∧ byteLength read = n := by
  constructor
  · intro h
    induction s generalizing n with
    | nil =>
      rw [dropBytes?] at h
      split at h
      · rename_i hn
        cases h
        exact ⟨[], rfl, hn.symm⟩
      · cases h
    | cons c s ih =>
      rw [dropBytes?] at h
      split at h
      · rename_i hn
        cases h
        exact ⟨[], rfl, hn.symm⟩
      · split at h
        · rename_i hle
          obtain ⟨read, rfl, hread⟩ := ih h
          exact ⟨c :: read, rfl, by rw [byteLength_cons, hread]; omega⟩
        · cases h
  · rintro ⟨read, rfl, rfl⟩
    exact dropBytes?_append read rest

/-- One character further on. -/
theorem dropBytes?_behind {n : Nat} {c : Char} {s rest : List Char}
    (h : dropBytes? n s = some (c :: rest)) : dropBytes? (n + c.utf8Size) s = some rest := by
  obtain ⟨read, rfl, rfl⟩ := dropBytes?_eq_some_iff.1 h
  have hcut := dropBytes?_append (read ++ [c]) rest
  rwa [byteLength_append_one, ← List.append_cons] at hcut

@[simp] theorem peek?_append (a b : List Char) : peek? (a ++ b) (byteLength a) = some b.head? := by
  rw [peek?, dropBytes?_append]
  rfl

theorem peek?_behind (a b c : List Char) :
    peek? (a ++ (b ++ c)) (byteLength (a ++ b)) = some c.head? := by
  rw [← List.append_assoc]
  exact peek?_append (a ++ b) c

theorem peek?_eq_some_some {s : List Char} {n : Nat} {c : Char} (h : peek? s n = some (some c)) :
    ∃ rest, dropBytes? n s = some (c :: rest) := by
  obtain ⟨rest, hrest, hhead⟩ := Option.map_eq_some_iff.1 h
  obtain ⟨t, rfl⟩ := List.head?_eq_some_iff.1 hhead
  exact ⟨t, hrest⟩

theorem slice?_append (a b c : List Char) :
    slice? (a ++ (b ++ c)) (byteLength a) (byteLength (a ++ b)) = some b := by
  rw [byteLength_append, slice?, if_pos (Nat.le_add_right _ _), dropBytes?_append,
    Nat.add_sub_cancel_left]
  exact takeBytes?_append b c

end DotQuery.Text
