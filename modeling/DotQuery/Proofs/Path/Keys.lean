import DotQuery.Proofs.Path.Pieces

/-! Paths of keys alone.

A key stands for itself in a path if it is plain. The texts that name keys alone are
plain keys with points between them, and such a text is cut at the same points again. -/
namespace DotQuery.Path
open Text

theorem isPlainKey_iff {key : String} :
    isPlainKey key = true ↔ key ≠ "" ∧ key ≠ "$" ∧ '.' ∉ key.toList ∧ '[' ∉ key.toList := by
  rw [← all_isKeyChar_iff]
  simp [isPlainKey, and_assoc]

/-- A piece is a key exactly if that key stands for itself. -/
theorem spells_key_iff {piece : List Char} (hp : '.' ∉ piece) {name : String} :
    Spells piece (.key name) ↔ piece = name.toList ∧ isPlainKey name = true := by
  rw [isPlainKey_iff]
  constructor
  · intro h
    cases h with
    | key hne hr hb =>
      rw [String.toList_ofList]
      refine ⟨rfl, ?_, ?_, hp, hb⟩
      · simpa [← String.toList_inj] using hne
      · simpa [← String.toList_inj] using hr
  · intro h
    obtain ⟨rfl, hne, hr, _, hb⟩ := h
    have hs : Spells name.toList (.key (String.ofList name.toList)) := by
      refine .key ?_ ?_ hb
      · simpa using hne
      · simpa [← String.toList_inj] using hr
    rwa [String.ofList_toList] at hs

theorem pieces_eq_singleton {s : String} (h : '.' ∉ s.toList) : pieces s = [s.toList] :=
  List.splitOn_eq_singleton h

theorem pieces_join (s t : String) : pieces (s ++ "." ++ t) = pieces s ++ pieces t := by
  have ht : (s ++ "." ++ t).toList = s.toList ++ '.' :: t.toList := by simp
  rw [pieces, ht]
  exact List.splitOn_append_cons_self s.toList t.toList

theorem pieces_append_point {k : String} (h : '.' ∉ k.toList) (t : String) :
    pieces (k ++ "." ++ t) = k.toList :: pieces t := by
  rw [pieces_join, pieces_eq_singleton h, List.singleton_append]

/-- A text with more than one piece goes on behind its first point. -/
theorem exists_append_point {s k : String} {ps : List (List Char)} (hne : ps ≠ [])
    (h : pieces s = k.toList :: ps) : ∃ t, s = k ++ "." ++ t ∧ pieces t = ps := by
  rcases piece_cases s.toList with ⟨_, hsplit⟩ | ⟨piece, rest, hs, _, hsplit⟩
  · exact absurd (List.cons.inj (hsplit.symm.trans h)).2.symm hne
  · obtain ⟨rfl, rfl⟩ := List.cons.inj (hsplit.symm.trans h)
    refine ⟨String.ofList rest, ?_, by rw [pieces, String.toList_ofList]⟩
    rw [← String.toList_inj, hs]
    simp

theorem pieces_injective {s t : String} (h : pieces s = pieces t) : s = t := by
  have := congrArg ['.'].intercalate h
  simpa [pieces, String.toList_inj] using this

/-- Pieces spell keys alone exactly if they are keys that stand for themselves. -/
theorem forall₂_spells_key_iff {ps : List (List Char)} (hp : ∀ piece ∈ ps, '.' ∉ piece)
    (segments : List Segment) :
    (List.Forall₂ Spells ps segments ∧ ∀ segment ∈ segments, ∃ name, segment = .key name) ↔
      ∃ keys : List String, (∀ key ∈ keys, isPlainKey key = true) ∧
        ps = keys.map String.toList ∧ segments = keys.map .key := by
  constructor
  · intro h
    obtain ⟨h, hkeys⟩ := h
    induction h with
    | nil => exact ⟨[], by simp, rfl, rfl⟩
    | cons hs _ ih =>
      rw [List.forall_mem_cons] at hp hkeys
      obtain ⟨name, rfl⟩ := hkeys.1
      obtain ⟨rfl, hplain⟩ := (spells_key_iff hp.1).1 hs
      obtain ⟨keys, hk, rfl, rfl⟩ := ih hp.2 hkeys.2
      exact ⟨name :: keys, List.forall_mem_cons.2 ⟨hplain, hk⟩, rfl, rfl⟩
  · intro h
    obtain ⟨keys, hk, rfl, rfl⟩ := h
    refine ⟨?_, by simp⟩
    induction keys with
    | nil => exact .nil
    | cons key keys ih =>
      rw [List.map_cons, List.forall_mem_cons] at hp
      rw [List.forall_mem_cons] at hk
      exact .cons ((spells_key_iff hp.1).2 ⟨rfl, hk.1⟩) (ih hk.2 hp.2)

/-- A text names segments that are keys alone exactly if its pieces are keys that stand
for themselves. -/
theorem parse_keys_iff {text : String} {p : Path} :
    (parse text = .ok p ∧ p.segments ≠ [] ∧ ∀ segment ∈ p.segments, ∃ name, segment = .key name) ↔
      ∃ keys : List String, keys ≠ [] ∧ (∀ key ∈ keys, isPlainKey key = true) ∧
        pieces text = keys.map String.toList ∧ p.segments = keys.map .key := by
  have hkeys := forall₂_spells_key_iff (no_point_of_mem_splitOn text.toList) p.segments
  constructor
  · intro h
    obtain ⟨h, hne, hall⟩ := h
    rcases parse_eq_ok_iff.1 h with ⟨_, hs⟩ | ⟨_, hs⟩
    · exact absurd hs hne
    · obtain ⟨keys, hplain, hp, hk⟩ := hkeys.1 ⟨hs, hall⟩
      refine ⟨keys, ?_, hplain, hp, hk⟩
      intro he
      subst he
      exact hne hk
  · intro h
    obtain ⟨keys, hne, hplain, hp, hk⟩ := h
    obtain ⟨hs, hall⟩ := hkeys.2 ⟨keys, hplain, hp, hk⟩
    refine ⟨parse_eq_ok_iff.2 (.inr ⟨?_, hs⟩), by simpa [hk] using hne, hall⟩
    intro he
    subst he
    have hone : [[]] = keys.map String.toList := hp
    obtain ⟨key, rfl⟩ : ∃ key, keys = [key] :=
      List.length_eq_one_iff.1 (by simpa using (congrArg List.length hone).symm)
    have hempty : key = "" := by simpa using hone.symm
    subst hempty
    exact absurd (hplain "" List.mem_cons_self) (by decide)

/-- A key that stands for itself is a path of its own. -/
theorem parse_of_isPlainKey {key : String} (h : isPlainKey key = true) :
    parse key = .ok ⟨[.key key]⟩ := by
  have hno := (isPlainKey_iff.1 h).2.2.1
  exact ((parse_keys_iff (p := ⟨[.key key]⟩)).2
    ⟨[key], by simp, by simpa using h, pieces_eq_singleton hno, rfl⟩).1

end DotQuery.Path
