import DotQuery.Json.Numbers
import DotQuery.Json.Strings

/-! Reading what stands between the brackets of JSON text: the space that may
separate its parts, and the values that have no parts. -/
namespace DotQuery.Json

/-- The characters that may stand between the parts of a text. -/
def isSpace (c : Char) : Bool :=
  c == ' ' || c == '\n' || c == '\t' || c == '\r'

def skipSpace (s : List Char) : List Char :=
  s.dropWhile isSpace

theorem skipSpace_length_le (s : List Char) : (skipSpace s).length ≤ s.length := by
  induction s with
  | nil => simp [skipSpace]
  | cons c s ih =>
    simp only [skipSpace, List.dropWhile_cons] at ih ⊢
    split
    · exact Nat.le_succ_of_le ih
    · exact Nat.le_refl _

/-! ### Literals -/

/-- Reads the given letters. -/
def readLetters : List Char → List Char → Except Fault (List Char)
  | [], s => .ok s
  | _ :: _, [] => .error (.before .endInValue [])
  | x :: xs, c :: s => if c = x then readLetters xs s else .error (.atNext .expectedIdent (c :: s))

theorem readLetters_length_le {letters s rest : List Char}
    (h : readLetters letters s = .ok rest) : rest.length ≤ s.length := by
  induction letters generalizing s with
  | nil =>
    injection h with h
    simp [h]
  | cons x xs ih =>
    cases s with
    | nil => cases h
    | cons c s =>
      simp only [readLetters] at h
      split at h
      · exact Nat.le_succ_of_le (ih h)
      · cases h

/-! ### Values without parts -/

/-- Reads a value that is neither a list nor a mapping. -/
def readScalar (s : List Char) : Except Fault (Value × List Char) :=
  match s with
  | [] => .error (.before .endInValue [])
  | 'n' :: rest => (readLetters ['u', 'l', 'l'] rest).map fun rest => (.null, rest)
  | 't' :: rest => (readLetters ['r', 'u', 'e'] rest).map fun rest => (.boolean true, rest)
  | 'f' :: rest => (readLetters ['a', 'l', 's', 'e'] rest).map fun rest => (.boolean false, rest)
  | '"' :: rest => (readString rest).map fun (t, rest) => (.string t, rest)
  | c :: _ =>
    if c == '-' || c.isDigit then (readNumber s).map fun (n, rest) => (.number n, rest)
    else .error (.atNext .expectedValue s)

theorem map_eq_ok {α β ε : Type} {f : α → β} {x : Except ε α} {b : β} (h : x.map f = .ok b) :
    ∃ a, x = .ok a ∧ f a = b := by
  cases x with
  | error e => cases h
  | ok a => exact ⟨a, rfl, by injection h⟩

theorem readScalar_length_lt {s rest : List Char} {v : Value}
    (h : readScalar s = .ok (v, rest)) : rest.length < s.length := by
  unfold readScalar at h
  split at h
  · cases h
  · obtain ⟨_, hr, he⟩ := map_eq_ok h
    cases he
    exact Nat.lt_succ_of_le (readLetters_length_le hr)
  · obtain ⟨_, hr, he⟩ := map_eq_ok h
    cases he
    exact Nat.lt_succ_of_le (readLetters_length_le hr)
  · obtain ⟨_, hr, he⟩ := map_eq_ok h
    cases he
    exact Nat.lt_succ_of_le (readLetters_length_le hr)
  · obtain ⟨⟨_, _⟩, hr, he⟩ := map_eq_ok h
    cases he
    exact Nat.lt_succ_of_lt (readString_length_lt hr)
  · split at h
    · obtain ⟨⟨_, _⟩, hr, he⟩ := map_eq_ok h
      cases he
      exact readNumber_length_lt hr
    · cases h

end DotQuery.Json
