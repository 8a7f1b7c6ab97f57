/-! Blank characters and what is left of a text without them at its ends.

Blank is Unicode's property White_Space. Text is handled as a list of characters,
so that a law about a text is an induction over it. -/
namespace DotQuery.Text

/-- The characters with the property White_Space, as first and last code points. -/
def blankRanges : List (Nat × Nat) :=
  [(0x9, 0xd), (0x20, 0x20), (0x85, 0x85), (0xa0, 0xa0), (0x1680, 0x1680), (0x2000, 0x200a),
    (0x2028, 0x2029), (0x202f, 0x202f), (0x205f, 0x205f), (0x3000, 0x3000)]

/-- Whether a code point lies in one of the ranges. -/
def inRanges (ranges : List (Nat × Nat)) (c : Char) : Bool :=
  ranges.any fun r => decide (r.1 ≤ c.toNat) && decide (c.toNat ≤ r.2)

def isBlank (c : Char) : Bool :=
  inRanges blankRanges c

/-- The text without the characters at its end that satisfy `p`. -/
def trimEndWhile (p : Char → Bool) (s : List Char) : List Char :=
  (s.reverse.dropWhile p).reverse

/-- The text without the blanks at both ends. -/
def trim (s : List Char) : List Char :=
  trimEndWhile isBlank (s.dropWhile isBlank)

/-- Whether the text has no character that is not blank. -/
def allBlank (s : String) : Bool :=
  s.toList.all isBlank

@[simp] theorem trimEndWhile_nil (p : Char → Bool) : trimEndWhile p [] = [] := rfl

theorem trimEndWhile_append_of_all {p : Char → Bool} {s t : List Char}
    (h : t.all p = true) : trimEndWhile p (s ++ t) = trimEndWhile p s := by
  have hr : t.reverse.all p = true := by simpa using h
  unfold trimEndWhile
  rw [List.reverse_append, List.dropWhile_append_of_pos (by simpa using hr)]

end DotQuery.Text
