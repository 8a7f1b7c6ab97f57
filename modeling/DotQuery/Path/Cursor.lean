import DotQuery.Path.Reader
import DotQuery.Text.Slice

/-! Reading a path with a cursor.

The cursor is a byte of the text. Each look at the text slices it from the cursor on, and a
key or the text of an index is cut out between two bytes at which the cursor stood. A step is
a turn of a loop or what is done between two loops, and it fails if a slice that it needs
does not exist. -/
namespace DotQuery.Path
open Text

/-- What is to be done next. The byte that is kept with a key or with the text of an index is
the one at which the cursor stood before it. -/
inductive Point where
  | start
  | segment
  | inKey (first : Nat)
  | keyRead (first : Nat) (key : List Char)
  | inIndex (key : List Char) (first : Nat)
  | indexRead (key : List Char) (first : Nat) (text : List Char)
  | closed (key : List Char) (first : Nat) (text : List Char)
  | segmentRead
deriving DecidableEq, Repr

/-- The segments are those read so far. -/
structure Cursor where
  position : Nat
  point : Point
  segments : List Segment
deriving DecidableEq, Repr

namespace Cursor

def start : Cursor := ⟨0, .start, []⟩

def proceed (r : Cursor) (point : Point) : Cursor :=
  { r with point }

/-- Moves behind a character. -/
def pass (r : Cursor) (c : Char) : Cursor :=
  { r with position := r.position + c.utf8Size }

def push (r : Cursor) (segment : Segment) : Cursor :=
  { r with point := .segmentRead, segments := r.segments ++ [segment] }

@[simp] theorem proceed_position (r : Cursor) (point : Point) :
    (r.proceed point).position = r.position := rfl

@[simp] theorem proceed_point (r : Cursor) (point : Point) : (r.proceed point).point = point := rfl

@[simp] theorem pass_position (r : Cursor) (c : Char) :
    (r.pass c).position = r.position + c.utf8Size := rfl

@[simp] theorem pass_point (r : Cursor) (c : Char) : (r.pass c).point = r.point := rfl

@[simp] theorem push_position (r : Cursor) (segment : Segment) :
    (r.push segment).position = r.position := rfl

@[simp] theorem push_point (r : Cursor) (segment : Segment) :
    (r.push segment).point = .segmentRead := rfl

def fail (position : Nat) (cause : SyntaxCause) : Cursor ⊕ Except SyntaxError Path :=
  .inr (.error ⟨position, cause⟩)

/-- One step, or the result. There is neither if a slice of the text does not exist. -/
def step (s : List Char) (r : Cursor) : Option (Cursor ⊕ Except SyntaxError Path) :=
  match r.point with
  | .start =>
    if byteLength s ≤ r.position then some (.inr (.ok ⟨r.segments⟩))
    else some (.inl (r.proceed .segment))
  | .segment => some (.inl (r.proceed (.inKey r.position)))
  | .inKey first =>
    (peek? s r.position).bind fun next =>
      match next.filter isKeyChar with
      | some c => some (.inl (r.pass c))
      | none => (slice? s first r.position).map fun key => .inl (r.proceed (.keyRead first key))
  | .keyRead first key =>
    (peek? s r.position).map fun next =>
      if next = some '[' then .inl ((r.pass '[').proceed (.inIndex key (r.pass '[').position))
      else
        match plainSegment? key with
        | none => fail first .emptySegment
        | some segment => .inl (r.push segment)
  | .inIndex key first =>
    (peek? s r.position).bind fun next =>
      match next with
      | none => some (fail r.position (.expected ']'))
      | some c =>
        if c = ']' then
          (slice? s first r.position).map fun text => .inl (r.proceed (.indexRead key first text))
        else some (.inl (r.pass c))
  | .indexRead key first text =>
    (peek? s r.position).map fun next =>
      if next = some ']' then .inl ((r.pass ']').proceed (.closed key first text))
      else fail r.position (.expected ']')
  | .closed key first text =>
    match indexOfText? text with
    | none => some (fail first (.invalidIndex (String.ofList text)))
    | some index =>
      (peek? s r.position).map fun next =>
        match next.filter (· != '.') with
        | none => .inl (r.push (indexedSegment key index))
        | some c => fail r.position (.unexpectedAfterIndex c)
  | .segmentRead =>
    if byteLength s ≤ r.position then some (.inr (.ok ⟨r.segments⟩))
    else
      (peek? s r.position).map fun next =>
        if next = some '.' then .inl ((r.pass '.').proceed .segment)
        else fail r.position (.expected '.')

end Cursor

/-! ### What a step can do -/

/-- The most steps that are taken before the cursor moves. -/
def Point.rank : Point → Nat
  | .start => 4
  | .segment => 3
  | .inKey _ => 2
  | .keyRead .. | .inIndex .. | .closed .. => 1
  | .indexRead .. | .segmentRead => 0

theorem Point.rank_le (point : Point) : point.rank ≤ 4 := by
  cases point <;> simp [rank]

namespace Cursor

/-- A step leaves the cursor where it is and brings its next move nearer, or passes one
character. The only character behind which a segment begins is a point. -/
inductive Moves (s : List Char) (r r' : Cursor) : Prop
  | stays (same : r'.position = r.position) (nearer : r'.point.rank < r.point.rank)
  | takes {c : Char} {rest : List Char} (unread : dropBytes? r.position s = some (c :: rest))
      (behind : r'.position = r.position + c.utf8Size) (segment : 3 ≤ r'.point.rank → c = '.')

theorem Moves.pass {s : List Char} {r r' : Cursor} {c : Char}
    (h : peek? s r.position = some (some c)) (behind : r'.position = r.position + c.utf8Size)
    (segment : 3 ≤ r'.point.rank → c = '.') : Moves s r r' := by
  obtain ⟨rest, hrest⟩ := peek?_eq_some_some h
  exact .takes hrest behind segment

theorem step_moves {s : List Char} {r r' : Cursor} (h : step s r = some (.inl r')) :
    Moves s r r' := by
  obtain ⟨position, point, segments⟩ := r
  cases point with
  | start =>
    simp only [step] at h
    split at h
    · cases h
    · cases h
      exact .stays rfl (by simp [Point.rank])
  | segment =>
    cases h
    exact .stays rfl (by simp [Point.rank])
  | inKey first =>
    obtain ⟨next, hnext, h⟩ := Option.bind_eq_some_iff.1 h
    split at h
    · rename_i c hc
      cases h
      obtain ⟨rfl, -⟩ := Option.filter_eq_some_iff.1 hc
      exact .pass hnext rfl (by simp [Point.rank])
    · obtain ⟨key, -, h⟩ := Option.map_eq_some_iff.1 h
      cases h
      exact .stays rfl (by simp [Point.rank])
  | keyRead first key =>
    obtain ⟨next, hnext, h⟩ := Option.map_eq_some_iff.1 h
    split at h
    · rename_i hc
      cases h
      exact .pass (hnext.trans (congrArg some hc)) rfl (by simp [Point.rank])
    · split at h
      · cases h
      · cases h
        exact .stays rfl (by simp [Point.rank])
  | inIndex key first =>
    obtain ⟨next, hnext, h⟩ := Option.bind_eq_some_iff.1 h
    split at h
    · cases h
    · split at h
      · obtain ⟨text, -, h⟩ := Option.map_eq_some_iff.1 h
        cases h
        exact .stays rfl (by simp [Point.rank])
      · cases h
        exact .pass hnext rfl (by simp [Point.rank])
  | indexRead key first text =>
    obtain ⟨next, hnext, h⟩ := Option.map_eq_some_iff.1 h
    split at h
    · rename_i hc
      cases h
      exact .pass (hnext.trans (congrArg some hc)) rfl (by simp [Point.rank])
    · cases h
  | closed key first text =>
    simp only [step] at h
    split at h
    · cases h
    · obtain ⟨next, -, h⟩ := Option.map_eq_some_iff.1 h
      split at h
      · cases h
        exact .stays rfl (by simp [Point.rank])
      · cases h
  | segmentRead =>
    simp only [step] at h
    split at h
    · cases h
    · obtain ⟨next, hnext, h⟩ := Option.map_eq_some_iff.1 h
      split at h
      · rename_i hc
        cases h
        exact .pass (hnext.trans (congrArg some hc)) rfl (fun _ => rfl)
      · cases h

/-! ### The steps of a reading -/

/-- The bytes ahead and the steps before the next move, as one number. -/
def ahead (s : List Char) (r : Cursor) : Nat :=
  5 * (byteLength s - r.position) + r.point.rank

theorem Moves.ahead_lt {s : List Char} {r r' : Cursor} (h : Moves s r r') :
    r'.ahead s < r.ahead s := by
  unfold ahead
  cases h with
  | stays same nearer =>
    rw [same]
    omega
  | @takes c rest unread behind =>
    obtain ⟨read, rfl, hread⟩ := dropBytes?_eq_some_iff.1 unread
    have hlength : byteLength (read ++ c :: rest) = r.position + (c.utf8Size + byteLength rest) := by
      rw [byteLength_append, hread, byteLength_cons]
    have hrank := r'.point.rank_le
    have hsize := c.utf8Size_pos
    omega

/-- Where the cursor stands one step after the other, from `r` to the step that does not go
on. -/
def visited (s : List Char) (r : Cursor) : List Cursor :=
  match _step : step s r with
  | some (.inl r') => r :: visited s r'
  | _ => [r]
termination_by r.ahead s
decreasing_by exact (step_moves _step).ahead_lt

theorem visited_of_inl {s : List Char} {r r' : Cursor} (h : step s r = some (.inl r')) :
    visited s r = r :: visited s r' := by
  rw [visited]
  split <;> simp_all

theorem visited_of_inr {s : List Char} {r : Cursor} {result : Except SyntaxError Path}
    (h : step s r = some (.inr result)) : visited s r = [r] := by
  rw [visited]
  split <;> simp_all

end Cursor
end DotQuery.Path
