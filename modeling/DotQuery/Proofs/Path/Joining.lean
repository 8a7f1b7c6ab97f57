import DotQuery.Path.Evaluation
import DotQuery.Proofs.Path.Pieces

/-! Paths joined by a point.

A text that is a path stays one before a point, and is read there as it is read alone
(`readSegments_join`): what comes behind the point can neither change its segments nor
be changed by them. So the two parts of a joined text are read one after the other, a
fault of the second stands as far behind as the first part is long, and to follow the
joined path is to follow one part from where the other leads. -/
namespace DotQuery
open Text Json

namespace Path

/-! ### Reading -/

theorem EndsPiece.append_point {s : List Char} (h : EndsPiece s) (t : List Char) :
    EndsPiece (s ++ '.' :: t) := by
  rcases h.eq_nil_or with rfl | ⟨u, rfl⟩
  · exact endsPiece_point t
  · exact endsPiece_point (u ++ '.' :: t)

theorem readSegment_join {s unread : List Char} {segment : Segment}
    (h : readSegment s = .ok (segment, unread)) (t : List Char) :
    readSegment (s ++ '.' :: t) = .ok (segment, unread ++ '.' :: t) := by
  obtain ⟨piece, rfl, hp, hs, hu⟩ := readSegment_eq_ok_iff.1 h
  exact readSegment_eq_ok_iff.2 ⟨piece, List.append_assoc .., hp, hs, hu.append_point t⟩

/-- Behind segments and a point, the rest of the text is read as if it stood alone. -/
theorem readSegments_join {s : List Char} {segments : List Segment}
    (h : readSegments s = .ok segments) (t : List Char) :
    readSegments (s ++ '.' :: t) = (readSegments t).map (segments ++ ·) := by
  induction segments generalizing s with
  | nil =>
    -- no text is read as no segments
    obtain ⟨_, _, _, ⟨_, hs⟩ | ⟨_, _, _, _, hs⟩⟩ := readSegments_step.1 h <;> cases hs
  | cons segment segments ih =>
    obtain ⟨_, unread, hread, ⟨rfl, hs⟩ | ⟨rest, others, rfl, ho, hs⟩⟩ := readSegments_step.1 h
    · cases hs
      exact readSegments_point (readSegment_join hread t)
    · cases hs
      have hjoin := readSegment_join hread t
      rw [List.cons_append] at hjoin
      rw [readSegments_point hjoin, ih ho]
      cases readSegments t <;> rfl

/-! ### Where a fault stands -/

/-- A fault at an index stands behind the opening bracket, behind the closing one, or at
the end of the text. -/
theorem readIndex_unread {key s : List Char} {f : Fault} (h : readIndex key s = .error f) :
    f.unread <:+ s := by
  unfold readIndex at h
  dsimp only at h
  split at h
  · cases h
    exact List.nil_suffix
  · rename_i hs
    have hsuffix := List.dropWhile_suffix (l := s) (· != ']')
    rw [hs] at hsuffix
    split at h
    · cases h
      exact List.suffix_refl s
    · split at h
      · cases h
      · cases h
      · cases h
        exact (List.suffix_cons _ _).trans hsuffix

theorem readSegment_unread {s : List Char} {f : Fault} (h : readSegment s = .error f) :
    f.unread <:+ s := by
  unfold readSegment at h
  dsimp only at h
  split at h
  · rename_i hs
    have hsuffix := List.dropWhile_suffix (l := s) isKeyChar
    rw [hs] at hsuffix
    exact (readIndex_unread h).trans ((List.suffix_cons _ _).trans hsuffix)
  · split at h
    · cases h
      exact List.suffix_refl s
    · cases h

theorem readSegment_rest {s rest : List Char} {segment : Segment}
    (h : readSegment s = .ok (segment, rest)) : rest <:+ s := by
  obtain ⟨piece, rfl, _⟩ := readSegment_eq_ok_iff.1 h
  exact List.suffix_append piece rest

/-- A fault leaves an end of the text unread. -/
theorem readSegments_unread {s : List Char} {f : Fault} (h : readSegments s = .error f) :
    f.unread <:+ s := by
  fun_induction readSegments s with
  | case1 s g hread =>
    cases h
    exact readSegment_unread hread
  | case2 => cases h
  | case3 s segment rest hread g hrest ih =>
    exact (ih (hrest.trans h)).trans ((List.suffix_cons _ _).trans (readSegment_rest hread))
  | case4 => cases h
  | case5 s segment rest _ _ hread =>
    cases h
    exact readSegment_rest hread

theorem Fault.error_append {s : List Char} {f : Fault} (h : f.unread <:+ s) (front : List Char) :
    f.error (front ++ s) = ⟨(f.error s).position + byteLength front, f.cause⟩ := by
  obtain ⟨read, rfl⟩ := h
  simp only [error, byteLength_append, SyntaxError.mk.injEq, and_true]
  omega

/-! ### Texts -/

theorem toList_join (s t : String) : (s ++ "." ++ t).toList = (s.toList ++ ['.']) ++ t.toList := by
  simp

theorem byteLength_point (s : String) : byteLength (s.toList ++ ['.']) = s.utf8ByteSize + 1 := by
  rw [byteLength_append, byteLength_toList]
  rfl

theorem join_ne_empty (s t : String) : s ++ "." ++ t ≠ "" := by
  simp

theorem parse_eq_ok_iff_readSegments {text : String} (h : text ≠ "") {p : Path} :
    parse text = .ok p ↔ readSegments text.toList = .ok p.segments := by
  obtain ⟨segments⟩ := p
  rw [parse_of_ne_empty h]
  cases readSegments text.toList <;> simp [Except.map, Except.mapError]

theorem parse_eq_error_iff {text : String} (h : text ≠ "") {e : SyntaxError} :
    parse text = .error e ↔
      ∃ f, readSegments text.toList = .error f ∧ f.error text.toList = e := by
  rw [parse_of_ne_empty h]
  cases readSegments text.toList <;> simp [Except.map, Except.mapError]

section
variable {s t : String} {p : Path} (hs : s ≠ "") (hp : parse s = .ok p)
include hs hp

theorem readSegments_text_join :
    readSegments (s ++ "." ++ t).toList = (readSegments t.toList).map (p.segments ++ ·) := by
  rw [toList_join, List.append_assoc]
  exact readSegments_join ((parse_eq_ok_iff_readSegments hs).1 hp) t.toList

/-- Both parts give their segments. -/
theorem parse_join_ok (ht : t ≠ "") {q : Path} (hq : parse t = .ok q) :
    parse (s ++ "." ++ t) = .ok ⟨p.segments ++ q.segments⟩ := by
  rw [parse_eq_ok_iff_readSegments (join_ne_empty s t), readSegments_text_join hs hp,
    (parse_eq_ok_iff_readSegments ht).1 hq]
  rfl

/-- A fault of the second part stands behind the first part and the point. -/
theorem parse_join_fault {f : Fault} (hf : readSegments t.toList = .error f) :
    parse (s ++ "." ++ t) =
      .error ⟨(f.error t.toList).position + s.utf8ByteSize + 1, f.cause⟩ := by
  refine (parse_eq_error_iff (join_ne_empty s t)).2 ⟨f, ?_, ?_⟩
  · rw [readSegments_text_join hs hp, hf]
    rfl
  · rw [toList_join, Fault.error_append (readSegments_unread hf), byteLength_point, Nat.add_assoc]

theorem parse_join_error (ht : t ≠ "") {e : SyntaxError} (he : parse t = .error e) :
    parse (s ++ "." ++ t) = .error ⟨e.position + s.utf8ByteSize + 1, e.cause⟩ := by
  obtain ⟨f, hf, rfl⟩ := (parse_eq_error_iff ht).1 he
  exact parse_join_fault hs hp hf

/-- Nothing may be missing behind a point. -/
theorem parse_join_empty : parse (s ++ "." ++ "") = .error ⟨s.utf8ByteSize + 1, .emptySegment⟩ := by
  have hempty : readSegments "".toList = .error ⟨.emptySegment, []⟩ := readSegments_error rfl
  have h := parse_join_fault hs hp hempty
  rwa [show (Fault.error "".toList ⟨.emptySegment, []⟩).position = 0 from rfl, Nat.zero_add] at h

end

/-! ### Following -/

theorem follow_append (v : Value) (a b : List Segment) :
    follow v (a ++ b) =
      match follow v a with
      | .error e => .error e
      | .ok none => .ok none
      | .ok (some u) => follow u b := by
  induction a generalizing v with
  | nil => rfl
  | cons segment a ih =>
    rw [List.cons_append, follow, follow]
    cases segment.step v with
    | error e => rfl
    | ok u? =>
      cases u? with
      | none => rfl
      | some u => exact ih u

end Path

theorem evaluate_eq_resolve {text : String} {p : Path} (h : Path.parse text = .ok p)
    (root : Option Value) : evaluate root text = p.resolve root := by
  rw [evaluate, h]

section
variable {s t : String} {p q : Path} (hs : s ≠ "") (hp : Path.parse s = .ok p) (ht : t ≠ "")
  (hq : Path.parse t = .ok q)
include hs hp ht hq

theorem evaluate_join_some (v : Value) :
    evaluate (some v) (s ++ "." ++ t) =
      match evaluate (some v) s with
      | .error e => .error e
      | .ok none => .ok none
      | .ok (some u) => evaluate (some u) t := by
  simp only [evaluate_eq_resolve (Path.parse_join_ok hs hp ht hq), evaluate_eq_resolve hp,
    evaluate_eq_resolve hq]
  exact Path.follow_append v p.segments q.segments

theorem evaluate_join_found {v u : Value} (hu : evaluate (some v) s = .ok (some u)) :
    evaluate (some v) (s ++ "." ++ t) = evaluate (some u) t := by
  rw [evaluate_join_some hs hp ht hq, hu]

theorem evaluate_join_not_found {v : Value} (h : ∀ u, evaluate (some v) s ≠ .ok (some u)) :
    evaluate (some v) (s ++ "." ++ t) = evaluate (some v) s := by
  rw [evaluate_join_some hs hp ht hq]
  split
  · rename_i he
    exact he.symm
  · rename_i hn
    exact hn.symm
  · rename_i u hu
    exact absurd hu (h u)

/-- Without a document both parts may only ask for the root. -/
theorem evaluate_join_none :
    (evaluate none s = .ok none ∧ evaluate none t = .ok none →
      evaluate none (s ++ "." ++ t) = .ok none) ∧
    (¬ (evaluate none s = .ok none ∧ evaluate none t = .ok none) →
      evaluate none (s ++ "." ++ t) = .error .noDocument) := by
  simp only [evaluate_eq_resolve (Path.parse_join_ok hs hp ht hq), evaluate_eq_resolve hp,
    evaluate_eq_resolve hq, Path.resolve, List.all_append]
  cases p.segments.all (· == .root) <;> cases q.segments.all (· == .root) <;> simp

end

/-- **A joined path is its two parts, one after the other.** Behind a path and a point, a
path adds its segments, a text that is none leaves its own fault as far behind as the
first part and the point are long, and nothing at all is an empty segment. To evaluate
the joined path is to evaluate the second part where the first one leads; where that
leads nowhere, the second part changes nothing. Without a document the path names
nothing if that is so of both parts. -/
theorem evaluate_join {s : String} (hs : s ≠ "") {p : Path} (hp : Path.parse s = .ok p)
    (t : String) :
    (t = "" →
      Path.parse (s ++ "." ++ t) = .error ⟨s.utf8ByteSize + 1, .emptySegment⟩) ∧
    (t ≠ "" → ∀ e, Path.parse t = .error e →
      Path.parse (s ++ "." ++ t) = .error ⟨e.position + s.utf8ByteSize + 1, e.cause⟩) ∧
    (t ≠ "" → ∀ q, Path.parse t = .ok q →
      Path.parse (s ++ "." ++ t) = .ok ⟨p.segments ++ q.segments⟩ ∧
      (∀ v u, evaluate (some v) s = .ok (some u) →
        evaluate (some v) (s ++ "." ++ t) = evaluate (some u) t) ∧
      (∀ v, (∀ u, evaluate (some v) s ≠ .ok (some u)) →
        evaluate (some v) (s ++ "." ++ t) = evaluate (some v) s) ∧
      (evaluate none s = .ok none ∧ evaluate none t = .ok none →
        evaluate none (s ++ "." ++ t) = .ok none) ∧
      (¬ (evaluate none s = .ok none ∧ evaluate none t = .ok none) →
        evaluate none (s ++ "." ++ t) = .error .noDocument)) := by
  refine ⟨?_, ?_, ?_⟩
  · rintro rfl
    exact Path.parse_join_empty hs hp
  · intro ht e he
    exact Path.parse_join_error hs hp ht he
  · intro ht q hq
    exact ⟨Path.parse_join_ok hs hp ht hq,
      fun _ _ hu => evaluate_join_found hs hp ht hq hu,
      fun _ h => evaluate_join_not_found hs hp ht hq h,
      evaluate_join_none hs hp ht hq⟩

/-- Behind a key of two bytes and its index, a fault that quotes text beyond a point is
shifted, and a path is followed from the item; from what is no mapping it is not
followed at all. -/
theorem evaluate_join_item :
    let v := Value.mapping [("é", .list [.mapping [("a", .null)]])]
    Path.parse "é[0]" = .ok ⟨[.keyIndex "é" 0]⟩ ∧
      Path.parse ("é[0]" ++ "." ++ "") = .error ⟨6, .emptySegment⟩ ∧
      Path.parse ("é[0]" ++ "." ++ "a[1.x]") = .error ⟨8, .invalidIndex "1.x"⟩ ∧
      Path.parse ("é[0]" ++ "." ++ "$.a") = .ok ⟨[.keyIndex "é" 0, .root, .key "a"]⟩ ∧
      evaluate (some v) ("é[0]" ++ "." ++ "$.a") = .ok (some .null) ∧
      evaluate (some .null) ("é[0]" ++ "." ++ "$.a") = .error (.notMapping "é" .null) ∧
      evaluate none ("é[0]" ++ "." ++ "$.a") = .error .noDocument ∧
      evaluate none ("$" ++ "." ++ "$") = .ok none := by
  intro v
  have hs : Path.parse "é[0]" = .ok ⟨[.keyIndex "é" 0]⟩ :=
    (Path.parse_eq_ok_iff_readSegments (by decide)).2 (Path.readSegments_last rfl)
  have hr : Path.parse "$" = .ok ⟨[.root]⟩ :=
    (Path.parse_eq_ok_iff_readSegments (by decide)).2 (Path.readSegments_last rfl)
  have ht : Path.parse "$.a" = .ok ⟨[.root, .key "a"]⟩ := by
    refine (Path.parse_eq_ok_iff_readSegments (by decide)).2 ?_
    rw [Path.readSegments_point rfl, Path.readSegments_last rfl]
    rfl
  have he : Path.parse "a[1.x]" = .error ⟨2, .invalidIndex "1.x"⟩ :=
    (Path.parse_eq_error_iff (by decide)).2 ⟨_, Path.readSegments_error rfl, rfl⟩
  have found : evaluate (some v) "é[0]" = .ok (some (.mapping [("a", .null)])) := by
    rw [evaluate_eq_resolve hs]
    rfl
  have mismatch : evaluate (some .null) "é[0]" = .error (.notMapping "é" .null) := by
    rw [evaluate_eq_resolve hs]
    rfl
  have absent : evaluate none "é[0]" = .error .noDocument := by
    rw [evaluate_eq_resolve hs]
    rfl
  have root : evaluate none "$" = .ok none := by
    rw [evaluate_eq_resolve hr]
    rfl
  obtain ⟨hparse, hfound, hnot, -, hnone⟩ :=
    (evaluate_join (by decide) hs "$.a").2.2 (by decide) _ ht
  refine ⟨hs, (evaluate_join (by decide) hs "").1 rfl,
    (evaluate_join (by decide) hs "a[1.x]").2.1 (by decide) _ he, hparse, ?_, ?_, ?_, ?_⟩
  · rw [hfound _ _ found, evaluate_eq_resolve ht]
    rfl
  · rw [hnot _ (by rw [mismatch]; exact nofun), mismatch]
  · exact hnone (by rw [absent]; exact nofun)
  · exact ((evaluate_join (by decide) hr "$").2.2 (by decide) _ hr).2.2.2.1 ⟨root, root⟩

end DotQuery
