import DotQuery.Proofs.Path.CursorReading

/-! A whole reading with the cursor.

Every step of a reading keeps its result, and the steps come to an end; so the cursor gives
what the reader of lists of characters gives, and no slice fails on the way. The bytes at
which segments begin are counted against the pieces of the text. -/
namespace DotQuery.Path.Cursor
open Text

variable {s : List Char} {r : Cursor} {result : Except SyntaxError Path}

/-! ### All steps -/

/-- What holds before the last step and is brought back by each step before holds from the
first step on. -/
theorem Stands.run {motive : Cursor → Prop} {r : Cursor} (h : Stands s r result)
    (last : ∀ q, Stands s q result → step s q = some (.inr result) → motive q)
    (next : ∀ q q', Stands s q result → step s q = some (.inl q') → motive q' → motive q) :
    motive r := by
  rcases h.continues with hdone | ⟨r', hgo, h'⟩
  · exact last r h hdone
  · exact next r r' h hgo (h'.run last next)
termination_by r.ahead s
decreasing_by exact (step_moves hgo).ahead_lt

theorem Stands.of_mem_visited (h : Stands s r result) : ∀ q ∈ visited s r, Stands s q result := by
  refine h.run (motive := fun r => ∀ q ∈ visited s r, Stands s q result)
    (fun q hq hdone => ?_) (fun q q' hq hgo ih => ?_)
  · rw [visited_of_inr hdone, List.forall_mem_singleton]
    exact hq
  · rw [visited_of_inl hgo, List.forall_mem_cons]
    exact ⟨hq, ih⟩

theorem Stands.getLast_visited (h : Stands s r result) :
    ∃ last ∈ (visited s r).getLast?, step s last = some (.inr result) := by
  refine h.run
    (motive := fun r => ∃ last ∈ (visited s r).getLast?, step s last = some (.inr result))
    (fun q _ hdone => ?_) (fun q q' _ hgo ih => ?_)
  · rw [visited_of_inr hdone]
    exact ⟨q, rfl, hdone⟩
  · obtain ⟨last, hlast, hdone⟩ := ih
    rw [visited_of_inl hgo]
    refine ⟨last, ?_, hdone⟩
    rw [Option.mem_def, List.getLast?_cons, Option.mem_def.1 hlast]
    rfl

/-! ### Where segments begin -/

/-- The bytes at which pieces start, the first at `offset` and each behind the point that ends
the one before. -/
def startsOf (offset : Nat) : List (List Char) → List Nat
  | [] => []
  | piece :: others => offset :: startsOf (offset + byteLength piece + 1) others

theorem length_startsOf (offset : Nat) (ps : List (List Char)) :
    (startsOf offset ps).length = ps.length := by
  induction ps generalizing offset with
  | nil => rfl
  | cons piece ps ih => simp [startsOf, ih]

/-- The bytes at which the pieces of a text start if the text itself does at `offset`. -/
def starts (offset : Nat) (s : List Char) : List Nat :=
  startsOf offset (s.splitOn '.')

theorem starts_eq_cons (offset : Nat) (s : List Char) :
    starts offset s = offset :: (starts offset s).tail := by
  obtain ⟨piece, others, hsplit⟩ := List.exists_cons_of_ne_nil (List.splitOn_ne_nil '.' s)
  rw [starts, hsplit]
  rfl

theorem tail_starts_point (offset : Nat) (s : List Char) :
    (starts offset ('.' :: s)).tail = starts (offset + 1) s := by
  simp [starts, startsOf, List.splitOn_cons_eq_if_modifyHead]

theorem tail_starts_cons {c : Char} (h : c ≠ '.') (offset : Nat) (s : List Char) :
    (starts offset (c :: s)).tail = (starts (offset + c.utf8Size) s).tail := by
  obtain ⟨piece, others, hsplit⟩ := List.exists_cons_of_ne_nil (List.splitOn_ne_nil '.' s)
  simp [starts, startsOf, List.splitOn_cons_eq_if_modifyHead, h, hsplit, Nat.add_assoc]

/-- The bytes at which segments are begun, in the order of the steps. -/
def calls (s : List Char) (r : Cursor) : List Nat :=
  ((visited s r).filter (·.point = .segment)).map Cursor.position

/-- The bytes at which segments may yet be begun, `unread` being what is left. Where the cursor
stands, one may be begun only if that is what is to be done next. -/
def pending (r : Cursor) (unread : List Char) : List Nat :=
  if 3 ≤ r.point.rank then starts r.position unread else (starts r.position unread).tail

theorem pending_eq_starts {r : Cursor} (h : 3 ≤ r.point.rank) (unread : List Char) :
    pending r unread = starts r.position unread :=
  if_pos h

theorem pending_eq_tail {r : Cursor} (h : ¬ 3 ≤ r.point.rank) (unread : List Char) :
    pending r unread = (starts r.position unread).tail :=
  if_neg h

theorem pending_sublist_starts (r : Cursor) (unread : List Char) :
    (pending r unread).Sublist (starts r.position unread) := by
  by_cases h : 3 ≤ r.point.rank
  · exact pending_eq_starts h unread ▸ .refl _
  · exact pending_eq_tail h unread ▸ List.tail_sublist _

theorem tail_starts_sublist_pending (r : Cursor) (unread : List Char) :
    (starts r.position unread).tail.Sublist (pending r unread) := by
  by_cases h : 3 ≤ r.point.rank
  · exact pending_eq_starts h unread ▸ List.tail_sublist _
  · exact pending_eq_tail h unread ▸ .refl _

/-- A step opens no place for a segment, and one that begins a segment uses its place up. -/
theorem Moves.exists_pending {r' : Cursor} (h : Moves s r r') {unread : List Char}
    (hr : dropBytes? r.position s = some unread) :
    ∃ unread', dropBytes? r'.position s = some unread' ∧
      (pending r' unread').Sublist
        (if r.point = .segment then (starts r.position unread).tail else pending r unread) := by
  cases h with
  | stays same nearer =>
    refine ⟨unread, same ▸ hr, ?_⟩
    split
    · rename_i hsegment
      have hrank : ¬ 3 ≤ r'.point.rank := by
        rw [hsegment] at nearer
        exact Nat.not_le_of_lt nearer
      have heq : pending r' unread = (starts r.position unread).tail := by
        rw [pending_eq_tail hrank, same]
      exact heq ▸ .refl _
    · by_cases hrank : 3 ≤ r'.point.rank
      · have heq : pending r' unread = pending r unread := by
          rw [pending_eq_starts hrank, pending_eq_starts (Nat.le_trans hrank nearer.le), same]
        exact heq ▸ .refl _
      · have heq : pending r' unread = (starts r.position unread).tail := by
          rw [pending_eq_tail hrank, same]
        exact heq ▸ tail_starts_sublist_pending r unread
  | @takes c rest hnext behind segment =>
    obtain rfl : unread = c :: rest := Option.some.inj (hr.symm.trans hnext)
    have htail : (pending r' rest).Sublist (starts r.position (c :: rest)).tail := by
      by_cases hc : c = '.'
      · subst hc
        rw [tail_starts_point]
        exact behind ▸ pending_sublist_starts r' rest
      · have heq : pending r' rest = (starts r.position (c :: rest)).tail := by
          rw [tail_starts_cons hc, ← behind, pending_eq_tail fun hrank => hc (segment hrank)]
        exact heq ▸ .refl _
    refine ⟨rest, behind ▸ dropBytes?_behind hnext, ?_⟩
    split
    · exact htail
    · exact htail.trans (tail_starts_sublist_pending r _)

theorem calls_cons {r r' : Cursor} (h : step s r = some (.inl r')) :
    calls s r = (if r.point = .segment then [r.position] else []) ++ calls s r' := by
  rw [calls, visited_of_inl h]
  split <;> simp_all [calls]

theorem Stands.calls_sublist (h : Stands s r result) {unread : List Char}
    (hr : dropBytes? r.position s = some unread) : (calls s r).Sublist (pending r unread) := by
  refine h.run (motive := fun r => ∀ unread, dropBytes? r.position s = some unread →
    (calls s r).Sublist (pending r unread)) (fun q _ hdone unread hq => ?_)
    (fun q q' _ hgo ih unread hq => ?_) unread hr
  · have hpoint : q.point ≠ .segment := by
      intro hpoint
      rw [step, hpoint] at hdone
      cases hdone
    simp [calls, visited_of_inr hdone, hpoint]
  · obtain ⟨unread', hq', hsub⟩ := (step_moves hgo).exists_pending hq
    have hrest := (ih unread' hq').trans hsub
    rw [calls_cons hgo]
    by_cases hpoint : q.point = .segment
    · rw [if_pos hpoint] at hrest ⊢
      have hpending : pending q unread = q.position :: (starts q.position unread).tail := by
        have hrank : 3 ≤ q.point.rank := by simp [hpoint, Point.rank]
        exact (pending_eq_starts hrank unread).trans (starts_eq_cons q.position unread)
      rw [hpending]
      exact hrest.cons_cons q.position
    · rw [if_neg hpoint] at hrest ⊢
      exact hrest

/-! ### Texts -/

/-- The bytes at which the pieces of a text start. -/
def pieceStarts (text : String) : List Nat :=
  startsOf 0 (pieces text)

/-- What holds wherever the cursor stands: it is not behind the text and not inside a
character, every slice that the step needs exists, a turn that comes back to the same point
of a loop has moved the cursor forward, and behind a segment the text ends or has a point. -/
structure SafeAt (text : String) (r : Cursor) : Prop where
  within : r.position ≤ text.utf8ByteSize
  boundary : (⟨r.position⟩ : String.Pos.Raw).IsValid text
  slices : step text.toList r ≠ none
  forward : ∀ r', step text.toList r = some (.inl r') → r'.point = r.point →
    r.position < r'.position
  behind_segment : r.point = .segmentRead →
    (r.position = text.utf8ByteSize ∧ step text.toList r = some (.inr (.ok ⟨r.segments⟩))) ∨
      (peek? text.toList r.position = some (some '.') ∧
        step text.toList r = some (.inl ((r.pass '.').proceed .segment)))

theorem Moves.forward {r r' : Cursor} (h : Moves s r r') (same : r'.point = r.point) :
    r.position < r'.position := by
  cases h with
  | stays _ nearer =>
    rw [same] at nearer
    exact absurd nearer (Nat.lt_irrefl _)
  | @takes c _ _ behind _ =>
    have := c.utf8Size_pos
    omega

theorem Stands.behind_segment (h : Stands s r result) (hpoint : r.point = .segmentRead) :
    (r.position = byteLength s ∧ step s r = some (.inr (.ok ⟨r.segments⟩))) ∨
      (peek? s r.position = some (some '.') ∧
        step s r = some (.inl ((r.pass '.').proceed .segment))) := by
  cases h with
  | atEnd => exact .inl ⟨rfl, if_pos (Nat.le_refl _)⟩
  | @atPoint front rest found whole =>
    have hpeek : peek? s (byteLength front) = some (some '.') :=
      whole ▸ peek?_append front ('.' :: rest)
    refine .inr ⟨hpeek, ?_⟩
    simp only [step, if_neg (not_length_le_of_point whole), hpeek, Option.map_some, if_true]
  | _ => cases hpoint

theorem Stands.safeAt {text : String} (h : Stands text.toList r result) : SafeAt text r where
  within := by
    obtain ⟨front, rest, hsplit, hposition⟩ := h.exists_split
    rw [hposition, ← byteLength_toList, hsplit, byteLength_append]
    exact Nat.le_add_right _ _
  boundary := by
    obtain ⟨front, rest, hsplit, hposition⟩ := h.exists_split
    exact hposition ▸ isValid_of_append hsplit
  slices := by
    rcases h.continues with hdone | ⟨_, hgo, -⟩
    · simp [hdone]
    · simp [hgo]
  forward _ hgo same := (step_moves hgo).forward same
  behind_segment hpoint := by simpa using h.behind_segment hpoint

/-- **Reading with a cursor is safe, ends, and gives the path or the error of the reader.** At
every step the cursor is on a character boundary of the text and all slices exist; a segment
is begun at the start of a piece, and at each piece at most once. -/
theorem visited_safe (text : String) :
    (∀ r ∈ visited text.toList start, SafeAt text r) ∧
      (∃ last ∈ (visited text.toList start).getLast?,
        step text.toList last = some (.inr (parse text))) ∧
      (calls text.toList start).Sublist (pieceStarts text) ∧
      (calls text.toList start).length ≤ (pieces text).length := by
  have hstart : Stands text.toList start (parse text) := .start
  have hcalls : (calls text.toList start).Sublist (pieceStarts text) :=
    hstart.calls_sublist (dropBytes?_zero text.toList)
  refine ⟨fun r hr => (hstart.of_mem_visited r hr).safeAt, hstart.getLast_visited, hcalls, ?_⟩
  have hlength := hcalls.length_le
  rwa [pieceStarts, length_startsOf] at hlength

/-- The third piece is not begun: the point before it is inside the brackets. -/
example : calls "é.x[1.5]".toList start = [0, 3] := by cbv

end DotQuery.Path.Cursor
