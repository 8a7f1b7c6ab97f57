import DotQuery.Proofs.Json.Layout
import DotQuery.Proofs.Json.NumberLayout
import DotQuery.Proofs.Json.Steps
import DotQuery.Proofs.Json.StringText

/-! A printed value is read back as it.

The reader holds what it has read in frames, so the statement about one value is that
reading its text leads from the state that awaits a value to the state behind that
value, in any frames (`ReadsBack`). The lists and mappings around it are then read item
by item and member by member. -/
namespace DotQuery.Json
open Text

/-- A value without parts is read in one step. -/
theorem run_scalar {frames : List Frame} {s rest : List Char} {v : Value} (hs : Opens s)
    (h : readScalar s = .ok (v, rest)) : run ⟨.value, frames, s⟩ = run ⟨.after v, frames, rest⟩ :=
  run_value (stepValue_scalar hs.stops h)

/-! ### Texts on lines -/

theorem isSpace_newLine (depth : Nat) : ∀ c ∈ newLine depth, isSpace c = true := by
  intro c hc
  rcases List.mem_cons.1 hc with rfl | hc
  · rfl
  · rw [List.eq_of_mem_replicate hc]
    rfl

section
variable (depth : Nat) {frames : List Frame} {s : List Char}

theorem run_open_list (h : Opens s) :
    run ⟨.value, frames, '[' :: (newLine depth ++ s)⟩ = run ⟨.value, .list [] :: frames, s⟩ :=
  run_value (stepValue_openList (isSpace_newLine depth) h)

theorem run_next_item {items : List Value} {v : Value} (h : Opens s) :
    run ⟨.after v, .list items :: frames, ',' :: (newLine depth ++ s)⟩ =
      run ⟨.value, .list (v :: items) :: frames, s⟩ :=
  run_item (stepItem_comma (isSpace_newLine depth) h)

theorem run_close_list {items : List Value} {v : Value} :
    run ⟨.after v, .list items :: frames, newLine depth ++ ']' :: s⟩ =
      run ⟨.after (.list (items.reverse ++ [v])), frames, s⟩ := by
  rw [← List.reverse_cons]
  exact run_item (stepItem_close (isSpace_newLine depth))

/-- A key is read up to the space behind its colon. -/
theorem stepMember_text (members : List (String × Value)) (key : String) :
    stepMember members frames (stringText key ++ ':' :: ' ' :: s) =
      .ok ⟨.value, .mapping members key :: frames, ' ' :: s⟩ := by
  obtain ⟨t, ht, hread⟩ := readString_text key (':' :: ' ' :: s)
  have hcolon : skipSpace (':' :: ' ' :: s) = ':' :: ' ' :: s := rfl
  rw [ht]
  simp only [stepMember, readKey, hread, readColon, hcolon]

theorem exists_stringText (key : String) : ∃ t, stringText key ++ s = '"' :: t := by
  obtain ⟨t, ht, -⟩ := readString_text key s
  exact ⟨t, ht⟩

theorem run_open_mapping (key : String) :
    run ⟨.value, frames, '{' :: (newLine depth ++ (stringText key ++ ':' :: ' ' :: s))⟩ =
      run ⟨.value, .mapping [] key :: frames, s⟩ := by
  obtain ⟨t, ht⟩ := exists_stringText (s := ':' :: ' ' :: s) key
  refine Eq.trans (run_value ?_) (run_value_space (w := [' ']) (List.forall_mem_singleton.2 rfl))
  rw [ht, stepValue_openMapping (isSpace_newLine depth), ← ht]
  exact stepMember_text [] key

theorem run_next_member {members : List (String × Value)} {key : String} {v : Value}
    (next : String) :
    run ⟨.after v, .mapping members key :: frames,
        ',' :: (newLine depth ++ (stringText next ++ ':' :: ' ' :: s))⟩ =
      run ⟨.value, .mapping (insertMember key v members) next :: frames, s⟩ := by
  obtain ⟨t, ht⟩ := exists_stringText (s := ':' :: ' ' :: s) next
  refine Eq.trans (run_memberEnd ?_) (run_value_space (w := [' ']) (List.forall_mem_singleton.2 rfl))
  rw [ht, stepMemberEnd_comma (isSpace_newLine depth), ← ht]
  exact stepMember_text _ next

theorem run_close_mapping {members : List (String × Value)} {key : String} {v : Value} :
    run ⟨.after v, .mapping members key :: frames, newLine depth ++ '}' :: s⟩ =
      run ⟨.after (.mapping (insertMember key v members)), frames, s⟩ :=
  run_memberEnd (stepMemberEnd_close (isSpace_newLine depth))

end

/-! ### Values that are read back -/

/-- The text of the value, on a line of any depth, is read as the value. -/
structure ReadsBack (v : Value) : Prop where
  opens : ∀ depth, Opens (v.layout depth)
  run_layout : ∀ depth frames rest, Stops continuesNumber rest →
    run ⟨.value, frames, v.layout depth ++ rest⟩ = run ⟨.after v, frames, rest⟩

theorem readsBack_scalar {v : Value} (text : List Char) (hlayout : ∀ depth, v.layout depth = text)
    (hopens : Opens text)
    (hread : ∀ rest, Stops continuesNumber rest → readScalar (text ++ rest) = .ok (v, rest)) :
    ReadsBack v := by
  refine ⟨fun depth => ?_, fun depth frames rest hrest => ?_⟩
  · rw [hlayout]
    exact hopens
  · rw [hlayout]
    exact run_scalar (hopens.append rest) (hread rest hrest)

theorem readsBack_number {n : Number} (h : n.IsKept) : ReadsBack (.number n) := by
  refine readsBack_scalar n.text (fun _ => by rw [Value.layout]) ?_
    (fun rest hrest => readScalar_number (readNumber_text h hrest))
  have hread : readNumber (n.text ++ []) = .ok (n, []) := readNumber_text h stops_nil
  rw [List.append_nil] at hread
  obtain ⟨c, t, ht, hc⟩ := exists_of_readNumber hread
  refine ⟨c, t, ht, ?_, ?_⟩
  · by_contra hspace
    simp only [isSpace, Bool.not_eq_false, Bool.or_eq_true, beq_iff_eq] at hspace
    rcases hspace with ((rfl | rfl) | rfl) | rfl <;> exact absurd hc (by decide)
  · intro he
    subst he
    exact absurd hc (by decide)

theorem readsBack_string (s : String) : ReadsBack (.string s) := by
  refine readsBack_scalar (stringText s) (fun _ => by rw [Value.layout])
    ⟨'"', _, rfl, by decide, by decide⟩ (fun rest _ => ?_)
  obtain ⟨t, ht, hread⟩ := readString_text s rest
  rw [ht, readScalar, hread]
  rfl

theorem stops_newLine (depth : Nat) (s : List Char) : Stops continuesNumber (newLine depth ++ s) :=
  stops_cons (by decide)

theorem stops_itemsLayout (depth : Nat) (items : List Value) {s : List Char}
    (h : Stops continuesNumber s) : Stops continuesNumber (itemsLayout depth items ++ s) := by
  cases items with
  | nil => exact h
  | cons v items => exact stops_cons (by decide)

theorem stops_membersLayout (depth : Nat) (members : List (String × Value)) {s : List Char}
    (h : Stops continuesNumber s) : Stops continuesNumber (membersLayout depth members ++ s) := by
  cases members with
  | nil => exact h
  | cons m members => exact stops_cons (by decide)

/-- The items behind the first one are read one by one. -/
theorem run_items {items : List Value} (h : ∀ u ∈ items, ReadsBack u) (depth outer : Nat)
    (frames : List Frame) (rest : List Char) (done : List Value) (v : Value) :
    run ⟨.after v, .list done :: frames,
        itemsLayout depth items ++ (newLine outer ++ ']' :: rest)⟩ =
      run ⟨.after (.list (done.reverse ++ v :: items)), frames, rest⟩ := by
  induction items generalizing done v with
  | nil => exact run_close_list outer
  | cons u items ih =>
    have hu := h u List.mem_cons_self
    have hstops := stops_itemsLayout depth items (stops_newLine outer (']' :: rest))
    simp only [itemsLayout, List.cons_append, List.append_assoc]
    rw [run_next_item depth ((hu.opens depth).append _), hu.run_layout depth _ _ hstops,
      ih (fun w hw => h w (List.mem_cons_of_mem u hw)), List.reverse_cons, List.append_assoc,
      List.singleton_append]

theorem readsBack_list {items : List Value} (h : ∀ u ∈ items, ReadsBack u) :
    ReadsBack (.list items) := by
  cases items with
  | nil =>
    refine ⟨fun depth => ⟨'[', [']'], by rw [Value.layout], by decide, by decide⟩,
      fun depth frames rest _ => ?_⟩
    rw [Value.layout]
    exact run_value rfl
  | cons v items =>
    have hv := h v List.mem_cons_self
    refine ⟨fun depth => ⟨'[', _, by rw [Value.layout], by decide, by decide⟩,
      fun depth frames rest _ => ?_⟩
    have hstops := stops_itemsLayout (depth + 1) items (stops_newLine depth (']' :: rest))
    simp only [Value.layout, List.cons_append, List.append_assoc, List.nil_append]
    rw [run_open_list _ ((hv.opens _).append _), hv.run_layout _ _ _ hstops,
      run_items fun w hw => h w (List.mem_cons_of_mem v hw)]
    rfl

/-- A member with a new key goes behind all others. -/
theorem insertMember_of_notMem {key : String} {v : Value} {members : List (String × Value)}
    (h : key ∉ members.map Prod.fst) : insertMember key v members = members ++ [(key, v)] := by
  induction members with
  | nil => rfl
  | cons m members ih =>
    obtain ⟨k, u⟩ := m
    rw [List.map_cons, List.mem_cons, not_or] at h
    rw [insertMember, if_neg (Ne.symm h.1), ih h.2]
    rfl

theorem notMem_of_nodup_append {key : String} {v : Value} {a b : List (String × Value)}
    (h : ((a ++ (key, v) :: b).map Prod.fst).Nodup) : key ∉ a.map Prod.fst := by
  rw [List.map_append, List.map_cons, List.nodup_append] at h
  exact fun hmem => h.2.2 key hmem key List.mem_cons_self rfl

/-- The members behind the first one are read one by one. -/
theorem run_members {members : List (String × Value)} (h : ∀ m ∈ members, ReadsBack m.2)
    (depth outer : Nat) (frames : List Frame) (rest : List Char) (done : List (String × Value))
    (key : String) (v : Value) (hkeys : ((done ++ (key, v) :: members).map Prod.fst).Nodup) :
    run ⟨.after v, .mapping done key :: frames,
        membersLayout depth members ++ (newLine outer ++ '}' :: rest)⟩ =
      run ⟨.after (.mapping (done ++ (key, v) :: members)), frames, rest⟩ := by
  induction members generalizing done key v with
  | nil =>
    rw [← insertMember_of_notMem (notMem_of_nodup_append hkeys)]
    exact run_close_mapping outer
  | cons m members ih =>
    obtain ⟨next, u⟩ := m
    have hu := h (next, u) List.mem_cons_self
    have hstops := stops_membersLayout depth members (stops_newLine outer ('}' :: rest))
    have hdone : done ++ (key, v) :: (next, u) :: members =
        (done ++ [(key, v)]) ++ (next, u) :: members := by
      rw [List.append_assoc, List.singleton_append]
    simp only [membersLayout, List.cons_append, List.append_assoc]
    rw [run_next_member, hu.run_layout depth _ _ hstops,
      insertMember_of_notMem (notMem_of_nodup_append hkeys), hdone]
    rw [hdone] at hkeys
    exact ih (fun w hw => h w (List.mem_cons_of_mem _ hw)) _ _ _ hkeys

theorem readsBack_mapping {members : List (String × Value)}
    (hkeys : (members.map Prod.fst).Nodup) (h : ∀ m ∈ members, ReadsBack m.2) :
    ReadsBack (.mapping members) := by
  cases members with
  | nil =>
    refine ⟨fun depth => ⟨'{', ['}'], by rw [Value.layout], by decide, by decide⟩,
      fun depth frames rest _ => ?_⟩
    rw [Value.layout]
    exact run_value rfl
  | cons m members =>
    obtain ⟨key, v⟩ := m
    have hv := h (key, v) List.mem_cons_self
    refine ⟨fun depth => ⟨'{', _, by rw [Value.layout], by decide, by decide⟩,
      fun depth frames rest _ => ?_⟩
    have hstops := stops_membersLayout (depth + 1) members (stops_newLine depth ('}' :: rest))
    simp only [Value.layout, List.cons_append, List.append_assoc, List.nil_append]
    rw [run_open_mapping, hv.run_layout _ _ _ hstops]
    exact run_members (fun w hw => h w (List.mem_cons_of_mem _ hw)) _ _ _ _ [] key v hkeys

/-- **The text of a value is read back as it.** -/
theorem readsBack {v : Value} (h : v.WellFormed) : ReadsBack v := by
  induction h with
  | @intro v kept _ ih =>
    cases v with
    | null =>
      exact readsBack_scalar ['n', 'u', 'l', 'l'] (fun _ => by rw [Value.layout])
        ⟨'n', _, rfl, by decide, by decide⟩ (fun _ _ => rfl)
    | boolean b =>
      cases b with
      | false =>
        exact readsBack_scalar ['f', 'a', 'l', 's', 'e'] (fun _ => by rw [Value.layout])
          ⟨'f', _, rfl, by decide, by decide⟩ (fun _ _ => rfl)
      | true =>
        exact readsBack_scalar ['t', 'r', 'u', 'e'] (fun _ => by rw [Value.layout])
          ⟨'t', _, rfl, by decide, by decide⟩ (fun _ _ => rfl)
    | number n => exact readsBack_number (kept.number n rfl)
    | string s => exact readsBack_string s
    | list items => exact readsBack_list ih
    | mapping members =>
      exact readsBack_mapping kept.distinct fun m hm => ih m.2 (List.mem_map_of_mem hm)

/-- A text that is the indented text of a value is read as the value. -/
theorem parse_layout {v : Value} (h : v.WellFormed) : parse v.pretty = .ok v := by
  have hrun : readValue (v.layout 0) = .ok (v, []) := by
    have := (readsBack h).run_layout 0 [] [] stops_nil
    rwa [List.append_nil, run_alone] at this
  rw [parse, v.toList_pretty, readText, hrun]
  rfl

end DotQuery.Json
