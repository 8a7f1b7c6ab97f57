import DotQuery.Console.Error
import DotQuery.Proofs.Document.RoundTrip
import DotQuery.Proofs.Options.Fields

/-! Options are read from the text of a value as the value means them.

The reader of options goes through the text by itself. On the indented text of a value it takes
from each part what the part is, so it fills in the fields that the value gives, member by member
or item by item. -/
namespace DotQuery.Options
open Text Json

variable {ε ε' α β : Type}

theorem toOption_map (x : Except ε α) (f : α → β) : (x.map f).toOption = x.toOption.map f := by
  cases x <;> rfl

theorem toOption_mapError (x : Except ε α) (f : ε → ε') :
    (x.mapError f).toOption = x.toOption := by
  cases x <;> rfl

theorem toOption_bind (x : Except ε α) (f : α → Except ε β) :
    (x.bind f).toOption = x.toOption.bind fun a => (f a).toOption := by
  cases x <;> rfl

/-! ### The value of one option -/

/-- The kind of the values whose text starts with the character. -/
def kindOf? (c : Char) : Option Kind :=
  if c == '-' || c.isDigit then some .number
  else
    match c with
    | 'n' => some .null
    | 't' | 'f' => some .boolean
    | '"' => some .string
    | '[' => some .list
    | '{' => some .mapping
    | _ => none

theorem exists_layout_cons {v : Value} (hv : v.WellFormed) (depth : Nat) :
    ∃ c t, v.layout depth = c :: t ∧ kindOf? c = some v.kind := by
  cases v with
  | null => exact ⟨'n', _, by rw [Value.layout], rfl⟩
  | boolean b =>
    cases b with
    | true => exact ⟨'t', _, by rw [Value.layout], rfl⟩
    | false => exact ⟨'f', _, by rw [Value.layout], rfl⟩
  | number n =>
    have hread := readNumber_text ((Value.Everywhere.here hv).number n rfl) stops_nil
    rw [List.append_nil] at hread
    obtain ⟨c, t, ht, hc⟩ := exists_of_readNumber hread
    exact ⟨c, t, by rw [Value.layout, ht], if_pos hc⟩
  | string s => exact ⟨'"', _, by rw [Value.layout]; rfl, rfl⟩
  | list items =>
    cases items with
    | nil => exact ⟨'[', _, by rw [Value.layout], rfl⟩
    | cons v items => exact ⟨'[', _, by rw [Value.layout], rfl⟩
  | mapping members =>
    rcases members with _ | ⟨⟨k, v⟩, members⟩
    · exact ⟨'{', _, by rw [Value.layout], rfl⟩
    · exact ⟨'{', _, by rw [Value.layout], rfl⟩

section
variable {s rest : List Char} {c : Char}

theorem readInitialDocument_none (hs : skipSpace s = c :: rest) (hnull : kindOf? c ≠ some .null)
    (hstring : kindOf? c ≠ some .string) : (readInitialDocument s).toOption = none := by
  unfold readInitialDocument
  split
  · rename_i he
    rw [hs] at he
    cases he
    exact absurd rfl hnull
  · rename_i he
    rw [hs] at he
    cases he
    exact absurd rfl hstring
  · rfl

theorem readAnchored_none (hs : skipSpace s = c :: rest) (hboolean : kindOf? c ≠ some .boolean) :
    (readAnchored s).toOption = none := by
  unfold readAnchored
  split
  · rename_i he
    rw [hs] at he
    cases he
    exact absurd rfl hboolean
  · rename_i he
    rw [hs] at he
    cases he
    exact absurd rfl hboolean
  · rfl

end

section
variable {v : Value} (hv : v.WellFormed) (depth : Nat) (rest : List Char)
include hv

theorem skipSpace_layout : skipSpace (v.layout depth ++ rest) = v.layout depth ++ rest :=
  skipSpace_stops (((readsBack hv).opens depth).append rest).stops

theorem exists_skipSpace_layout :
    ∃ c t, skipSpace (v.layout depth ++ rest) = c :: t ∧ kindOf? c = some v.kind := by
  obtain ⟨c, t, ht, hc⟩ := exists_layout_cons hv depth
  refine ⟨c, t ++ rest, ?_, hc⟩
  rw [skipSpace_layout hv, ht]
  rfl

theorem readInitialDocument_layout :
    (readInitialDocument (v.layout depth ++ rest)).toOption =
      (textOf? v).map fun t => (t, rest) := by
  have hs := skipSpace_layout hv depth rest
  obtain ⟨c, t, ht, hc⟩ := exists_skipSpace_layout hv depth rest
  cases v with
  | null =>
    rw [readInitialDocument, hs, Value.layout]
    rfl
  | string s =>
    obtain ⟨t, ht, hread⟩ := readString_text s rest
    rw [readInitialDocument, hs, Value.layout, ht]
    simp only [hread]
    rfl
  | _ => exact readInitialDocument_none ht (by simp [hc, Value.kind]) (by simp [hc, Value.kind])

theorem readAnchored_layout :
    (readAnchored (v.layout depth ++ rest)).toOption =
      (anchoredOf? v).map fun b => (b, rest) := by
  have hs := skipSpace_layout hv depth rest
  obtain ⟨c, t, ht, hc⟩ := exists_skipSpace_layout hv depth rest
  cases v with
  | boolean b =>
    cases b with
    | true =>
      rw [readAnchored, hs, Value.layout]
      rfl
    | false =>
      rw [readAnchored, hs, Value.layout]
      rfl
  | _ => exact readAnchored_none ht (by simp [hc, Value.kind])

/-- A value is read into a field if it is of its type. -/
theorem readField_layout (f : Fields) (field : Field) :
    (readField f field (v.layout depth ++ rest)).toOption =
      (f.set? field v).map fun g => (g, rest) := by
  cases field with
  | initialDocument =>
    rw [readField, toOption_map, readInitialDocument_layout hv, Fields.set?, Option.map_map,
      Option.map_map]
    rfl
  | anchored =>
    rw [readField, toOption_map, readAnchored_layout hv, Fields.set?, Option.map_map,
      Option.map_map]
    rfl

end

theorem readField_space {w : List Char} (hw : ∀ c ∈ w, isSpace c = true) (f : Fields)
    (field : Field) (s : List Char) : readField f field (w ++ s) = readField f field s := by
  cases field with
  | initialDocument =>
    simp only [readField, readInitialDocument, skipSpace_append hw]
  | anchored =>
    simp only [readField, readAnchored, skipSpace_append hw]

theorem skipSpace_comma (s : List Char) : skipSpace (',' :: s) = ',' :: s := rfl

/-! ### Members -/

theorem readMember_layout {v : Value} (hv : v.WellFormed) (depth : Nat) (rest : List Char)
    (f : Fields) (key : String) :
    (readMember f (stringText key ++ ':' :: ' ' :: (v.layout depth ++ rest))).toOption =
      (f.addMember? (key, v)).map fun g => (g, rest) := by
  obtain ⟨t, ht, hread⟩ := readString_text key (':' :: ' ' :: (v.layout depth ++ rest))
  have hkey : readKey ('"' :: t) = .ok (key, ':' :: ' ' :: (v.layout depth ++ rest)) := hread
  have hcolon : readColon (':' :: ' ' :: (v.layout depth ++ rest)) =
      .ok ([' '] ++ (v.layout depth ++ rest)) := rfl
  have hspace : ∀ c ∈ [' '], isSpace c = true := List.forall_mem_singleton.2 rfl
  rw [ht]
  simp only [readMember, hkey, lift, Except.mapError, fieldOfKey, Fields.addMember?]
  cases hname : Field.ofName? key with
  | none => rfl
  | some field =>
    by_cases hhas : f.has field = true
    · simp only [if_pos hhas, Option.bind_some]
      rfl
    · simp only [if_neg hhas, hcolon, Option.bind_some]
      rw [readField_space hspace]
      exact readField_layout hv depth rest f field

theorem nextMember_close (outer : Nat) (rest : List Char) :
    nextMember (newLine outer ++ '}' :: rest) = .ok (false, rest) := by
  rw [nextMember, skipSpace_append_stops (isSpace_newLine outer) (stops_cons rfl)]
  rfl

theorem nextMember_comma (depth : Nat) (key : String) (rest : List Char) :
    nextMember (',' :: (newLine depth ++ (stringText key ++ rest))) =
      .ok (true, stringText key ++ rest) := by
  obtain ⟨t, ht⟩ := exists_stringText (s := rest) key
  have hquote : skipSpace (newLine depth ++ '"' :: t) = '"' :: t :=
    skipSpace_append_stops (isSpace_newLine depth) (stops_cons rfl)
  rw [ht, nextMember, skipSpace_comma]
  simp only [hquote]
  rfl

theorem readMembers_eq (f : Fields) (s : List Char) :
    readMembers f s =
      (readMember f s).bind fun r =>
        (nextMember r.2).bind fun n => if n.1 then readMembers r.1 n.2 else .ok (r.1, n.2) := by
  rw [readMembers]
  split
  · rename_i hmember
    rw [hmember]
    rfl
  · rename_i hmember
    rw [hmember, Except.bind]
    split <;> rename_i hnext <;> rw [hnext] <;> rfl

/-- The members of a mapping are read one by one, the first one and those behind it. -/
theorem readMembers_layout (depth outer : Nat) (rest : List Char) {members : List (String × Value)}
    (hmembers : ∀ m ∈ members, m.2.WellFormed) {v : Value} (hv : v.WellFormed) (f : Fields)
    (key : String) :
    (readMembers f (stringText key ++ ':' :: ' ' :: (v.layout depth ++
        (membersLayout depth members ++ (newLine outer ++ '}' :: rest))))).toOption =
      (f.addMembers? ((key, v) :: members)).map fun g => (g, rest) := by
  induction members generalizing f key v with
  | nil =>
    rw [readMembers_eq, toOption_bind, readMember_layout hv, Option.bind_map,
      Fields.addMembers?_cons, Option.map_bind]
    congr 1
    funext g
    simp only [Function.comp_apply, membersLayout, List.nil_append]
    rw [nextMember_close]
    rfl
  | cons m members ih =>
    obtain ⟨next, u⟩ := m
    have hu := hmembers (next, u) List.mem_cons_self
    rw [readMembers_eq, toOption_bind, readMember_layout hv, Option.bind_map,
      Fields.addMembers?_cons, Option.map_bind]
    congr 1
    funext g
    simp only [Function.comp_apply, membersLayout, List.cons_append, List.append_assoc]
    rw [nextMember_comma]
    exact ih (fun m hm => hmembers m (List.mem_cons_of_mem _ hm)) hu g next

/-! ### Items -/

theorem nextItem_first (depth : Nat) {s : List Char} (h : Opens s) :
    nextItem true (newLine depth ++ s) = .ok (true, s) := by
  obtain ⟨c, t, rfl, hspace, hclose⟩ := h
  rw [nextItem, skipSpace_append_stops (isSpace_newLine depth) (stops_cons hspace)]
  simp [hclose]

theorem nextItem_comma (depth : Nat) {s : List Char} (h : Opens s) :
    nextItem false (',' :: (newLine depth ++ s)) = .ok (true, s) := by
  obtain ⟨c, t, rfl, hspace, hclose⟩ := h
  have hs := skipSpace_append_stops (isSpace_newLine depth) (stops_cons (s := t) hspace)
  rw [nextItem, skipSpace_comma]
  simp [hs, hclose]

theorem nextItem_close (first : Bool) (outer : Nat) (rest : List Char) :
    nextItem first (newLine outer ++ ']' :: rest) = .ok (false, ']' :: rest) := by
  rw [nextItem, skipSpace_append_stops (isSpace_newLine outer) (stops_cons rfl)]
  rfl

theorem readListEnd_close (outer : Nat) (rest : List Char) :
    readListEnd (newLine outer ++ ']' :: rest) = .ok rest := by
  rw [readListEnd, skipSpace_append_stops (isSpace_newLine outer) (stops_cons rfl)]
  rfl

theorem readListEnd_comma (s : List Char) : (readListEnd (',' :: s)).toOption = none := by
  rw [readListEnd, skipSpace_comma]
  simp only
  split <;> rfl

theorem readItems_item {f : Fields} {first : Bool} {field : Field} {fields : List Field}
    {s t : List Char} (h : nextItem first s = .ok (true, t)) :
    readItems f first (field :: fields) s =
      (readField f field t).bind fun r => readItems r.1 false fields r.2 := by
  rw [readItems, h]
  dsimp only
  cases readField f field t <;> rfl

/-- The items of a list behind the first one are read one by one. -/
theorem readItems_layout (depth outer : Nat) (rest : List Char) (fields : List Field)
    {items : List Value} (hitems : ∀ v ∈ items, v.WellFormed) (f : Fields) :
    (readItems f false fields
        (itemsLayout depth items ++ (newLine outer ++ ']' :: rest))).toOption =
      (f.addItems? fields items).map fun g => (g, rest) := by
  induction fields generalizing items f with
  | nil =>
    cases items with
    | nil =>
      rw [itemsLayout, List.nil_append, readItems, readListEnd_close]
      rfl
    | cons v items =>
      rw [itemsLayout, List.cons_append, readItems, toOption_map, readListEnd_comma]
      rfl
  | cons field fields ih =>
    cases items with
    | nil =>
      rw [itemsLayout, List.nil_append, readItems, nextItem_close]
      rfl
    | cons v items =>
      obtain ⟨hv, hitems⟩ := List.forall_mem_cons.1 hitems
      have hopens := ((readsBack hv).opens depth).append
        (itemsLayout depth items ++ (newLine outer ++ ']' :: rest))
      simp only [itemsLayout, List.cons_append, List.append_assoc]
      rw [readItems_item (nextItem_comma depth hopens), toOption_bind, readField_layout hv,
        Option.bind_map, Fields.addItems?, Option.map_bind]
      congr 1
      funext g
      exact ih hitems g

/-! ### Whole texts -/

theorem readFields_none {s rest : List Char} {c : Char} (hs : skipSpace s = c :: rest)
    (hlist : kindOf? c ≠ some .list) (hmapping : kindOf? c ≠ some .mapping) :
    (readFields s).toOption = none := by
  unfold readFields
  split
  · rename_i he
    rw [hs] at he
    cases he
    exact absurd rfl hlist
  · rename_i he
    rw [hs] at he
    cases he
    exact absurd rfl hmapping
  · rfl

theorem readFields_list {items : List Value} (h : ∀ v ∈ items, v.WellFormed) :
    (readFields ((Value.list items).layout 0)).toOption =
      (fieldsOf? (.list items)).map fun g => (g, []) := by
  cases items with
  | nil =>
    rw [Value.layout]
    rfl
  | cons v items =>
    obtain ⟨hv, hitems⟩ := List.forall_mem_cons.1 h
    have hopens := ((readsBack hv).opens 1).append (itemsLayout 1 items ++ (newLine 0 ++ [']']))
    have hfields : readFields ((Value.list (v :: items)).layout 0) =
        readItems {} true [.initialDocument, .anchored] (newLine 1 ++ (v.layout 1 ++
          (itemsLayout 1 items ++ (newLine 0 ++ [']'])))) := by
      simp only [Value.layout, List.append_assoc]
      rfl
    rw [hfields, readItems_item (nextItem_first 1 hopens), toOption_bind, readField_layout hv,
      Option.bind_map, fieldsOf?, Fields.addItems?, Option.map_bind]
    congr 1
    funext g
    exact readItems_layout 1 0 [] [.anchored] hitems g

theorem readFields_mapping {members : List (String × Value)} (h : ∀ m ∈ members, m.2.WellFormed) :
    (readFields ((Value.mapping members).layout 0)).toOption =
      (fieldsOf? (.mapping members)).map fun g => (g, []) := by
  cases members with
  | nil =>
    rw [Value.layout]
    rfl
  | cons m members =>
    obtain ⟨key, v⟩ := m
    obtain ⟨hv, hmembers⟩ := List.forall_mem_cons.1 h
    have hfields : readFields ((Value.mapping ((key, v) :: members)).layout 0) =
        readMembers {} (stringText key ++ ':' :: ' ' :: (v.layout 1 ++
          (membersLayout 1 members ++ (newLine 0 ++ ['}'])))) := by
      obtain ⟨t, ht⟩ := exists_stringText key
      have hbrace : ∀ s, skipSpace ('{' :: s) = '{' :: s := fun _ => rfl
      have hquote : skipSpace (newLine 1 ++ '"' :: t) = '"' :: t :=
        skipSpace_append_stops (isSpace_newLine 1) (stops_cons rfl)
      simp only [Value.layout, List.append_assoc, List.cons_append]
      rw [ht, readFields, hbrace]
      simp [hquote]
    rw [hfields]
    exact readMembers_layout 1 0 [] hmembers hv {} key

theorem readFields_layout {v : Value} (hv : v.WellFormed) :
    (readFields (v.layout 0)).toOption = (fieldsOf? v).map fun g => (g, []) := by
  obtain ⟨c, t, ht, hc⟩ := exists_skipSpace_layout hv 0 []
  rw [List.append_nil] at ht
  cases v with
  | list items => exact readFields_list (Value.wellFormed_list_iff.1 hv)
  | mapping members => exact readFields_mapping (Value.wellFormed_mapping_iff.1 hv).2
  | _ => exact readFields_none ht (by simp [hc, Value.kind]) (by simp [hc, Value.kind])

/-- The text of a value is read as the options of the fields that it gives. -/
theorem parse_pretty_toOption {v : Value} (hv : v.WellFormed) :
    (parse v.pretty).toOption = (fieldsOf? v).map Fields.options := by
  have hread := readFields_layout hv
  rw [parse, toOption_mapError, v.toList_pretty]
  cases hfields : readFields (v.layout 0) with
  | error e =>
    rw [hfields] at hread
    rw [readText, hfields, Option.map_eq_none_iff.1 hread.symm]
    rfl
  | ok r =>
    rw [hfields] at hread
    obtain ⟨g, hg, rfl⟩ := Option.map_eq_some_iff.1 hread.symm
    rw [readText, hfields, hg]
    rfl

/-- **The reader of options accepts exactly the texts of values that mean options**, and gives
the options that the value means; every other value is refused with an error of options. -/
theorem parse_pretty_means {v : Value} (h : ∃ text, Document.parse text = .ok v) :
    (∀ o, (parse v.pretty).mapError ConsoleError.options = .ok o ↔ Means v o) ∧
      ((¬ ∃ o, Means v o) →
        ∃ e, (parse v.pretty).mapError ConsoleError.options = .error (.options e)) := by
  obtain ⟨text, htext⟩ := h
  have hv := Document.wellFormed_of_parse htext
  have hread := parse_pretty_toOption hv
  have hmeans : ∀ o, Means v o ↔ (parse v.pretty).toOption = some o := by
    intro o
    rw [means_iff hv.distinctKeys, hread, Option.map_eq_some_iff]
  cases hparse : parse v.pretty with
  | error e =>
    rw [hparse] at hmeans
    refine ⟨fun o => ?_, fun _ => ⟨e, rfl⟩⟩
    rw [hmeans]
    simp [Except.mapError, Except.toOption]
  | ok o =>
    rw [hparse] at hmeans
    refine ⟨fun o' => ?_, fun hno => absurd ⟨o, (hmeans o).2 rfl⟩ hno⟩
    rw [hmeans]
    simp [Except.mapError, Except.toOption]

/-- The options come in the other order, and one of them is null; a third item is refused. -/
theorem parse_pretty_means_reversed :
    (∃ v,
      Document.parse "\x7b\"anchor_suggestions\":true,\"initial_document\":null\x7d" = .ok v ∧
      (parse v.pretty).mapError ConsoleError.options = .ok ⟨none, true⟩) ∧
    ∃ v, Document.parse "[null,true,0]" = .ok v ∧
      ∃ e, (parse v.pretty).mapError ConsoleError.options = .error (.options e) := by
  constructor
  · refine ⟨.mapping [("anchor_suggestions", .boolean true), ("initial_document", .null)], ?_⟩
    have hparse : Document.parse "\x7b\"anchor_suggestions\":true,\"initial_document\":null\x7d" =
        .ok (.mapping [("anchor_suggestions", .boolean true), ("initial_document", .null)]) := by
      with_unfolding_all rfl
    refine ⟨hparse, ((parse_pretty_means ⟨_, hparse⟩).1 ⟨none, true⟩).2 (.mapping ?_ ?_ ?_)⟩
    · simp
    · exact .null
    · exact .boolean true
  · refine ⟨.list [.null, .boolean true, .number (.integer 0)], ?_⟩
    have hparse : Document.parse "[null,true,0]" =
        .ok (.list [.null, .boolean true, .number (.integer 0)]) := by
      with_unfolding_all rfl
    refine ⟨hparse, (parse_pretty_means ⟨_, hparse⟩).2 ?_⟩
    rintro ⟨o, hmeans⟩
    cases hmeans with
    | list hlength => exact absurd hlength (by simp)

end DotQuery.Options
