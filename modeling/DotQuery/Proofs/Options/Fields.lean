import DotQuery.Options.Reader
import DotQuery.Proofs.Json.Everywhere

/-! The options that a value holds.

`Means` is what a value must be for options to be read from it. Fields are filled in from the
members of a mapping in any order, or from the items of a list in theirs; a field is given the
value that the mapping has under its name, or the list in its place, and is filled in once. -/
namespace DotQuery.Options
open Json

/-- What is given for the initial document, if anything, and what it is then. -/
inductive MeansText : Option Value → Option String → Prop where
  | missing : MeansText none ({} : Options).initialDocument
  | null : MeansText (some .null) none
  | string (s : String) : MeansText (some (.string s)) (some s)

/-- What is given for the sign before suggestions, if anything, and what it is then. -/
inductive MeansAnchored : Option Value → Bool → Prop where
  | missing : MeansAnchored none ({} : Options).anchored
  | boolean (b : Bool) : MeansAnchored (some (.boolean b)) b

/-- The options that a value means: a mapping by their names, a list by their order. -/
inductive Means : Value → Options → Prop where
  | mapping {members : List (String × Value)} {o : Options}
      (known : ∀ m ∈ members, m.1 = "initial_document" ∨ m.1 = "anchor_suggestions")
      (text : MeansText (member? "initial_document" members) o.initialDocument)
      (anchored : MeansAnchored (member? "anchor_suggestions" members) o.anchored) :
      Means (.mapping members) o
  | list {items : List Value} {o : Options} (length : items.length ≤ 2)
      (text : MeansText items[0]? o.initialDocument)
      (anchored : MeansAnchored items[1]? o.anchored) : Means (.list items) o

/-! ### One field -/

theorem Field.ofName?_eq_some_iff {s : String} {field : Field} :
    Field.ofName? s = some field ↔ s = field.name := by
  constructor
  · intro h
    unfold ofName? at h
    split at h
    · cases h
      assumption
    · split at h
      · cases h
        assumption
      · cases h
  · rintro rfl
    cases field <;> rfl

theorem Field.name_injective : Function.Injective Field.name := by
  intro a b h
  exact Option.some.inj ((ofName?_eq_some_iff.2 h).symm.trans (ofName?_eq_some_iff.2 rfl)).symm

/-- The initial document that a value is for. -/
def textOf? : Value → Option (Option String)
  | .null => some none
  | .string s => some (some s)
  | _ => none

def anchoredOf? : Value → Option Bool
  | .boolean b => some b
  | _ => none

theorem textOf?_eq_some_iff {v : Value} {t : Option String} :
    textOf? v = some t ↔ v = t.elim .null .string := by
  cases v <;> cases t <;> simp [textOf?]

theorem anchoredOf?_eq_some_iff {v : Value} {b : Bool} :
    anchoredOf? v = some b ↔ v = .boolean b := by
  cases v <;> simp [anchoredOf?]

namespace Fields

/-- The fields with a value for one of them, if the value is of its type. -/
def set? (f : Fields) (field : Field) (v : Value) : Option Fields :=
  match field with
  | .initialDocument => (textOf? v).map fun t => { f with initialDocument := some t }
  | .anchored => (anchoredOf? v).map fun b => { f with anchored := some b }

/-- The value that a field was given. -/
def given (f : Fields) : Field → Option Value
  | .initialDocument => f.initialDocument.map fun t => t.elim .null .string
  | .anchored => f.anchored.map .boolean

theorem given_empty (field : Field) : ({} : Fields).given field = none := by
  cases field <;> rfl

theorem has_eq_false_iff {f : Fields} {field : Field} :
    f.has field = false ↔ f.given field = none := by
  cases field <;> simp [has, given]

theorem given_of_set? {f g : Fields} {field : Field} {v : Value} (h : f.set? field v = some g) :
    g.given field = some v ∧ ∀ other ≠ field, g.given other = f.given other := by
  cases field with
  | initialDocument =>
    obtain ⟨t, ht, rfl⟩ := Option.map_eq_some_iff.1 h
    refine ⟨congrArg some (textOf?_eq_some_iff.1 ht).symm, fun other hother => ?_⟩
    cases other with
    | initialDocument => exact absurd rfl hother
    | anchored => rfl
  | anchored =>
    obtain ⟨b, hb, rfl⟩ := Option.map_eq_some_iff.1 h
    refine ⟨congrArg some (anchoredOf?_eq_some_iff.1 hb).symm, fun other hother => ?_⟩
    cases other with
    | initialDocument => rfl
    | anchored => exact absurd rfl hother

end Fields

/-- What is given for a field is of its type, and is what the options have in it. -/
def MeansField (o : Options) : Field → Option Value → Prop
  | .initialDocument, given => MeansText given o.initialDocument
  | .anchored, given => MeansAnchored given o.anchored

theorem exists_set? {o : Options} {field : Field} {v : Value} (h : MeansField o field (some v))
    (f : Fields) : ∃ g, f.set? field v = some g := by
  obtain ⟨text, anchored⟩ := o
  cases field with
  | initialDocument =>
    cases h with
    | null => exact ⟨_, rfl⟩
    | string s => exact ⟨_, rfl⟩
  | anchored =>
    cases h with
    | boolean b => exact ⟨_, rfl⟩

theorem meansText_iff {given : Option (Option String)} {t : Option String} :
    MeansText (given.map fun t => t.elim .null .string) t ↔
      given.getD ({} : Options).initialDocument = t := by
  constructor
  · intro h
    rcases given with _ | _ | s <;> cases h <;> rfl
  · rintro rfl
    rcases given with _ | _ | s
    · exact .missing
    · exact .null
    · exact .string s

theorem meansAnchored_iff {given : Option Bool} {b : Bool} :
    MeansAnchored (given.map .boolean) b ↔ given.getD ({} : Options).anchored = b := by
  constructor
  · intro h
    cases given <;> cases h <;> rfl
  · rintro rfl
    cases given with
    | none => exact .missing
    | some b => exact .boolean b

/-- Fields mean the options that they become. -/
theorem meansField_given_iff {g : Fields} {o : Options} :
    (∀ field, MeansField o field (g.given field)) ↔ g.options = o := by
  obtain ⟨text, anchored⟩ := o
  constructor
  · intro h
    obtain rfl := meansText_iff.1 (h .initialDocument)
    obtain rfl := meansAnchored_iff.1 (h .anchored)
    rfl
  · intro h field
    cases h
    cases field with
    | initialDocument => exact meansText_iff.2 rfl
    | anchored => exact meansAnchored_iff.2 rfl

theorem means_mapping_iff {members : List (String × Value)} {o : Options} :
    Means (.mapping members) o ↔
      (∀ m ∈ members, ∃ field : Field, m.1 = field.name) ∧
        ∀ field : Field, MeansField o field (member? field.name members) := by
  constructor
  · intro h
    cases h with
    | mapping known text anchored =>
      refine ⟨fun m hm => ?_, fun field => ?_⟩
      · rcases known m hm with hname | hname
        · exact ⟨.initialDocument, hname⟩
        · exact ⟨.anchored, hname⟩
      · cases field with
        | initialDocument => exact text
        | anchored => exact anchored
  · rintro ⟨known, hmeans⟩
    refine .mapping (fun m hm => ?_) (hmeans .initialDocument) (hmeans .anchored)
    obtain ⟨field, hname⟩ := known m hm
    cases field with
    | initialDocument => exact .inl hname
    | anchored => exact .inr hname

/-! ### Many fields -/

namespace Fields

/-- The fields with the value of a member, if its key names one that was not given before. -/
def addMember? (f : Fields) (m : String × Value) : Option Fields :=
  (Field.ofName? m.1).bind fun field => if f.has field then none else f.set? field m.2

/-- The fields with the values of all members. -/
def addMembers? (f : Fields) (members : List (String × Value)) : Option Fields :=
  members.foldlM addMember? f

/-- The fields with the values of all items, which are for the given ones in their order. -/
def addItems? (f : Fields) : List Field → List Value → Option Fields
  | _, [] => some f
  | [], _ :: _ => none
  | field :: fields, v :: items => (f.set? field v).bind fun g => g.addItems? fields items

theorem addMembers?_cons (f : Fields) (m : String × Value) (members : List (String × Value)) :
    f.addMembers? (m :: members) = (f.addMember? m).bind fun g => g.addMembers? members := by
  simp [addMembers?]

theorem addMember?_eq_some_iff {f g : Fields} {m : String × Value} :
    f.addMember? m = some g ↔
      ∃ field, m.1 = field.name ∧ f.given field = none ∧ f.set? field m.2 = some g := by
  constructor
  · intro h
    obtain ⟨field, hname, h⟩ := Option.bind_eq_some_iff.1 h
    split at h
    · cases h
    · rename_i hhas
      exact ⟨field, Field.ofName?_eq_some_iff.1 hname,
        has_eq_false_iff.1 (Bool.eq_false_iff.2 hhas), h⟩
  · rintro ⟨field, hname, hgiven, hset⟩
    rw [addMember?, Field.ofName?_eq_some_iff.2 hname, Option.bind_some,
      has_eq_false_iff.2 hgiven]
    exact hset

/-- Each field is given the value of the member with its name. -/
theorem given_of_addMembers? {f g : Fields} {members : List (String × Value)}
    (h : f.addMembers? members = some g) :
    (∀ m ∈ members, ∃ field : Field, m.1 = field.name) ∧
      ∀ field : Field, g.given field = (f.given field).or (member? field.name members) := by
  induction members generalizing f with
  | nil =>
    cases h
    exact ⟨by simp, by simp [member?]⟩
  | cons m members ih =>
    obtain ⟨key, v⟩ := m
    rw [addMembers?_cons] at h
    obtain ⟨f', hmember, hadd⟩ := Option.bind_eq_some_iff.1 h
    obtain ⟨field, rfl, hnone, hset⟩ := addMember?_eq_some_iff.1 hmember
    obtain ⟨hgiven, hothers⟩ := given_of_set? hset
    obtain ⟨hknown, hall⟩ := ih hadd
    refine ⟨List.forall_mem_cons.2 ⟨⟨field, rfl⟩, hknown⟩, fun other => ?_⟩
    rw [hall]
    by_cases hother : other = field
    · subst hother
      simp [hgiven, hnone, member?]
    · have hname : (other.name == field.name) = false := by
        simpa using fun he => hother (Field.name_injective he)
      simp [hothers other hother, member?, List.lookup_cons, hname]

/-- Members that mean options, all by different names, can all be added. -/
theorem exists_addMembers? {f : Fields} {o : Options} {members : List (String × Value)}
    (hkeys : (members.map Prod.fst).Nodup)
    (h : ∀ m ∈ members, ∃ field : Field, m.1 = field.name ∧ f.given field = none ∧
      MeansField o field (some m.2)) : ∃ g, f.addMembers? members = some g := by
  induction members generalizing f with
  | nil => exact ⟨f, rfl⟩
  | cons m members ih =>
    obtain ⟨key, v⟩ := m
    rw [List.map_cons, List.nodup_cons] at hkeys
    obtain ⟨⟨field, rfl, hnone, hmeans⟩, hrest⟩ := List.forall_mem_cons.1 h
    obtain ⟨f', hset⟩ := exists_set? hmeans f
    have hmember := addMember?_eq_some_iff.2 ⟨field, rfl, hnone, hset⟩
    rw [addMembers?_cons, hmember]
    refine ih hkeys.2 fun m hm => ?_
    obtain ⟨other, hname, hother, hmeans⟩ := hrest m hm
    -- the keys differ, so the field just given is not the one that this member names
    have hne : other ≠ field := by
      rintro rfl
      exact hkeys.1 (List.mem_map.2 ⟨m, hm, hname⟩)
    exact ⟨other, hname, ((given_of_set? hset).2 other hne).trans hother, hmeans⟩

/-- The two fields are given the first item and the second. -/
theorem given_of_addItems? {items : List Value} {g : Fields}
    (h : Fields.addItems? {} [.initialDocument, .anchored] items = some g) :
    items.length ≤ 2 ∧ g.given .initialDocument = items[0]? ∧ g.given .anchored = items[1]? := by
  cases items with
  | nil =>
    cases h
    exact ⟨Nat.zero_le _, rfl, rfl⟩
  | cons v items =>
    obtain ⟨f, hfirst, h⟩ := Option.bind_eq_some_iff.1 h
    obtain ⟨hgiven, hothers⟩ := given_of_set? hfirst
    cases items with
    | nil =>
      cases h
      exact ⟨by simp, hgiven, hothers .anchored (by decide)⟩
    | cons w items =>
      obtain ⟨f', hsecond, h⟩ := Option.bind_eq_some_iff.1 h
      obtain ⟨hgiven', hothers'⟩ := given_of_set? hsecond
      cases items with
      | nil =>
        cases h
        exact ⟨Nat.le_refl _, (hothers' .initialDocument (by decide)).trans hgiven, hgiven'⟩
      | cons _ _ => cases h

theorem exists_addItems? {items : List Value} {o : Options} (hlength : items.length ≤ 2)
    (htext : MeansField o .initialDocument items[0]?)
    (hanchored : MeansField o .anchored items[1]?) :
    ∃ g, Fields.addItems? {} [.initialDocument, .anchored] items = some g := by
  cases items with
  | nil => exact ⟨{}, rfl⟩
  | cons v items =>
    obtain ⟨f, hfirst⟩ := exists_set? htext {}
    cases items with
    | nil => exact ⟨f, by rw [addItems?, hfirst]; rfl⟩
    | cons w items =>
      obtain ⟨f', hsecond⟩ := exists_set? hanchored f
      cases items with
      | nil => exact ⟨f', by rw [addItems?, hfirst, Option.bind_some, addItems?, hsecond]; rfl⟩
      | cons _ _ => simp at hlength

end Fields

/-- The fields that a value gives, if it is a mapping or a list that can give them. -/
def fieldsOf? : Value → Option Fields
  | .mapping members => Fields.addMembers? {} members
  | .list items => Fields.addItems? {} [.initialDocument, .anchored] items
  | _ => none

theorem means_list_iff {items : List Value} {o : Options} :
    Means (.list items) o ↔ items.length ≤ 2 ∧ MeansField o .initialDocument items[0]? ∧
      MeansField o .anchored items[1]? := by
  constructor
  · intro h
    cases h with
    | list length text anchored => exact ⟨length, text, anchored⟩
  · rintro ⟨length, text, anchored⟩
    exact .list length text anchored

/-- **A value means options exactly if fields can be filled in from it**, and it means those that
the fields become. -/
theorem means_iff {v : Value} (hv : v.DistinctKeys) {o : Options} :
    Means v o ↔ ∃ g, fieldsOf? v = some g ∧ g.options = o := by
  cases v with
  | mapping members =>
    have hkeys := (Value.distinctKeys_mapping_iff.1 hv).1
    rw [means_mapping_iff]
    constructor
    · rintro ⟨hknown, hmeans⟩
      obtain ⟨g, hg⟩ : ∃ g, Fields.addMembers? {} members = some g := by
        refine Fields.exists_addMembers? (o := o) hkeys fun m hm => ?_
        obtain ⟨field, hname⟩ := hknown m hm
        have hmember : member? field.name members = some m.2 :=
          (member?_eq_some_iff hkeys).2 (hname ▸ hm)
        exact ⟨field, hname, Fields.given_empty field, hmember ▸ hmeans field⟩
      refine ⟨g, hg, meansField_given_iff.1 fun field => ?_⟩
      rw [(Fields.given_of_addMembers? hg).2, Fields.given_empty, Option.none_or]
      exact hmeans field
    · rintro ⟨g, hg, ho⟩
      obtain ⟨hknown, hgiven⟩ := Fields.given_of_addMembers? hg
      refine ⟨hknown, fun field => ?_⟩
      have hfield := meansField_given_iff.2 ho field
      rwa [hgiven, Fields.given_empty, Option.none_or] at hfield
  | list items =>
    rw [means_list_iff]
    constructor
    · rintro ⟨hlength, htext, hanchored⟩
      obtain ⟨g, hg⟩ := Fields.exists_addItems? hlength htext hanchored
      obtain ⟨-, hfirst, hsecond⟩ := Fields.given_of_addItems? hg
      refine ⟨g, hg, meansField_given_iff.1 fun field => ?_⟩
      cases field with
      | initialDocument => exact hfirst ▸ htext
      | anchored => exact hsecond ▸ hanchored
    · rintro ⟨g, hg, ho⟩
      obtain ⟨hlength, hfirst, hsecond⟩ := Fields.given_of_addItems? hg
      have hmeans := meansField_given_iff.2 ho
      exact ⟨hlength, hfirst ▸ hmeans .initialDocument, hsecond ▸ hmeans .anchored⟩
  | _ => exact ⟨by rintro ⟨⟩, by rintro ⟨_, ⟨⟩, _⟩⟩

end DotQuery.Options
