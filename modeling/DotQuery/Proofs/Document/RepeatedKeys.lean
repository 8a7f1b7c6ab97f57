import DotQuery.Proofs.Document.RoundTrip
import DotQuery.Proofs.Json.Members
import DotQuery.Proofs.Path.Joining
import DotQuery.Proofs.Suggestions.Preorder

/-! Keys that are written more than once.

A mapping keeps a key where it was written first, with the value that was written last.
Taking one more member keeps this (`FirstOccurrences.insert`), so it holds of any list of
members (`firstOccurrences_insertMembers`, `member?_insertMembers`), and of every text of a
mapping, as its members are taken in the order in which they are written
(`parse_mappingText`). What paths find and what is suggested follow the members that are
kept (`repeated_keys`). -/
namespace DotQuery

namespace Json

/-! ### Taking members -/

/-- The members that are kept after taking others, one by one. -/
def insertMembers (kept : List (String × Value)) : List (String × Value) → List (String × Value)
  | [] => kept
  | (key, v) :: members => insertMembers (insertMember key v kept) members

/-- The keys are those of the list, each once and in the order in which they occur first. -/
structure FirstOccurrences (kept keys : List String) : Prop where
  nodup : kept.Nodup
  mem_iff : ∀ key, key ∈ kept ↔ key ∈ keys
  ordered : kept.Pairwise fun j k => keys.idxOf j < keys.idxOf k

theorem firstOccurrences_nil : FirstOccurrences [] [] :=
  ⟨List.nodup_nil, fun _ => Iff.rfl, .nil⟩

section
variable {kept keys : List String} (h : FirstOccurrences kept keys)
include h

/-- What occurs further on does not change the order. -/
theorem FirstOccurrences.ordered_append (more : List String) :
    kept.Pairwise fun j k => (keys ++ more).idxOf j < (keys ++ more).idxOf k := by
  refine h.ordered.imp_of_mem fun {j k} hj hk hlt => ?_
  rwa [List.idxOf_append_of_mem ((h.mem_iff j).1 hj),
    List.idxOf_append_of_mem ((h.mem_iff k).1 hk)]

theorem FirstOccurrences.repeated {key : String} (hkey : key ∈ kept) :
    FirstOccurrences kept (keys ++ [key]) := by
  refine ⟨h.nodup, fun k => ?_, h.ordered_append [key]⟩
  rw [List.mem_append, List.mem_singleton, h.mem_iff]
  refine ⟨.inl, fun hk => hk.elim id fun he => ?_⟩
  rw [he]
  exact (h.mem_iff key).1 hkey

theorem FirstOccurrences.new {key : String} (hkey : key ∉ kept) :
    FirstOccurrences (kept ++ [key]) (keys ++ [key]) := by
  have hnew : key ∉ keys := fun hk => hkey ((h.mem_iff key).2 hk)
  refine ⟨?_, fun k => ?_, ?_⟩
  · exact List.nodup_append.2 ⟨h.nodup, List.nodup_singleton key, fun j hj k hk he =>
      hkey (List.mem_singleton.1 hk ▸ he ▸ hj)⟩
  · rw [List.mem_append, List.mem_append, h.mem_iff]
  · refine List.pairwise_append.2 ⟨h.ordered_append [key], List.pairwise_singleton _ _, ?_⟩
    intro j hj k hk
    -- the new key stands behind all that was there
    have hlt : keys.idxOf j < keys.length := List.idxOf_lt_length_of_mem ((h.mem_iff j).1 hj)
    rw [List.mem_singleton.1 hk, List.idxOf_append_of_mem ((h.mem_iff j).1 hj),
      List.idxOf_append_of_notMem hnew]
    omega

/-- One more member. -/
theorem FirstOccurrences.insert (key : String) :
    FirstOccurrences (if key ∈ kept then kept else kept ++ [key]) (keys ++ [key]) := by
  split
  · rename_i hkey
    exact h.repeated hkey
  · rename_i hkey
    exact h.new hkey

end

theorem firstOccurrences_insertMembers {kept : List (String × Value)} {keys : List String}
    (h : FirstOccurrences (kept.map Prod.fst) keys) (members : List (String × Value)) :
    FirstOccurrences ((insertMembers kept members).map Prod.fst)
      (keys ++ members.map Prod.fst) := by
  induction members generalizing kept keys with
  | nil => simpa [insertMembers] using h
  | cons m members ih =>
    obtain ⟨key, v⟩ := m
    have hnext := h.insert key
    rw [← keys_insertMember key v] at hnext
    simpa [insertMembers] using ih hnext

/-- The value under a key is that of the last member with the key. -/
theorem member?_insertMembers (key : String) (kept members : List (String × Value)) :
    member? key (insertMembers kept members) =
      (member? key members.reverse).or (member? key kept) := by
  induction members generalizing kept with
  | nil => rfl
  | cons m members ih =>
    obtain ⟨k, v⟩ := m
    rw [insertMembers, ih, List.reverse_cons, member?, member?, member?, List.lookup_append,
      Option.or_assoc]
    congr 1
    by_cases hk : key = k
    · subst hk
      rw [← member?, member?_insertMember_self]
      simp
    · rw [← member?, member?_insertMember_of_ne hk]
      have hb : (key == k) = false := by simpa using hk
      simp [member?, List.lookup_cons, hb]

end Json

namespace Document
open Json Text

/-! ### Members that are written -/

/-- A member as it is written: the texts of its key and its value, which may have space
around them, and what they are read as. -/
structure WrittenMember where
  keyText : String
  valueText : String
  key : String
  value : Value
  key_parses : parse keyText = .ok (.string key)
  value_parses : parse valueText = .ok value

namespace WrittenMember

def text (m : WrittenMember) : String :=
  m.keyText ++ ":" ++ m.valueText

def member (m : WrittenMember) : String × Value :=
  (m.key, m.value)

theorem reads (m : WrittenMember) : ReadsMember m.text.toList m.key m.value := by
  have htext : m.text.toList = m.keyText.toList ++ ':' :: m.valueText.toList := by simp [text]
  rw [htext]
  exact readsMember (parse_eq_ok_iff.1 m.key_parses) (parse_eq_ok_iff.1 m.value_parses)

end WrittenMember

/-- The text of a mapping with the members in this order. -/
def mappingText (written : List WrittenMember) : String :=
  "\x7b" ++ ",".intercalate (written.map WrittenMember.text) ++ "\x7d"

/-- The members behind the first one, each with the comma before it, and the end. -/
def furtherText (written : List WrittenMember) : List Char :=
  written.flatMap (fun m => ',' :: m.text.toList) ++ ['}']

theorem furtherText_cons (m : WrittenMember) (written : List WrittenMember) :
    furtherText (m :: written) = ',' :: (m.text.toList ++ furtherText written) := by
  simp [furtherText]

theorem stops_furtherText (written : List WrittenMember) :
    Stops continuesNumber (furtherText written) := by
  cases written with
  | nil => exact stops_cons (by decide)
  | cons m written =>
    rw [furtherText_cons]
    exact stops_cons (by decide)

theorem toList_mappingText_cons (m : WrittenMember) (written : List WrittenMember) :
    (mappingText (m :: written)).toList = '{' :: (m.text.toList ++ furtherText written) := by
  have htail : ∀ texts : List String, ∀ first : String,
      (",".intercalate (first :: texts)).toList =
        first.toList ++ texts.flatMap fun t => ',' :: t.toList := by
    intro texts
    induction texts with
    | nil => simp
    | cons t texts ih =>
      intro first
      rw [String.intercalate_cons_cons, String.toList_append, ih]
      simp
  simp [mappingText, furtherText, htail, List.flatMap_map]

/-- The members are taken one by one. -/
theorem run_furtherText (written : List WrittenMember) (kept : List (String × Value))
    (key : String) (v : Value) :
    run ⟨.after v, [.mapping kept key], furtherText written⟩ =
      .ok (.mapping (insertMembers kept ((key, v) :: written.map WrittenMember.member)), []) := by
  induction written generalizing kept key v with
  | nil =>
    exact (run_memberEnd (stepMemberEnd_close (w := []) (by simp))).trans (run_alone _ _)
  | cons m written ih =>
    rw [furtherText_cons, run_further_member m.reads (stops_furtherText written), ih]
    rfl

theorem readValue_mappingText (written : List WrittenMember) :
    readValue (mappingText written).toList =
      .ok (.mapping (insertMembers [] (written.map WrittenMember.member)), []) := by
  cases written with
  | nil => exact (run_value (stepValue_emptyMapping (w := []) (by simp))).trans (run_alone _ _)
  | cons m written =>
    rw [readValue, toList_mappingText_cons, run_first_member m.reads (stops_furtherText written),
      run_furtherText]
    rfl

theorem parse_mappingText (written : List WrittenMember) :
    parse (mappingText written) =
      .ok (.mapping (insertMembers [] (written.map WrittenMember.member))) := by
  rw [parse_eq_ok_iff, Json.parse, readText, readValue_mappingText]
  rfl

/-! ### What is kept of them -/

theorem evaluate_plain {members : List (String × Value)} {key : String}
    (h : Path.isPlainKey key = true) :
    evaluate (some (.mapping members)) key = .ok (member? key members) := by
  rw [evaluate_eq_resolve (Path.parse_of_isPlainKey h)]
  show Path.follow (.mapping members) [.key key] = _
  rw [Path.follow, Segment.step, stepKey]
  cases member? key members <;> rfl

/-- **A repeated key keeps its first place and its last value.** The text of a mapping
parses, whatever members it is written with. Its keys are those of the members, each once
and in the order in which they occur first, and under each stands the value of the last
member with it. So a path that is a key finds the value of the last member with that key
and nothing if there is none, and a key that a path can spell is suggested once, in its
place among the others and with what is suggested for that value below it. -/
theorem repeated_keys (written : List WrittenMember) :
    let members := written.map WrittenMember.member
    ∃ kept, parse (mappingText written) = .ok (.mapping kept) ∧
      FirstOccurrences (kept.map Prod.fst) (members.map Prod.fst) ∧
      (∀ m ∈ kept, member? m.1 members.reverse = some m.2) ∧
      (∀ key, Path.isPlainKey key = true →
        evaluate (some (.mapping kept)) key = .ok (member? key members.reverse)) ∧
      Suggestions.ofValue false (.mapping kept) =
        (kept.filter fun m => Path.isPlainKey m.1).flatMap (fun m =>
          m.1 :: (Suggestions.ofValue false m.2).map (m.1 ++ "." ++ ·)) ∧
      ∀ key ∈ members.map Prod.fst, Path.isPlainKey key = true →
        (Suggestions.ofValue false (.mapping kept)).count key = 1 := by
  intro members
  have hparse := parse_mappingText written
  have distinct := distinctKeys_of_parse hparse
  have first : FirstOccurrences ((insertMembers [] members).map Prod.fst) (members.map Prod.fst) :=
    @firstOccurrences_insertMembers [] [] firstOccurrences_nil members
  have last : ∀ key, member? key (insertMembers [] members) = member? key members.reverse := by
    intro key
    rw [member?_insertMembers]
    exact Option.or_none
  have hlisting : Suggestions.ofValue false (.mapping (insertMembers [] members)) =
      ((insertMembers [] members).filter fun m => Path.isPlainKey m.1).flatMap
        Suggestions.entry := by
    rw [Suggestions.ofValue_false, Suggestions.listing, Suggestions.membersListing_eq]
  refine ⟨insertMembers [] members, hparse, first, fun m hm => ?_, fun key hplain => ?_, ?_,
    fun key hkey hplain => ?_⟩
  · rw [← last]
    exact (member?_eq_some_iff first.nodup).2 hm
  · rw [evaluate_plain hplain, last]
  · rw [hlisting]
    simp only [Suggestions.ofValue_false]
    rfl
  · obtain ⟨m, hm, rfl⟩ := List.mem_map.1 ((first.mem_iff key).2 hkey)
    refine List.count_eq_one_of_mem ?_ ?_
    · rw [Suggestions.ofValue_false]
      exact Suggestions.nodup_listing distinct
    · rw [hlisting]
      exact List.mem_flatMap.2 ⟨m, List.mem_filter.2 ⟨hm, hplain⟩, List.mem_cons_self⟩

/-- The key of the first member is spelled in another way when it is repeated. -/
theorem repeated_keys_respelled :
    let written : List WrittenMember :=
      [⟨"\"a\"", " 1", "a", .number (.integer 1), by with_unfolding_all rfl,
          by with_unfolding_all rfl⟩,
        ⟨"\n\"b\" ", "[]", "b", .list [], by with_unfolding_all rfl, by with_unfolding_all rfl⟩,
        ⟨"\"\\u0061\"", "\x7b\"c\":0\x7d", "a", .mapping [("c", .number (.integer 0))],
          by with_unfolding_all rfl, by with_unfolding_all rfl⟩]
    mappingText written = "\x7b\"a\": 1,\n\"b\" :[],\"\\u0061\":\x7b\"c\":0\x7d\x7d" ∧
      ∃ v, parse (mappingText written) = .ok v ∧ v.keys = ["a", "b"] ∧
        evaluate (some v) "a" = .ok (some (.mapping [("c", .number (.integer 0))])) ∧
        Suggestions.ofValue false v = ["a", "a.c", "b"] := by
  intro written
  obtain ⟨kept, hparse, -, -, found, listed, -⟩ := repeated_keys written
  have hkept : kept = insertMembers [] (written.map WrittenMember.member) := by
    simpa using hparse.symm.trans (parse_mappingText written)
  refine ⟨by decide +kernel, _, hparse, ?_, ?_, ?_⟩
  · rw [hkept]
    rfl
  · rw [found "a" (by decide)]
    rfl
  · rw [listed, hkept]
    simp only [Suggestions.ofValue_false]
    decide

end Document
end DotQuery
