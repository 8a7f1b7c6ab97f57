import DotQuery.Json.Scalar

/-! Reading JSON text of any depth.

The lists and mappings that are open are held in a stack of frames, so nothing
grows with the depth of a text but that stack. A step reads one value without
parts, or one bracket or comma with what belongs to it, and leaves less text
(`step_length_lt`); `run` takes steps until a value stands alone. -/
namespace DotQuery.Json

/-- A list or a mapping that is open: its items so far, last one first, or its
members so far and the key whose value is being read. -/
inductive Frame where
  | list (items : List Value)
  | mapping (members : List (String × Value)) (key : String)

/-- What comes next: a value, or what may follow the value that was read. -/
inductive Task where
  | value
  | after (v : Value)

/-- A text that is being read. The innermost frame comes first. -/
structure State where
  task : Task
  frames : List Frame
  rest : List Char

/-- Reads a key without its colon. -/
def readKey (s : List Char) : Except Fault (String × List Char) :=
  match s with
  | '"' :: rest => readString rest
  | _ => .error (.atNext .keyNotString s)

def readColon (s : List Char) : Except Fault (List Char) :=
  match skipSpace s with
  | [] => .error (.before .endInMapping [])
  | ':' :: rest => .ok rest
  | rest => .error (.atNext .expectedColon rest)

/-- Reads a key and its colon, and goes on with its value. -/
def stepMember (members : List (String × Value)) (frames : List Frame) (s : List Char) :
    Except Fault State :=
  match readKey s with
  | .error f => .error f
  | .ok (key, rest) =>
    match readColon rest with
    | .error f => .error f
    | .ok rest => .ok ⟨.value, .mapping members key :: frames, rest⟩

/-- Reads a value without parts, or opens a list or a mapping. -/
def stepValue (frames : List Frame) (s : List Char) : Except Fault State :=
  match skipSpace s with
  | '[' :: rest =>
    match skipSpace rest with
    | [] => .error (.before .endInList [])
    | ']' :: rest => .ok ⟨.after (.list []), frames, rest⟩
    | rest => .ok ⟨.value, .list [] :: frames, rest⟩
  | '{' :: rest =>
    match skipSpace rest with
    | [] => .error (.before .endInMapping [])
    | '}' :: rest => .ok ⟨.after (.mapping []), frames, rest⟩
    | rest => stepMember [] frames rest
  | rest =>
    match readScalar rest with
    | .error f => .error f
    | .ok (v, rest) => .ok ⟨.after v, frames, rest⟩

/-- Goes on behind an item of a list. The items include it. -/
def stepItem (items : List Value) (frames : List Frame) (s : List Char) : Except Fault State :=
  match skipSpace s with
  | [] => .error (.before .endInList [])
  | ']' :: rest => .ok ⟨.after (.list items.reverse), frames, rest⟩
  | ',' :: rest =>
    match skipSpace rest with
    | [] => .error (.before .endInValue [])
    | ']' :: rest => .error (.atNext .trailingComma (']' :: rest))
    | rest => .ok ⟨.value, .list items :: frames, rest⟩
  | rest => .error (.atNext .expectedItemEnd rest)

/-- Goes on behind a member of a mapping. The members include it. -/
def stepMemberEnd (members : List (String × Value)) (frames : List Frame) (s : List Char) :
    Except Fault State :=
  match skipSpace s with
  | [] => .error (.before .endInMapping [])
  | '}' :: rest => .ok ⟨.after (.mapping members), frames, rest⟩
  | ',' :: rest =>
    match skipSpace rest with
    | [] => .error (.before .endInValue [])
    | '}' :: rest => .error (.atNext .trailingComma ('}' :: rest))
    | rest => stepMember members frames rest
  | rest => .error (.atNext .expectedMemberEnd rest)

/-- One step, or the value if it stands alone. -/
def step (s : State) : Except Fault (State ⊕ Value) :=
  match s.task, s.frames with
  | .value, frames => (stepValue frames s.rest).map .inl
  | .after v, [] => .ok (.inr v)
  | .after v, .list items :: frames => (stepItem (v :: items) frames s.rest).map .inl
  | .after v, .mapping members key :: frames =>
    (stepMemberEnd (insertMember key v members) frames s.rest).map .inl

/-! ### Every step leaves less text -/

theorem readKey_length_lt {s rest : List Char} {key : String} (h : readKey s = .ok (key, rest)) :
    rest.length < s.length := by
  unfold readKey at h
  split at h
  · exact Nat.lt_succ_of_lt (readString_length_lt h)
  · cases h

theorem readColon_length_lt {s rest : List Char} (h : readColon s = .ok rest) :
    rest.length < s.length := by
  have hs := skipSpace_length_le s
  unfold readColon at h
  split at h
  · cases h
  · rename_i he
    cases h
    rw [he] at hs
    exact hs
  · cases h

theorem stepMember_length_lt {members : List (String × Value)} {frames : List Frame}
    {s : List Char} {t : State} (h : stepMember members frames s = .ok t) :
    t.rest.length < s.length := by
  unfold stepMember at h
  split at h
  · cases h
  · rename_i hk
    have := readKey_length_lt hk
    split at h
    · cases h
    · rename_i hc
      have := readColon_length_lt hc
      cases h
      exact Nat.lt_trans ‹_› ‹_›

theorem stepValue_length_lt {frames : List Frame} {s : List Char} {t : State}
    (h : stepValue frames s = .ok t) : t.rest.length < s.length := by
  have hs := skipSpace_length_le s
  unfold stepValue at h
  split at h
  · rename_i rest he
    have hr := skipSpace_length_le rest
    rw [he] at hs
    split at h
    · cases h
    · rename_i hb
      cases h
      rw [hb] at hr
      simp only [List.length_cons] at hs hr ⊢
      omega
    · cases h
      simp only [List.length_cons] at hs ⊢
      omega
  · rename_i rest he
    have hr := skipSpace_length_le rest
    rw [he] at hs
    split at h
    · cases h
    · rename_i hb
      cases h
      rw [hb] at hr
      simp only [List.length_cons] at hs hr ⊢
      omega
    · have := stepMember_length_lt h
      simp only [List.length_cons] at hs
      omega
  · split at h
    · cases h
    · rename_i hv
      have := readScalar_length_lt hv
      cases h
      exact Nat.lt_of_lt_of_le this hs

theorem stepItem_length_lt {items : List Value} {frames : List Frame} {s : List Char} {t : State}
    (h : stepItem items frames s = .ok t) : t.rest.length < s.length := by
  have hs := skipSpace_length_le s
  unfold stepItem at h
  split at h
  · cases h
  · rename_i he
    cases h
    rw [he] at hs
    exact hs
  · rename_i rest he
    have hr := skipSpace_length_le rest
    rw [he] at hs
    split at h
    · cases h
    · cases h
    · cases h
      simp only [List.length_cons] at hs ⊢
      omega
  · cases h

theorem stepMemberEnd_length_lt {members : List (String × Value)} {frames : List Frame}
    {s : List Char} {t : State} (h : stepMemberEnd members frames s = .ok t) :
    t.rest.length < s.length := by
  have hs := skipSpace_length_le s
  unfold stepMemberEnd at h
  split at h
  · cases h
  · rename_i he
    cases h
    rw [he] at hs
    exact hs
  · rename_i rest he
    have hr := skipSpace_length_le rest
    rw [he] at hs
    split at h
    · cases h
    · cases h
    · have := stepMember_length_lt h
      simp only [List.length_cons] at hs
      omega
  · cases h

theorem step_length_lt {s t : State} (h : step s = .ok (.inl t)) :
    t.rest.length < s.rest.length := by
  unfold step at h
  split at h
  · obtain ⟨_, hv, he⟩ := map_eq_ok h
    cases he
    exact stepValue_length_lt hv
  · cases h
  · obtain ⟨_, hv, he⟩ := map_eq_ok h
    cases he
    exact stepItem_length_lt hv
  · obtain ⟨_, hv, he⟩ := map_eq_ok h
    cases he
    exact stepMemberEnd_length_lt hv

/-! ### Whole texts -/

/-- Takes steps until a value stands alone, and gives it and the text behind it. -/
def run (s : State) : Except Fault (Value × List Char) :=
  match _step : step s with
  | .error f => .error f
  | .ok (.inl t) => run t
  | .ok (.inr v) => .ok (v, s.rest)
termination_by s.rest.length
decreasing_by exact step_length_lt _step

/-- Reads one value from the front of a text. -/
def readValue (s : List Char) : Except Fault (Value × List Char) :=
  run ⟨.value, [], s⟩

/-- Reads a text that is one value, with space around it at most. -/
def readText (s : List Char) : Except Fault Value :=
  match readValue s with
  | .error f => .error f
  | .ok (v, rest) =>
    match skipSpace rest with
    | [] => .ok v
    | rest => .error (.atNext .trailingCharacters rest)

def parse (text : String) : Except ReadError Value :=
  (readText text.toList).mapError (ReadError.ofFault text.toList)

end DotQuery.Json
