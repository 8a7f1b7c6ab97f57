import DotQuery.Binary64.Basic

/-! JSON values. A mapping keeps its members in the order in which their keys
arrived; no key occurs twice in a mapping that was read from a text. -/
namespace DotQuery.Json

/-- An integer is kept exactly, every other number is a float. -/
inductive Number where
  | integer (n : Int)
  | float (x : Binary64)
deriving DecidableEq

inductive Value where
  | null
  | boolean (b : Bool)
  | number (n : Number)
  | string (s : String)
  | list (items : List Value)
  | mapping (members : List (String × Value))

/-- The least and the greatest integer that is kept exactly. -/
def leastInteger : Int := -0x8000000000000000

def greatestInteger : Int := 0xffffffffffffffff

/-- What a value is, without what it holds. -/
inductive Kind where
  | null
  | boolean
  | number
  | string
  | list
  | mapping
deriving DecidableEq, Repr

namespace Kind

/-- What messages call a kind. -/
def name : Kind → String
  | null => "null"
  | boolean => "boolean"
  | number => "number"
  | string => "string"
  | list => "array"
  | mapping => "object"

end Kind

namespace Value

def kind : Value → Kind
  | null => .null
  | boolean _ => .boolean
  | number _ => .number
  | string _ => .string
  | list _ => .list
  | mapping _ => .mapping

end Value

/-- The members with `value` under `key`: in the place of the member with that key,
or behind all others. -/
def insertMember (key : String) (value : Value) : List (String × Value) → List (String × Value)
  | [] => [(key, value)]
  | (k, v) :: rest =>
    if k = key then (k, value) :: rest else (k, v) :: insertMember key value rest

def member? (key : String) (members : List (String × Value)) : Option Value :=
  members.lookup key

theorem member?_insertMember_self (key : String) (value : Value) (members : List (String × Value)) :
    member? key (insertMember key value members) = some value := by
  induction members with
  | nil => simp [insertMember, member?]
  | cons m rest ih =>
    obtain ⟨k, v⟩ := m
    by_cases h : k = key
    · simp [insertMember, member?, h]
    · have hb : (key == k) = false := by simpa using Ne.symm h
      simpa [insertMember, member?, h, List.lookup_cons, hb] using ih

theorem member?_insertMember_of_ne {key other : String} (h : other ≠ key) (value : Value)
    (members : List (String × Value)) :
    member? other (insertMember key value members) = member? other members := by
  induction members with
  | nil =>
    have hb : (other == key) = false := by simpa using h
    simp [insertMember, member?, List.lookup_cons, hb]
  | cons m rest ih =>
    obtain ⟨k, v⟩ := m
    by_cases hk : k = key
    · subst hk
      have hb : (other == k) = false := by simpa using h
      simp [insertMember, member?, List.lookup_cons, hb]
    · simp only [member?] at ih
      simp [insertMember, member?, hk, List.lookup_cons, ih]

end DotQuery.Json
