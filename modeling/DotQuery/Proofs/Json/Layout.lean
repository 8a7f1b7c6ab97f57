import DotQuery.Json.Printer

/-! The indented text of a value as a list of characters.

The printer adds to a text that it is given; `toList_printOnto` is the text that it
adds, by recursion on the value. -/
namespace DotQuery.Json

mutual

/-- The indented text of a value that starts on a line of the given depth. -/
def Value.layout (depth : Nat) : Value → List Char
  | .null => ['n', 'u', 'l', 'l']
  | .boolean true => ['t', 'r', 'u', 'e']
  | .boolean false => ['f', 'a', 'l', 's', 'e']
  | .number n => n.text
  | .string s => stringText s
  | .list [] => ['[', ']']
  | .list (v :: items) =>
    '[' :: (newLine (depth + 1) ++ v.layout (depth + 1) ++ itemsLayout (depth + 1) items ++
      newLine depth ++ [']'])
  | .mapping [] => ['{', '}']
  | .mapping ((k, v) :: members) =>
    '{' :: (newLine (depth + 1) ++ stringText k ++ ':' :: ' ' :: v.layout (depth + 1) ++
      membersLayout (depth + 1) members ++ newLine depth ++ ['}'])

/-- The items of a list behind the first one, each with the comma before it. -/
def itemsLayout (depth : Nat) : List Value → List Char
  | [] => []
  | v :: items => ',' :: (newLine depth ++ v.layout depth ++ itemsLayout depth items)

/-- The members of a mapping behind the first one, each with the comma before it. -/
def membersLayout (depth : Nat) : List (String × Value) → List Char
  | [] => []
  | (k, v) :: members =>
    ',' :: (newLine depth ++ stringText k ++ ':' :: ' ' :: v.layout depth ++
      membersLayout depth members)

end

@[simp] theorem toList_addTo (out : String) (cs : List Char) :
    (addTo out cs).toList = out.toList ++ cs := by
  induction cs generalizing out with
  | nil => simp [addTo]
  | cons c cs ih =>
    show (addTo (out.push c) cs).toList = _
    rw [ih, String.toList_push, List.append_assoc, List.singleton_append]

mutual

/-- What the printer adds to a text. -/
theorem Value.toList_printOnto (depth : Nat) (v : Value) (out : String) :
    (v.printOnto depth out).toList = out.toList ++ v.layout depth := by
  match v with
  | .null => simp [Value.printOnto, Value.layout]
  | .boolean true => simp [Value.printOnto, Value.layout]
  | .boolean false => simp [Value.printOnto, Value.layout]
  | .number n => simp [Value.printOnto, Value.layout]
  | .string s => simp [Value.printOnto, Value.layout]
  | .list [] => simp [Value.printOnto, Value.layout]
  | .list (v :: items) =>
    simp [Value.printOnto, Value.layout, toList_printItems _ items, Value.toList_printOnto _ v]
  | .mapping [] => simp [Value.printOnto, Value.layout]
  | .mapping ((k, v) :: members) =>
    simp [Value.printOnto, Value.layout, toList_printMembers _ members,
      Value.toList_printOnto _ v]

theorem toList_printItems (depth : Nat) (items : List Value) (out : String) :
    (printItems depth items out).toList = out.toList ++ itemsLayout depth items := by
  match items with
  | [] => simp [printItems, itemsLayout]
  | v :: items =>
    simp [printItems, itemsLayout, toList_printItems _ items, Value.toList_printOnto _ v]

theorem toList_printMembers (depth : Nat) (members : List (String × Value)) (out : String) :
    (printMembers depth members out).toList = out.toList ++ membersLayout depth members := by
  match members with
  | [] => simp [printMembers, membersLayout]
  | (k, v) :: members =>
    simp [printMembers, membersLayout, toList_printMembers _ members, Value.toList_printOnto _ v]

end

theorem Value.toList_pretty (v : Value) : v.pretty.toList = v.layout 0 := by
  simp [Value.pretty, Value.toList_printOnto]

end DotQuery.Json
