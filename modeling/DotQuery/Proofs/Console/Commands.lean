import DotQuery.Console.Command
import DotQuery.Proofs.Text.Scan
import Mathlib.Data.List.DropRight

/-! What a line asks for, read off the line.

The characters that end a line say nothing (`parse_append_lineEnds`). A line is then a
query or nothing at all by its first character and its blanks (`parse_query`,
`parse_blank`), or the command that the name up to the first blank and the text behind it
stand for (`parse_command`). -/
namespace DotQuery

namespace Text

/-! ### Trimming -/

theorem trimEndWhile_eq_self {p : Char → Bool} {s : List Char}
    (h : ∀ c ∈ s.getLast?, p c = false) : trimEndWhile p s = s := by
  refine List.rdropWhile_eq_self_iff.2 fun hne hlast => ?_
  rw [h _ (List.getLast?_eq_getLast_of_ne_nil hne)] at hlast
  cases hlast

/-- A text with a character that is not blank at either end. -/
structure Trimmed (s : List Char) : Prop where
  ne_nil : s ≠ []
  head : Stops isBlank s
  last : ∀ c ∈ s.getLast?, isBlank c = false

theorem Trimmed.stops_append {s : List Char} (h : Trimmed s) (t : List Char) :
    Stops isBlank (s ++ t) := by
  obtain ⟨hne, hhead, -⟩ := h
  obtain ⟨c, s, rfl⟩ := List.exists_cons_of_ne_nil hne
  exact stops_cons (hhead c rfl)

/-- The blanks around such a text are taken off, and nothing else. -/
theorem trim_append {a s b : List Char} (ha : ∀ c ∈ a, isBlank c = true) (hs : Trimmed s)
    (hb : ∀ c ∈ b, isBlank c = true) : trim (a ++ (s ++ b)) = s := by
  rw [trim, dropWhile_append_stops ha (hs.stops_append b),
    trimEndWhile_append_of_all (List.all_eq_true.2 hb), trimEndWhile_eq_self hs.last]

theorem trim_of_blank {s : List Char} (h : ∀ c ∈ s, isBlank c = true) : trim s = [] := by
  rw [trim, List.dropWhile_eq_nil_iff.2 h, trimEndWhile_nil]

/-- A text is blank, or is left trimmed between blanks. -/
theorem trim_cases (s : List Char) :
    ((∀ c ∈ s, isBlank c = true) ∧ trim s = []) ∨
      ∃ a m b, s = a ++ (m ++ b) ∧ (∀ c ∈ a, isBlank c = true) ∧ Trimmed m ∧
        (∀ c ∈ b, isBlank c = true) ∧ trim s = m := by
  obtain ⟨a, rest, rfl, ha, hrest⟩ := exists_scan isBlank s
  obtain ⟨m, b, rfl, hb, hlast⟩ := exists_ends isBlank rest
  by_cases hne : m = []
  · subst hne
    have hall : ∀ c ∈ a ++ ([] ++ b), isBlank c = true := List.forall_mem_append.2 ⟨ha, hb⟩
    exact .inl ⟨hall, trim_of_blank hall⟩
  · have hm : Trimmed m := ⟨hne, hrest.front, hlast⟩
    exact .inr ⟨a, m, b, rfl, ha, hm, hb, trim_append ha hm hb⟩

theorem trim_append_blanks (s : List Char) {b : List Char} (hb : ∀ c ∈ b, isBlank c = true) :
    trim (s ++ b) = trim s := by
  rcases trim_cases s with ⟨hs, htrim⟩ | ⟨a, m, b', rfl, ha, hm, hb', htrim⟩
  · rw [htrim, trim_of_blank (List.forall_mem_append.2 ⟨hs, hb⟩)]
  · rw [htrim, List.append_assoc, List.append_assoc,
      trim_append ha hm (List.forall_mem_append.2 ⟨hb', hb⟩)]

end Text

namespace Command
open Text

theorem isBlank_of_isLineEnd {c : Char} (h : isLineEnd c = true) : isBlank c = true := by
  rcases Bool.or_eq_true_iff.1 h with h | h <;> rw [eq_of_beq h] <;> decide

theorem isLineEnd_eq_false {c : Char} (hr : c ≠ '\r') (hn : c ≠ '\n') : isLineEnd c = false := by
  simp [isLineEnd, hr, hn]

/-! ### Lines that are no command -/

/-- The characters that end a line are no part of what it asks for. -/
theorem parse_append_lineEnds (text : String) {ends : String}
    (h : ends.toList.all isLineEnd = true) : parse (text ++ ends) = parse text := by
  rw [parse, String.toList_append, trimEndWhile_append_of_all h, parse]

/-- A line that does not start with a colon is a query, all of it, unless it is blank. -/
theorem parse_query {line : String} (hend : ∀ c ∈ line.toList.getLast?, isLineEnd c = false)
    (hcolon : line.toList.head? ≠ some ':') :
    parse line = .ok (if allBlank line then .nothing else .query line) := by
  rw [parse, trimEndWhile_eq_self hend]
  split
  · rename_i rest hline
    rw [hline] at hcolon
    exact absurd rfl hcolon
  · rw [String.ofList_toList]
    rfl

theorem parse_blank {line : String} (h : allBlank line = true) : parse line = .ok .nothing := by
  have hall : (trimEndWhile isLineEnd line.toList).all isBlank = true := by
    refine List.all_eq_true.2 fun c hc => List.all_eq_true.1 h c ?_
    exact (List.rdropWhile_prefix isLineEnd _).subset hc
  unfold parse
  split
  · rename_i rest hline
    rw [hline] at hall
    cases hall
  · rw [if_pos hall]

/-! ### Commands -/

/-- What a command is given is trimmed. -/
theorem argumentOf_append {a s b : List Char} (ha : ∀ c ∈ a, isBlank c = true) (hs : Trimmed s)
    (hb : ∀ c ∈ b, isBlank c = true) : argumentOf (a ++ (s ++ b)) = some (String.ofList s) := by
  rw [argumentOf, trim_append ha hs hb]
  split
  · exact absurd rfl hs.ne_nil
  · rfl

theorem argumentOf_of_blank {s : List Char} (h : ∀ c ∈ s, isBlank c = true) :
    argumentOf s = none := by
  rw [argumentOf, trim_of_blank h]

theorem argumentOf_eq_some {s : List Char} {text : String} (h : argumentOf s = some text) :
    Trimmed text.toList := by
  rcases trim_cases s with ⟨hs, -⟩ | ⟨a, m, b, rfl, ha, hm, hb, -⟩
  · rw [argumentOf_of_blank hs] at h
    cases h
  · rw [argumentOf_append ha hm hb] at h
    cases h
    rwa [String.toList_ofList]

theorem argumentOf_eq_none_iff {s : List Char} :
    argumentOf s = none ↔ ∀ c ∈ s, isBlank c = true := by
  refine ⟨fun h => ?_, argumentOf_of_blank⟩
  rcases trim_cases s with ⟨hs, -⟩ | ⟨a, m, b, rfl, ha, hm, hb, -⟩
  · exact hs
  · rw [argumentOf_append ha hm hb] at h
    cases h

theorem argumentOf_append_blanks (s : List Char) {b : List Char}
    (hb : ∀ c ∈ b, isBlank c = true) : argumentOf (s ++ b) = argumentOf s := by
  rw [argumentOf, trim_append_blanks s hb, argumentOf]

/-- **A line that starts with a colon** is the command that its name, which ends at the first
blank, and the text behind the name stand for. If they stand for none, the name is at
fault. -/
theorem parse_command {name rest : String} (hname : name.toList.all (fun c => !isBlank c) = true)
    (hrest : Stops (fun c => !isBlank c) rest.toList) :
    parse (":" ++ (name ++ rest)) =
      (ofName? name (argumentOf rest.toList)).elim (.error (.unknownCommand name)) .ok := by
  have hall := List.all_eq_true.1 hname
  -- The blanks behind the text may end in characters that end the line.
  obtain ⟨t, ends, hsplit, hends, hlast⟩ := exists_ends isLineEnd rest.toList
  have hkept : ∀ c ∈ ((':' :: name.toList) ++ t).getLast?, isLineEnd c = false := by
    refine forall_mem_getLast?_append (fun c hc => ?_) hlast
    rw [Bool.eq_false_iff]
    intro hend
    rcases List.mem_cons.1 (List.mem_of_getLast? hc) with rfl | hc
    · exact absurd hend (by decide)
    · simpa [isBlank_of_isLineEnd hend] using hall c hc
  have hline : trimEndWhile isLineEnd (":" ++ (name ++ rest)).toList = ':' :: (name.toList ++ t) := by
    have htext : (":" ++ (name ++ rest)).toList = (':' :: name.toList ++ t) ++ ends := by
      simp [hsplit]
    rw [htext, trimEndWhile_append_of_all (List.all_eq_true.2 hends), trimEndWhile_eq_self hkept]
    rfl
  have hstops : Stops (fun c => !isBlank c) t := (hsplit ▸ hrest).front
  have hargument : argumentOf t = argumentOf rest.toList := by
    rw [hsplit, argumentOf_append_blanks t fun c hc => isBlank_of_isLineEnd (hends c hc)]
  rw [parse, hline]
  show ofText (name.toList ++ t) = _
  rw [ofText, takeWhile_append_stops hall hstops, dropWhile_append_stops hall hstops, hargument,
    String.ofList_toList]
  cases ofName? name (argumentOf rest.toList) <;> rfl

/-- What a command is given follows its name, up to the blanks around it, however many
blanks and ends of lines there are. -/
theorem parse_argument {name text : String} {a s b : List Char} {c : Command}
    (hname : name.toList.all (fun c => !isBlank c) = true) (htext : text.toList = a ++ (s ++ b))
    (hne : a ≠ []) (ha : ∀ c ∈ a, isBlank c = true) (hs : Trimmed s)
    (hb : ∀ c ∈ b, isBlank c = true) (hc : ofName? name (some (String.ofList s)) = some c) :
    parse (":" ++ (name ++ text)) = .ok c := by
  have hstops : Stops (fun c => !isBlank c) text.toList := by
    obtain ⟨d, a, rfl⟩ := List.exists_cons_of_ne_nil hne
    rw [htext]
    exact stops_cons (by simp [ha d List.mem_cons_self])
  rw [parse_command hname hstops, htext, argumentOf_append ha hs hb, hc, Option.elim_some]

/-- A text without blanks at its ends is what suggestions are asked to start with. -/
theorem parse_suggest {start : String} (hhead : Stops isBlank start.toList)
    (hlast : ∀ c ∈ start.toList.getLast?, isBlank c = false) :
    parse (":suggest " ++ start) = .ok (.suggest (if start = "" then none else some start)) := by
  have hline : ":suggest " ++ start = ":" ++ ("suggest" ++ (" " ++ start)) := by
    rw [← String.append_assoc, ← String.append_assoc]
    rfl
  have htext : (" " ++ start).toList = [' '] ++ (start.toList ++ []) := by
    rw [String.toList_append, List.append_nil]
    rfl
  have hspace : ∀ c ∈ [' '], isBlank c = true := List.forall_mem_singleton.2 (by decide)
  have hargument : argumentOf (" " ++ start).toList = if start = "" then none else some start := by
    rw [htext]
    by_cases hne : start = ""
    · subst hne
      exact argumentOf_of_blank hspace
    · have htrimmed : Trimmed start.toList :=
        ⟨fun h => hne (String.toList_eq_nil_iff.1 h), hhead, hlast⟩
      rw [argumentOf_append hspace htrimmed (by simp), String.ofList_toList, if_neg hne]
  rw [hline, parse_command (by decide), hargument]
  · rfl
  · rw [htext]
    exact stops_cons (by decide)

end Command
end DotQuery
