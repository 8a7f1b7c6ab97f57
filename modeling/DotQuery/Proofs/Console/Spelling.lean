import DotQuery.Proofs.Console.Commands

/-! How commands are written as lines.

Each command has a line (`line`), which is read back as that command if the command is one
that lines ask for at all (`IsWritable`): a query must not look like a command or like
nothing, and what a command is given must not be blank at its ends. The blanks around what
a command is given may be any. All other lines that start with a colon are refused, by
name, and no other line is (`IsRefused`). -/
namespace DotQuery.Command
open Text

/-! ### Lines of commands -/

/-- A line with the name of a command, and with what it is given if it is given anything. -/
def named (between after name : String) (argument : Option String) : String :=
  ":" ++ (name ++
    match argument with
    | none => after
    | some text => between ++ (text ++ after))

/-- The line of a command, with `between` in front of what it is given and `after` at the
end. A query is its own line. -/
def spelled (between after : String) : Command → String
  | query text => text
  | setDocument text => named between after "doc" (some text)
  | load file => named between after "load" (some file)
  | showDocument => named between after "show" none
  | suggest start => named between after "suggest" start
  | history => named between after "history" none
  | reset => named between after "reset" none
  | help => named between after "help" none
  | quit => named between after "quit" none
  | nothing => after

def line (c : Command) : String :=
  c.spelled " " ""

/-- The commands that lines ask for. -/
def IsWritable : Command → Prop
  | query text =>
    allBlank text = false ∧ text.toList.head? ≠ some ':' ∧
      ∀ c ∈ text.toList.getLast?, isLineEnd c = false
  | setDocument text => Trimmed text.toList
  | load file => Trimmed file.toList
  | suggest (some start) => Trimmed start.toList
  | _ => True

/-! ### Names -/

/-- The names that need something behind them. -/
def givenNames : List String := ["doc", "load"]

/-- The names that must stand alone. -/
def bareNames : List String := ["show", "history", "reset", "help", "quit", "q"]

def names : List String := "suggest" :: (givenNames ++ bareNames)

/-- Why a name and the text behind it are no command. -/
inductive IsRefused (name rest : String) : Prop where
  | unknown (other : name ∉ names)
  | missing (given : name ∈ givenNames) (blank : allBlank rest = true)
  | extra (bare : name ∈ bareNames) (given : allBlank rest = false)

theorem ofName?_none_eq_none_iff {name : String} :
    ofName? name none = none ↔ name ∉ names ∨ name ∈ givenNames := by
  unfold ofName?
  split <;> simp_all [names, givenNames, bareNames, or_iff_not_imp_left]

theorem ofName?_some_eq_none_iff {name text : String} :
    ofName? name (some text) = none ↔ name ∉ names ∨ name ∈ bareNames := by
  unfold ofName?
  split <;> simp_all [names, givenNames, bareNames, or_iff_not_imp_left]

theorem argumentOf_eq_none_iff_allBlank {rest : String} :
    argumentOf rest.toList = none ↔ allBlank rest = true := by
  rw [argumentOf_eq_none_iff, allBlank, List.all_eq_true]

/-- A name and the text behind it are refused exactly if they stand for no command. -/
theorem isRefused_iff {name rest : String} :
    IsRefused name rest ↔ ofName? name (argumentOf rest.toList) = none := by
  cases h : argumentOf rest.toList with
  | none =>
    have hblank := argumentOf_eq_none_iff_allBlank.1 h
    rw [ofName?_none_eq_none_iff]
    constructor
    · intro hrefused
      rcases hrefused with hother | ⟨hgiven, -⟩ | ⟨-, hno⟩
      · exact .inl hother
      · exact .inr hgiven
      · rw [hblank] at hno
        cases hno
    · intro hname
      rcases hname with hother | hgiven
      · exact .unknown hother
      · exact .missing hgiven hblank
  | some text =>
    have hblank : allBlank rest = false := by
      rw [Bool.eq_false_iff]
      intro hyes
      rw [argumentOf_eq_none_iff_allBlank.2 hyes] at h
      cases h
    rw [ofName?_some_eq_none_iff]
    constructor
    · intro hrefused
      rcases hrefused with hother | ⟨-, hyes⟩ | ⟨hbare, -⟩
      · exact .inl hother
      · rw [hblank] at hyes
        cases hyes
      · exact .inr hbare
    · intro hname
      rcases hname with hother | hbare
      · exact .unknown hother
      · exact .extra hbare hblank

/-- A name and a trimmed text stand only for commands that lines ask for. -/
theorem isWritable_of_ofName? {name : String} {argument : Option String} {c : Command}
    (h : ofName? name argument = some c)
    (hargument : ∀ text, argument = some text → Trimmed text.toList) : c.IsWritable := by
  unfold ofName? at h
  split at h <;> cases h
  any_goals trivial
  · exact hargument _ rfl
  · exact hargument _ rfl
  · cases argument with
    | none => trivial
    | some start => exact hargument start rfl

/-! ### Reading lines of commands -/

section
variable {between after : String} (hne : between ≠ "") (hbetween : allBlank between = true)
  (hafter : allBlank after = true)
include hne hbetween hafter

theorem parse_named {name : String} {argument : Option String} {c : Command}
    (hname : name.toList.all (fun c => !isBlank c) = true)
    (hargument : ∀ text, argument = some text → Trimmed text.toList)
    (hc : ofName? name argument = some c) : parse (named between after name argument) = .ok c := by
  have hafter := List.all_eq_true.1 hafter
  cases argument with
  | none =>
    have hstops : Stops (fun c => !isBlank c) after.toList := by
      intro c hc
      simp [hafter c (List.mem_of_head? hc)]
    rw [named, parse_command hname hstops, argumentOf_of_blank hafter, hc, Option.elim_some]
  | some text =>
    refine parse_argument hname ?_ (by simpa using hne) (List.all_eq_true.1 hbetween)
      (hargument text rfl) hafter (by rwa [String.ofList_toList])
    rw [String.toList_append, String.toList_append]

/-- The line of a command is read back, whatever the blanks around what it is given. -/
theorem parse_spelled {c : Command} (h : c.IsWritable) :
    parse (c.spelled between after) = .ok c := by
  have given : ∀ {text : String}, Trimmed text.toList →
      ∀ t, some text = some t → Trimmed t.toList := by
    intro text h t ht
    cases ht
    exact h
  have bare : ∀ t : String, none = some t → Trimmed t.toList := nofun
  cases c with
  | query text =>
    obtain ⟨hblank, hcolon, hend⟩ := h
    rw [spelled, parse_query hend hcolon, hblank]
    rfl
  | nothing => exact parse_blank hafter
  | suggest start =>
    rw [spelled]
    cases start with
    | none => exact parse_named hne hbetween hafter (by decide) bare rfl
    | some start => exact parse_named hne hbetween hafter (by decide) (given h) rfl
  | setDocument | load =>
    rw [spelled]
    exact parse_named hne hbetween hafter (by decide) (given h) rfl
  | _ =>
    rw [spelled]
    exact parse_named hne hbetween hafter (by decide) bare rfl

end

/-! ### All lines -/

/-- A line that does not start with a colon is never refused. -/
theorem exists_of_not_colon {line : String} (h : line.toList.head? ≠ some ':') :
    ∃ c, parse line = .ok c ∧ c.IsWritable := by
  obtain ⟨text, ends, hline, hends, hlast⟩ := exists_ends isLineEnd line.toList
  have hsplit : line = String.ofList text ++ String.ofList ends := by
    rw [← String.ofList_append, ← hline, String.ofList_toList]
  have hend : ∀ c ∈ (String.ofList text).toList.getLast?, isLineEnd c = false := by
    rwa [String.toList_ofList]
  have hcolon : (String.ofList text).toList.head? ≠ some ':' := by
    rw [String.toList_ofList]
    intro he
    rw [hline, List.head?_append, he] at h
    exact h rfl
  have hparse := parse_query hend hcolon
  have hall : (String.ofList ends).toList.all isLineEnd = true := by simpa using hends
  rw [← parse_append_lineEnds _ hall, ← hsplit] at hparse
  refine ⟨_, hparse, ?_⟩
  split
  · trivial
  · rename_i hblank
    exact ⟨Bool.eq_false_iff.2 hblank, hcolon, hend⟩

/-- A line that starts with a colon goes on with a name up to the first blank. -/
theorem exists_name_of_colon {line : String} (h : line.toList.head? = some ':') :
    ∃ name rest : String, line = ":" ++ (name ++ rest) ∧
      name.toList.all (fun c => !isBlank c) = true ∧ Stops (fun c => !isBlank c) rest.toList := by
  obtain ⟨text, htext⟩ := List.head?_eq_some_iff.1 h
  obtain ⟨name, rest, rfl, hname, hrest⟩ := exists_scan (fun c => !isBlank c) text
  refine ⟨String.ofList name, String.ofList rest, ?_, ?_, ?_⟩
  · rw [← String.toList_inj, htext]
    simp
  · rwa [String.toList_ofList, List.all_eq_true]
  · rwa [String.toList_ofList]

/-- Lines ask only for commands that they can be written for. -/
theorem isWritable_of_parse {line : String} {c : Command} (h : parse line = .ok c) :
    c.IsWritable := by
  by_cases hcolon : line.toList.head? = some ':'
  · obtain ⟨name, rest, rfl, hname, hrest⟩ := exists_name_of_colon hcolon
    rw [parse_command hname hrest] at h
    cases hc : ofName? name (argumentOf rest.toList) with
    | none => simp [hc] at h
    | some c' =>
      obtain rfl : c' = c := by simpa [hc] using h
      exact isWritable_of_ofName? hc fun _ => argumentOf_eq_some
  · obtain ⟨c', hc', hwritable⟩ := exists_of_not_colon hcolon
    rw [h] at hc'
    cases hc'
    exact hwritable

theorem parse_eq_error_iff {line : String} {e : ConsoleError} :
    parse line = .error e ↔
      ∃ name rest : String, line = ":" ++ (name ++ rest) ∧
        name.toList.all (fun c => !isBlank c) = true ∧
        Stops (fun c => !isBlank c) rest.toList ∧ IsRefused name rest ∧
        e = .unknownCommand name := by
  constructor
  · intro h
    by_cases hcolon : line.toList.head? = some ':'
    · obtain ⟨name, rest, rfl, hname, hrest⟩ := exists_name_of_colon hcolon
      rw [parse_command hname hrest] at h
      cases hc : ofName? name (argumentOf rest.toList) with
      | none =>
        obtain rfl : ConsoleError.unknownCommand name = e := by simpa [hc] using h
        exact ⟨name, rest, rfl, hname, hrest, isRefused_iff.2 hc, rfl⟩
      | some c => simp [hc] at h
    · obtain ⟨c, hc, -⟩ := exists_of_not_colon hcolon
      rw [h] at hc
      cases hc
  · intro h
    obtain ⟨name, rest, rfl, hname, hrest, hrefused, rfl⟩ := h
    rw [parse_command hname hrest, isRefused_iff.1 hrefused, Option.elim_none]

/-- **Lines are read exactly.** What a line asks for can be written as a line again, and
that line is read back with any ends of lines behind it; every command that can be written
is read from its line with any blanks around what it is given; and a line is refused
exactly if it starts with a colon and the name behind it is unknown, or lacks what it
needs, or has something behind it that it does not take. That name is what the refusal
tells. -/
theorem parse_line :
    (∀ text c, parse text = .ok c →
      c.IsWritable ∧
        ∀ ends, ends.toList.all isLineEnd = true → parse (c.line ++ ends) = .ok c) ∧
    (∀ c : Command, c.IsWritable → ∀ between after, between ≠ "" → allBlank between = true →
      allBlank after = true → parse (c.spelled between after) = .ok c) ∧
    ∀ text e, parse text = .error e ↔
      ∃ name rest : String, text = ":" ++ (name ++ rest) ∧
        name.toList.all (fun c => !isBlank c) = true ∧
        Stops (fun c => !isBlank c) rest.toList ∧ IsRefused name rest ∧
        e = .unknownCommand name := by
  refine ⟨fun text c h => ?_, fun c h between after hne hb ha => parse_spelled hne hb ha h,
    fun text e => parse_eq_error_iff⟩
  have hc := isWritable_of_parse h
  refine ⟨hc, fun ends hends => ?_⟩
  rw [parse_append_lineEnds _ hends]
  exact parse_spelled (by decide) (by decide) (by decide) hc

/-- A document between other blanks than those of its line, and a name that takes nothing
before a space that does not break. -/
theorem parse_line_document :
    let c := setDocument "[1,\t2]"
    parse ":doc\t  [1,\t2] \r\n" = .ok c ∧ c.IsWritable ∧ c.line = ":doc [1,\t2]" ∧
      parse (c.line ++ "\n\r") = .ok c ∧ c.spelled "\t" " \n" = ":doc\t[1,\t2] \n" ∧
      parse (c.spelled "\t" " \n") = .ok c ∧
      parse ":show\u00a0x\r\n" = .error (.unknownCommand "show") := by
  intro c
  obtain ⟨accepted, written, refused⟩ := parse_line
  have hparse : parse ":doc\t  [1,\t2] \r\n" = .ok c := rfl
  obtain ⟨hc, back⟩ := accepted _ c hparse
  refine ⟨hparse, hc, rfl, back "\n\r" (by decide), rfl,
    written c hc "\t" " \n" (by decide) (by decide) (by decide), ?_⟩
  refine (refused _ _).2 ⟨"show", "\u00a0x\r\n", rfl, by decide, ?_, ?_, rfl⟩
  · intro d hd
    cases hd
    decide
  · exact .extra (by decide) (by decide)

end DotQuery.Command
