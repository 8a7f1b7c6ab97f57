import DotQuery.Proofs.Console.Commands
import DotQuery.Proofs.Console.Operations
import DotQuery.Proofs.Session.Candidates

/-! Suggestions typed as lines.

A line is a query by its first character, whatever the document holds. So a suggestion
that starts with a colon is not run when it is typed, but taken for a command; every
other one that is not blank and fits on a line is run like the query it is. -/
namespace DotQuery
open Text

namespace Command

/-- A text that does not start with a colon and fits on a line is a query as it is, unless
it is blank. -/
theorem parse_plain {line : String} (hend : ∀ c ∈ line.toList, isLineEnd c = false)
    (hcolon : line.toList.head? ≠ some ':') :
    parse line = .ok (if allBlank line then .nothing else .query line) :=
  parse_query (fun c hc => hend c (List.mem_of_getLast? hc)) hcolon

end Command

namespace Console
open Command

/-- **A suggestion that does not start with a colon can be typed as a line**, if it is
not blank and fits on one. It is run as a query: it is found, its entry is printed and
logged, and the console reads on with its document as it was. -/
theorem handleLine_suggestion (files : Files) {s : Session} (hs : Reachable s)
    {candidate : String} (h : candidate ∈ s.document.suggestions)
    (hblank : allBlank candidate = false) (hreturn : '\r' ∉ candidate.toList)
    (hnewline : '\n' ∉ candidate.toList) (hcolon : candidate.toList.head? ≠ some ':') :
    ∃ u, s.evaluate candidate = .ok (some u) ∧
      ∃ e : Entry, e = ⟨candidate, u.pretty, .found⟩ ∧
        handleLine files s candidate =
          ⟨printed e.display, .proceed, { s with log := s.log.append e }⟩ := by
  obtain ⟨o, ops, rfl⟩ := hs.exists_after
  obtain ⟨u, hu⟩ := Session.exists_found_of_mem_suggestions h
  refine ⟨u, hu, _, rfl, ?_⟩
  have hend : ∀ c ∈ candidate.toList, Command.isLineEnd c = false := by
    intro c hc
    exact isLineEnd_eq_false (fun he => hreturn (he ▸ hc)) (fun he => hnewline (he ▸ hc))
  rw [handleLine, Command.parse_plain hend hcolon, hblank]
  show runQuery _ candidate = _
  rw [runQuery, Session.submit_found hblank hu]
  rfl

/-- In the document that a line has set, a key with a blank and one that starts with a
colon are run as one path. -/
theorem handleLine_suggestion_nested :
    let files := Files.ofDirectory []
    let line := ":doc \x7b\"a b\": \x7b\":q\": 1\x7d\x7d"
    let s := (handleLine files (Session.start {}) line).session
    Reachable s ∧ "a b.:q" ∈ s.document.suggestions ∧
      ∃ u, s.evaluate "a b.:q" = .ok (some u) ∧
        ∃ e : Entry, e = ⟨"a b.:q", u.pretty, .found⟩ ∧
          handleLine files s "a b.:q" =
            ⟨printed e.display, .proceed, { s with log := s.log.append e }⟩ := by
  intro files line s
  have hreach : Reachable s := .line files line (reachable_start {})
  have hline : operationsOfLine files line =
      [.setText "\x7b\"a b\": \x7b\":q\": 1\x7d\x7d"] := by
    decide +kernel
  have hs : s.document.suggestions = ["a b", "a b.:q"] := by
    rw [show s = _ from handleLine_session files (Session.start {}) line, hline]
    decide +kernel
  have hmem : "a b.:q" ∈ s.document.suggestions := by simp [hs]
  exact ⟨hreach, hmem, handleLine_suggestion files hreach hmem (by decide) (by decide)
    (by decide) (by decide)⟩

/-- A key that starts with a colon is suggested and found, and yet ends the run when it
is typed. -/
theorem colon_suggestion_not_run :
    let s := Session.start ⟨some "\x7b\":q\": 1\x7d", false⟩
    Reachable s ∧ ":q" ∈ s.document.suggestions ∧
      s.evaluate ":q" = .ok (some (.number (.integer 1))) ∧
      allBlank ":q" = false ∧ '\r' ∉ ":q".toList ∧ '\n' ∉ ":q".toList ∧
      handleLine (Files.ofDirectory []) s ":q" = ⟨"", .stop, s⟩ := by
  intro s
  have hs : s.document.suggestions = [":q"] := by decide +kernel
  have hcommand : Command.parse ":q" = .ok .quit := by decide +kernel
  have hfound : s.evaluate ":q" = .ok (some (.number (.integer 1))) := by with_unfolding_all rfl
  refine ⟨reachable_start _, by simp [hs], hfound, by decide, by decide, by decide, ?_⟩
  rw [handleLine, hcommand]
  rfl

end Console
end DotQuery
