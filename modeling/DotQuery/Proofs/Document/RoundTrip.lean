import DotQuery.Document
import DotQuery.Proofs.Json.RoundTrip

/-! Reading and printing a document.

The values that a text can be are the well-formed ones: no mapping has a key twice, and
every integer is in the range that is kept exactly. For these, printing and reading
again gives the value back, so a text that was printed is printed again as it is
(`round_trip`). -/
namespace DotQuery.Document
open Json

/-- The indented text of the value of a text. -/
def reprint (text : String) : Except DocumentError String :=
  (parse text).map Value.pretty

theorem parse_eq_ok_iff {text : String} {v : Value} :
    parse text = .ok v ↔ Json.parse text = .ok v := by
  unfold parse
  cases Json.parse text with
  | error e => exact ⟨fun h => (nomatch h), fun h => (nomatch h)⟩
  | ok u => exact ⟨fun h => by cases h; rfl, fun h => by cases h; rfl⟩

theorem wellFormed_of_parse {text : String} {v : Value} (h : parse text = .ok v) :
    v.WellFormed :=
  parse_wellFormed (parse_eq_ok_iff.1 h)

/-- No mapping of a document has a key twice. -/
theorem distinctKeys_of_parse {text : String} {v : Value} (h : parse text = .ok v) :
    v.DistinctKeys :=
  (wellFormed_of_parse h).distinctKeys

theorem parse_pretty {v : Value} (h : v.WellFormed) : parse v.pretty = .ok v :=
  parse_eq_ok_iff.2 (parse_layout h)

theorem reprint_of_parse {text : String} {v : Value} (h : parse text = .ok v) :
    reprint text = .ok v.pretty := by
  rw [reprint, h]
  rfl

/-- **Printing a value and reading it again gives it back.** The values that a text can
be are the well-formed ones; the text of each is read as it, and is printed again as it
is. -/
theorem round_trip (v : Value) :
    ((∃ text, parse text = .ok v) ↔ v.WellFormed) ∧
    ∀ text, parse text = .ok v →
      parse v.pretty = .ok v ∧ reprint text = .ok v.pretty ∧
        reprint v.pretty = .ok v.pretty := by
  have hwell : ∀ text, parse text = .ok v → v.WellFormed := fun text h =>
    parse_wellFormed (parse_eq_ok_iff.1 h)
  refine ⟨⟨fun ⟨text, h⟩ => hwell text h, fun h => ⟨v.pretty, parse_pretty h⟩⟩, fun text h => ?_⟩
  have hback := parse_pretty (hwell text h)
  exact ⟨hback, reprint_of_parse h, reprint_of_parse hback⟩

/-- The greatest integer, a key that is a quote, a control character and an empty
mapping come back, in the order in which they were read. -/
theorem round_trip_nested :
    ∃ v, parse "\x7b\"\\\"\": [18446744073709551615,\"\\u0007\"],\n\"a\":\x7b\x7d\x7d" = .ok v ∧
      v.keys = ["\"", "a"] ∧ parse v.pretty = .ok v ∧ reprint v.pretty = .ok v.pretty := by
  refine ⟨.mapping [("\"", .list [.number (.integer greatestInteger), .string "\x07"]),
    ("a", .mapping [])], ?_⟩
  have hparse : parse "\x7b\"\\\"\": [18446744073709551615,\"\\u0007\"],\n\"a\":\x7b\x7d\x7d" =
      .ok (.mapping [("\"", .list [.number (.integer greatestInteger), .string "\x07"]),
        ("a", .mapping [])]) := by
    with_unfolding_all rfl
  obtain ⟨hback, -, hagain⟩ := (round_trip _).2 _ hparse
  exact ⟨hparse, rfl, hback, hagain⟩

end DotQuery.Document
