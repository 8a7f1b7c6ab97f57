import DotQuery.Document

/-! What a history of texts leaves in a document.

The value and the suggestions come from the last text that parsed (`lastValue?`), the
text and the error from the latest one. `history` is this after every text of every
history, with what the call answers; so histories that agree in those two leave the same
document (`after_eq_of_lastValue?`). -/
namespace DotQuery.Document
open Json

/-- The document after taking the texts, one by one. -/
def after (d : Document) : List String → Document
  | [] => d
  | text :: texts => after (d.setText text).2 texts

theorem after_append (d : Document) (a b : List String) : d.after (a ++ b) = (d.after a).after b := by
  induction a generalizing d with
  | nil => rfl
  | cons text a ih => exact ih _

/-- The value of the last text that parsed. -/
def lastValue? (texts : List String) : Option Value :=
  texts.reverse.findSome? fun text => (parse text).toOption

theorem lastValue?_append_one (texts : List String) (text : String) :
    lastValue? (texts ++ [text]) = ((parse text).toOption.or (lastValue? texts)) := by
  rw [lastValue?, List.reverse_append, List.reverse_singleton, List.singleton_append,
    List.findSome?_cons]
  cases (parse text).toOption <;> rfl

theorem toOption_eq_some_iff {text : String} {v : Value} :
    (parse text).toOption = some v ↔ parse text = .ok v := by
  cases parse text <;> simp [Except.toOption]

theorem toOption_eq_none_iff {text : String} :
    (parse text).toOption = none ↔ ∃ e, parse text = .error e := by
  cases parse text <;> simp [Except.toOption]

/-- Only texts that do not parse stand behind the last text that parsed. -/
theorem lastValue?_eq_some_iff {texts : List String} {v : Value} :
    lastValue? texts = some v ↔
      ∃ earlier text later, texts = earlier ++ text :: later ∧ parse text = .ok v ∧
        ∀ t ∈ later, ∃ e, parse t = .error e := by
  rw [lastValue?, List.findSome?_eq_some_iff]
  constructor
  · intro h
    obtain ⟨later, text, earlier, hsplit, hv, hlater⟩ := h
    refine ⟨earlier.reverse, text, later.reverse, ?_, toOption_eq_some_iff.1 hv, fun t ht => ?_⟩
    · rw [← texts.reverse_reverse, hsplit, List.reverse_append, List.reverse_cons,
        List.append_assoc, List.singleton_append]
    · exact toOption_eq_none_iff.1 (hlater t (List.mem_reverse.1 ht))
  · intro h
    obtain ⟨earlier, text, later, rfl, hv, hlater⟩ := h
    refine ⟨later.reverse, text, earlier.reverse, ?_, toOption_eq_some_iff.2 hv, fun t ht => ?_⟩
    · rw [List.reverse_append, List.reverse_cons, List.append_assoc, List.singleton_append]
    · exact toOption_eq_none_iff.2 (hlater t (List.mem_reverse.1 ht))

/-- The suggestions of a value, none where there is no value. -/
def suggestionsOf (anchored : Bool) : Option Value → List String
  | some v => Suggestions.ofValue anchored v
  | none => []

/-! ### One call -/

/-- The document behind a call with the text `latest`, where `last?` is the value of the
last text that parsed. -/
def ofLast (anchored : Bool) (last? : Option Value) (latest : String) : Document where
  text := match parse latest with
    | .ok v => v.pretty
    | .error _ => latest
  value := last?
  error := match parse latest with
    | .ok _ => none
    | .error e => some e
  suggestions := suggestionsOf anchored last?
  anchored := anchored

/-- The part of a document that only a text that parses changes. -/
structure Reflects (anchored : Bool) (last? : Option Value) (d : Document) : Prop where
  anchored_eq : d.anchored = anchored
  value_eq : d.value = last?
  suggestions_eq : d.suggestions = suggestionsOf anchored last?

theorem reflects_empty (anchored : Bool) : Reflects anchored none (empty anchored) :=
  ⟨rfl, rfl, rfl⟩

theorem reflects_ofLast (anchored : Bool) (last? : Option Value) (latest : String) :
    Reflects anchored last? (ofLast anchored last? latest) :=
  ⟨rfl, rfl, rfl⟩

/-- A text that parses replaces the value and the suggestions, any other one leaves them. -/
theorem Reflects.setText_eq {anchored : Bool} {last? : Option Value} {d : Document}
    (h : Reflects anchored last? d) (latest : String) :
    d.setText latest =
      (parse latest, ofLast anchored ((parse latest).toOption.or last?) latest) := by
  obtain ⟨rfl, rfl, hsuggestions⟩ := h
  unfold Document.setText ofLast
  cases parse latest with
  | ok v => rfl
  | error e =>
    dsimp only [Except.toOption, Option.none_or]
    rw [← hsuggestions]

/-! ### Histories -/

theorem reflects_after (anchored : Bool) (texts : List String) :
    Reflects anchored (lastValue? texts) ((empty anchored).after texts) := by
  suffices h : ∀ past d, Reflects anchored (lastValue? past) d →
      Reflects anchored (lastValue? (past ++ texts)) (d.after texts) from
    h [] _ (reflects_empty anchored)
  induction texts with
  | nil =>
    intro past d hd
    rw [List.append_nil]
    exact hd
  | cons text texts ih =>
    intro past d hd
    have hnext : Reflects anchored (lastValue? (past ++ [text])) (d.setText text).2 := by
      rw [hd.setText_eq, lastValue?_append_one]
      exact reflects_ofLast anchored _ text
    have := ih (past ++ [text]) _ hnext
    rwa [List.append_assoc, List.singleton_append] at this

theorem setText_after (anchored : Bool) (earlier : List String) (latest : String) :
    ((empty anchored).after earlier).setText latest =
      (parse latest, ofLast anchored (lastValue? (earlier ++ [latest])) latest) := by
  rw [(reflects_after anchored earlier).setText_eq, lastValue?_append_one]

/-- **The state of a document after every call.** The value is that of the last text that
parsed, and the suggestions are those of this value. A text that parses leaves no error
and its indented text; any other one leaves its own error and stays as it is. The call
answers with the value or the error of its text, and the rest of the history is
forgotten. -/
theorem history (anchored : Bool) (earlier : List String) (latest : String) :
    ∃ d, ((empty anchored).after earlier).setText latest = (parse latest, d) ∧
      d.value = lastValue? (earlier ++ [latest]) ∧
      d.suggestions = suggestionsOf anchored (lastValue? (earlier ++ [latest])) ∧
      (∀ v, parse latest = .ok v → d.value = some v ∧ d.error = none ∧ d.text = v.pretty) ∧
      (∀ e, parse latest = .error e → d.error = some e ∧ d.text = latest) ∧
      ∀ other, lastValue? (other ++ [latest]) = lastValue? (earlier ++ [latest]) →
        ((empty anchored).after other).setText latest = (parse latest, d) := by
  refine ⟨ofLast anchored (lastValue? (earlier ++ [latest])) latest,
    setText_after anchored earlier latest, rfl, rfl, fun v hv => ⟨?_, ?_, ?_⟩,
    fun e he => ⟨?_, ?_⟩, fun other hother => ?_⟩
  · show lastValue? (earlier ++ [latest]) = some v
    rw [lastValue?_append_one, hv]
    rfl
  · simp only [ofLast, hv]
  · simp only [ofLast, hv]
  · simp only [ofLast, he]
  · simp only [ofLast, he]
  · rw [setText_after, hother]

end DotQuery.Document
