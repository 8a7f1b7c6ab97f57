import DotQuery.Proofs.Document.RoundTrip
import DotQuery.Proofs.Session.Runs
import DotQuery.Proofs.Suggestions.Membership

/-! Suggestions run as queries.

A suggestion of a session is found in its document, so to run it shows a value. One
kind is passed over: a key of blanks alone is a path like any other key, and is
suggested without an anchor, but it is a blank query. -/
namespace DotQuery
open Text Json

namespace Suggestions

variable {v : Value} {s : String}

theorem exists_found_of_mem {anchored : Bool} (h : v.DistinctKeys) (hs : s ∈ ofValue anchored v) :
    ∃ u, evaluate (some v) s = .ok (some u) := by
  cases anchored with
  | false =>
    rw [ofValue_false, mem_listing_iff h] at hs
    obtain ⟨_, u, _, _, _, hu⟩ := hs
    exact ⟨u, hu⟩
  | true =>
    rw [ofValue_true, List.mem_map] at hs
    obtain ⟨t, ht, rfl⟩ := hs
    have hnames := (mem_listing_iff h t).1 ht
    obtain ⟨_, u, _, _, _, hu⟩ := id hnames
    exact ⟨u, by rw [evaluate_anchored hnames, hu]⟩

/-- The sign of the root is not blank. -/
theorem allBlank_of_mem_anchored (hs : s ∈ ofValue true v) : allBlank s = false := by
  rw [ofValue_true, List.mem_map] at hs
  obtain ⟨t, _, rfl⟩ := hs
  have hsign : isBlank '$' = false := by decide
  simp [allBlank, hsign]

end Suggestions

namespace Session

/-! ### Queries that are found -/

variable {s : Session} {query : String}

/-- A query that finds a value shows that value. -/
theorem submit_found {u : Value} (h : allBlank query = false)
    (hu : s.evaluate query = .ok (some u)) :
    s.submit query =
      (some ⟨query, u.pretty, .found⟩,
        { s with log := s.log.append ⟨query, u.pretty, .found⟩ }) := by
  have hentry : entryOf? s.document.value query = some ⟨query, u.pretty, .found⟩ := by
    unfold evaluate at hu
    simp [entryOf?, h, entryOf, hu, render]
  rw [submit_eq, hentry]
  rfl

/-! ### The suggestions of a session -/

theorem distinctKeys_of_valueOf {o : Options} {recent : List Operation} {v : Value}
    (h : valueOf o recent = some v) : v.DistinctKeys := by
  obtain ⟨_, _, _, _, hparse, _⟩ := Document.lastValue?_eq_some_iff.1 h
  exact Document.distinctKeys_of_parse hparse

theorem suggestions_after (o : Options) (ops : List Operation) :
    ((start o).after ops).document.suggestions =
      Document.suggestionsOf o.anchored (valueOf o (sinceReset ops)) := by
  rw [after_start]
  exact (Document.reflects_after o.anchored (textsOf o (sinceReset ops))).suggestions_eq

section
variable {o : Options} {ops : List Operation} {candidate : String}
  (h : candidate ∈ ((start o).after ops).document.suggestions)
include h

/-- Where there are suggestions there is a document, and they are its own. -/
theorem exists_value_of_mem_suggestions :
    ∃ v, ((start o).after ops).document.value = some v ∧ v.DistinctKeys ∧
      candidate ∈ Suggestions.ofValue o.anchored v := by
  rw [suggestions_after] at h
  cases hv : valueOf o (sinceReset ops) with
  | none =>
    rw [hv] at h
    cases h
  | some v =>
    rw [hv] at h
    exact ⟨v, by rw [after_start, value_ofRecent, hv], distinctKeys_of_valueOf hv, h⟩

theorem exists_found_of_mem_suggestions :
    ∃ u, ((start o).after ops).evaluate candidate = .ok (some u) := by
  obtain ⟨v, hv, hkeys, hc⟩ := exists_value_of_mem_suggestions h
  rw [evaluate, hv]
  exact Suggestions.exists_found_of_mem hkeys hc

theorem not_anchored_of_blank (hblank : allBlank candidate = true) : o.anchored = false := by
  obtain ⟨v, _, _, hc⟩ := exists_value_of_mem_suggestions h
  cases ho : o.anchored with
  | false => rfl
  | true =>
    rw [ho] at hc
    rw [Suggestions.allBlank_of_mem_anchored hc] at hblank
    cases hblank

end

/-- **A suggestion that is not blank can be run as a query.** It is found, and running it
logs one entry that shows what it names. A blank suggestion, which only a session
without an anchor has, is passed over like every blank query. -/
theorem submit_suggestion (o : Options) (ops : List Operation) (candidate : String)
    (h : candidate ∈ ((start o).after ops).document.suggestions) :
    ∃ u, ((start o).after ops).evaluate candidate = .ok (some u) ∧
      (allBlank candidate = false →
        ((start o).after ops).submit candidate =
          (some ⟨candidate, u.pretty, .found⟩,
            { (start o).after ops with
              log := ((start o).after ops).log.append ⟨candidate, u.pretty, .found⟩ })) ∧
      (allBlank candidate = true →
        o.anchored = false ∧
          ((start o).after ops).submit candidate = (none, (start o).after ops)) := by
  obtain ⟨u, hu⟩ := exists_found_of_mem_suggestions h
  exact ⟨u, hu, fun hblank => submit_found hblank hu,
    fun hblank => ⟨not_anchored_of_blank h hblank, submit_blank hblank⟩⟩

/-- Behind an anchor, after an edit that does not parse, a nested key is run. -/
theorem submit_suggestion_nested :
    let o : Options := ⟨some "\x7b\"a\": \x7b\" \": [1]\x7d\x7d", true⟩
    let s := (start o).after [.submit "$", .setText "\x7b"]
    "$.a. " ∈ s.document.suggestions ∧
      ∃ u, s.evaluate "$.a. " = .ok (some u) ∧
        s.submit "$.a. " =
          (some ⟨"$.a. ", u.pretty, .found⟩,
            { s with log := s.log.append ⟨"$.a. ", u.pretty, .found⟩ }) := by
  intro o s
  have hs : s.document.suggestions = ["$.a", "$.a. "] := by decide +kernel
  have hmem : "$.a. " ∈ s.document.suggestions := by simp [hs]
  obtain ⟨u, hu, hsubmit, -⟩ := submit_suggestion o [.submit "$", .setText "\x7b"] "$.a. " hmem
  exact ⟨hmem, u, hu, hsubmit (by decide)⟩

/-- A key of blanks is suggested and found, and yet not run. -/
theorem blank_suggestion_not_run :
    let s := start ⟨some "\x7b\" \": 1\x7d", false⟩
    " " ∈ s.document.suggestions ∧ s.evaluate " " = .ok (some (.number (.integer 1))) ∧
      s.submit " " = (none, s) := by
  intro s
  have hs : s.document.suggestions = [" "] := by decide +kernel
  have hfound : s.evaluate " " = .ok (some (.number (.integer 1))) := by with_unfolding_all rfl
  refine ⟨by simp [hs], hfound, submit_blank (by decide)⟩

end Session
end DotQuery
