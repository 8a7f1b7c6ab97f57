import DotQuery.Json.Scalar
import DotQuery.Proofs.Json.NumberText

/-! What is read of a number.

A reader takes a front of its text, and nothing behind that front decides what it reads,
as long as no number is continued there (`IsLocal`). The readers of the parts of a number
are local, one by one, and so is the reader of a number (`isLocal_readNumber`). -/
namespace DotQuery.Json
open Text

/-! ### Fronts -/

/-- The text may stand where `rest` stood: it starts alike, or with nothing that a number
would be read on with. -/
def Replaces (other rest : List Char) : Prop :=
  other.head? = rest.head? ∨ Stops continuesNumber other

/-- The reader takes `front` for `a` before `rest` and whatever may replace it. -/
def ReadsFront {α : Type} (read : List Char → Except Fault (α × List Char)) (front : List Char)
    (a : α) (rest : List Char) : Prop :=
  ∀ other, Replaces other rest → read (front ++ other) = .ok (a, other)

/-- The reader takes a front of the text, which is empty or ends with a character of the
class, for `a`. -/
def Takes {α : Type} (p : Char → Bool) (read : List Char → Except Fault (α × List Char))
    (s : List Char) (a : α) (rest : List Char) : Prop :=
  ∃ front, s = front ++ rest ∧ EndsIn p front ∧ ReadsFront read front a rest

/-- Whatever the reader reads is decided by the front that it takes. -/
def IsLocal {α : Type} (p : Char → Bool) (read : List Char → Except Fault (α × List Char)) : Prop :=
  ∀ s a rest, read s = .ok (a, rest) → Takes p read s a rest

section
variable {other rest : List Char} (h : Replaces other rest)
include h

/-- Behind a common front one text replaces the other all the more. -/
theorem Replaces.append (front : List Char) : Replaces (front ++ other) (front ++ rest) := by
  cases front with
  | nil => exact h
  | cons c front => exact .inl rfl

theorem Replaces.stops {p : Char → Bool} (hp : ∀ c, p c = true → continuesNumber c = true)
    (hrest : Stops p rest) : Stops p other := by
  intro c hc
  rcases h with hsame | hstops
  · exact hrest c (hsame ▸ hc)
  · exact Bool.eq_false_iff.2 fun hpc => Bool.eq_false_iff.1 (hstops c hc) (hp c hpc)

theorem Replaces.stops_isDigit (hrest : Stops Char.isDigit rest) : Stops Char.isDigit other :=
  h.stops (fun c hc => by simp [continuesNumber, hc]) hrest

end

section
variable {α β : Type} {p q : Char → Bool}

theorem isLocal_ok (a : α) : IsLocal p fun s => .ok (a, s) := by
  rintro s _ rest ⟨⟩
  exact ⟨[], rfl, endsIn_nil, fun other _ => rfl⟩

theorem IsLocal.imp {read : List Char → Except Fault (α × List Char)} (h : IsLocal p read)
    (hpq : ∀ c, p c = true → q c = true) : IsLocal q read := by
  intro s a rest hread
  obtain ⟨front, hs, hlast, hfront⟩ := h s a rest hread
  exact ⟨front, hs, fun c hc => hpq c (hlast c hc), hfront⟩

/-- One reader behind the other takes the two fronts. -/
theorem IsLocal.bind {read : List Char → Except Fault (α × List Char)}
    {next : α → List Char → Except Fault (β × List Char)}
    {both : List Char → Except Fault (β × List Char)} (h : IsLocal p read)
    (hnext : ∀ a, IsLocal p (next a)) (herror : ∀ s f, read s = .error f → both s = .error f)
    (hok : ∀ s a rest, read s = .ok (a, rest) → both s = next a rest) : IsLocal p both := by
  intro s b rest hboth
  cases hread : read s with
  | error f =>
    rw [herror s f hread] at hboth
    cases hboth
  | ok r =>
    obtain ⟨a, middle⟩ := r
    rw [hok s a middle hread] at hboth
    obtain ⟨front, rfl, hlast, hfront⟩ := h s a middle hread
    obtain ⟨more, rfl, hmore, hbehind⟩ := hnext a middle b rest hboth
    refine ⟨front ++ more, (List.append_assoc _ _ _).symm, hlast.append hmore, fun other hother => ?_⟩
    rw [List.append_assoc, hok _ a _ (hfront _ (hother.append more))]
    exact hbehind other hother

/-- What is left is no longer than the text. -/
theorem IsLocal.ne_cons {read : List Char → Except Fault (α × List Char)} (h : IsLocal p read)
    (c : Char) (s : List Char) (a : α) : read s ≠ .ok (a, c :: s) := by
  intro hread
  obtain ⟨front, hs, -⟩ := h s a _ hread
  have hlength := congrArg List.length hs
  rw [List.length_append, List.length_cons] at hlength
  omega

theorem IsLocal.map {read : List Char → Except Fault (α × List Char)} (h : IsLocal p read)
    (f : α → β) : IsLocal p fun s => (read s).map fun (a, rest) => (f a, rest) := by
  intro s b rest hread
  obtain ⟨⟨a, rest⟩, ha, he⟩ := map_eq_ok hread
  cases he
  obtain ⟨front, hs, hlast, hfront⟩ := h s a rest ha
  refine ⟨front, hs, hlast, fun other hother => ?_⟩
  dsimp only
  rw [hfront other hother]
  rfl

section
variable {read next : List Char → Except Fault (α × List Char)} {c : Char} {a : α}

/-- A reader that first takes a character that it knows. -/
theorem ReadsFront.cons {front rest : List Char} (h : ReadsFront next front a rest)
    (hread : ∀ s, read (c :: s) = next s) : ReadsFront read (c :: front) a rest := by
  intro other hother
  rw [List.cons_append, hread]
  exact h other hother

/-- Such a reader is as local as what it goes on with, if that takes something. -/
theorem IsLocal.takes_cons {s rest : List Char} (h : IsLocal p next)
    (hread : ∀ s, read (c :: s) = next s) (htakes : ∀ s a, next s ≠ .ok (a, s))
    (hok : read (c :: s) = .ok (a, rest)) : Takes p read (c :: s) a rest := by
  rw [hread] at hok
  obtain ⟨front, rfl, hlast, hfront⟩ := h s a rest hok
  refine ⟨c :: front, rfl, hlast.behind (fun hnil => ?_) [c], hfront.cons hread⟩
  subst hnil
  exact htakes _ _ hok

end
end

/-! ### The parts of a number -/

theorem spanDigits_eq {s digits rest : List Char} (h : spanDigits s = (digits, rest)) :
    s = digits ++ rest ∧ (∀ c ∈ digits, c.isDigit = true) ∧ Stops Char.isDigit rest := by
  obtain ⟨rfl, rfl⟩ := Prod.mk.inj h
  exact ⟨List.takeWhile_append_dropWhile.symm, fun c hc => List.mem_takeWhile_imp hc,
    dropWhile_stops _ s⟩

/-- What is read before the point are digits that may stand there. -/
theorem readWhole_eq_ok {s whole rest : List Char} (h : readWhole s = .ok (whole, rest)) :
    s = whole ++ rest ∧ IsWhole whole ∧ Stops Char.isDigit rest := by
  unfold readWhole at h
  split at h
  · cases h
  · split at h
    · cases h
      exact ⟨rfl, isWhole_zero, stops_nil⟩
    · split at h
      · cases h
      · rename_i hc
        cases h
        exact ⟨rfl, isWhole_zero, stops_cons (Bool.eq_false_iff.2 hc)⟩
  · split at h
    · rename_i c s hzero hc
      obtain ⟨hs, hd, hrest⟩ := spanDigits_eq (Except.ok.inj h)
      refine ⟨hs, ?_, hrest⟩
      cases whole with
      | nil =>
        rw [List.nil_append] at hs
        subst hs
        exact absurd hc (Bool.eq_false_iff.1 (hrest c rfl))
      | cons d digits =>
        obtain ⟨rfl, -⟩ := List.cons.inj hs
        exact isWhole_of_ne_zero hd hzero
    · cases h

theorem isLocal_readWhole : IsLocal Char.isDigit readWhole := by
  intro s whole rest h
  obtain ⟨hs, hwhole, hrest⟩ := readWhole_eq_ok h
  exact ⟨whole, hs, endsIn_of_all hwhole.isDigit, fun other hother =>
    readWhole_append hwhole (hother.stops_isDigit hrest)⟩

theorem isLocal_readFraction : IsLocal Char.isDigit readFraction := by
  intro s fraction rest h
  unfold readFraction at h
  split at h
  · rename_i s
    have hspan : spanDigits s = (fraction, rest) ∧ fraction ≠ [] := by
      split at h
      · cases h
      · cases h
      · rename_i hnil hcons hspan
        cases h
        refine ⟨hspan, fun he => ?_⟩
        cases rest with
        | nil => exact hnil he rfl
        | cons c rest => exact hcons c rest he rfl
    obtain ⟨rfl, hd, hrest⟩ := spanDigits_eq hspan.1
    obtain ⟨d, digits, rfl⟩ := List.exists_cons_of_ne_nil hspan.2
    refine ⟨'.' :: d :: digits, rfl, (endsIn_of_all hd).behind hspan.2 ['.'], fun other hother => ?_⟩
    show readFraction ('.' :: (d :: digits ++ other)) = _
    rw [readFraction, spanDigits_append_stops hd (hother.stops_isDigit hrest)]
  · rename_i hpoint
    cases h
    refine ⟨[], rfl, endsIn_nil, fun other hother => ?_⟩
    have hstops : Stops (· == '.') s := by
      intro c hc
      obtain ⟨t, rfl⟩ := List.head?_eq_some_iff.1 hc
      exact beq_false_of_ne fun he => hpoint t (by rw [he])
    have hother : Stops (· == '.') other := hother.stops (by simp [continuesNumber]) hstops
    show readFraction other = _
    unfold readFraction
    split
    · exact absurd (hother '.' rfl) (by decide)
    · rfl

theorem readExponentDigits_stops {s : List Char} (limited : Bool) (n : Nat)
    (h : Stops Char.isDigit s) : readExponentDigits limited n s = .ok (n, s) := by
  cases s with
  | nil => rfl
  | cons c s => rw [readExponentDigits, h c rfl, if_neg Bool.false_ne_true]

theorem isLocal_readExponentDigits (limited : Bool) (n : Nat) :
    IsLocal Char.isDigit (readExponentDigits limited n) := by
  intro s m rest h
  induction s generalizing n with
  | nil =>
    cases h
    exact ⟨[], rfl, endsIn_nil, fun other hother =>
      readExponentDigits_stops limited _ (hother.stops_isDigit stops_nil)⟩
  | cons c s ih =>
    rw [readExponentDigits] at h
    split at h
    · rename_i hc
      dsimp only at h
      split at h
      · cases h
      · rename_i hwithin
        obtain ⟨front, rfl, hlast, hfront⟩ := ih _ h
        refine ⟨c :: front, rfl, (endsIn_singleton hc).append hlast, hfront.cons fun s => ?_⟩
        rw [readExponentDigits, if_pos hc]
        exact if_neg hwithin
    · rename_i hc
      cases h
      exact ⟨[], rfl, endsIn_nil, fun other hother =>
        readExponentDigits_stops limited _
          (hother.stops_isDigit (stops_cons (Bool.eq_false_iff.2 hc)))⟩

/-- Behind its sign an exponent is read as digits, of which there is one at least. -/
def readMagnitude (negative limited : Bool) (s : List Char) : Except Fault (Int × List Char) :=
  match s with
  | [] => .error (.before .endInValue [])
  | c :: _ =>
    if c.isDigit then
      match readExponentDigits limited 0 s with
      | .error f => .error f
      | .ok (n, rest) => .ok (if negative then -(n : Int) else n, rest)
    else .error (.atNext .invalidNumber s)

theorem stops_of_readExponentDigits {limited : Bool} {n m : Nat} {s rest : List Char}
    (h : readExponentDigits limited n s = .ok (m, rest)) : Stops Char.isDigit rest := by
  induction s generalizing n with
  | nil =>
    cases h
    exact stops_nil
  | cons c s ih =>
    rw [readExponentDigits] at h
    split at h
    · dsimp only at h
      split at h
      · cases h
      · exact ih h
    · rename_i hc
      cases h
      exact stops_cons (Bool.eq_false_iff.2 hc)

theorem isLocal_readMagnitude (negative limited : Bool) :
    IsLocal Char.isDigit (readMagnitude negative limited) := by
  intro s e rest h
  unfold readMagnitude at h
  split at h
  · cases h
  · rename_i c s
    split at h
    · rename_i hc
      split at h
      · cases h
      · rename_i n rest hdigits
        cases h
        obtain ⟨front, hs, hlast, hfront⟩ := isLocal_readExponentDigits limited 0 _ _ _ hdigits
        refine ⟨front, hs, hlast, fun other hother => ?_⟩
        have hread := hfront other hother
        cases front with
        | nil =>
          rw [List.nil_append] at hs
          subst hs
          exact absurd hc (Bool.eq_false_iff.1 (stops_of_readExponentDigits hdigits c rfl))
        | cons d front =>
          obtain ⟨rfl, -⟩ := List.cons.inj hs
          rw [List.cons_append] at hread ⊢
          rw [readMagnitude, if_pos hc, hread]
    · cases h

theorem exists_digit_of_readMagnitude {negative limited : Bool} {s : List Char}
    {r : Int × List Char} (h : readMagnitude negative limited s = .ok r) :
    ∃ c t, s = c :: t ∧ c.isDigit = true := by
  unfold readMagnitude at h
  split at h
  · cases h
  · split at h
    · exact ⟨_, _, rfl, ‹_›⟩
    · cases h

/-- An exponent has a digit at least. -/
theorem readMagnitude_takes {negative limited : Bool} (s : List Char) (e : Int) :
    readMagnitude negative limited s ≠ .ok (e, s) := by
  intro h
  obtain ⟨c, t, rfl, hc⟩ := exists_digit_of_readMagnitude h
  rw [readMagnitude, if_pos hc] at h
  split at h
  · cases h
  · rename_i hdigits
    cases h
    exact absurd hc (Bool.eq_false_iff.1 (stops_of_readExponentDigits hdigits c rfl))

theorem readExponent_minus (allZero : Bool) (s : List Char) :
    readExponent allZero ('-' :: s) = readMagnitude true false s := rfl

theorem readExponent_plus (allZero : Bool) (s : List Char) :
    readExponent allZero ('+' :: s) = readMagnitude false (!allZero) s := rfl

theorem readExponent_unsigned (allZero : Bool) {s : List Char} (hminus : s.head? ≠ some '-')
    (hplus : s.head? ≠ some '+') : readExponent allZero s = readMagnitude false (!allZero) s := by
  unfold readExponent
  split
  rename_i hsign
  split at hsign
  · exact absurd rfl hminus
  · exact absurd rfl hplus
  · cases hsign
    rfl

theorem isLocal_readExponent (allZero : Bool) : IsLocal Char.isDigit (readExponent allZero) := by
  intro s e rest h
  by_cases hminus : s.head? = some '-'
  · obtain ⟨s, rfl⟩ := List.head?_eq_some_iff.1 hminus
    exact (isLocal_readMagnitude true false).takes_cons (readExponent_minus allZero)
      readMagnitude_takes h
  by_cases hplus : s.head? = some '+'
  · obtain ⟨s, rfl⟩ := List.head?_eq_some_iff.1 hplus
    exact (isLocal_readMagnitude false _).takes_cons (readExponent_plus allZero)
      readMagnitude_takes h
  · rw [readExponent_unsigned allZero hminus hplus] at h
    obtain ⟨front, hs, hlast, hfront⟩ := isLocal_readMagnitude _ _ _ _ _ h
    refine ⟨front, hs, hlast, fun other hother => ?_⟩
    have hread := hfront other hother
    -- What follows a sign is not one.
    obtain ⟨c, t, hc, hdigit⟩ := exists_digit_of_readMagnitude hread
    have hsign : ∀ d, d.isDigit = false → (front ++ other).head? ≠ some d := by
      intro d hd he
      rw [hc] at he
      cases he
      rw [hd] at hdigit
      cases hdigit
    rw [readExponent_unsigned allZero (hsign '-' (by decide)) (hsign '+' (by decide)), hread]

theorem readExponent_takes (allZero : Bool) (s : List Char) (e : Int) :
    readExponent allZero s ≠ .ok (e, s) := by
  by_cases hminus : s.head? = some '-'
  · obtain ⟨s, rfl⟩ := List.head?_eq_some_iff.1 hminus
    exact (isLocal_readMagnitude true false).ne_cons '-' s e
  by_cases hplus : s.head? = some '+'
  · obtain ⟨s, rfl⟩ := List.head?_eq_some_iff.1 hplus
    exact (isLocal_readMagnitude false _).ne_cons '+' s e
  · rw [readExponent_unsigned allZero hminus hplus]
    exact readMagnitude_takes s e

/-! ### Numbers -/

section
variable {p : Char → Bool}

theorem isLocal_floatNumber (negative : Bool) (digits : Nat) (exponent : Int) :
    IsLocal p (floatNumber negative digits exponent) := by
  unfold floatNumber
  split
  · exact isLocal_ok _
  · rintro s n rest ⟨⟩

end

theorem exponentMark?_eq_some {s t : List Char} (h : exponentMark? s = some t) :
    ∃ c, s = c :: t ∧ ∀ t, exponentMark? (c :: t) = some t := by
  unfold exponentMark? at h
  split at h
  · cases h
    exact ⟨'e', rfl, fun _ => rfl⟩
  · cases h
    exact ⟨'E', rfl, fun _ => rfl⟩
  · cases h

theorem exponentMark?_eq_none_iff {s : List Char} :
    exponentMark? s = none ↔ Stops (fun c => c == 'e' || c == 'E') s := by
  cases s with
  | nil => exact iff_of_true rfl stops_nil
  | cons c s =>
    by_cases he : c = 'e'
    · subst he
      exact iff_of_false (fun h => nomatch h) fun h => absurd (h 'e' rfl) (by decide)
    by_cases hE : c = 'E'
    · subst hE
      exact iff_of_false (fun h => nomatch h) fun h => absurd (h 'E' rfl) (by decide)
    · exact iff_of_true (by simp [exponentMark?, he, hE]) (stops_cons (by simp [he, hE]))

/-- Without an exponent nothing more is read of a number. -/
theorem exists_readEnd_eq (negative : Bool) (whole fraction : List Char) :
    ∃ next, IsLocal Char.isDigit next ∧
      ∀ s, exponentMark? s = none → readEnd negative whole fraction s = next s := by
  cases fraction with
  | nil =>
    cases hexact : exactInteger? negative (digitsValue whole) with
    | none =>
      exact ⟨_, isLocal_floatNumber negative (decimalOf whole []).1 (decimalOf whole []).2,
        fun s hs => by simp only [readEnd, hs, hexact]⟩
    | some n => exact ⟨_, isLocal_ok (.integer n), fun s hs => by simp only [readEnd, hs, hexact]⟩
  | cons c fraction =>
    exact ⟨_, isLocal_floatNumber negative (decimalOf whole (c :: fraction)).1
      (decimalOf whole (c :: fraction)).2, fun s hs => by simp only [readEnd, hs]⟩

theorem isLocal_readEnd (negative : Bool) (whole fraction : List Char) :
    IsLocal Char.isDigit (readEnd negative whole fraction) := by
  intro s n rest h
  cases hmark : exponentMark? s with
  | some t =>
    obtain ⟨c, rfl, hc⟩ := exponentMark?_eq_some hmark
    have hlocal : IsLocal Char.isDigit fun s => readEnd negative whole fraction (c :: s) :=
      (isLocal_readExponent ((decimalOf whole fraction).1 == 0)).bind
        (fun exponent => isLocal_floatNumber negative (decimalOf whole fraction).1
          (exponent + (decimalOf whole fraction).2))
        (fun s f h => by simp only [readEnd, hc, h])
        (fun s exponent rest h => by simp only [readEnd, hc, h])
    refine hlocal.takes_cons (fun _ => rfl) (fun s n hn => ?_) h
    simp only [readEnd, hc] at hn
    split at hn
    · cases hn
    · rename_i exponent rest hexponent
      cases floatNumber_rest hn
      exact readExponent_takes _ _ _ hexponent
  | none =>
    obtain ⟨next, hlocal, hnext⟩ := exists_readEnd_eq negative whole fraction
    rw [hnext s hmark] at h
    obtain ⟨front, rfl, hlast, hfront⟩ := hlocal s n rest h
    refine ⟨front, rfl, hlast, fun other hother => ?_⟩
    have hstops : Stops (fun c => c == 'e' || c == 'E') (front ++ other) := by
      refine (hother.append front).stops (fun c hc => ?_) (exponentMark?_eq_none_iff.1 hmark)
      rcases Bool.or_eq_true_iff.1 hc with hc | hc <;> simp [continuesNumber, hc]
    rw [hnext _ (exponentMark?_eq_none_iff.2 hstops)]
    exact hfront other hother

/-- What is read of a number behind the digits of its whole part. -/
def readBehindWhole (negative : Bool) (whole s : List Char) : Except Fault (Number × List Char) :=
  match readFraction s with
  | .error f => .error f
  | .ok (fraction, rest) => readEnd negative whole fraction rest

theorem isLocal_readUnsigned (negative : Bool) :
    IsLocal Char.isDigit (readUnsigned negative) := by
  have hbehind : ∀ whole, IsLocal Char.isDigit (readBehindWhole negative whole) := fun whole =>
    isLocal_readFraction.bind (isLocal_readEnd negative whole)
      (fun s f h => by rw [readBehindWhole, h]) (fun s fraction rest h => by rw [readBehindWhole, h])
  refine isLocal_readWhole.bind hbehind (fun s f h => ?_) (fun s whole rest h => ?_)
  · rw [readUnsigned, h]
  · rw [readUnsigned, h]
    rfl

theorem readUnsigned_takes (negative : Bool) (s : List Char) (n : Number) :
    readUnsigned negative s ≠ .ok (n, s) :=
  fun h => Nat.lt_irrefl _ (readUnsigned_length_lt h)

theorem readNumber_unsigned {s : List Char} (h : s.head? ≠ some '-') :
    readNumber s = readUnsigned false s := by
  unfold readNumber
  split
  · exact absurd rfl h
  · rfl

theorem isLocal_readNumber : IsLocal Char.isDigit readNumber := by
  intro s n rest h
  by_cases hminus : s.head? = some '-'
  · obtain ⟨s, rfl⟩ := List.head?_eq_some_iff.1 hminus
    exact (isLocal_readUnsigned true).takes_cons (fun _ => rfl) (readUnsigned_takes true) h
  · rw [readNumber_unsigned hminus] at h
    obtain ⟨front, rfl, hlast, hfront⟩ := isLocal_readUnsigned false s n rest h
    refine ⟨front, rfl, hlast, fun other hother => ?_⟩
    rw [readNumber_unsigned, hfront other hother]
    cases front with
    | nil => exact absurd h (readUnsigned_takes false rest n)
    | cons c front => exact hminus

end DotQuery.Json
