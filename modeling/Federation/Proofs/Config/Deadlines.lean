import Federation.Proofs.Config.Validity
import Mathlib.Order.Bounds.Basic

/-!
# Deadlines of less than a millisecond

A configuration holds a deadline in whole milliseconds, in one word.  A span that is set in code is
rounded down, and capped at the greatest count that can be held.  So a span of less than a
millisecond becomes zero, however positive it is, and the check rejects zero.

## Key results

- `isGreatest_deadline`: the count that is held is the greatest that fits
- `providerProblem?_append`: the check goes through the list once
- `validate_withDeadline`: when a configuration makes sense with a deadline that is set in code
- `withDeadline_spec`: both together
- `validate_rejects_positive`: a positive deadline that is rejected for not being positive
-/

namespace Federation

namespace Span

/-- The whole seconds of a span fit into one word. -/
def IsHeld (d : Span) : Prop := d.nanos / 1000000000 < Word.count

instance (d : Span) : Decidable d.IsHeld := inferInstanceAs (Decidable (_ < _))

/-- A span of as many milliseconds as a word can count has its seconds in a word, too. -/
theorem isHeld_ofMillis {ms : Nat} (h : ms ≤ Word.maxUnsigned) : (ofMillis ms).IsHeld := by
  show ms * 1000000 / 1000000000 < Word.count
  unfold Word.maxUnsigned Word.count at h
  unfold Word.count
  omega

/-- The milliseconds of a span fit into two words. -/
theorem IsHeld.toMillis_lt {d : Span} (h : d.IsHeld) : d.toMillis < Word.count * Word.count := by
  unfold IsHeld Word.count at h
  unfold toMillis Word.count
  omega

end Span

/-- The count of milliseconds that is held is the greatest that fits into a word and into the
    span. -/
theorem isGreatest_deadline (d : Span) :
    IsGreatest {ms | ms ≤ Word.maxUnsigned ∧ (Span.ofMillis ms).nanos ≤ d.nanos}
      (min d.toMillis Word.maxUnsigned) := by
  constructor
  · refine ⟨min_le_right _ _, le_trans ?_ d.ofMillis_toMillis_le⟩
    exact Nat.mul_le_mul_right _ (min_le_left _ _)
  · rintro ms ⟨hword, hspan⟩
    exact le_min ((Nat.le_div_iff_mul_le (by decide)).mpr hspan) hword

namespace Config

/-- The check goes through a list once, with the names that came before. -/
theorem providerProblem?_append (seen : List ProviderId) (es fs : List ProviderConfig) :
    providerProblem? seen (es ++ fs) =
      (providerProblem? seen es).or (providerProblem? (seen ++ es.map ProviderConfig.id) fs) := by
  induction es generalizing seen with
  | nil => simp [providerProblem?]
  | cons e es ih =>
    rw [List.cons_append, providerProblem?, providerProblem?, ih, List.map_cons, List.append_assoc,
      List.singleton_append]
    split
    · rfl
    · split
      · rfl
      · split <;> rfl

/-- The only thing that can be wrong with a deadline is that it is zero. -/
theorem providerProblem?_deadline {seen : List ProviderId} {e : ProviderConfig}
    {es : List ProviderConfig}
    (h : providerProblem? seen ({ e with deadlineMs := none } :: es) = none) (ms : Nat) :
    providerProblem? seen ({ e with deadlineMs := some ms } :: es) =
      if ms = 0 then some (.zeroDeadline e.id) else none := by
  obtain ⟨hblank, hseen, -, hrest⟩ := providerProblem?_cons_eq_none_iff.mp h
  simp only [providerProblem?, hblank, hrest, Option.some.injEq]
  simp [hseen]

/-- A configuration with one more provider among the others. -/
def withProvider (c : Config) (before : List ProviderConfig) (e : ProviderConfig)
    (after : List ProviderConfig) : Config :=
  { c with providers := before ++ e :: after }

/-- A configuration that makes sense without the deadline of a provider makes sense with one that is
    set in code exactly if this is not less than a millisecond; otherwise the deadline is rejected
    as zero. -/
theorem validate_withDeadline {c : Config} {before after : List ProviderConfig} {e : ProviderConfig}
    (h : (c.withProvider before { e with deadlineMs := none } after).validate = .ok ()) (d : Span) :
    (c.withProvider before (e.withDeadline d) after).validate =
      if d.nanos < (Span.ofMillis 1).nanos then .error (Problem.zeroDeadline e.id).toFault
      else .ok () := by
  obtain ⟨hproviders, hdefault, hunion⟩ :=
    problem?_eq_none_iff.mp (validate_eq_ok_iff_problem?.mp h)
  simp only [withProvider, providerProblem?_append, Option.or_eq_none_iff] at hproviders
  have hproblem : providerProblem? [] (before ++ e.withDeadline d :: after) =
      if d.nanos < (Span.ofMillis 1).nanos then some (.zeroDeadline e.id) else none := by
    rw [providerProblem?_append, hproviders.1, Option.none_or, ProviderConfig.withDeadline,
      providerProblem?_deadline hproviders.2]
    -- The count is zero exactly for less than a millisecond, for the cap is not zero.
    have hzero : min d.toMillis Word.maxUnsigned = 0 ↔ d.nanos < (Span.ofMillis 1).nanos := by
      simp only [Span.toMillis, Span.ofMillis, Word.maxUnsigned, Word.count]
      omega
    simp only [hzero]
  split
  · next hless =>
    rw [if_pos hless] at hproblem
    simp only [validate, problem?, withProvider, hproblem]
  · next hmore =>
    rw [if_neg hmore] at hproblem
    exact validate_eq_ok_iff_problem?.mpr (problem?_eq_none_iff.mpr ⟨hproblem, hdefault, hunion⟩)

/-- A provider that is configured by its name makes sense if this is not blank. -/
theorem validate_named {p : ProviderId} (h : Text.trim p.name ≠ []) :
    ({ providers := [{ id := p }] } : Config).validate = .ok () := by
  have hblank : Text.isBlank p.name = false :=
    Bool.eq_false_iff.mpr (mt (Text.isBlank_iff_trim _).mp h)
  rw [validate_eq_ok_iff_problem?, problem?_eq_none_iff]
  simp [providerProblem?, hblank]

/-- A deadline that is set in code is held as the greatest count of milliseconds that fits into a
    word and into the span, and read back as a span that fits into a word of seconds; counting the
    milliseconds of such a span never takes more than two words.

    If the provider makes sense without it, among whatever others, the configuration makes sense
    exactly if the deadline is not less than a millisecond.  Otherwise it is read back as zero, and
    rejected as such. -/
theorem withDeadline_spec (d : Span) :
    (∀ e : ProviderConfig, ∃ ms,
      IsGreatest {n | n ≤ Word.maxUnsigned ∧ (Span.ofMillis n).nanos ≤ d.nanos} ms ∧
      (e.withDeadline d).deadlineMs = some ms ∧
      (e.withDeadline d).deadline? = some (.ofMillis ms) ∧ (Span.ofMillis ms).IsHeld) ∧
    (d.IsHeld → d.toMillis < Word.count * Word.count) ∧
    (∀ p : ProviderId, Text.trim p.name ≠ [] →
      let e : ProviderConfig := { id := p }
      (({ providers := [e.withDeadline d] } : Config).validate = .ok () ↔
        (Span.ofMillis 1).nanos ≤ d.nanos)) ∧
    ∀ (c : Config) (before after : List ProviderConfig) (e : ProviderConfig),
      (c.withProvider before { e with deadlineMs := none } after).validate = .ok () →
      ((Span.ofMillis 1).nanos ≤ d.nanos →
        (c.withProvider before (e.withDeadline d) after).validate = .ok ()) ∧
      (d.nanos < (Span.ofMillis 1).nanos →
        (e.withDeadline d).deadline? = some ⟨0⟩ ∧
        (c.withProvider before (e.withDeadline d) after).validate =
          .error (.invalidConfiguration
            s!"deadline of provider '{e.id}' must be greater than 0")) := by
  refine ⟨fun e => ⟨_, isGreatest_deadline d, rfl, rfl, Span.isHeld_ofMillis (min_le_right _ _)⟩,
    Span.IsHeld.toMillis_lt, fun p hp => ?named, fun c before after e h => ⟨fun hd => ?kept,
      fun hd => ⟨?zero, ?rejected⟩⟩⟩
  case named =>
    intro e
    -- A configuration of this one provider makes sense without the deadline.
    have halone : (({ providers := [] } : Config).withProvider []
        { e with deadlineMs := none } []).validate = .ok () :=
      validate_named hp
    have hvalidate := validate_withDeadline halone d
    simp only [withProvider, List.nil_append] at hvalidate
    rw [hvalidate, ← not_lt]
    split <;> simp [*]
  case kept => rw [validate_withDeadline h, if_neg (not_lt.mpr hd)]
  case zero =>
    -- Less than a millisecond is rounded down to nothing.
    have hzero : d.toMillis = 0 := by
      simp only [Span.ofMillis] at hd
      simp only [Span.toMillis]
      omega
    rw [ProviderConfig.withDeadline_deadline?, hzero, Nat.zero_min]
    rfl
  case rejected =>
    rw [validate_withDeadline h, if_pos hd]
    rfl

/-- A deadline of a millisecond and a half is held as a millisecond. -/
theorem withDeadline_spec_rounded :
    let d : Span := ⟨1500000⟩
    let e : ProviderConfig := ({ id := ⟨"ldap"⟩ } : ProviderConfig).withDeadline d
    d.IsHeld ∧ Text.trim e.id.name ≠ [] ∧ ({ providers := [e] } : Config).validate = .ok () ∧
      ∃ ms, e.deadline? = some (.ofMillis ms) ∧ ms = 1 := by
  intro d e
  obtain ⟨hheld, -, hnamed, -⟩ := withDeadline_spec d
  obtain ⟨ms, hgreatest, -, hdeadline, -⟩ := hheld { id := ⟨"ldap"⟩ }
  have hname : Text.trim e.id.name ≠ [] := by decide
  refine ⟨by decide, hname, (hnamed ⟨"ldap"⟩ hname).mpr (by decide), ms, hdeadline, ?_⟩
  exact (hgreatest.unique (isGreatest_deadline d)).trans (by decide)

/-- A deadline that is one nanosecond short of a millisecond is rejected for not being greater than
    zero. -/
theorem validate_rejects_positive :
    let d : Span := ⟨999999⟩
    let e : ProviderConfig := ({ id := ⟨"ldap"⟩ } : ProviderConfig).withDeadline d
    0 < d.nanos ∧ d.IsHeld ∧ Text.trim e.id.name ≠ [] ∧
      ({ providers := [e] } : Config).validate =
        .error (.invalidConfiguration "deadline of provider 'ldap' must be greater than 0") :=
  ⟨by decide, by decide, by decide, rfl⟩

end Config

end Federation
