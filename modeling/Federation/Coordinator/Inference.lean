import Federation.Operation
import Federation.Outcomes

/-! # Inferring local identifiers

A provider that cannot tell its local identifier from the caller's may find it in the record that
another provider returned.  `plan` looks for such identifiers: each target whose last word is that
it cannot infer one consults the records of the others, in order, until one of them gives an
identifier that it has not been tried with.

No target consults the same source twice, and this bounds the number of attempts.

* `consulted_consult` — what has been consulted stays so.
* `combine_ok` — a success replaces whatever was known.
* `map_fst_absorbAll` — attempts change neither the targets nor their order. -/

namespace Federation.Inference

/-- The results so far, in target order. -/
abbrev Results : Type := List (ProviderId × Except Fault Output)

/-- What has been tried so far. -/
structure Memory where
  /-- The targets, each with a source that it has consulted. -/
  consulted : List (ProviderId × ProviderId) := []
  /-- The targets, each with a local identifier that was inferred for it. -/
  attempted : List (ProviderId × String) := []
  deriving DecidableEq, Repr

/-- The records among the results. -/
def sources (rs : Results) : List Record :=
  rs.filterMap fun r =>
    match r.2 with
    | .ok o => o.record?
    | .error _ => none

/-- Whether a target is to look for its identifier in the records of others. -/
def isInferable : Except Fault Output → Bool
  | .ok _ => false
  | .error f => f.isCannotInfer

/-- The first new identifier that a target finds in some records. -/
def consult (infer : Record → Except Fault String) (target : ProviderId) :
    List Record → Memory → Memory × Option String
  | [], m => (m, none)
  | r :: rs, m =>
    if r.provider = target ∨ (target, r.provider) ∈ m.consulted then consult infer target rs m
    else
      let m := { m with consulted := m.consulted ++ [(target, r.provider)] }
      match infer r with
      | .error _ => consult infer target rs m
      | .ok id =>
        if (target, id) ∈ m.attempted then consult infer target rs m
        else ({ m with attempted := m.attempted ++ [(target, id)] }, some id)

theorem consulted_consult {infer : Record → Except Fault String} {target : ProviderId}
    {rs : List Record} {m : Memory} {e : ProviderId × ProviderId} (h : e ∈ m.consulted) :
    e ∈ (consult infer target rs m).1.consulted := by
  induction rs generalizing m with
  | nil => exact h
  | cons r rs ih =>
    rw [consult]
    split
    · exact ih h
    · have h' : e ∈ m.consulted ++ [(target, r.provider)] := List.mem_append_left _ h
      split
      · exact ih h'
      · dsimp only
        split
        · exact ih h'
        · exact h'

/-- The attempts that are worth while: for each target that can infer a new identifier, that
    identifier.  `infer?` tells how a target infers, if it is registered. -/
def plan (infer? : ProviderId → Option (Record → Except Fault String)) (records : List Record) :
    Results → Memory → Memory × List (ProviderId × String)
  | [], m => (m, [])
  | (target, result) :: rest, m =>
    match infer? target, isInferable result with
    | some infer, true =>
      -- A target makes at most one attempt in a round.
      match consult infer target records m with
      | (m, some id) =>
        let (m, attempts) := plan infer? records rest m
        (m, (target, id) :: attempts)
      | (m, none) => plan infer? records rest m
    | _, _ => plan infer? records rest m

/-- What is known of a target after one more attempt. -/
def combine : (known new : Except Fault Output) → Except Fault Output
  | _, .ok o => .ok o
  | .error f, .error g => .error (FaultList.ofList [f, g]).toFault
  | .ok _, .error g => .error g

@[simp] theorem combine_ok (known : Except Fault Output) (o : Output) :
    combine known (.ok o) = .ok o := by
  cases known <;> rfl

/-- The results with the result of one more attempt for a target. -/
def absorb (new : ProviderId × Except Fault Output) : Results → Results
  | [] => []
  | r :: rs => if r.1 = new.1 then (r.1, combine r.2 new.2) :: rs else r :: absorb new rs

/-- The results with those of one more round. -/
def absorbAll (round : Results) (rs : Results) : Results :=
  round.foldl (fun rs new => absorb new rs) rs

theorem map_fst_absorb (new : ProviderId × Except Fault Output) (rs : Results) :
    (absorb new rs).map Prod.fst = rs.map Prod.fst := by
  induction rs with
  | nil => rfl
  | cons r rs ih => by_cases h : r.1 = new.1 <;> simp [absorb, h, ih]

theorem map_fst_absorbAll (round rs : Results) :
    (absorbAll round rs).map Prod.fst = rs.map Prod.fst := by
  unfold absorbAll
  induction round generalizing rs with
  | nil => rfl
  | cons new round ih => rw [List.foldl_cons, ih, map_fst_absorb]

/-- How many rounds there can be for a number of targets: each but the last uses up a target and a
    source that it has not consulted. -/
def maxRounds (targets : Nat) : Nat := targets * targets + 1

/-- Make attempts, round by round, until no new identifier can be inferred.  `round` makes the
    attempts of one round; if it does not yield results, nor does this. -/
def repeatedly {σ : Type} (infer? : ProviderId → Option (Record → Except Fault String))
    (round : List (ProviderId × String) → σ → σ × Option (Outcomes Output)) :
    (rounds : Nat) → Results → Memory → σ → σ × Option Results
  | 0, rs, _, s => (s, some rs)
  | rounds + 1, rs, m, s =>
    match plan infer? (sources rs) rs m with
    | (_, []) => (s, some rs)
    | (m, attempts) =>
      match round attempts s with
      | (s, none) => (s, none)
      | (s, some o) => repeatedly infer? round rounds (absorbAll o.entries rs) m s

end Federation.Inference
