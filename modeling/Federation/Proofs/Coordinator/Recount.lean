import Federation.Proofs.Coordinator.Permutation

/-!
# What the entry of a target recounts

A target may be tried several times while a user is fetched.  If it succeeds in the end, its entry
is what it has returned; otherwise no fault is lost: they are collected from the first attempt to
the last, and a fault that is a collection itself counts as its members.

## Key results

- `Recounts.combine`: one more result is added to what is known
- `Recounted.absorbAll`: so it is for all targets in a round of attempts
- `rounds_of_retries`: and in all rounds
- `fetch_recounts`: what the entries of a fetch recount
-/

namespace Federation

namespace Inference

variable {rs : Results} {m m' : Memory} {results : List (Except Fault Output)}
  {past : List (Outcomes Output)} {infer? : ProviderId → Option (Record → Except Fault String)}

/-- What the results of the attempts at a target, from the first to the last, amount to. -/
inductive Recounts : List (Except Fault Output) → Except Fault Output → Prop
  /-- A target that is not tried again has its first result. -/
  | once (r : Except Fault Output) : Recounts [r] r
  /-- A target whose last attempt has succeeded has what it has returned then. -/
  | succeeded (faults : List Fault) (o : Output) : Recounts (faults.map .error ++ [.ok o]) (.ok o)
  /-- A target that was tried again, but failed every time, has the faults of all attempts in their
      order, with the members of a collection in its place. -/
  | failed (faults : List Fault) (several : 2 ≤ faults.length) :
      Recounts (faults.map .error) (.error (.collection (faults.flatMap FaultList.members)))

/-- A target that has failed has failed every time. -/
theorem Recounts.exists_faults {f : Fault} (h : Recounts results (.error f)) :
    ∃ faults, faults ≠ [] ∧ results = faults.map .error ∧
      faults.flatMap FaultList.members = FaultList.members f := by
  cases h with
  | once => exact ⟨[f], List.cons_ne_nil f [], rfl, List.append_nil _⟩
  | failed faults several =>
    refine ⟨faults, ?_, rfl, rfl⟩
    rintro rfl
    exact absurd several (by decide)

/-- What is known of a target that has failed, given with the result of one more attempt. -/
theorem Recounts.combine {f : Fault} (h : Recounts results (.error f))
    (new : Except Fault Output) : Recounts (results ++ [new]) (combine (.error f) new) := by
  obtain ⟨faults, hne, rfl, hmembers⟩ := h.exists_faults
  -- A success replaces the faults, and one more fault joins them.
  cases new with
  | ok o => exact .succeeded faults o
  | error g =>
    have hcombine : Inference.combine (.error f) (.error g) =
        .error (.collection ((faults ++ [g]).flatMap FaultList.members)) := by
      show Except.error (FaultList.ofList [f, g]).toFault = _
      rw [FaultList.toFault, FaultList.faults_ofList, List.flatMap_append, hmembers,
        List.flatMap_cons]
    have hresults : faults.map Except.error ++ [.error g] =
        ((faults ++ [g]).map Except.error : List (Except Fault Output)) := by
      rw [List.map_append, List.map_singleton]
    have hlength := List.length_pos_iff.mpr hne
    rw [hcombine, hresults]
    refine .failed _ ?_
    rw [List.length_append, List.length_singleton]
    omega

/-- The results of a target in some rounds. -/
def resultsOf (p : ProviderId) (past : List (Outcomes Output)) : List (Except Fault Output) :=
  past.filterMap (·.get? p)

/-- The results of a target in one more round come last. -/
theorem resultsOf_concat (p : ProviderId) (past : List (Outcomes Output)) (o : Outcomes Output) :
    resultsOf p (past ++ [o]) = resultsOf p past ++ (o.get? p).toList := by
  unfold resultsOf
  rw [List.filterMap_append]
  cases h : o.get? p with
  | none => simp [h]
  | some r => simp [h]

/-- What is known of each target are its results in the rounds that have been made. -/
def Recounted (past : List (Outcomes Output)) (rs : Results) : Prop :=
  ∀ e ∈ rs, Recounts (resultsOf e.1 past) e.2

/-- The first round recounts itself. -/
theorem recounted_first {first : Outcomes Output} (hkeys : (first.entries.map Prod.fst).Nodup) :
    Recounted [first] first.entries := by
  intro e he
  have hresults : resultsOf e.1 [first] = [e.2] := by
    rw [← List.nil_append [first], resultsOf_concat, (Outcomes.get?_eq_some_iff hkeys).mpr he]
    rfl
  rw [hresults]
  exact .once e.2

/-- One round of attempts adds its results to what is known of their targets. -/
theorem Recounted.absorbAll {attempts : List (ProviderId × String)} {o : Outcomes Output}
    (h : Recounted past rs) (hkeys : (rs.map Prod.fst).Nodup)
    (planned : plan infer? (sources rs) rs m = (m', attempts))
    (answered : o.entries.map Prod.fst = attempts.map Prod.fst) :
    Recounted (past ++ [o]) (absorbAll o.entries rs) := by
  obtain ⟨-, htargets, used, hall, -⟩ := plan_spec planned
  have hround : (o.entries.map Prod.fst).Nodup := by
    rw [answered]
    exact hkeys.sublist htargets
  intro e he
  rw [resultsOf_concat]
  rcases mem_absorbAll_cases hkeys hround he with ⟨he, hout⟩ | ⟨known, new, hknown, hnew, hcombine⟩
  -- A target that was not tried has no result in this round.
  · have hget : o.get? e.1 = none := by
      refine Option.eq_none_iff_forall_ne_some.mpr fun r hr => hout ?_
      exact List.mem_map.mpr ⟨(e.1, r), (Outcomes.get?_eq_some_iff hround).mp hr, rfl⟩
    rw [hget, Option.toList_none, List.append_nil]
    exact h e he
  -- A target that was tried has failed before.
  · have hget : o.get? e.1 = some new := (Outcomes.get?_eq_some_iff hround).mpr hnew
    have htried : e.1 ∈ attempts.map Prod.fst := by
      rw [← answered]
      exact List.mem_map.mpr ⟨_, hnew, rfl⟩
    obtain ⟨a, ha, heq⟩ := List.mem_map.mp htried
    obtain ⟨source, -, -, hjustified⟩ := exists_of_mem_left hall ha
    obtain ⟨f, hf, -⟩ := hjustified.unnamed
    rw [heq] at hf
    obtain rfl : known = .error f := eq_of_mem_of_nodup hkeys hknown hf
    rw [hget, Option.toList_some, hcombine]
    exact (h _ hknown).combine new

end Inference

namespace Coordinator

open Inference (Attempt Memory Recounted Recounts Results Retries absorbAll resultsOf)

variable {c c' : Coordinator}

/-- Rounds in which the user is read again from some targets, with the identifiers that are given
    for them, and what they yield. -/
inductive Rounds (limit : Nat) : Coordinator → List (Outcomes Output) → Coordinator → Prop
  | done (c : Coordinator) : Rounds limit c [] c
  | again {c c₁ d c' : Coordinator} {attempts : List (ProviderId × String)} {o : Outcomes Output}
      {rounds : List (Outcomes Output)} (made : retry limit attempts c = (d, some o))
      (yields : List.Forall₂ (fun a e => e.1 = a.1 ∧
        Yields c c₁ d .readAll (fun _ => .ok a.2) a.1 e.2) attempts o.entries)
      (rest : Rounds limit d rounds c') : Rounds limit c (o :: rounds) c'

/-- Attempts come in rounds, and the results at the end recount all of them. -/
theorem rounds_of_retries {infer? : ProviderId → Option (Record → Except Fault String)}
    {limit : Nat} {rs rs' : Results} {m : Memory} {trace : List Attempt}
    {past : List (Outcomes Output)} (h : Retries infer? (retry limit) rs m c trace rs' c')
    (hc : c.Sound) (hkeys : (rs.map Prod.fst).Nodup) (hpast : Recounted past rs) :
    ∃ rounds, Rounds limit c rounds c' ∧ Recounted (past ++ rounds) rs' := by
  -- Induction on the rounds, each of which adds to the past.
  induction h generalizing past with
  | done =>
    refine ⟨[], .done _, ?_⟩
    rw [List.append_nil]
    exact hpast
  | @again rs rs' m m' c d c' attempts o trace planned any made answered rest ih =>
    obtain ⟨-, htargets, -⟩ := Inference.plan_spec planned
    obtain ⟨c₁, before, after, hall⟩ := yields_of_retry hc (hkeys.sublist htargets) made
    have hround : Steps (fun _ => False) c d := before.trans after
    have hkeys' : ((absorbAll o.entries rs).map Prod.fst).Nodup := by
      rw [Inference.map_fst_absorbAll]
      exact hkeys
    obtain ⟨rounds, hrounds, hlast⟩ :=
      ih ((hround.evolves hc).sound hc) hkeys' (hpast.absorbAll hkeys planned answered)
    rw [List.append_assoc] at hlast
    exact ⟨o :: rounds, .again made hall hrounds, hlast⟩

/-- Fetching a user comes to an end, and the entry of every target recounts its attempts: the first
    one, which is that of an operation that is run on all targets, and those of the rounds that
    follow.  If the last of them has succeeded, the entry is what it has returned; if there was only
    one, the entry is its result; otherwise the entry is the collection of all faults in the order
    of the attempts, and of the members of those that are collections. -/
theorem fetch_recounts {b : Blueprint} (hc : c.Reachable b) (external : String)
    (targets : Targets) :
    (∃ t c' u, ∀ limit, t ≤ limit → c.fetch limit external targets = (c', some u)) ∧
    ∀ limit c' u, c.fetch limit external targets = (c', some u) →
      ∃ first c₁ rounds c₂ d, c.execute limit .readAll external targets = (c₁, some first) ∧
        (∀ e ∈ first.entries, Yields c d c₁ .readAll (Provider.localId external) e.1 e.2) ∧
        Rounds limit c₁ rounds c₂ ∧
        c₂.merge u.outcomes.entries = (c', u) ∧
        u.outcomes.providers = (targets.listed c.ids).eraseDups ∧
        ∀ p ∈ targets.listed c.ids, ∃ r, u.outcomes.get? p = some r ∧
          Recounts (resultsOf p (first :: rounds)) r := by
  refine ⟨fetch_ends hc.sound external targets, fun limit c' u fetched => ?_⟩
  obtain ⟨first, c₁, c₂, trace, hexecute, hretries, hmerge⟩ := retries_of_fetch hc.sound fetched
  obtain ⟨d, before, after, hproviders, hyields⟩ := yields_of_execute hc.sound hexecute
  have hfirst : Steps (fun _ => False) c c₁ := before.trans after
  have hkeys := Targets.nodup_of_providers hc.sound.nodup hproviders
  obtain ⟨rounds, hrounds, hrecounted⟩ := rounds_of_retries hretries
    ((hfirst.evolves hc.sound).sound hc.sound) hkeys (Inference.recounted_first hkeys)
  -- Neither the targets nor their order have changed.
  have hfst : u.outcomes.entries.map Prod.fst = first.entries.map Prod.fst :=
    (hretries.keeps hkeys).1.1
  have hproviders' : u.outcomes.providers = (targets.listed c.ids).eraseDups :=
    hfst.trans hproviders
  refine ⟨first, c₁, rounds, c₂, d, hexecute, hyields, hrounds, hmerge, hproviders', fun p hp => ?_⟩
  rw [← List.mem_eraseDups, ← hproviders'] at hp
  obtain ⟨⟨q, r⟩, hmem, rfl⟩ := List.mem_map.mp hp
  refine ⟨r, (Outcomes.get?_eq_some_iff ?_).mpr hmem, hrecounted _ hmem⟩
  show (u.outcomes.entries.map Prod.fst).Nodup
  rw [hfst]
  exact hkeys

/-- A target that cannot infer its identifier is tried with those that it finds in the records of
    two others.  The first of these attempts fails for two reasons, of which the last is that the
    identifier cannot be inferred. -/
theorem fetch_recounts_again :
    let ldap : Provider := .custom
      { id := ⟨"ldap"⟩
        respond := fun _ r =>
          { ending := .returned (.ok (.record (.blank ⟨⟨"ldap"⟩, r.localId⟩))) } }
    let okta : Provider := .custom
      { id := ⟨"okta"⟩
        respond := fun _ r =>
          { ending := .returned (.ok (.record (.blank ⟨⟨"okta"⟩, r.localId⟩))) } }
    let ask (id : String) : Fault := .cannotInferLocalId ⟨"github"⟩ id
    let gone : Fault := .provider ⟨"github"⟩ "gone"
    let down : Fault := .provider ⟨"github"⟩ "down"
    let github : Provider := .custom
      { id := ⟨"github"⟩
        localId := fun external => .error (ask external)
        localIdFrom := fun r => .ok (r.provider.name ++ "/" ++ r.localId)
        respond := fun _ r =>
          { ending := .returned (.error
              (if r.localId = "ldap/jdoe" then .collection [gone, ask r.localId] else down)) } }
    let b : Blueprint := { providers := [ldap, okta, github] }
    let c : Coordinator := { stations := b.providers.map b.station, engine := b.mergeEngine }
    c.Reachable b ∧ ∃ c' u first rounds, c.fetch 10 "jdoe" .all = (c', some u) ∧
      Recounts (resultsOf ⟨"github"⟩ (first :: rounds))
        (.error (.collection [ask "jdoe", gone, ask "ldap/jdoe", down])) := by
  intro ldap okta ask gone down github b c
  have hc : c.Reachable b := by
    refine ⟨fun p hp => ?_, c, rfl, .refl⟩
    simp only [b, List.mem_cons, List.not_mem_nil, or_false] at hp
    rcases hp with rfl | rfl | rfl <;> exact ⟨rfl, rfl⟩
  have hget : (c.fetch 10 "jdoe" .all).2.bind (fun u => u.outcomes.get? ⟨"github"⟩) =
      some (.error (.collection [ask "jdoe", gone, ask "ldap/jdoe", down])) := by
    cbv
  obtain ⟨u, hu, hentry⟩ := Option.bind_eq_some_iff.mp hget
  have hfetch : c.fetch 10 "jdoe" .all = ((c.fetch 10 "jdoe" .all).1, some u) := by rw [← hu]
  obtain ⟨first, -, rounds, -, -, -, -, -, -, -, hentries⟩ :=
    (fetch_recounts hc "jdoe" .all).2 10 _ u hfetch
  obtain ⟨r, hr, hrecounts⟩ := hentries ⟨"github"⟩ (.tail _ (.tail _ (.head _)))
  obtain rfl := Option.some.inj (hr.symm.trans hentry)
  exact ⟨hc, _, u, first, rounds, hfetch, hrecounts⟩

end Coordinator

end Federation
