import Federation.Proofs.Coordinator.Scenario
import Mathlib

/-!
# Changing a password at many directories

The outcome of a target is decided where its action is watched, and the change is made where its
call is answered.  Whatever comes in between, queues, deadlines of both, failures and
cancellations, they agree: the entry of a target is a success exactly if its directory has the new
password, and otherwise nothing has changed there.

## Key results

- `start_concludes`: a fan-out that may be cancelled comes to an end, and its outcomes agree with
  the ends of its calls
- `entries_of_concludes`: what a directory holds then, given its outcome
- `start_changes`: the directories hold what the outcomes say
-/

namespace Federation

namespace Coordinator

open Roster (Ready Settled Accounted Concluded)
open Directory (Charge Entry Server)
open Provider (books)

variable {serves : (Server → Server) → Prop} {c c₁ c₂ c' : Coordinator} {o : Operation}
  {p : ProviderId} {localId : Provider → Except Fault String}

/-! ## Fan-outs that may be cancelled -/

/-- What a fan-out yields for a target, though it may have been cancelled.  It starts at `c`, its
    calls have been made at `c₁`, and it has ended at `c'`. -/
inductive Concludes (c c₁ c' : Coordinator) (o : Operation)
    (localId : Provider → Except Fault String) (p : ProviderId) : Except Fault Output → Prop
  | refused (f : Fault)
      (uncalled : (c₁.station? p).map Station.provider = (c.station? p).map Station.provider) :
      Concludes c c₁ c' o localId p (.error f)
  | called (s s₁ s' : Station) (id : String) (outcome : Outcome Output)
      (ended : Option (Ended Output)) (station : c.station? p = some s)
      (named : localId s.provider = .ok id) (station₁ : c₁.station? p = some s₁)
      (host : s₁.provider = Host.submit s.roster.jobs.length ⟨o, id⟩ s.provider)
      (accounted : Accounted s.roster.jobs.length c₁.now s₁.roster)
      (station' : c'.station? p = some s')
      (concluded : Concluded outcome ended s.roster.jobs.length s'.roster)
      (agrees : ∀ x, outcome = .succeeded x ↔ Answered ended x) :
      Concludes c c₁ c' o localId p outcome.toExcept

/-- The job of a call that was made is accounted for as long as nothing but a scenario happens. -/
theorem Awaits.accounted {terms : Terms} {request : Request} {job : ProviderId × Nat}
    (h : c₁.Awaits terms request job) (hc₁ : c₁.Sound) (meanwhile : Scenario serves c₁.settle c₂) :
    Calm (fun now s => s.id = job.1 → Accounted job.2 now s.roster) c₂ := by
  obtain ⟨s, hs, ha⟩ := h
  have hK := (kept_accounted serves job.2).at job.1
  exact meanwhile.calm hK (.of_settle hK hc₁ (each_of_station? hc₁ hs (.inl ⟨terms, ha.tracked⟩)))

/-- What a job amounts to that is closed in the end, whether it was cancelled or not. -/
theorem Awaits.concluded {terms : Terms} {request : Request} {job : ProviderId × Nat}
    (h : c₁.Awaits terms request job) (hc₁ : c₁.Sound) (meanwhile : Scenario serves c₁.settle c₂)
    (acts : Relation.ReflTransGen (Act serves) c₂ c')
    (hclosed : ∀ s ∈ c'.stations, s.id = job.1 → ¬s.roster.IsOpen job.2) :
    ∃ s' outcome ended, c'.station? job.1 = some s' ∧ Concluded outcome ended job.2 s'.roster ∧
      (∀ x, outcome = .succeeded x ↔ Answered ended x) ∧
      c'.result? (.launched job.1 job.2) = some outcome.toExcept := by
  have hcalm := h.accounted hc₁ meanwhile
  obtain ⟨-, hacc⟩ := each_of_acts ((kept_accounted serves job.2).at job.1) acts hcalm.sound
    hcalm.each
  have hsteps : Steps (fun _ => False) c₁ c' :=
    meanwhile.steps_of_settle.trans (steps_of_acts acts)
  obtain ⟨s, hs, -⟩ := h
  -- The station is still there, so the outcome is found where the job was launched.
  rcases (hsteps.evolves hc₁).station? job.1 with ⟨hnone, -⟩ | ⟨-, s', -, hs', -⟩
  · exact nomatch hnone.symm.trans hs
  · obtain ⟨hmem, hid⟩ := station?_eq_some hs'
    obtain ⟨outcome, ended, hconcluded, hagrees⟩ :=
      (hacc.of_station? hs').concluded (hclosed s' hmem hid)
    refine ⟨s', outcome, ended, hs', hconcluded, hagrees, ?_⟩
    have haction : c'.action? (job.1, job.2) = s'.action? job.2 := by
      unfold action?
      rw [hs', Option.bind_some]
    show ((c'.action? (job.1, job.2)).bind Action.published).map Outcome.toExcept = _
    rw [haction]
    exact congrArg (Option.map Outcome.toExcept) hconcluded.published

/-- What a fan-out yields for a target, once its action is closed. -/
theorem Begins.concludes {e : Batch.Entry} (h : Begins c c₁ o localId p e) (hc₁ : c₁.Sound)
    (meanwhile : Scenario serves c₁.settle c₂) (acts : Relation.ReflTransGen (Act serves) c₂ c')
    (hclosed : ∀ job, e.job? = some job → ∀ s ∈ c'.stations, s.id = job.1 →
      ¬s.roster.IsOpen job.2) :
    ∃ r, c'.result? e = some r ∧ e.provider = p ∧ Concludes c c₁ c' o localId p r := by
  cases h with
  | refused f _ same => exact ⟨.error f, rfl, rfl, .refused f same⟩
  | called s s₁ id station named station₁ host ha =>
    obtain ⟨s', outcome, ended, hs', hconcluded, hagrees, hresult⟩ :=
      ha.concluded hc₁ meanwhile acts (hclosed _ rfl)
    obtain ⟨s₁', hs₁', ha⟩ := ha
    obtain rfl := Option.some.inj (station₁.symm.trans hs₁')
    have hnamed := (supports_of_localIdAt station named).2
    exact ⟨outcome.toExcept, hresult, rfl, .called s s₁ s' id outcome ended station hnamed station₁
      host (.inl ⟨_, ha.tracked⟩) hs' hconcluded hagrees⟩

/-- A fan-out that is started on some targets comes to an end, even if it is cancelled; what it
    yields for a target agrees with the end of the call. -/
theorem start_concludes {batch : Batch} {external : String} {targets : Targets} (hc : c.Sound)
    (started : c.start o external targets = (c₁, batch))
    (meanwhile : Scenario serves c₁.settle c₂) :
    ∃ t c' out, Relation.ReflTransGen (Act serves) c₂ c' ∧
      (∀ limit, t ≤ limit → c₂.wait limit batch = (c', some out)) ∧
      out.providers = (targets.listed c.ids).eraseDups ∧
      (∀ e ∈ out.entries, Concludes c c₁ c' o (Provider.localId external) e.1 e.2) ∧
      ∀ p, p ∉ out.providers →
        (c₁.station? p).map Station.provider = (c.station? p).map Station.provider := by
  obtain ⟨xs, hkeys, hxs, hlocal, hlaunched, hbatch⟩ := launches_of_start hc started
  have hbegins := begins_launchAll o hxs hc
  have hsteps := steps_launchAll (fun _ => False) o xs c
  have hidle := fun p (hp : p ∉ xs.map Prod.fst) => idle_launchAll o hp c
  rw [hlaunched] at hbegins hsteps hidle
  have hc₁ : c₁.Sound := (hsteps.evolves hc).sound hc
  have hc₂ := (meanwhile.steps_of_settle.evolves hc₁).sound hc₁
  have hawaits : ∀ job ∈ batch.jobs, ∃ terms request, c₁.Awaits terms request job := by
    rw [hbatch]
    exact awaits_of_begins hbegins
  -- Every job is accounted for when the caller begins to wait, so all of them are closed at last.
  obtain ⟨t, hnow, hwait, hclosed⟩ := wait_eq hc₂ (b := batch) fun s hs i hi => by
    obtain ⟨terms, request, ha⟩ := hawaits (s.id, i) hi
    exact (ha.accounted hc₁ meanwhile).each s hs rfl
  let d := c₂.settle.advanceTo t
  let c' := d.tell [.completed (summary (d.outcomes batch))]
  have acts : Relation.ReflTransGen (Act serves) c₂ c' :=
    .tail (.single (.pass t c₂ hnow)) (.tell _ d)
  -- Each launch concludes at its own target, which the others have left alone.
  have hall : List.Forall₂ (fun x e => ∃ r, d.result? e = some r ∧ e.provider = x.1 ∧
      Concludes c c₁ c' o x.2 x.1 r) xs batch.entries := by
    refine (forall₂_mem hbegins).imp fun x e h => ?_
    obtain ⟨-, he, hb⟩ := h
    refine hb.concludes hc₁ meanwhile acts fun job hjob s hs hid => ?_
    exact hclosed s hs job.2 (hid ▸ List.mem_filterMap.mpr ⟨e, he, hjob⟩)
  have hout := entries_outcomes o.name hxs hall
  rw [← hbatch] at hout
  have hproviders : (d.outcomes batch).providers = xs.map Prod.fst := map_eq_of_forall₂ hout
  refine ⟨t, c', d.outcomes batch, acts, hwait, hproviders.trans hkeys, fun e he => ?_,
    fun p hp => (hidle p (hproviders ▸ hp)).provider⟩
  obtain ⟨x, hx, hp, hconcludes⟩ := exists_of_mem_right hout he
  rw [hp, ← hlocal x hx]
  exact hconcludes

/-! ## Directories -/

/-- Whether entries are left alone by what is done to a server. -/
def KeepsEntries (f : Server → Server) : Prop := ∀ s, (f s).entries = s.entries

/-- The books are kept by anything that keeps the entries. -/
theorem holds_of_keepsEntries {P : Table String Entry → Prop} {charge : Option Charge}
    {f : Server → Server} (hf : KeepsEntries f) (s : Server) (es : List (Ended Output))
    (h : (Directory.ledger P charge).holds s es) : (Directory.ledger P charge).holds (f s) es := by
  obtain ⟨base, hbase, hs⟩ := h
  exact ⟨base, hbase, (hf s).symm ▸ hs⟩

/-- The books of directories in which no password is to be changed. -/
abbrev unchanged (P : Table String Entry → Prop) (_ : Nat) (s : Station) : Prop :=
  True ∧ s.provider.Under (books P none)

/-- As long as nobody is charged with a change, the entries stay unchanged. -/
theorem kept_unchanged {P : Table String Entry → Prop}
    (allowed : ∀ f, serves f → ∀ s es, (Directory.ledger P none).holds s es →
      (Directory.ledger P none).holds (f s) es) : Kept serves (unchanged P) (unchanged P) :=
  kept_books P none (kept_true serves) (fun _ _ => nofun) allowed

/-- At the beginning, the books may say anything. -/
theorem unchanged_of_build {b : Blueprint} (fresh : ∀ p ∈ b.providers, p.IsFresh)
    (built : b.build = .ok c) : c.Each (unchanged (fun _ => True) c.now) := by
  obtain ⟨-, rfl⟩ := Blueprint.build_eq_ok_iff.mp built
  intro s hs
  obtain ⟨q, hq, rfl⟩ := List.mem_map.mp hs
  exact ⟨trivial, Provider.under_of_isFresh (fresh q hq) (fun d _ => Directory.holds_true _ _)
    fun _ _ => trivial⟩

/-- The books of a directory are opened with the entries as they are. -/
theorem opened (charge : Option Charge) {s : Station} {d : Directory} (hc : c.Sound)
    (hs : s ∈ c.stations) (hd : s.provider = .directory d)
    (h : s.provider.Under (books (fun _ => True) none))
    (hcall : ∀ x, charge = some x → x.call = s.roster.jobs.length) :
    s.provider.Under (books (· = d.server.entries) charge) := by
  obtain ⟨hnew, hended⟩ := (hc.ready s hs).unused
  refine h.transfer hnew hended (fun d' hd' => ?_) fun x hx => ?_
  · obtain rfl := Provider.directory.inj (hd.symm.trans hd')
    exact Directory.extends_ledger rfl hcall
  · exact nomatch hd.symm.trans hx

/-- A directory remains one. -/
theorem Evolves.directory {kept : ProviderId × Nat → Prop} {s : Station} {d : Directory}
    (h : Evolves kept c c') (hs : c.station? p = some s) (hd : s.provider = .directory d) :
    ∃ s' d', c'.station? p = some s' ∧ s'.provider = .directory d' := by
  rcases h.station? p with ⟨hnone, -⟩ | ⟨t, s', ht, hs', hgoes⟩
  · exact nomatch hnone.symm.trans hs
  · obtain rfl := Option.some.inj (ht.symm.trans hs)
    have hprofile : s'.provider.profile = t.provider.profile :=
      congrArg Station.provider hgoes.profile
    rw [hd] at hprofile
    cases hp : s'.provider with
    | directory d' => exact ⟨s', d', hs', hp⟩
    | custom x =>
      rw [hp] at hprofile
      exact nomatch hprofile

/-- What a directory holds in the end of which no password was to be changed. -/
theorem entries_of_unchanged {base : Table String Entry} {s : Station} {d : Directory} {n : Nat}
    (h : unchanged (· = base) n s) (hd : s.provider = .directory d) : d.server.entries = base := by
  obtain ⟨-, hunder⟩ := h
  rw [hd] at hunder
  obtain ⟨es, base', rfl, hbooked, -⟩ := Provider.booked_of_under hunder
  generalize d.server.entries = entries at hbooked
  cases hbooked with
  | pending => rfl
  | posted x _ _ charged => exact nomatch charged

/-- What a change of a password has done to a directory, from its state when the fan-out was started
    to a later one, given the outcomes of the fan-out. -/
inductive Changed (external password : String) (p : ProviderId) (out : Outcomes Output)
    (d d' : Directory) : Prop
  | done (id : String) (e : Entry) (x : Output) (succeeded : (p, .ok x) ∈ out.entries)
      (named : d.localId external = .ok id) (known : d.server.entry? id = some e)
      (stored : d'.server.entries =
        d.server.entries.insert id { e with password := some password }) :
      Changed external password p out d d'
  | undone (failed : ∀ x, (p, .ok x) ∉ out.entries)
      (same : d'.server.entries = d.server.entries) : Changed external password p out d d'

/-- A directory that was not called to change a password holds what it held. -/
theorem entries_of_uncalled {s s' : Station} {d d' : Directory} (hc : c.Sound)
    (hbooks : c.Each (unchanged (fun _ => True) c.now)) (hs : c.station? p = some s)
    (hd : s.provider = .directory d) (hc₁ : c₁.Sound)
    (uncalled : (c₁.station? p).map Station.provider = (c.station? p).map Station.provider)
    (scenario : Scenario KeepsEntries c₁.settle c') (hs' : c'.station? p = some s')
    (hd' : s'.provider = .directory d') : d'.server.entries = d.server.entries := by
  have hmem := (station?_eq_some hs).1
  have hunder := opened none hc hmem hd (hbooks s hmem).2 nofun
  rw [hs] at uncalled
  obtain ⟨s₁, hs₁, hprovider⟩ := Option.map_eq_some_iff.mp uncalled
  rw [← hprovider] at hunder
  have hK := (kept_unchanged (P := (· = d.server.entries)) fun _ => holds_of_keepsEntries).at p
  have hcalm := scenario.calm hK (.of_settle hK hc₁ (each_of_station? hc₁ hs₁ ⟨trivial, hunder⟩))
  exact entries_of_unchanged (n := c'.now) (hcalm.each.of_station? hs') hd'

/-- What a directory holds in the end that was called to change a password: the new one is there
    exactly if the job has succeeded. -/
theorem entries_of_books {x : Charge} {base : Table String Entry} {s : Station} {d : Directory}
    {outcome : Outcome Output} {ended : Option (Ended Output)}
    (hconcluded : Concluded outcome ended x.call s.roster)
    (agrees : ∀ y, outcome = .succeeded y ↔ Answered ended y)
    (hunder : s.provider.Under (books (· = base) (some x))) (hd : s.provider = .directory d) :
    (∃ e y, outcome = .succeeded y ∧ base.get? x.localId = some e ∧
        d.server.entries = base.insert x.localId { e with password := some x.password }) ∨
      (∀ y, outcome ≠ .succeeded y) ∧ d.server.entries = base := by
  have hended : Host.ended? s.provider x.call = ended := hconcluded.ended
  rw [hd] at hunder hended
  obtain ⟨es, base', rfl, hbooked, hes⟩ := Provider.booked_of_under hunder
  rw [hes] at hended
  -- The books tell whether the call has answered, and so does the outcome of the job.
  generalize d.server.entries = entries at hbooked
  cases hbooked with
  | pending unanswered =>
    refine .inr ⟨fun y hy => unanswered x rfl y ?_, rfl⟩
    rw [hended]
    exact (agrees y).mp hy
  | posted z e y charged answered known =>
    obtain rfl := Option.some.inj charged
    rw [hended] at answered
    exact .inl ⟨e, y, (agrees y).mpr answered, known, rfl⟩

/-- What a directory holds after a fan-out has ended that was to change a password, given what the
    fan-out has yielded for it. -/
theorem entries_of_concludes {s s' : Station} {d d' : Directory} {c₃ : Coordinator}
    {password : String} {r : Except Fault Output} (hc : c.Sound)
    (hbooks : c.Each (unchanged (fun _ => True) c.now)) (hs : c.station? p = some s)
    (hd : s.provider = .directory d) (hc₁ : c₁.Sound)
    (meanwhile : Scenario KeepsEntries c₁.settle c₂)
    (acts : Relation.ReflTransGen (Act KeepsEntries) c₂ c₃)
    (h : Concludes c c₁ c₃ (.changePassword password) localId p r)
    (after : Scenario KeepsEntries c₃.settle c') (hs' : c'.station? p = some s')
    (hd' : s'.provider = .directory d') :
    (∃ id e x, r = .ok x ∧ localId s.provider = .ok id ∧ d.server.entry? id = some e ∧
        d'.server.entries = d.server.entries.insert id { e with password := some password }) ∨
      (∀ x, r ≠ .ok x) ∧ d'.server.entries = d.server.entries := by
  cases h with
  -- A target that was not called has nothing to change.
  | refused f uncalled =>
    have whole := meanwhile.trans (.head (.acts acts) after)
    exact .inr ⟨nofun, entries_of_uncalled hc hbooks hs hd hc₁ uncalled whole hs' hd'⟩
  -- From the call on, the books are kept with the one change that it may make.
  | called t s₁ s₃ id outcome ended station named station₁ host accounted station₃ concluded
      agrees =>
    obtain rfl := Option.some.inj (hs.symm.trans station)
    let x : Charge := ⟨s.roster.jobs.length, id, password⟩
    have hmem := (station?_eq_some hs).1
    obtain ⟨hnew, hunborn⟩ := (hc.ready s hmem).unused
    have hunder := opened (some x) hc hmem hd (hbooks s hmem).2 fun y hy =>
      Option.some.inj hy ▸ rfl
    have hunder₁ := hunder.submit hnew hunborn (Provider.grants_changePassword x s.provider)
    rw [← host] at hunder₁
    -- The books are kept while the job is on its way, and so they are after its outcome is known.
    have hK := (kept_books (· = d.server.entries) (some x)
      (kept_accounted KeepsEntries x.call) (fun h y hy => Option.some.inj hy ▸ h.lt_length)
      fun _ => holds_of_keepsEntries).at p
    have hcalm := meanwhile.calm hK
      (.of_settle hK hc₁ (each_of_station? hc₁ station₁ ⟨accounted, hunder₁⟩))
    obtain ⟨hc₃, hbooks₃⟩ := each_of_acts hK acts hcalm.sound hcalm.each
    have hK' := (kept_books (· = d.server.entries) (some x)
      (kept_concluded KeepsEntries outcome ended x.call)
      (fun h y hy => Option.some.inj hy ▸ h.lt_length) fun _ => holds_of_keepsEntries).at p
    have hcalm' := after.calm hK' (.of_settle hK' hc₃
      (each_of_station? hc₃ station₃ ⟨concluded, (hbooks₃.of_station? station₃).2⟩))
    obtain ⟨hconcluded, hunder'⟩ := hcalm'.each.of_station? hs'
    rcases entries_of_books hconcluded agrees hunder' hd' with
      ⟨e, y, rfl, hknown, hstored⟩ | ⟨hfailed, hsame⟩
    · exact .inl ⟨id, e, y, rfl, named, hknown, hstored⟩
    · refine .inr ⟨fun y hy => hfailed y ?_, hsame⟩
      cases outcome with
      | succeeded z => exact congrArg Outcome.succeeded (Except.ok.inj hy)
      | failed | cancelled => cases hy

/-- After a password was to be changed at many directories, each of them holds what the outcomes
    say, and this stays so.  The coordinator was built, and before the fan-out users were read and
    servers were changed in any way; since then entries have not been changed from outside. -/
theorem start_changes {b : Blueprint} {c₀ : Coordinator} (fresh : ∀ p ∈ b.providers, p.IsFresh)
    (built : b.build = .ok c₀) (before : Scenario (fun _ => True) c₀.settle c)
    {external password : String} {targets : Targets} {batch : Batch}
    (started : c.start (.changePassword password) external targets = (c₁, batch))
    (meanwhile : Scenario KeepsEntries c₁.settle c₂) :
    ∃ t c₃ out, (∀ limit, t ≤ limit → c₂.wait limit batch = (c₃, some out)) ∧
      out.providers = (targets.listed c.ids).eraseDups ∧
      ∀ c₄, Scenario KeepsEntries c₃.settle c₄ →
        ∀ p s d, c.station? p = some s → s.provider = .directory d →
          ∃ s' d', c₄.station? p = some s' ∧ s'.provider = .directory d' ∧
            Changed external password p out d d' := by
  -- Before the fan-out the books may say anything, as long as no password is to be changed.
  have hc₀ := sound_of_build fresh built
  have hK := kept_unchanged fun f (_ : True) s es _ => Directory.holds_true (f s) es
  have hcalm := before.calm hK (.of_settle hK hc₀ (unchanged_of_build fresh built))
  have hc := hcalm.sound
  have hsteps : Steps (fun _ => False) c c₁ := by
    obtain ⟨xs, -, -, -, hlaunched, -⟩ := launches_of_start hc started
    have hsteps := steps_launchAll (fun _ => False) (.changePassword password) xs c
    rw [hlaunched] at hsteps
    exact hsteps
  have hc₁ := (hsteps.evolves hc).sound hc
  obtain ⟨t, c₃, out, acts, hwait, hproviders, hconcludes, huncalled⟩ :=
    start_concludes hc started meanwhile
  refine ⟨t, c₃, out, hwait, hproviders, fun c₄ after p s d hs hd => ?_⟩
  -- The directory is still there after everything that has happened since.
  have whole : Scenario KeepsEntries c₁.settle c₄ := meanwhile.trans (.head (.acts acts) after)
  have hevolves := (hsteps.evolves hc).trans (whole.steps_of_settle.evolves hc₁)
  obtain ⟨s', d', hs', hd'⟩ := hevolves.directory hs hd
  refine ⟨s', d', hs', hd', ?_⟩
  -- A target has one outcome, so a failure is not a success as well.
  have hnodup := Targets.nodup_of_providers hc.nodup hproviders
  by_cases hp : p ∈ out.providers
  case neg =>
    refine .undone (fun x hx => hp (List.mem_map_of_mem (f := Prod.fst) hx)) ?_
    exact entries_of_uncalled hc hcalm.each hs hd hc₁ (huncalled p hp) whole hs' hd'
  obtain ⟨⟨q, r⟩, hr, rfl⟩ := List.mem_map.mp hp
  rcases entries_of_concludes hc hcalm.each hs hd hc₁ meanwhile acts (hconcludes _ hr) after hs' hd'
    with ⟨id, e, x, rfl, hnamed, hknown, hstored⟩ | ⟨hfailed, hsame⟩
  · rw [hd] at hnamed
    exact .done id e x hr hnamed hknown hstored
  · exact .undone (fun x hx => hfailed x (eq_of_mem_of_nodup hnodup hr hx)) hsame

/-- Of two directories, one answers before the fan-out is cancelled, and the other one is cancelled
    in the middle of the call. -/
theorem start_changes_cancelled :
    let jdoe : Entry := { localId := "jdoe", persistentId := "1", password := some "old" }
    let entries : Table String Entry := .ofList [("jdoe", jdoe)]
    let ldap : Directory :=
      { id := ⟨"ldap"⟩, access := Directory.concurrently { entries := entries, latency := 5 } }
    let okta : Directory :=
      { id := ⟨"okta"⟩
        access := Directory.serially ⟨"okta"⟩ none { entries := entries, latency := 20 } }
    let b : Blueprint := { providers := [.directory ldap, .directory okta] }
    let c₀ : Coordinator := { stations := b.providers.map b.station, engine := b.mergeEngine }
    let started := c₀.settle.start (.changePassword "new") "jdoe" .all
    let later := (started.1.settle.settle.advanceTo 10).settle
    let c₂ := (later.cancel started.2).1.settle
    b.build = .ok c₀ ∧ (∀ p ∈ b.providers, p.IsFresh) ∧ Scenario KeepsEntries started.1.settle c₂ ∧
      ∃ t c₃ out, (∀ limit, t ≤ limit → c₂.wait limit started.2 = (c₃, some out)) ∧
        out.entries = [(ldap.id, .ok .completed), (okta.id, .error .cancelled)] ∧
        (∃ s d, c₃.settle.station? ldap.id = some s ∧ s.provider = .directory d ∧
          d.server.entries = .ofList [("jdoe", { jdoe with password := some "new" })]) ∧
        ∃ s d, c₃.settle.station? okta.id = some s ∧ s.provider = .directory d ∧
          d.server.entries = entries := by
  intro jdoe entries ldap okta b c₀ started later c₂
  have hfresh : ∀ p ∈ b.providers, p.IsFresh := by
    intro p hp
    rcases List.mem_cons.mp hp with rfl | hp
    · exact ⟨rfl, rfl⟩
    · obtain rfl := List.mem_singleton.mp hp
      exact ⟨rfl, rfl, rfl⟩
  have hscenario : Scenario KeepsEntries started.1.settle c₂ :=
    .tail (.single (.acts (.single (.pass 10 started.1.settle (by decide)))))
      (.cancel started.2.jobs later)
  have hbuilt : b.build = .ok c₀ := rfl
  have hstarted : c₀.settle.start (.changePassword "new") "jdoe" .all = (started.1, started.2) :=
    (Prod.eta started).symm
  obtain ⟨t, c₃, out, hwait, -, hchanged⟩ :=
    start_changes hfresh hbuilt .refl hstarted hscenario
  have hentries : (c₂.wait 100 started.2).2.map (fun o => o.entries) =
      some [(ldap.id, .ok .completed), (okta.id, .error .cancelled)] := by
    cbv
  obtain ⟨o, ho, hout⟩ := Option.map_eq_some_iff.mp hentries
  have hwaited : c₂.wait 100 started.2 = ((c₂.wait 100 started.2).1, some o) := by rw [← ho]
  obtain ⟨rfl, rfl⟩ := eq_of_wait hwaited hwait
  obtain ⟨s, d, hs, hd, hnamed, hheld⟩ : ∃ s d, c₀.settle.station? ldap.id = some s ∧
      s.provider = .directory d ∧ d.localId "jdoe" = .ok "jdoe" ∧ d.server.entries = entries :=
    ⟨_, _, rfl, rfl, rfl, rfl⟩
  obtain ⟨s', d', hs', hd', hheld'⟩ : ∃ s d, c₀.settle.station? okta.id = some s ∧
      s.provider = .directory d ∧ d.server.entries = entries :=
    ⟨_, _, rfl, rfl, rfl⟩
  refine ⟨hbuilt, hfresh, hscenario, t, _, o, hwait, hout, ?_, ?_⟩
  · obtain ⟨s₄, d₄, hs₄, hd₄, h⟩ := hchanged _ .refl _ s d hs hd
    refine ⟨s₄, d₄, hs₄, hd₄, ?_⟩
    cases h with
    | done id e _ _ named known stored =>
      obtain rfl := Except.ok.inj (hnamed.symm.trans named)
      unfold Server.entry? at known
      rw [hheld] at known stored
      obtain rfl : jdoe = e := Option.some.inj known
      exact stored
    | undone failed =>
      refine absurd ?_ (failed .completed)
      rw [hout]
      exact .head _
  · obtain ⟨s₄, d₄, hs₄, hd₄, h⟩ := hchanged _ .refl _ s' d' hs' hd'
    refine ⟨s₄, d₄, hs₄, hd₄, ?_⟩
    cases h with
    | done _ _ x succeeded =>
      rw [hout] at succeeded
      rcases List.mem_cons.mp succeeded with h | h
      · exact absurd (Prod.mk.inj h).1 (by decide)
      · cases (Prod.mk.inj (List.mem_singleton.mp h)).2
    | undone _ same => exact same.trans hheld'

end Coordinator

end Federation
