import Federation.Proofs.Coordinator.Isolation
import Federation.Proofs.Coordinator.Scenario
import Federation.Proofs.Directory.Schedule

/-!
# One connection under a coordinator

However a coordinator is used, the calls that it makes of a directory with one connection are calls
that come to the desk for the connection, and they are given up there.  So the directory keeps what
the desk keeps: at most one call is in progress, and calls that never had the connection are not
counted.

## Key results

- `Use`: what may be done with a coordinator; `uses_start`, `uses_wait`, `uses_cancel`,
  `uses_execute`: fan-outs are such uses
- `Use.joins`: what becomes of the connection
- `connection_spec`: a directory with one connection, used in any way
-/

namespace Federation

open Directory (Exclusive Server desk)
open Roster (Ready Settled)

variable {d : Directory} {y : Domain.Desk Unit Server Output} {now later : Nat}

namespace Station

variable {s : Station}

/-- A launch is one more call. -/
theorem calls_launch (now : Nat) (o : Operation) (localId : String) (s : Station) :
    (s.launch now o localId).1.calls =
      s.calls ++ [(.account ⟨s.id, localId⟩, some o, some now)] := by
  have hs := Roster.launch_eq (a := s.actionFor o localId) now o ⟨o, localId⟩ s.roster rfl
  simp only [launch, calls, Roster.callsMade, hs, List.map_append]
  rfl

/-- A cancellation is no call. -/
theorem calls_cancel (now job : Nat) (s : Station) : (s.cancel now job).1.calls = s.calls :=
  Roster.callsMade_cancel now job s.roster

/-- A station has the directory that some steps at the desk for its connection lead to; the calls
    that were made are those of the station. -/
structure Joins (d : Directory) (y : Domain.Desk Unit Server Output) (rs : List Request) (now : Nat)
    (s : Station) : Prop where
  provider : ∃ x, s.provider = .directory x ∧ d.Reaches y rs now x
  calls : List.Forall₂
    (fun r call => call.1 = .account ⟨d.id, r.localId⟩ ∧ call.2.1 = some r.operation) rs s.calls

variable {rs : List Request}

/-- There are as many calls as jobs. -/
theorem Joins.length_eq (h : Joins d y rs now s) : rs.length = s.roster.jobs.length := by
  rw [h.calls.length_eq]
  exact List.length_map _

/-- Collecting events does not concern the desk. -/
theorem Joins.collected (h : Joins d y rs now s) : Joins d y rs now s.collected :=
  ⟨h.provider, h.calls⟩

/-- A launch is a step at the desk. -/
theorem Joins.launch (h : Joins d y rs now s) (o : Operation) (localId : String) :
    Joins d y (rs ++ [⟨o, localId⟩]) now (s.launch now o localId).1 := by
  -- The call gets in line at the desk, and the station notes it as one more call.
  obtain ⟨x, hx, hreaches⟩ := h.provider
  have hid : s.id = d.id := by
    obtain ⟨ss, -, hstands⟩ := hreaches
    rw [id, hx, hstands.directory]
    rfl
  refine ⟨⟨_, ?_, hreaches.submit ⟨o, localId⟩⟩, ?_⟩
  · rw [provider_launch, hx, h.length_eq]
    rfl
  · rw [calls_launch, hid]
    exact List.rel_append h.calls (.cons ⟨rfl, rfl⟩ .nil)

/-- A cancellation does not concern the desk until the station settles. -/
theorem Joins.cancel (h : Joins d y rs now s) (job : Nat) : Joins d y rs now (s.cancel now job).1 :=
  ⟨provider_cancel now job s ▸ h.provider, calls_cancel now job s ▸ h.calls⟩

/-- A change of the server from outside is a step at the desk. -/
theorem Joins.serve (h : Joins d y rs now s) {f : Server → Server} (hf : Server.Spares f) :
    Joins d y rs now (s.mapDirectory (Directory.mapServer f)) := by
  obtain ⟨x, hx, hreaches⟩ := h.provider
  refine ⟨⟨x.mapServer f, ?_, hreaches.serve hf⟩, h.calls⟩
  show s.provider.mapDirectory (Directory.mapServer f) = _
  rw [hx]
  rfl

/-- Settling is some steps at the desk. -/
theorem Joins.settle (h : Joins d y rs now s) : Joins d y rs now (Timed.settle now s) := by
  refine ⟨?_, calls_settle now s ▸ h.calls⟩
  -- A roster does three things to its host while it settles, and the desk has a step for each.
  refine Roster.host_settle_at (P := fun p => ∃ x, p = Provider.directory x ∧ d.Reaches y rs now x)
    ?abort ?ripen ?settle h.provider
  case abort =>
    rintro p i ⟨x, rfl, hx⟩
    exact ⟨_, rfl, hx.abort i⟩
  case ripen =>
    rintro p ⟨x, rfl, hx⟩
    exact ⟨_, rfl, hx.ripen⟩
  case settle =>
    rintro p ⟨x, rfl, hx⟩
    exact ⟨_, rfl, hx.settle⟩

/-- Time passes at a station that has settled, until something is due. -/
theorem Joins.wait (h : Joins d y rs now s) (hs : Settled now s.roster) (hle : now ≤ later)
    (hnext : ∀ t, Timed.next? s = some t → later ≤ t) : Joins d y rs later s := by
  obtain ⟨x, hx, hreaches⟩ := h.provider
  refine ⟨⟨x, hx, hreaches.wait ?_ hle fun t ht => ?_⟩, h.calls⟩
  · have hrests : LawfulHost.Rests now s.provider := hs.rests
    rw [hx] at hrests
    exact hrests
  -- What is due at the provider is due at the station, and nothing is due there before `later`.
  · have hhost : Timed.next? s.provider = some t := by
      rw [hx]
      exact ht
    obtain ⟨u, hu, hut⟩ := Timed.earlier_le (b := Timed.earliest (s.roster.jobs.map (·.runner.due?)))
      (.inl hhost)
    exact Nat.le_trans (hnext u hu) hut

/-- Time passes at the desk, too. -/
theorem Joins.advanceTo (h : Joins d y rs now s) (hs : Settled now s.roster) (hle : now ≤ later) :
    Joins d y rs later (Timed.advanceTo later s) :=
  (steady fun _ _ => False).advanceTo_induction (P := Joins d y rs)
    (fun hs h hle hnext => h.wait hs.settled hle hnext) (fun h => h.settle)
    ⟨hs, fun _ => False.elim⟩ h hle

end Station

namespace Coordinator

variable {serves : (Server → Server) → Prop} {c c' : Coordinator}

/-- What may be done with a coordinator.  `serves` says what may be done to the servers of
    directories. -/
inductive Use (serves : (Server → Server) → Prop) : Coordinator → Coordinator → Prop
  | launch (o : Operation) (localId : Provider → Except Fault String) (target : ProviderId)
      (c : Coordinator) : Use serves c (c.launch o localId target).1
  | cancel (job : ProviderId × Nat) (c : Coordinator) : Use serves c (c.cancelOne job).1
  | serve (p : ProviderId) (f : Server → Server) (c : Coordinator) (h : serves f) :
      Use serves c (c.mapStation p (Station.mapDirectory (Directory.mapServer f)))
  | settle (c : Coordinator) : Use serves c c.settle
  | pass (t : Nat) (c : Coordinator) (h : c.now ≤ t) : Use serves c (c.settle.advanceTo t)
  | tell (es : List Event) (c : Coordinator) : Use serves c (c.tell es)

/-- What is done with a coordinator is a step of it. -/
theorem Use.step (h : Use serves c c') : Step (fun _ => False) c c' := by
  cases h with
  | launch o localId target => exact .launch o localId target c
  | cancel job => exact .cancel job c id
  | serve p f => exact .serve p f c
  | settle => exact .settle c
  | pass t _ h => exact .pass t c h
  | tell es => exact .tell es c

/-- Whatever is done with a coordinator is steps of it. -/
theorem steps_of_uses (h : Relation.ReflTransGen (Use serves) c c') :
    Steps (fun _ => False) c c' :=
  Relation.ReflTransGen.mono (p := Step fun _ => False) (fun _ _ h => h.step) _ _ h

/-! ## Fan-outs -/

/-- Launches are uses of the coordinator. -/
theorem uses_launchAll (o : Operation)
    (xs : List (ProviderId × (Provider → Except Fault String))) (c : Coordinator) :
    Relation.ReflTransGen (Use serves) c (launchAll o xs c).1 := by
  induction xs generalizing c with
  | nil => exact .refl
  | cons x xs ih => exact .head (.launch o x.2 x.1 c) (ih (c.launch o x.2 x.1).1)

/-- Starting a fan-out is a use of the coordinator. -/
theorem uses_start (o : Operation) (external : String) (targets : Targets) (c : Coordinator) :
    Relation.ReflTransGen (Use serves) c (c.start o external targets).1 :=
  uses_launchAll o _ c

/-- Cancelling several jobs is a use of the coordinator. -/
theorem uses_cancelEach (jobs : List (ProviderId × Nat)) (c : Coordinator) :
    Relation.ReflTransGen (Use serves) c (c.cancelEach jobs).1 :=
  cancelEach_induction (P := Relation.ReflTransGen (Use serves) c)
    (fun d job hd => .tail hd (.cancel job d)) jobs .refl

/-- Waiting for a fan-out is a use of the coordinator. -/
theorem uses_wait (b : Batch) {limit : Nat} (h : c.now ≤ limit) :
    Relation.ReflTransGen (Use serves) c (c.wait limit b).1 := by
  rcases wait_cases b h with ⟨t, out, hnow, -, hwait⟩ | hwait
  · rw [hwait]
    exact .tail (.single (.pass t c hnow)) (.tell _ _)
  · rw [hwait]
    exact .single (.pass limit c h)

/-- A whole fan-out is a use of the coordinator. -/
theorem uses_execute (o : Operation) (external : String) (targets : Targets) {limit : Nat}
    (h : c.now ≤ limit) :
    Relation.ReflTransGen (Use serves) c (c.execute limit o external targets).1 := by
  have hnow : (c.start o external targets).1.now = c.now := now_launchAll o _ c
  exact (uses_start o external targets c).trans (uses_wait _ (hnow.trans_le h))

/-! ## The connection -/

/-- The station of a directory with one connection remains such a station, whatever is done with the
    coordinator. -/
theorem Use.joins (h : Use Server.Spares c c') (hc : c.Sound)
    (hd : c.Each fun s => s.id = d.id → ∃ rs, s.Joins d y rs c.now) :
    c'.Each fun s => s.id = d.id → ∃ rs, s.Joins d y rs c'.now := by
  let A (now : Nat) (s : Station) : Prop := s.id = d.id → ∃ rs, s.Joins d y rs now
  have collected : ∀ now s, A now s → A now s.collected := fun now s hs hid =>
    (hs hid).imp fun _ h => h.collected
  have settled : c.settle.Each (A c.now) := by
    refine .settle (collected c.now) fun s hs hid => ?_
    rw [Station.id_eq_of_profile (Station.profile_settle c.now s)] at hid
    exact (hd s hs hid).imp fun _ h => h.settle
  -- What is done is done at every station, or at one of them, which may be that of the directory.
  cases h with
  | launch o localId target =>
    rw [now_launch]
    refine hd.launch (collected c.now) (fun s hs id _ hid => ?_) target
    rw [Station.id_launch] at hid
    obtain ⟨rs, hrs⟩ := hd s hs hid
    exact ⟨_, hrs.launch o id⟩
  | cancel job =>
    rw [now_cancelOne]
    refine hd.cancelOne (collected c.now) fun s hs hid => ?_
    rw [Station.id_cancel] at hid
    exact (hd s hs hid).imp fun _ h => h.cancel job.2
  | serve p f _ hf =>
    refine hd.serve (fun s hs hid => ?_) p
    rw [Station.id_serve] at hid
    exact (hd s hs hid).imp fun _ h => h.serve hf
  | settle => exact settled
  | pass t _ hle =>
    refine .advanceTo (collected t) fun s hs hid => ?_
    rw [Station.id_eq_of_profile (Station.profile_advanceTo t s)] at hid
    exact (settled s hs hid).imp fun _ h => h.advanceTo (hc.settled hs) hle
  | tell es => exact hd

/-- A station stays at its desk, whatever is done with the coordinator. -/
theorem joins_of_uses (h : Relation.ReflTransGen (Use Server.Spares) c c') (hc : c.Sound)
    (hd : c.Each fun s => s.id = d.id → ∃ rs, s.Joins d y rs c.now) :
    c'.Sound ∧ c'.Each fun s => s.id = d.id → ∃ rs, s.Joins d y rs c'.now := by
  induction h with
  | refl => exact ⟨hc, hd⟩
  | tail _ use ih => exact ⟨(use.step.evolves ih.1).sound ih.1, use.joins ih.1 ih.2⟩

/-- A coordinator that has just been built has made no calls. -/
theorem joins_of_build {b : Blueprint} {callDeadline : Option Nat} {server : Server}
    (fresh : ∀ p ∈ b.providers, p.IsFresh) (built : b.build = .ok c)
    (hd : .directory d ∈ b.providers)
    (serial : d.access = Directory.serially d.id callDeadline server) :
    c.Each fun s => s.id = d.id → ∃ rs, s.Joins d (desk d.id callDeadline server) rs c.now := by
  have hnodup := (sound_of_build fresh built).nodup
  rw [Blueprint.build_ids built] at hnodup
  obtain ⟨-, rfl⟩ := Blueprint.build_eq_ok_iff.mp built
  intro s hs hid
  obtain ⟨p, hp, rfl⟩ := List.mem_map.mp hs
  obtain rfl : p = .directory d := List.inj_on_of_nodup_map hnodup hp hd hid
  exact ⟨[], ⟨d, rfl, Directory.reaches_new serial⟩, .nil⟩

end Coordinator

/-- Whatever happens at the desk for the one connection to a new directory, at most one call is in
    progress, those that have been in progress are counted, and one connection is opened: calls come,
    wait for the connection, have it until they end or for too long, or are given up, and meanwhile
    the server is made slow, made to fail, or given other entries.  What a caller does who calls the
    directory happens at this desk, and so does what is done with a coordinator that calls it in
    fan-outs. -/
theorem Directory.connection_spec (d : Directory) (callDeadline : Option Nat) (server : Server)
    (new : server.IsNew) (serial : d.access = serially d.id callDeadline server) :
    let x := desk d.id callDeadline server
    (∀ ss, (∀ s ∈ ss, d.Allows s) → Exclusive (x.run ss)) ∧
    (∀ c, Relation.ReflTransGen Use { host := d } c →
      ∃ rs : List Request, rs.length = c.next ∧ d.Reaches x rs c.now c.host) ∧
    ∀ (b : Blueprint) (c₀ c : Coordinator), .directory d ∈ b.providers →
      (∀ p ∈ b.providers, p.IsFresh) → b.build = .ok c₀ →
      Relation.ReflTransGen (Coordinator.Use Server.Spares) c₀ c →
      ∃ s rs, c.station? d.id = some s ∧ s.Joins d x rs c.now := by
  intro x
  refine ⟨fun ss hss => exclusive_run d callDeadline new hss, fun c uses => ?_, ?_⟩
  · exact reaches_of_uses uses ⟨[], rfl, reaches_new serial⟩
  · intro b c₀ c hd fresh built uses
    have hc₀ := Coordinator.sound_of_build fresh built
    obtain ⟨-, hjoins⟩ := Coordinator.joins_of_uses uses hc₀
      (Coordinator.joins_of_build fresh built hd serial)
    -- The directory was registered, so the coordinator still has a station for it.
    rcases ((Coordinator.steps_of_uses uses).evolves hc₀).station? d.id with ⟨hnone, -⟩ | hsome
    · rw [Coordinator.station?_eq_none_iff, Blueprint.build_ids built] at hnone
      exact absurd (List.mem_map_of_mem (f := Provider.id) hd) hnone
    · obtain ⟨-, s, -, hs, -⟩ := hsome
      obtain ⟨rs, h⟩ := hjoins.of_station? hs
      exact ⟨s, rs, hs, h⟩

/-- Of four calls, the first ends, the second is overdue while it has the connection, the last is
    cancelled while it waits, and the third has the connection after the second. -/
theorem Directory.connection_spec_overdue :
    let server : Server := { latency := 10 }
    let d : Directory := { id := ⟨"ldap"⟩, access := serially ⟨"ldap"⟩ none server }
    let b : Blueprint := { providers := [.directory d], defaultDeadline := some 15 }
    let c₀ : Coordinator := { stations := b.providers.map b.station, engine := b.mergeEngine }
    let c₁ := ((c₀.start .readAll "jdoe" .all).1.start (.changePassword "new") "jdoe" .all).1
    let c₂ := c₁.settle.advanceTo 5
    let c₃ := ((c₂.start .readAll "jdoe" .all).1.start .readAll "jdoe" .all).1.settle
    let c := (c₃.cancelOne (d.id, 3)).1.settle.advanceTo 17
    Relation.ReflTransGen (Coordinator.Use Server.Spares) c₀ c ∧
    ∃ ss, (∀ s ∈ ss, d.Allows s) ∧
      let x := (desk d.id none server).run ss
      Exclusive x ∧ x.book.now = 17 ∧ x.book.orders.length = 4 ∧
        (Domain.Mark.admissions x.book.marks).length = 3 ∧ x.book.holder.isSome = true ∧
        x.domain.stats.opened = 1 := by
  intro server d b c₀ c₁ c₂ c₃ c
  have uses : Relation.ReflTransGen (Coordinator.Use Server.Spares) c₀ c := by
    have h₁ : Relation.ReflTransGen (Coordinator.Use Server.Spares) c₀ c₁ :=
      (Coordinator.uses_start _ _ _ _).trans (Coordinator.uses_start _ _ _ _)
    have h₂ : Relation.ReflTransGen (Coordinator.Use Server.Spares) c₁ c₂ :=
      .single (.pass 5 c₁ (by cbv))
    have h₃ : Relation.ReflTransGen (Coordinator.Use Server.Spares) c₂ c₃ :=
      ((Coordinator.uses_start _ _ _ _).trans (Coordinator.uses_start _ _ _ _)).tail (.settle _)
    exact ((h₁.trans (h₂.trans h₃)).tail (.cancel (d.id, 3) c₃)).tail (.pass 17 _ (by cbv))
  obtain ⟨hexclusive, -, hcoordinator⟩ := connection_spec d none server ⟨rfl, rfl, rfl⟩ rfl
  have hfresh : ∀ p ∈ b.providers, p.IsFresh := by
    intro p hp
    obtain rfl := List.mem_singleton.mp hp
    exact ⟨rfl, rfl, rfl⟩
  obtain ⟨s, rs, hs, hjoins⟩ :=
    hcoordinator b c₀ c List.mem_cons_self hfresh rfl uses
  obtain ⟨y, hy, ss, hss, rfl, hnow, horders⟩ := hjoins.provider
  -- The server says that three calls have come to it and one is in progress.
  have hseen : (c.station? d.id).map (fun s => (s.roster.jobs.length,
      s.provider.directory?.map fun y => (y.server.calls, y.server.active))) =
        some (4, some (3, 1)) := by
    cbv
  rw [hs, Option.map_some, Option.some.injEq, hy, Prod.mk.injEq] at hseen
  obtain ⟨hlength, hserver⟩ := hseen
  obtain ⟨hcalls, hactive⟩ := Prod.mk.inj (Option.some.inj hserver)
  have h := hexclusive ss hss
  refine ⟨uses, ss, hss, h, hnow, ?_, h.calls.symm.trans hcalls, ?_, ?_⟩
  · rw [horders]
    exact List.length_mapIdx.trans (hjoins.length_eq.trans hlength)
  · by_contra hfree
    have hidle := h.active
    rw [if_neg hfree] at hidle
    exact absurd (hidle.symm.trans hactive) Nat.zero_ne_one
  · exact h.opened.trans (congrArg (min 1) hcalls)

end Federation
