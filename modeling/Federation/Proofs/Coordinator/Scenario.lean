import Federation.Proofs.Coordinator.Each
import Federation.Proofs.Directory.Ledger

/-!
# Scenarios

A caller does something and lets everything happen that can happen then, again and again.  In the
scenarios here users are read, the servers of directories are changed from outside, time passes, and
fan-outs are cancelled, but no password is changed, except by calls that were made before.

## Key results

- `Kept`: what a station keeps in such a scenario
- `Scenario.calm`: it holds at the end if it held at the beginning
- `kept_accounted`, `kept_concluded`: the outcomes of jobs can be relied upon
- `kept_books`: so can the books of directories
-/

namespace Federation

open Roster (Ready Settled Accounted Poised Concluded)

namespace Coordinator

variable {serves : (Directory.Server → Directory.Server) → Prop} {c c' c'' : Coordinator}

/-- What a caller may do besides cancelling.  `serves` says what may be done to the servers of
    directories. -/
inductive Act (serves : (Directory.Server → Directory.Server) → Prop) :
    Coordinator → Coordinator → Prop
  | read (ps : Option (List Property)) (localId : Provider → Except Fault String)
      (target : ProviderId) (c : Coordinator) :
      Act serves c (c.launch (.read ps) localId target).1
  | serve (p : ProviderId) (f : Directory.Server → Directory.Server) (c : Coordinator)
      (h : serves f) :
      Act serves c (c.mapStation p (Station.mapDirectory (Directory.mapServer f)))
  | settle (c : Coordinator) : Act serves c c.settle
  | pass (t : Nat) (c : Coordinator) (h : c.now ≤ t) : Act serves c (c.settle.advanceTo t)
  | tell (es : List Event) (c : Coordinator) : Act serves c (c.tell es)

/-- A caller takes a step, be it many acts or a cancellation, and then everything happens that can
    happen at that instant. -/
inductive Round (serves : (Directory.Server → Directory.Server) → Prop) :
    Coordinator → Coordinator → Prop
  | acts {c c' : Coordinator} (h : Relation.ReflTransGen (Act serves) c c') :
      Round serves c c'.settle
  /-- Actions are cancelled, visited in any order. -/
  | cancel (jobs : List (ProviderId × Nat)) (c : Coordinator) :
      Round serves c (c.cancelEach jobs).1.settle

/-- What may happen in any number of rounds. -/
def Scenario (serves : (Directory.Server → Directory.Server) → Prop) :
    Coordinator → Coordinator → Prop :=
  Relation.ReflTransGen (Round serves)

/-- What may happen while a fan-out runs is a step of the coordinator. -/
theorem Act.step (h : Act serves c c') : Step (fun _ => False) c c' := by
  cases h with
  | read ps localId target => exact .launch (.read ps) localId target c
  | serve p f => exact .serve p f c
  | settle => exact .settle c
  | pass t _ h => exact .pass t c h
  | tell es => exact .tell es c

/-- Whatever may happen while a fan-out runs is steps of the coordinator. -/
theorem steps_of_acts (h : Relation.ReflTransGen (Act serves) c c') :
    Steps (fun _ => False) c c' :=
  Relation.ReflTransGen.mono (p := Step fun _ => False) (fun _ _ h => h.step) _ _ h

/-! ## Cancellations -/

/-- What cancelling one action keeps, cancelling several of them keeps. -/
theorem cancelEach_induction {P : Coordinator → Prop}
    (one : ∀ c job, P c → P (c.cancelOne job).1) (jobs : List (ProviderId × Nat)) (h : P c) :
    P (c.cancelEach jobs).1 :=
  List.foldlRecOn (motive := fun x : Coordinator × Nat => P x.1) jobs _ h
    fun x hx job _ => one x.1 job hx

/-- A cancellation takes no time. -/
theorem now_cancelOne (c : Coordinator) (job : ProviderId × Nat) :
    (c.cancelOne job).1.now = c.now := by
  unfold cancelOne
  split <;> rfl

/-- Cancelling several jobs is steps of the coordinator. -/
theorem steps_cancelEach (jobs : List (ProviderId × Nat)) (c : Coordinator) :
    Steps (fun _ => False) c (c.cancelEach jobs).1 :=
  cancelEach_induction (P := Steps (fun _ => False) c)
    (fun d job hd => .tail hd (.cancel job d id)) jobs .refl

/-- A scenario is steps of the coordinator. -/
theorem Scenario.steps (h : Scenario serves c c') : Steps (fun _ => False) c c' := by
  induction h with
  | refl => exact .refl
  | tail _ round ih =>
    cases round with
    | acts h => exact ih.trans ((steps_of_acts h).tail (.settle _))
    | cancel jobs => exact ih.trans ((steps_cancelEach jobs _).tail (.settle _))

/-- A scenario that begins by settling is steps of the coordinator. -/
theorem Scenario.steps_of_settle (h : Scenario serves c.settle c') :
    Steps (fun _ => False) c c' :=
  .head (.settle c) h.steps

/-! ## What stations keep -/

/-- What a station keeps in scenarios: `A` at any time, and `B` when it has settled, as long as
    actions are cancelled. -/
structure Kept (serves : (Directory.Server → Directory.Server) → Prop)
    (A B : Nat → Station → Prop) : Prop where
  collected : ∀ {now s}, A now s → A now s.collected
  read : ∀ {now s}, Ready now s.roster → A now s → ∀ ps localId,
    A now (s.launch now (.read ps) localId).1
  serve : ∀ {now s f}, serves f → A now s → A now (s.mapDirectory (Directory.mapServer f))
  settle : ∀ {now s}, Ready now s.roster → A now s → A now (Timed.settle now s)
  advance : ∀ {now later s}, Settled now s.roster → A now s → now ≤ later →
    A later (Timed.advanceTo later s)
  poised : ∀ {now s}, Settled now s.roster → A now s → B now s
  poised_collected : ∀ {now s}, B now s → B now s.collected
  cancel : ∀ {now s}, Ready now s.roster → B now s → ∀ job, B now (s.cancel now job).1
  resolve : ∀ {now s}, Ready now s.roster → B now s → A now (Timed.settle now s)

variable {A B : Nat → Station → Prop}

/-- Every station has a property that it keeps, and everything has happened that can happen now. -/
structure Calm (A : Nat → Station → Prop) (c : Coordinator) : Prop where
  sound : c.Sound
  settled : c.Each fun s => Settled c.now s.roster
  each : c.Each (A c.now)

/-- What stations keep they have when the coordinator settles. -/
theorem Each.settle_kept (K : Kept serves A B) (hc : c.Sound) (h : c.Each (A c.now)) :
    c.settle.Each (A c.now) :=
  .settle (fun _ => K.collected) fun s hs => K.settle (hc.ready s hs) (h s hs)

/-- What stations keep they have after anything that may happen. -/
theorem Act.each (K : Kept serves A B) (h : Act serves c c') (hc : c.Sound)
    (hA : c.Each (A c.now)) : c'.Each (A c'.now) := by
  cases h with
  | read ps localId target =>
    rw [now_launch]
    exact hA.launch (fun _ => K.collected)
      (fun s hs id _ => K.read (hc.ready s hs) (hA s hs) ps id) target
  | serve p f _ h => exact hA.serve (fun s hs => K.serve h (hA s hs)) p
  | settle => exact hA.settle_kept K hc
  | pass t _ h =>
    -- Time passes at stations that have settled.
    have hsettled := hA.settle_kept K hc
    exact .advanceTo (fun _ => K.collected) fun s hs => K.advance (hc.settled hs) (hsettled s hs) h
  | tell es => exact hA

/-- What stations keep they have, whatever happens. -/
theorem each_of_acts (K : Kept serves A B) (h : Relation.ReflTransGen (Act serves) c c')
    (hc : c.Sound) (hA : c.Each (A c.now)) : c'.Sound ∧ c'.Each (A c'.now) := by
  induction h with
  | refl => exact ⟨hc, hA⟩
  | tail _ act ih => exact ⟨(act.step.evolves ih.1).sound ih.1, act.each K ih.1 ih.2⟩

/-- A coordinator that has settled is calm. -/
theorem Calm.of_settle (K : Kept serves A B) (hc : c.Sound) (hA : c.Each (A c.now)) :
    Calm A c.settle where
  sound := (evolves_settle (fun _ => True) hc).sound hc
  settled _ hs := hc.settled hs
  each := hA.settle_kept K hc

/-- Some actions are cancelled when everything has happened, and then everything happens that this
    brings about. -/
theorem Calm.cancelEach (K : Kept serves A B) (h : Calm A c) (jobs : List (ProviderId × Nat)) :
    Calm A (c.cancelEach jobs).1.settle := by
  -- Actions are cancelled one by one, and no time passes in between.
  let P (d : Coordinator) : Prop := d.now = c.now ∧ d.Sound ∧ d.Each (B c.now)
  have hP : P (c.cancelEach jobs).1 := by
    refine cancelEach_induction (P := P) (fun d job hd => ?_) jobs
      ⟨rfl, h.sound, fun s hs => K.poised (h.settled s hs) (h.each s hs)⟩
    obtain ⟨hnow, hsound, hB⟩ := hd
    refine ⟨(now_cancelOne d job).trans hnow, ?_, ?_⟩
    · have hevolves : Evolves (fun _ => False) d (d.cancelOne job).1 :=
        evolves_cancelOne hsound id
      exact hevolves.sound hsound
    · refine hB.cancelOne (fun _ => K.poised_collected) fun s hs => ?_
      have hready := hsound.ready s hs
      rw [hnow] at hready ⊢
      exact K.cancel hready (hB s hs) job.2
  obtain ⟨hnow, hsound, hB⟩ := hP
  refine ⟨(evolves_settle (fun _ => True) hsound).sound hsound, fun s hs => hsound.settled hs, ?_⟩
  refine .settle (fun _ => K.collected) fun s hs => ?_
  have hready := hsound.ready s hs
  rw [hnow] at hready
  show A (c.cancelEach jobs).1.now (Timed.settle (c.cancelEach jobs).1.now s)
  rw [hnow]
  exact K.resolve hready (hB s hs)

/-- What stations keep holds at the end of a scenario. -/
theorem Scenario.calm (K : Kept serves A B) (h : Scenario serves c c') (hc : Calm A c) :
    Calm A c' := by
  -- Induction on the rounds, each of which ends when everything has happened.
  induction h with
  | refl => exact hc
  | tail _ round ih =>
    cases round with
    | acts h =>
      obtain ⟨hsound, hA⟩ := each_of_acts K h ih.sound ih.each
      exact .of_settle K hsound hA
    | cancel jobs => exact ih.cancelEach K jobs

/-! ## Jobs and books -/

/-- What a station keeps, the station of a certain provider keeps. -/
theorem Kept.at (K : Kept serves A B) (p : ProviderId) :
    Kept serves (fun now s => s.id = p → A now s) (fun now s => s.id = p → B now s) where
  collected h hp := K.collected (h hp)
  read hr h ps localId hp := K.read hr (h ((Station.id_launch ..).symm.trans hp)) ps localId
  serve hf h hp := K.serve hf (h ((Station.id_serve ..).symm.trans hp))
  settle hr h hp :=
    K.settle hr (h ((Station.id_eq_of_profile (Station.profile_settle ..)).symm.trans hp))
  advance hs h hle hp :=
    K.advance hs (h ((Station.id_eq_of_profile (Station.profile_advanceTo ..)).symm.trans hp)) hle
  poised hs h hp := K.poised hs (h hp)
  poised_collected h hp := K.poised_collected (h hp)
  cancel hr h job hp := K.cancel hr (h ((Station.id_cancel ..).symm.trans hp)) job
  resolve hr h hp :=
    K.resolve hr (h ((Station.id_eq_of_profile (Station.profile_settle ..)).symm.trans hp))

/-- Stations keep what is true of all of them. -/
theorem kept_true (serves : (Directory.Server → Directory.Server) → Prop) :
    Kept serves (fun _ _ => True) (fun _ _ => True) :=
  ⟨fun _ => trivial, fun _ _ _ _ => trivial, fun _ _ => trivial, fun _ _ => trivial,
    fun _ _ _ => trivial, fun _ _ => trivial, fun _ => trivial, fun _ _ _ => trivial,
    fun _ _ => trivial⟩

/-- A job that is on its way stays accounted for in every scenario. -/
theorem kept_accounted (serves : (Directory.Server → Directory.Server) → Prop) (i : Nat) :
    Kept serves (fun now s => Accounted i now s.roster) (fun now s => Poised i now s.roster) where
  collected h := h.withLog []
  read hr h ps localId := h.launch hr rfl trivial (.read ps)
  serve {now s f} _ h := h.alter ((Provider.spec_mapServer f s.roster.host).2.2 i)
  settle hr h := h.settle hr
  advance hs h hle := by
    -- A station gets through a time by moves that it makes up to some `t`.
    obtain ⟨t, hm, ht, -⟩ := Station.moves_advanceTo hs hle
    exact (h.moves hs hm).mono ht
  poised hs h := h.poised hs
  poised_collected h := h.withLog []
  cancel hr h job := h.cancel hr.toWatched job
  resolve hr h := h.settle hr

/-- A job that is concluded stays so in every scenario. -/
theorem kept_concluded (serves : (Directory.Server → Directory.Server) → Prop)
    (o : Outcome Output) (ended : Option (Ended Output)) (i : Nat) :
    Kept serves (fun _ s => Concluded o ended i s.roster)
      (fun _ s => Concluded o ended i s.roster) where
  collected h := h.congr rfl rfl
  read hr h ps localId := h.launch hr rfl trivial (.read ps)
  serve {now s f} _ h := h.congr rfl ((Provider.spec_mapServer f s.roster.host).2.2 i)
  settle hr h := h.settle hr
  advance hs h hle := by
    obtain ⟨t, hm, -, -⟩ := Station.moves_advanceTo hs hle
    exact h.moves hs hm
  poised _ h := h
  poised_collected h := h.congr rfl rfl
  cancel hr h job := h.cancel hr.toWatched job
  resolve hr h := h.settle hr

open Directory (Charge Entry)
open Provider (books)

/-- The books of a directory are kept if the number of a call that changes a password is not used
    for another one. -/
theorem kept_books (P : Table String Entry → Prop) (charge : Option Charge) (K : Kept serves A B)
    (used : ∀ {now s}, A now s → ∀ x, charge = some x → x.call < s.roster.jobs.length)
    (allowed : ∀ f, serves f → ∀ s es, (Directory.ledger P charge).holds s es →
      (Directory.ledger P charge).holds (f s) es) :
    Kept serves (fun now s => A now s ∧ s.provider.Under (books P charge))
      (fun now s => B now s ∧ s.provider.Under (books P charge)) where
  collected h := ⟨K.collected h.1, h.2⟩
  -- A reading gets a new number, which is not that of the call that is charged.
  read {now s} hr h ps localId := by
    refine ⟨K.read hr h.1 ps localId, ?_⟩
    obtain ⟨hnew, hended⟩ := hr.unused
    rw [Station.provider_launch]
    exact h.2.submit hnew hended
      (Provider.grants_read (fun x hx => Nat.ne_of_lt (used h.1 x hx)) ps localId _)
  serve hf h := ⟨K.serve hf h.1, h.2.mapServer fun _ s es => allowed _ hf s es⟩
  settle hr h := ⟨K.settle hr h.1, Station.provider_settle (Provider.Under.keeps _) _ h.2⟩
  advance hs h hle :=
    ⟨K.advance hs h.1 hle, Station.provider_advanceTo (Provider.Under.keeps _) _ h.2⟩
  poised hs h := ⟨K.poised hs h.1, h.2⟩
  poised_collected h := ⟨K.poised_collected h.1, h.2⟩
  cancel hr h job := by
    refine ⟨K.cancel hr h.1 job, ?_⟩
    rw [Station.provider_cancel]
    exact h.2
  resolve hr h := ⟨K.resolve hr h.1, Station.provider_settle (Provider.Under.keeps _) _ h.2⟩

end Coordinator

end Federation
