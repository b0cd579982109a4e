import Federation.Proofs.Coordinator.Alike
import Federation.Proofs.Coordinator.Reachable
import Mathlib

/-!
# Passwords are kept secret

Whoever works with a coordinator and its directories, and decides what to do next by all that was
told, cannot learn which password was set: with any other password the same would have been told at
the same instants.  The passwords that the directories store are the only difference.

## Key results

- `obey`, `perform`: what a caller does, where the password is left open
- `Alike.obey`, `Alike.perform`: it is done alike whatever the password is
- `alike_of_build`: a coordinator that has just been built does not know a password
- `secret_spec`: so the password has no effect but that it is stored
-/

namespace Federation

open Directory (Server)

/-- What is seen of two stations is the same, but for the passwords that their directories store. -/
structure Station.Veiled (a b : String) (s t : Station) : Prop where
  id : t.id = s.id
  /-- Actions have come equally far and have ended at the same instants with the same outcomes. -/
  actions : List.Forall₂
    (fun x y : ProviderAction => y = { x with latest := y.latest } ∧
      y.latest.map Operation.inspect = x.latest.map Operation.inspect)
    (s.roster.jobs.map Job.action) (t.roster.jobs.map Job.action)
  /-- The servers have counted the same calls and have the same entries. -/
  directory : ∃ d e, s.provider = .directory d ∧ t.provider = .directory e ∧
    Server.Alike a b d.server e.server ∧ e.domainStats? = d.domainStats?

/-- A password that an action is given is not shown. -/
theorem Action.Alike.shown {τ ρ : Type} {a b : String} {x y : Action τ Operation ρ}
    (h : Alike (Operation.Alike a b) x y) :
    y = { x with latest := y.latest } ∧
      y.latest.map Operation.inspect = x.latest.map Operation.inspect := by
  refine ⟨h.rest, ?_⟩
  have hlatest := h.latest
  generalize x.latest = o, y.latest = o' at hlatest
  cases hlatest with
  | none => rfl
  | some ho => exact congrArg some ho.shown.2

/-- Stations that are alike show the same to everybody who does not read passwords. -/
theorem Station.Alike.veiled {a b : String} {s t : Station} (h : Alike a b s t) :
    Veiled a b s t where
  id := h.id
  actions := List.rel_map (fun _ _ hj => hj.action.shown) h.roster.jobs
  directory := by
    have hprovider := h.provider
    generalize s.provider = p, t.provider = q at hprovider
    obtain ⟨hd⟩ := hprovider
    exact ⟨_, _, rfl, rfl, hd.shown.2⟩

namespace Coordinator

/-- What a caller may do. -/
inductive Command where
  /-- Change passwords to the one that is left open. -/
  | changePassword (external : String) (targets : Targets)
  | start (o : Operation) (external : String) (targets : Targets)
  | wait (limit : Nat) (b : Batch)
  | fetch (limit : Nat) (external : String) (targets : Targets)
  /-- Cancel several actions, visited in this order.  Who cancels a fan-out visits its
      `Batch.jobs` in an order that is not laid down. -/
  | cancelEach (jobs : List (ProviderId × Nat))
  | cancelOne (job : ProviderId × Nat)
  /-- Do something to the server of a directory. -/
  | serve (p : ProviderId) (x : Server.Change)
  | settle
  /-- Let time pass. -/
  | pass (t : Nat)

/-- What a caller is told in return. -/
inductive Response where
  | done
  | started (b : Batch)
  | ended (outcomes : Option (Outcomes Output))
  | fetched (user : Option FederatedUser)
  | cancelled (n : Nat)
  | moved (b : Bool)

/-- What a caller knows after something was done: the instant, what the observer was told, and what
    the caller was told in return. -/
structure Report where
  now : Nat
  log : List Event
  response : Response

/-- Do what a caller says, with the password `secret`. -/
def obey (secret : String) (c : Coordinator) : Command → Coordinator × Response
  | .changePassword external targets =>
    let (c, b) := c.start (.changePassword secret) external targets
    (c, .started b)
  | .start o external targets =>
    let (c, b) := c.start o external targets
    (c, .started b)
  | .wait limit b =>
    let (c, outcomes) := c.wait limit b
    (c, .ended outcomes)
  | .fetch limit external targets =>
    let (c, user) := c.fetch limit external targets
    (c, .fetched user)
  | .cancelEach jobs =>
    let (c, n) := c.cancelEach jobs
    (c, .cancelled n)
  | .cancelOne job =>
    let (c, moved) := c.cancelOne job
    (c, .moved moved)
  | .serve p x => (c.mapStation p (Station.mapDirectory (Directory.mapServer x.apply)), .done)
  | .settle => (c.settle, .done)
  | .pass t => (c.settle.advanceTo t, .done)

/-- Do so many things one after the other, where the caller decides by all that is known so far. -/
def perform (secret : String) (caller : List Report → Command) (c : Coordinator) :
    Nat → Coordinator × List Report
  | 0 => (c, [])
  | n + 1 =>
    let (d, reports) := c.perform secret caller n
    let (d, response) := d.obey secret (caller reports)
    (d, reports ++ [⟨d.now, d.log, response⟩])

variable {a b : String} {c d : Coordinator}

/-- Whatever the password is, the same is told in return. -/
theorem Alike.obey (h : Alike a b c d) (x : Command) : Agree a b (c.obey a x) (d.obey b x) := by
  -- Only the change of a password differs in the two runs; every other command is the same.
  cases x with
  | changePassword external targets => exact (h.start .secret external targets).map Response.started
  | start o external targets => exact (h.start (.same o) external targets).map Response.started
  | wait limit b => exact (h.wait limit b).map Response.ended
  | fetch limit external targets => exact (h.fetch limit external targets).map Response.fetched
  | cancelEach jobs => exact (h.cancelEach jobs).map Response.cancelled
  | cancelOne job => exact (h.cancelOne job).map Response.moved
  | serve p x => exact ⟨h.apply p x, rfl⟩
  | settle => exact ⟨h.settle, rfl⟩
  | pass t => exact ⟨h.settle.advanceTo t, rfl⟩

/-- Whatever the password is, the caller gets to know the same. -/
theorem Alike.perform (h : Alike a b c d) (caller : List Report → Command) (n : Nat) :
    Agree a b (c.perform a caller n) (d.perform b caller n) := by
  -- Induction on the commands: what is known so far is the same, so the next one is the same.
  induction n with
  | zero => exact ⟨h, rfl⟩
  | succ n ih =>
    obtain ⟨c₁, d₁, reports, hc₁, hd₁, h₁⟩ := ih.exists_eq
    obtain ⟨c₂, d₂, response, hc₂, hd₂, h₂⟩ := (h₁.obey (caller reports)).exists_eq
    unfold Coordinator.perform
    rw [hc₁, hd₁]
    dsimp only
    rw [hc₂, hd₂, h₂.now, h₂.log]
    exact ⟨h₂, rfl⟩

/-- A new coordinator is like itself. -/
theorem alike_of_build {bp : Blueprint} (fresh : ∀ p ∈ bp.providers, p.IsFresh)
    (directories : ∀ p ∈ bp.providers, ∃ d, p = .directory d) (built : bp.build = .ok c) :
    Alike a b c c := by
  obtain ⟨-, rfl⟩ := Blueprint.build_eq_ok_iff.mp built
  refine ⟨rfl, List.forall₂_same.mpr fun s hs => ?_⟩
  obtain ⟨p, hp, rfl⟩ := List.mem_map.mp hs
  obtain ⟨d, rfl⟩ := directories p hp
  exact ⟨rfl, Provider.alike_of_isFresh (fresh _ hp), .nil, rfl⟩

/-- In a federation of directories that were given any entries, passwords are changed, among
    whatever else is done: operations are started, waited for and cancelled, in whatever order their
    actions are visited, users are fetched, directories are slowed down, made to fail or given other
    entries, and time passes.  Had the password been another one, everyone would have been told the
    same at the same instants, every action would look the same and would have ended at the same
    instant, directories would have counted the same calls, and the same entries would have the other
    password. -/
theorem secret_spec {bp : Blueprint} (fresh : ∀ p ∈ bp.providers, p.IsFresh)
    (directories : ∀ p ∈ bp.providers, ∃ d, p = .directory d) (built : bp.build = .ok c)
    (caller : List Report → Command) (n : Nat) (a b : String) :
    let x := c.perform a caller n
    let y := c.perform b caller n
    y.2 = x.2 ∧ y.1.now = x.1.now ∧ y.1.log = x.1.log ∧
      (∀ batch, y.1.outcomes batch = x.1.outcomes batch) ∧
      List.Forall₂ (Station.Veiled a b) x.1.stations y.1.stations := by
  obtain ⟨halike, hreports⟩ := (alike_of_build fresh directories built).perform caller n
  exact ⟨hreports, halike.now, halike.log, halike.outcomes,
    halike.stations.imp fun _ _ hs => hs.veiled⟩

/-- A caller changes a password in four directories, of which one answers, one fails and two are
    slow.  When the wait is over, the slow ones are cancelled, the last one first.  Where the
    directory has answered, the password is stored. -/
theorem secret_spec_stored :
    let jdoe : Directory.Entry := { localId := "jdoe", persistentId := "1", password := some "old" }
    let server (latency : Nat) : Server := { entries := .ofList [("jdoe", jdoe)], latency }
    let ldap : Directory := { id := ⟨"ldap"⟩, access := Directory.concurrently (server 5) }
    let okta : Directory :=
      { id := ⟨"okta"⟩
        access := Directory.serially ⟨"okta"⟩ none { server 0 with failure := some "down" } }
    let github : Directory := { id := ⟨"github"⟩, access := Directory.concurrently (server 20) }
    let google : Directory :=
      { id := ⟨"google"⟩, access := Directory.serially ⟨"google"⟩ none (server 30) }
    let bp : Blueprint :=
      { providers := [.directory ldap, .directory okta, .directory github, .directory google] }
    let c : Coordinator := { stations := bp.providers.map bp.station, engine := bp.mergeEngine }
    let caller (reports : List Report) : Command :=
      match reports with
      | [] => .changePassword "jdoe" .all
      | [⟨_, _, .started b⟩] => .wait 10 b
      | ⟨_, _, .started b⟩ :: _ => .cancelEach b.jobs.reverse
      | _ => .settle
    let password (x : Coordinator × List Report) : Option (Option String) :=
      ((x.1.station? ldap.id).bind fun s => s.provider.directory?.bind fun d =>
        d.server.entry? "jdoe").map Directory.Entry.password
    (c.perform "second" caller 3).2 = (c.perform "first" caller 3).2 ∧
      List.Forall₂ (Station.Veiled "first" "second") (c.perform "first" caller 3).1.stations
        (c.perform "second" caller 3).1.stations ∧
      (c.perform "first" caller 3).1.log.drop 6 =
        [.finished (.account ⟨google.id, "jdoe"⟩) .cancelled,
          .finished (.account ⟨github.id, "jdoe"⟩) .cancelled] ∧
      password (c.perform "first" caller 3) = some (some "first") ∧
      password (c.perform "second" caller 3) = some (some "second") := by
  intro jdoe server ldap okta github google bp c caller password
  -- What the observer was told last, and what is stored, is computed for both passwords.
  have hruns :
      ((c.perform "first" caller 3).1.log.drop 6, password (c.perform "first" caller 3),
        password (c.perform "second" caller 3)) =
      ([.finished (.account ⟨google.id, "jdoe"⟩) .cancelled,
        .finished (.account ⟨github.id, "jdoe"⟩) .cancelled],
        some (some "first"), some (some "second")) := by
    revert jdoe
    cbv
  have hfresh : ∀ p ∈ bp.providers, p.IsFresh := by
    intro p hp
    simp only [bp, List.mem_cons, List.not_mem_nil, or_false] at hp
    rcases hp with rfl | rfl | rfl | rfl
    · exact ⟨rfl, rfl⟩
    · exact ⟨rfl, rfl, rfl⟩
    · exact ⟨rfl, rfl⟩
    · exact ⟨rfl, rfl, rfl⟩
  have hdirectories : ∀ p ∈ bp.providers, ∃ d, p = .directory d := by
    intro p hp
    simp only [bp, List.mem_cons, List.not_mem_nil, or_false] at hp
    rcases hp with rfl | rfl | rfl | rfl <;> exact ⟨_, rfl⟩
  obtain ⟨hreports, -, -, -, hveiled⟩ :=
    secret_spec (c := c) hfresh hdirectories rfl caller 3 "first" "second"
  obtain ⟨hlog, hstored⟩ := Prod.mk.inj hruns
  exact ⟨hreports, hveiled, hlog, Prod.mk.inj hstored⟩

end Coordinator

end Federation
