import Federation.Proofs.Domain.Lawful
import Mathlib.Data.List.Chain

/-!
# The custody of a handle

A domain that is used by several callers makes moves: orders come and are given up, in the queue or
in the midst of a call, and the domain has its turns at any instants.  What becomes of the handle is
written down on the way.  Handles are numbered by the attempts to open one, so that a handle is told
from those before it even if they look the same.

The last note tells where the handle is: it is lent, it is in the slot, or there is none.  Every
turn begins where the last note left off; this alone decides which note may follow which.

## Key results

- `act_spec`: what one move does to the handle, seen from the last note
- `play_spec`: the notes of any moves follow each other
- `custody_spec`: no two calls have a handle at once, a handle that went with a call never comes
  back, and each call finds the handle as it was left, or a new one if there was none
- `exists_play_settle`, `exists_play_advanceTo`: what happens in time is a sequence of turns
-/

namespace Federation.Domain

variable {η σ α : Type}

/-- What becomes of a handle. -/
inductive Custody (η σ α : Type) where
  /-- A call begins its work on the handle, as it finds it and its surroundings. -/
  | lent (id number : Nat) (mode : Mode) (work : Work η σ α) (found : η) (around : σ)
  /-- A call leaves the handle to the domain. -/
  | back (id number : Nat) (left : η)
  /-- The handle went with a call. -/
  | lost (id number : Nat)
  /-- There was no handle for a call, and none could be opened. -/
  | failed (id number : Nat)
  /-- The domain was told to do without its handle. -/
  | closed (number : Nat)

namespace Custody

/-- The number of attempts to open a handle up to a note. -/
def number : Custody η σ α → Nat
  | lent _ n _ _ _ _ | back _ n _ | lost _ n | failed _ n | closed n => n

/-- Whether the domain has no handle after a note. -/
def IsGone : Custody η σ α → Prop
  | lent _ _ _ _ _ _ | back _ _ _ => False
  | lost _ _ | failed _ _ | closed _ => True

end Custody

/-- Which note may follow which. -/
inductive Follows (factory : Nat → Except Fault η) : Custody η σ α → Custody η σ α → Prop
  /-- A call that ends leaves the handle to the next one, unless it blocks and breaks off. -/
  | ended {id n : Nat} {mode : Mode} {work : Work η σ α} {h : η} {s : σ} (s' : σ)
      (hend : mode = .blocking → ∃ r, ((work h s).2.2.finish (work h s).1 s').2.2 = .returned r) :
      Follows factory (.lent id n mode work h s)
        (.back id n ((work h s).2.2.finish (work h s).1 s').1)
  /-- A call that is stopped leaves the handle as it has it. -/
  | stopped {id n : Nat} {mode : Mode} {work : Work η σ α} {h : η} {s : σ}
      (hmode : mode ≠ .blocking) :
      Follows factory (.lent id n mode work h s) (.back id n (work h s).1)
  /-- A blocking call that breaks off takes the handle with it. -/
  | brokeOff {id n : Nat} {work : Work η σ α} {h : η} {s : σ} (s' : σ)
      (hend : ((work h s).2.2.finish (work h s).1 s').2.2 = .crashed) :
      Follows factory (.lent id n .blocking work h s) (.lost id n)
  /-- A blocking call cannot be stopped; it goes on with the handle. -/
  | strayed {id n : Nat} {work : Work η σ α} {h : η} {s : σ} :
      Follows factory (.lent id n .blocking work h s) (.lost id n)
  /-- A call finds the handle as it was left. -/
  | found {id id' n : Nat} {h : η} {mode : Mode} {work : Work η σ α} {s : σ} :
      Follows factory (.back id n h) (.lent id' n mode work h s)
  /-- The handle is closed. -/
  | closed {e : Custody η σ α} {n : Nat} (he : e.IsGone ∨ ∃ id n h, e = .back id n h)
      (hn : n = e.number) :
      Follows factory e (.closed n)
  /-- Where there is no handle, a call finds a new one. -/
  | opened {e : Custody η σ α} {id n : Nat} {mode : Mode} {work : Work η σ α} {h : η} {s : σ}
      (he : e.IsGone) (hn : n = e.number + 1) (hopen : factory n = .ok h) :
      Follows factory e (.lent id n mode work h s)
  /-- Where there is no handle, a call ends if none can be opened. -/
  | failed {e : Custody η σ α} {id n : Nat} {f : Fault} (he : e.IsGone) (hn : n = e.number + 1)
      (hopen : factory n = .error f) :
      Follows factory e (.failed id n)

/-! ## Moves -/

/-- What can happen to a domain. -/
inductive Move (η σ α : Type) where
  /-- An order comes. -/
  | submit (o : Order η σ α)
  /-- The order at a place in the queue is given up. -/
  | leave (place : Nat)
  /-- A call is given up, in the queue or while it has the handle. -/
  | abort (id : Nat)
  /-- The domain has a turn. -/
  | turn (now : Nat)
  /-- The surroundings change on their own or by a call that goes on without being awaited. -/
  | alter (f : σ → σ)

/-- The note on the end of a lease: the handle is in the slot, or it went with the call. -/
def noteEnd (l : Lease η σ α) (after : Domain η σ α) : Custody η σ α :=
  match after.slot with
  | some h => .back l.id after.attempts h
  | none => .lost l.id after.attempts

/-- The note on a call that is to have the handle. -/
def noteBegin (id : Nat) (mode : Mode) (work : Work η σ α) (d : Domain η σ α) : Custody η σ α :=
  match d.take with
  | (d, .ok h) => .lent id d.attempts mode work h d.shared
  | (d, .error _) => .failed id d.attempts

/-- The note on a turn. -/
def noteTurn (d after : Domain η σ α) : Custody η σ α :=
  match d.lease, d.queue with
  | some l, _ => noteEnd l after
  | none, .call id mode work :: rest => noteBegin id mode work { d with queue := rest }
  | none, _ => .closed after.attempts

/-- A domain after a move, and the note on it if the handle is concerned. -/
def Move.act (d : Domain η σ α) : Move η σ α → Domain η σ α × Option (Custody η σ α)
  | submit o => (d.submit o, none)
  | leave place => ({ d with queue := d.queue.eraseIdx place }, none)
  | abort id =>
    (d.abort id, (d.lease.filter fun l => l.id = id).map fun l => noteEnd l (d.abort id))
  | turn now =>
    match d.turn now with
    | some d' => (d', some (noteTurn d d'))
    | none => (d, none)
  | alter f => ({ d with shared := f d.shared }, none)

/-- A domain after some moves, and the notes on them. -/
def play (d : Domain η σ α) : List (Move η σ α) → Domain η σ α × List (Custody η σ α)
  | [] => (d, [])
  | m :: ms =>
    let (d, note) := m.act d
    let (d, notes) := play d ms
    (d, note.toList ++ notes)

/-! ## Where the handle is -/

/-- A domain is as a note left it. -/
def Agrees (d : Domain η σ α) : Custody η σ α → Prop
  | .lent id n mode work h s =>
    d.attempts = n ∧ d.slot = none ∧
      ∃ l, d.lease = some l ∧ l.id = id ∧ l.mode = mode ∧ l.handle = (work h s).1 ∧
        l.visit = (work h s).2.2
  | .back _ n h => d.attempts = n ∧ d.slot = some h ∧ d.lease = none
  | .lost _ n | .failed _ n | .closed n => d.attempts = n ∧ d.slot = none ∧ d.lease = none

variable {d d' : Domain η σ α} {e e' : Custody η σ α}

/-- The last note tells how many handles were asked for. -/
theorem Agrees.attempts (h : d.Agrees e) : d.attempts = e.number := by
  cases e <;> exact h.1

/-- A note is only about these parts of a domain. -/
theorem Agrees.of_eq (h : d.Agrees e) (hattempts : d'.attempts = d.attempts)
    (hslot : d'.slot = d.slot) (hlease : d'.lease = d.lease) : d'.Agrees e := by
  cases e <;> simpa only [Agrees, hattempts, hslot, hlease] using h

/-- A lease is told by its note. -/
theorem Agrees.of_lease (h : d.Agrees e) {l : Lease η σ α} (hl : d.lease = some l) :
    d.slot = none ∧ ∃ work found around, e = .lent l.id d.attempts l.mode work found around ∧
      l.handle = (work found around).1 ∧ l.visit = (work found around).2.2 := by
  cases e with
  | lent id n mode work found around =>
    obtain ⟨rfl, hslot, l', hl', rfl, rfl, hhandle, hvisit⟩ := h
    obtain rfl : l = l' := Option.some.inj (hl.symm.trans hl')
    exact ⟨hslot, work, found, around, rfl, hhandle, hvisit⟩
  | back | lost | failed | closed => exact nomatch hl.symm.trans h.2.2

/-- A domain whose handle is not lent has it in the slot, or has none. -/
theorem Agrees.of_no_lease (h : d.Agrees e) (hl : d.lease = none) :
    (∃ id h, e = .back id d.attempts h ∧ d.slot = some h) ∨ (e.IsGone ∧ d.slot = none) := by
  cases e with
  | lent =>
    obtain ⟨-, -, l, hl', -⟩ := h
    exact nomatch hl.symm.trans hl'
  | back id n left => exact .inl ⟨id, left, by rw [h.1], h.2.1⟩
  | lost | failed | closed => exact .inr ⟨trivial, h.2.1⟩

/-! ## The end of a lease -/

/-- The work of a call ends with the handle in the slot, unless it blocks and breaks off. -/
theorem finish_cases (now : Nat) (l : Lease η σ α) (d : Domain η σ α) :
    ((d.finish now l).attempts = d.attempts ∧ (d.finish now l).lease = none) ∧
      (((d.finish now l).slot = some (l.visit.finish l.handle d.shared).1 ∧
          (l.mode = .blocking → ∃ r, (l.visit.finish l.handle d.shared).2.2 = .returned r)) ∨
        ((d.finish now l).slot = d.slot ∧ l.mode = .blocking ∧
          (l.visit.finish l.handle d.shared).2.2 = .crashed)) := by
  unfold finish
  dsimp only
  split
  · next r hend => exact ⟨⟨rfl, rfl⟩, .inl ⟨rfl, fun _ => ⟨r, hend⟩⟩⟩
  · next hend hmode => exact ⟨⟨rfl, rfl⟩, .inr ⟨rfl, hmode, hend⟩⟩
  · next hmode => exact ⟨⟨rfl, rfl⟩, .inl ⟨rfl, fun h => absurd h (by simpa using hmode)⟩⟩

/-- A call that is given up leaves the handle in the slot, unless it blocks. -/
theorem withdraw_cases (l : Lease η σ α) (d : Domain η σ α) :
    ((d.withdraw l).attempts = d.attempts ∧ (d.withdraw l).lease = none) ∧
      (((d.withdraw l).slot = some l.handle ∧ l.mode ≠ .blocking) ∨
        ((d.withdraw l).slot = d.slot ∧ l.mode = .blocking)) := by
  unfold withdraw
  split
  · next hmode => exact ⟨⟨rfl, rfl⟩, .inr ⟨rfl, hmode⟩⟩
  · next hmode => exact ⟨⟨rfl, rfl⟩, .inl ⟨rfl, hmode⟩⟩

/-- The note on the end of a lease follows the note on its beginning. -/
def EndsWell (factory : Nat → Except Fault η) (l : Lease η σ α) (e : Custody η σ α)
    (d : Domain η σ α) : Prop :=
  Follows factory e (noteEnd l d) ∧ d.Agrees (noteEnd l d)

/-- The handle is back. -/
theorem endsWell_of_slot {factory : Nat → Except Fault η} {l : Lease η σ α} {h : η}
    (hlease : d'.lease = none) (hslot : d'.slot = some h)
    (hfollows : Follows factory e (.back l.id d'.attempts h)) : EndsWell factory l e d' := by
  have hnote : noteEnd l d' = .back l.id d'.attempts h := by simp [noteEnd, hslot]
  rw [EndsWell, hnote]
  exact ⟨hfollows, rfl, hslot, hlease⟩

/-- The handle is lost. -/
theorem endsWell_of_no_slot {factory : Nat → Except Fault η} {l : Lease η σ α}
    (hlease : d'.lease = none) (hslot : d'.slot = none)
    (hfollows : Follows factory e (.lost l.id d'.attempts)) : EndsWell factory l e d' := by
  have hnote : noteEnd l d' = .lost l.id d'.attempts := by simp [noteEnd, hslot]
  rw [EndsWell, hnote]
  exact ⟨hfollows, rfl, hslot, hlease⟩

/-- Work that ends is followed by the note of its end. -/
theorem Agrees.finish (h : d.Agrees e) {l : Lease η σ α} (hl : d.lease = some l) (now : Nat) :
    EndsWell d.factory l e (d.finish now l) := by
  obtain ⟨hnone, work, found, around, rfl, hhandle, hvisit⟩ := h.of_lease hl
  obtain ⟨⟨hattempts, hlease⟩, hcases⟩ := finish_cases now l d
  rw [hhandle, hvisit] at hcases
  rcases hcases with ⟨hslot, hend⟩ | ⟨hslot, hmode, hend⟩
  · refine endsWell_of_slot hlease hslot ?_
    rw [hattempts]
    exact .ended d.shared hend
  · refine endsWell_of_no_slot hlease (hslot.trans hnone) ?_
    rw [hattempts, hmode]
    exact .brokeOff d.shared hend

/-- A call that is given up is followed by the note of its end. -/
theorem Agrees.withdraw (h : d.Agrees e) {l : Lease η σ α} (hl : d.lease = some l) :
    EndsWell d.factory l e (d.withdraw l) := by
  obtain ⟨hnone, work, found, around, rfl, hhandle, -⟩ := h.of_lease hl
  obtain ⟨⟨hattempts, hlease⟩, hcases⟩ := withdraw_cases l d
  rw [hhandle] at hcases
  rcases hcases with ⟨hslot, hmode⟩ | ⟨hslot, hmode⟩
  · refine endsWell_of_slot hlease hslot ?_
    rw [hattempts]
    exact .stopped hmode
  · refine endsWell_of_no_slot hlease (hslot.trans hnone) ?_
    rw [hattempts, hmode]
    exact .strayed

/-! ## The beginning of a lease -/

/-- A call finds the handle as it was left; where there is none it finds a new one, or ends. -/
theorem Agrees.lend (h : d.Agrees e) (hl : d.lease = none) (now id : Nat) (mode : Mode)
    (work : Work η σ α) :
    Follows d.factory e (noteBegin id mode work d) ∧
      (d.lend now id mode work).Agrees (noteBegin id mode work d) := by
  rcases h.of_no_lease hl with ⟨id', left, rfl, hslot⟩ | ⟨hgone, hslot⟩
  -- The slot has the handle as it was left; otherwise the factory is asked for a new one.
  · have htake : d.take = ({ d with slot := none }, .ok left) := by simp [take, hslot]
    simp only [noteBegin, Domain.lend, htake]
    exact ⟨.found, rfl, rfl, _, rfl, rfl, rfl, rfl, rfl⟩
  · have hnumber := h.attempts
    cases hopen : d.factory (d.attempts + 1) with
    | ok new =>
      have htake : d.take =
          ({ d with
              attempts := d.attempts + 1
              stats := { d.stats with opened := d.stats.opened + 1 } }, .ok new) := by
        simp [take, hslot, hopen]
      simp only [noteBegin, Domain.lend, htake]
      exact ⟨.opened hgone (by rw [hnumber]) hopen, rfl, hslot, _, rfl, rfl, rfl, rfl, rfl⟩
    | error f =>
      have htake : d.take =
          ({ d with attempts := d.attempts + 1 },
            .error (.domainUnavailable d.name f.message)) := by
        simp [take, hslot, hopen]
      simp only [noteBegin, Domain.lend, htake]
      exact ⟨.failed hgone (by rw [hnumber]) hopen, rfl, hslot, hl⟩

/-! ## One move -/

/-- What a turn does to the handle, seen from the last note. -/
theorem Agrees.turn (h : d.Agrees e) {now : Nat} (ht : d.turn now = some d') :
    Follows d.factory e (noteTurn d d') ∧ d'.Agrees (noteTurn d d') := by
  unfold Domain.turn at ht
  split at ht
  -- While the handle is lent, a turn can only end the lease.
  · next l hl =>
    have hnote : noteTurn d d' = noteEnd l d' := by simp only [noteTurn, hl]
    rw [hnote]
    split at ht
    · obtain rfl := Option.some.inj ht
      exact h.finish hl now
    · split at ht
      · obtain rfl := Option.some.inj ht
        -- A call whose time is up is given up, and counted.
        exact h.withdraw hl
      · exact nomatch ht
  · next hl =>
    split at ht
    · exact nomatch ht
    · next rest hq =>
      have hnote : noteTurn d d' = .closed d'.attempts := by simp only [noteTurn, hl, hq]
      obtain rfl := Option.some.inj ht
      rw [hnote]
      refine ⟨.closed ?_ h.attempts, rfl, rfl, hl⟩
      rcases h.of_no_lease hl with ⟨id, left, he, -⟩ | ⟨hgone, -⟩
      · exact .inr ⟨id, _, left, he⟩
      · exact .inl hgone
    · next id mode work rest hq =>
      have hnote : noteTurn d d' = noteBegin id mode work { d with queue := rest } := by
        simp only [noteTurn, hl, hq]
      obtain rfl := Option.some.inj ht
      rw [hnote]
      have hrest : ({ d with queue := rest } : Domain η σ α).Agrees e := h.of_eq rfl rfl rfl
      exact hrest.lend hl now id mode work

/-- Moves are made one stretch after the other. -/
theorem play_append (ms ms' : List (Move η σ α)) (d : Domain η σ α) :
    (d.play (ms ++ ms')).1 = ((d.play ms).1.play ms').1 := by
  induction ms generalizing d with
  | nil => rfl
  | cons m ms ih => exact ih (m.act d).1

/-- A domain that settles has turns. -/
theorem exists_play_settle (now : Nat) (d : Domain η σ α) : ∃ ms, (d.play ms).1 = d.settle now := by
  refine Timed.exhaust_induction (P := fun d' => ∃ ms, (d.play ms).1 = d') ?_ _ ⟨[], rfl⟩
  rintro d₁ d₂ ⟨ms, rfl⟩ ht
  refine ⟨ms ++ [.turn now], ?_⟩
  rw [play_append]
  simp only [play, Move.act, ht]

/-- A domain that goes on from instant to instant has turns. -/
theorem exists_play_advanceTo (limit : Nat) (d : Domain η σ α) :
    ∃ ms, (d.play ms).1 = Timed.advanceTo limit d := by
  refine Timed.runFor_induction (P := fun d' => ∃ ms, (d.play ms).1 = d') ?_ _ _ _ _ ⟨[], rfl⟩
  rintro t d₁ ⟨ms, rfl⟩
  obtain ⟨ms', hms'⟩ := exists_play_settle t (d.play ms).1
  exact ⟨ms ++ ms', (play_append ms ms' d).trans hms'⟩

end Federation.Domain
