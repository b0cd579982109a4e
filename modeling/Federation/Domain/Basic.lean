import Federation.Call.Host

/-! # Exclusive access domains

Some handles must not be used by two calls at once.  A `Domain` owns one such handle, opens it when
it is first needed, and lends it to one call at a time.  Calls that find the handle lent queue up
and have their turn in the order in which they came.

The handle is either in the `slot`, or lent under a `lease`, or there is none.  A lease ends when
its call ends, when the call has had the handle for as long as a call may, or when its caller gives
it up; then it is the next one's turn at the same instant.  A blocking call cannot be stopped: if it
is not awaited to its end, or breaks off, its handle is lost to the domain, and the next call opens
another one.

* `turn_eq_none_iff` — a domain comes to rest only when its queue is empty or its handle is lent
  for longer. -/

namespace Federation

namespace Domain

/-- How a call uses the handle. -/
inductive Mode where
  /-- At once, without a wait. -/
  | perform
  /-- With a wait, in which the call can be stopped. -/
  | async
  /-- With a wait, in which the call cannot be stopped. -/
  | blocking
  deriving DecidableEq, Repr

/-- What a domain is asked for. -/
inductive Order (η σ α : Type) where
  /-- Do some work on the handle. -/
  | call (id : Nat) (mode : Mode) (work : Work η σ α)
  /-- Close the handle. -/
  | reset

/-- Whether an order is the call of a number. -/
def Order.isCall {η σ α : Type} (id : Nat) : Order η σ α → Bool
  | call i _ _ => i = id
  | reset => false

/-- The handle in the hands of a call. -/
structure Lease (η σ α : Type) where
  id : Nat
  mode : Mode
  handle : η
  visit : Visit η σ α
  /-- When the work ends. -/
  due : Option Nat
  /-- When the handle has been lent for as long as it may be. -/
  limit : Option Nat

/-- How often things happened in a domain. -/
structure Stats where
  completed : Nat := 0
  failed : Nat := 0
  timedOut : Nat := 0
  /-- The handles that were opened. -/
  opened : Nat := 0
  deriving DecidableEq, Repr

end Domain

/-- One handle and the calls that want it. -/
structure Domain (η σ α : Type) where
  name : String
  /-- For how many milliseconds a call may have the handle. -/
  callDeadline : Option Nat := none
  /-- What the n-th attempt to open a handle yields, counted from one. -/
  factory : Nat → Except Fault η
  shared : σ
  /-- The attempts to open a handle. -/
  attempts : Nat := 0
  slot : Option η := none
  lease : Option (Domain.Lease η σ α) := none
  queue : List (Domain.Order η σ α) := []
  /-- The handles that went with blocking calls. -/
  lost : List η := []
  stats : Domain.Stats := {}
  ended : List (Ended α) := []

namespace Domain

variable {η σ α : Type}

/-- Put an order at the end of the queue. -/
def submit (o : Order η σ α) (d : Domain η σ α) : Domain η σ α :=
  { d with queue := d.queue ++ [o] }

/-- Note how a call ended. -/
def report (now id : Nat) (e : Ending α) (d : Domain η σ α) : Domain η σ α :=
  { d with ended := d.ended ++ [⟨id, now, e⟩] }

/-- Take the handle out of the slot, or open one. -/
def take (d : Domain η σ α) : Domain η σ α × Except Fault η :=
  match d.slot with
  | some h => ({ d with slot := none }, .ok h)
  | none =>
    let n := d.attempts + 1
    match d.factory n with
    | .ok h =>
      ({ d with attempts := n, stats := { d.stats with opened := d.stats.opened + 1 } }, .ok h)
    | .error f => ({ d with attempts := n }, .error (.domainUnavailable d.name f.message))

/-- Lend the handle to a call, whose work begins. -/
def lend (now id : Nat) (mode : Mode) (work : Work η σ α) (d : Domain η σ α) : Domain η σ α :=
  match d.take with
  | (d, .error f) => d.report now id (.returned (.error f))
  | (d, .ok h) =>
    let (h, shared, visit) := work h d.shared
    { d with
      shared := shared
      lease := some
        { id := id, mode := mode, handle := h, visit := visit
          due := visit.pause.map (now + ·)
          limit := if mode = .perform then none else d.callDeadline.map (now + ·) } }

/-- The statistics with one more result. -/
def Stats.count (s : Stats) : Except Fault α → Stats
  | .ok _ => { s with completed := s.completed + 1 }
  | .error _ => { s with failed := s.failed + 1 }

/-- The work of the call that has the handle ends. -/
def finish (now : Nat) (l : Lease η σ α) (d : Domain η σ α) : Domain η σ α :=
  let (h, shared, ending) := l.visit.finish l.handle d.shared
  let d := { d with shared := shared, lease := none }
  match ending, l.mode with
  -- A result is counted, whatever it is; work that breaks off is not, unless it is blocking.
  | .returned r, _ =>
    { d with slot := some h, stats := d.stats.count r }.report now l.id (.returned r)
  | .crashed, .blocking =>
    let r : Except Fault α := .error (.brokenOff d.name)
    { d with lost := d.lost ++ [h], stats := d.stats.count r }.report now l.id (.returned r)
  | .crashed, _ => { d with slot := some h }.report now l.id .crashed

/-- Take the handle from a call that has not ended.  A blocking call goes on without being
    awaited. -/
def withdraw (l : Lease η σ α) (d : Domain η σ α) : Domain η σ α :=
  match l.mode with
  | .blocking => { d with lease := none, lost := d.lost ++ [l.handle] }
  | _ => { d with lease := none, slot := some l.handle, shared := l.visit.leave d.shared }

/-- The call that has the handle has had it for too long. -/
def expire (now : Nat) (l : Lease η σ α) (d : Domain η σ α) : Domain η σ α :=
  let limit := Span.ofMillis (d.callDeadline.getD 0)
  { d.withdraw l with stats := { d.stats with timedOut := d.stats.timedOut + 1 } }.report now l.id
    (.returned (.error (.timeout d.name limit)))

/-- The next thing that happens in a domain at an instant, if there is one.  The end of a call comes
    before its deadline. -/
def turn (now : Nat) (d : Domain η σ α) : Option (Domain η σ α) :=
  match d.lease with
  | some l =>
    if Timed.isDue l.due now then some (d.finish now l)
    else if Timed.isDue l.limit now then some (d.expire now l)
    else none
  | none =>
    match d.queue with
    | [] => none
    | .reset :: rest => some { d with slot := none, queue := rest }
    | .call id mode work :: rest => some ({ d with queue := rest }.lend now id mode work)

/-- Let everything happen that can happen at an instant. -/
def settle (now : Nat) (d : Domain η σ α) : Domain η σ α :=
  -- The call that has the handle ends, and each order in the queue begins and ends.
  Timed.exhaust (turn now) (2 * d.queue.length + 1) d

/-- Let the call end that has the handle, if its time has come. -/
def ripen (now : Nat) (d : Domain η σ α) : Domain η σ α :=
  if d.lease.isSome then (d.turn now).getD d else d

/-- Give up a call, whether it has the handle or waits for it. -/
def abort (id : Nat) (d : Domain η σ α) : Domain η σ α :=
  match d.lease with
  | some l =>
    if l.id = id then d.withdraw l
    else { d with queue := d.queue.filter fun o => !o.isCall id }
  | none => { d with queue := d.queue.filter fun o => !o.isCall id }

/-- The instant at which a lease ends. -/
def Lease.end? (l : Lease η σ α) : Option Nat := Timed.earlier l.due l.limit

/-- The next instant at which the lease ends. -/
def next? (d : Domain η σ α) : Option Nat := d.lease.bind Lease.end?

/-- The orders that are not done. -/
def load (d : Domain η σ α) : Nat :=
  d.queue.length + if d.lease.isSome then 1 else 0

theorem turn_eq_none_iff (now : Nat) (d : Domain η σ α) :
    d.turn now = none ↔
      (d.lease = none ∧ d.queue = []) ∨
        ∃ l, d.lease = some l ∧ Timed.isDue l.due now = false ∧
          Timed.isDue l.limit now = false := by
  cases hl : d.lease with
  | none =>
    cases hq : d.queue with
    | nil => simp [turn, hl, hq]
    | cons o rest => cases o <;> simp [turn, hl, hq]
  | some l =>
    cases hd : Timed.isDue l.due now <;> cases hm : Timed.isDue l.limit now <;>
      simp [turn, hl, hd, hm]

/-- The domain as diagnostics show it. -/
def inspect (d : Domain η σ α) : String :=
  let deadline :=
    match d.callDeadline with
    | some ms => "Some(" ++ (Span.ofMillis ms).text ++ ")"
    | none => "None"
  "ExclusiveAccessDomain \x7b name: " ++ Text.quote d.name ++ ", call_deadline: " ++ deadline ++
    ", stats: DomainStats \x7b completed: " ++ toString d.stats.completed ++ ", failed: " ++
    toString d.stats.failed ++ ", timed_out: " ++ toString d.stats.timedOut ++
    ", handles_opened: " ++ toString d.stats.opened ++ " \x7d \x7d"

instance : Host (Domain η σ α) (Mode × Work η σ α) α where
  settle := settle
  next? := next?
  load := load
  submit id request := submit (.call id request.1 request.2)
  ripen := ripen
  due? d id := (d.lease.filter fun l => l.id = id).bind Lease.end?
  abort := abort
  ended? d := Federation.ended? d.ended

end Domain

end Federation
