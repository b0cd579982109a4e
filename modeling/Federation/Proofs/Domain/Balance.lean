import Federation.Proofs.Domain.Custody

/-!
# The counters of a domain

What befalls the handles of a domain is entered into a ledger, move by move: the factory is asked, a
handle is lent, a call parts with it in one way or another, a handle is closed.  An entry is made
for what the move finds in the domain, and never looks at a counter.

Against this ledger the counters are held.  They balance after each move, so they balance after any
moves, also for calls that are given up, run over or break off.

## Key results

- `Accounts.trans`: one ledger goes on where the other one stops
- `accounts_act`, `accounts_play`: the ledger accounts for what moves do to the counters
- `balance_spec`: in every domain, handles opened are handles discarded and the one at hand, and
  each call that had a handle and ended is counted exactly once
-/

namespace Federation.Domain

variable {η σ α : Type}

/-! ## The ledger -/

/-- How a call parts with its handle. -/
inductive Parting where
  | succeeded
  | failed
  | brokeOff
  /-- The call had the handle for too long. -/
  | overran
  /-- The caller gave the call up. -/
  | aborted
  deriving DecidableEq

/-- How a call parts with its handle when its work ends. -/
def Parting.ofEnding : Ending α → Parting
  | .returned (.ok _) => succeeded
  | .returned (.error _) => failed
  | .crashed => brokeOff

/-- Whether the caller of a call is told a value. -/
def isValue (e : Ended α) : Bool :=
  match e.ending with
  | .returned (.ok _) => true
  | .returned (.error _) | .crashed => false

/-- Whether the caller of a call broke off with it. -/
def isCrash (e : Ended α) : Bool :=
  match e.ending with
  | .crashed => true
  | .returned _ => false

/-- What befalls the handles of a domain. -/
inductive Entry where
  /-- The factory opens a handle. -/
  | opened
  /-- The factory opens none. -/
  | refused
  /-- A call obtains the handle. -/
  | lent (mode : Mode)
  /-- The call that has the handle parts with it. -/
  | parted (mode : Mode) (how : Parting)
  /-- The handle in the slot is closed. -/
  | closed
  deriving DecidableEq

namespace Entry

/-- Whether a call obtains the handle. -/
@[simp] def isLent : Entry → Bool
  | lent _ => true
  | _ => false

/-- Whether a call ends that its caller did not give up. -/
@[simp] def isEnd : Entry → Bool
  | parted _ how => how ≠ .aborted
  | _ => false

/-- Whether a call is given up that has the handle. -/
@[simp] def isAborted : Entry → Bool
  | parted _ how => how = .aborted
  | _ => false

/-- Whether a call ends with a value. -/
@[simp] def isCompleted : Entry → Bool
  | parted _ how => how = .succeeded
  | _ => false

/-- Whether a call ends with a fault.  A blocking call that breaks off is one. -/
@[simp] def isFailed : Entry → Bool
  | parted mode how => how = .failed || (how = .brokeOff && mode = .blocking)
  | _ => false

/-- Whether a call ends because it had the handle for too long. -/
@[simp] def isTimedOut : Entry → Bool
  | parted _ how => how = .overran
  | _ => false

/-- Whether work breaks off in the hands of its caller, who breaks off with it. -/
@[simp] def isBroken : Entry → Bool
  | parted mode how => how = .brokeOff && mode ≠ .blocking
  | _ => false

/-- Whether a blocking call goes away with the handle. -/
@[simp] def isStray : Entry → Bool
  | parted mode how => (how = .brokeOff || how = .overran || how = .aborted) && mode = .blocking
  | _ => false

/-- Whether the domain discards a handle. -/
@[simp] def isDiscard (e : Entry) : Bool := e = closed || e.isStray

end Entry

/-- The entries for a call whose turn it is. -/
def entriesOfCall (mode : Mode) (d : Domain η σ α) : List Entry :=
  match d.slot with
  | some _ => [.lent mode]
  | none =>
    match d.factory (d.attempts + 1) with
    | .ok _ => [.opened, .lent mode]
    | .error _ => [.refused]

/-- The entries for a turn. -/
def entriesOfTurn (now : Nat) (d : Domain η σ α) : List Entry :=
  match d.lease with
  | some l =>
    if Timed.isDue l.due now then
      [.parted l.mode (.ofEnding (l.visit.finish l.handle d.shared).2.2)]
    else if Timed.isDue l.limit now then [.parted l.mode .overran]
    else []
  | none =>
    match d.queue with
    | [] => []
    | .reset :: _ => if d.slot.isSome then [.closed] else []
    | .call _ mode _ :: _ => d.entriesOfCall mode

/-- The entries for a move. -/
def Move.entries (d : Domain η σ α) : Move η σ α → List Entry
  | turn now => d.entriesOfTurn now
  | abort id => (d.lease.filter fun l => l.id = id).toList.map fun l => .parted l.mode .aborted
  | submit _ | leave _ | alter _ => []

/-- The entries for some moves. -/
def ledger (d : Domain η σ α) : List (Move η σ α) → List Entry
  | [] => []
  | m :: ms => m.entries d ++ ledger (m.act d).1 ms

/-! ## The balance -/

/-- How many handles the domain has lent. -/
def leases (d : Domain η σ α) : Nat := d.lease.toList.length

/-- How many handles the domain has, in the slot or lent. -/
def handles (d : Domain η σ α) : Nat := d.slot.toList.length + d.leases

/-- How many attempts to open a handle have succeeded. -/
def successes (d : Domain η σ α) : Nat :=
  (List.range d.attempts).countP fun n => (d.factory (n + 1)).isOk

/-- A ledger accounts for the change from one domain to another. -/
structure Accounts (es : List Entry) (d d' : Domain η σ α) : Prop where
  factory : d'.factory = d.factory
  alone : d'.handles ≤ 1
  attempts : d'.attempts = d.attempts + es.count .opened + es.count .refused
  successes : d'.successes = d.successes + es.count .opened
  opened : d'.stats.opened = d.stats.opened + es.count .opened
  handles : d'.handles + es.countP Entry.isDiscard = d.handles + es.count .opened
  lost : d'.lost.length = d.lost.length + es.countP Entry.isStray
  leases : d'.leases + es.countP Entry.isEnd + es.countP Entry.isAborted =
    d.leases + es.countP Entry.isLent
  completed : d'.stats.completed = d.stats.completed + es.countP Entry.isCompleted
  failed : d'.stats.failed = d.stats.failed + es.countP Entry.isFailed
  timedOut : d'.stats.timedOut = d.stats.timedOut + es.countP Entry.isTimedOut
  ended : d'.ended.length = d.ended.length + es.countP Entry.isEnd + es.count .refused
  values : d'.ended.countP isValue = d.ended.countP isValue + es.countP Entry.isCompleted
  crashes : d'.ended.countP isCrash = d.ended.countP isCrash + es.countP Entry.isBroken

variable {d d' d'' : Domain η σ α} {es es' : List Entry} {l : Lease η σ α}

/-- The one handle of a domain is not in its slot while it is lent. -/
theorem slot_of_lease (alone : d.handles ≤ 1) (hl : d.lease = some l) : d.slot = none := by
  cases hs : d.slot with
  | none => rfl
  | some x => simp [handles, leases, hs, hl] at alone

/-- A change that concerns neither handles nor calls needs no entry. -/
theorem Accounts.none (alone : d.handles ≤ 1) (queue : List (Order η σ α)) (shared : σ) :
    Accounts [] d { d with queue, shared } :=
  ⟨rfl, alone, rfl, rfl, rfl, rfl, rfl, rfl, rfl, rfl, rfl, rfl, rfl, rfl⟩

/-- What two ledgers count adds up. -/
private theorem countP_trans {p : Entry → Bool} {a b c : Nat} (h : b = a + es.countP p)
    (h' : c = b + es'.countP p) : c = a + (es ++ es').countP p := by
  rw [h', h, List.countP_append, Nat.add_assoc]

/-- One ledger goes on where the other one stops. -/
theorem Accounts.trans (h : Accounts es d d') (h' : Accounts es' d' d'') :
    Accounts (es ++ es') d d'' := by
  constructor
  -- Most counters add up by themselves; those that stand on both sides of an equation are moved
  -- over.
  case factory => exact h'.factory.trans h.factory
  case alone => exact h'.alone
  case attempts => have := h.attempts; have := h'.attempts; simp only [List.count_append]; omega
  case successes => exact countP_trans h.successes h'.successes
  case opened => exact countP_trans h.opened h'.opened
  case handles =>
    have := h.handles; have := h'.handles
    simp only [List.countP_append, List.count_append]; omega
  case lost => exact countP_trans h.lost h'.lost
  case leases => have := h.leases; have := h'.leases; simp only [List.countP_append]; omega
  case completed => exact countP_trans h.completed h'.completed
  case failed => exact countP_trans h.failed h'.failed
  case timedOut => exact countP_trans h.timedOut h'.timedOut
  case ended =>
    have := h.ended; have := h'.ended
    simp only [List.countP_append, List.count_append]; omega
  case values => exact countP_trans h.values h'.values
  case crashes => exact countP_trans h.crashes h'.crashes

/-! ### The end of a lease -/

/-- What is left of a domain when a call parts with its handle like this. -/
structure Parts (e : Entry) (d d' : Domain η σ α) : Prop where
  same : d'.factory = d.factory ∧ d'.attempts = d.attempts ∧ d'.stats.opened = d.stats.opened
  lease : d'.lease = none
  slot : d'.slot.toList.length + [e].countP Entry.isStray = 1
  lost : d'.lost.length = d.lost.length + [e].countP Entry.isStray
  completed : d'.stats.completed = d.stats.completed + [e].countP Entry.isCompleted
  failed : d'.stats.failed = d.stats.failed + [e].countP Entry.isFailed
  timedOut : d'.stats.timedOut = d.stats.timedOut + [e].countP Entry.isTimedOut
  ended : d'.ended.length = d.ended.length + [e].countP Entry.isEnd
  values : d'.ended.countP isValue = d.ended.countP isValue + [e].countP Entry.isCompleted
  crashes : d'.ended.countP isCrash = d.ended.countP isCrash + [e].countP Entry.isBroken

/-- A call whose work ends parts with the handle in the way its ending says. -/
theorem parts_finish (now : Nat) (l : Lease η σ α) (hs : d.slot = none) :
    Parts (.parted l.mode (.ofEnding (l.visit.finish l.handle d.shared).2.2)) d (d.finish now l) := by
  rcases h : l.visit.finish l.handle d.shared with ⟨left, around, ⟨f | x⟩ | _⟩
  · constructor <;> simp [finish, h, report, isValue, isCrash, Stats.count, Parting.ofEnding]
  · constructor <;> simp [finish, h, report, isValue, isCrash, Stats.count, Parting.ofEnding]
  · -- The handle goes with a blocking call only.
    cases hmode : l.mode <;> constructor <;>
      simp [finish, h, hs, hmode, report, isValue, isCrash, Stats.count, Parting.ofEnding]

/-- A call that is given up parts with the handle as an aborted one. -/
theorem parts_withdraw (l : Lease η σ α) (hs : d.slot = none) :
    Parts (.parted l.mode .aborted) d (d.withdraw l) := by
  cases hmode : l.mode <;> constructor <;> simp [withdraw, hs, hmode]

/-- A call that runs out of time parts with the handle as one that overran. -/
theorem parts_expire (now : Nat) (l : Lease η σ α) (hs : d.slot = none) :
    Parts (.parted l.mode .overran) d (d.expire now l) := by
  cases hmode : l.mode <;> constructor <;> simp [expire, withdraw, report, isValue, isCrash, hs, hmode]

/-- When a call parts with the handle, one entry accounts for it. -/
theorem Parts.accounts {mode : Mode} {how : Parting} (h : Parts (.parted mode how) d d')
    (alone : d.handles ≤ 1) (hl : d.lease = some l) :
    Accounts [.parted mode how] d d' := by
  have hs := slot_of_lease alone hl
  obtain ⟨factory, attempts, opened⟩ := h.same
  have slot := h.slot
  have before : d.handles = 1 ∧ d.leases = 1 := by simp [handles, leases, hs, hl]
  have leases : d'.leases = 0 := by simp [Domain.leases, h.lease]
  have handles : d'.handles = d'.slot.toList.length := by rw [Domain.handles, leases, Nat.add_zero]
  constructor
  case factory => exact factory
  case alone => omega
  case attempts => simpa using attempts
  case successes => simp [successes, factory, attempts]
  case opened => simpa using opened
  case handles =>
    have discard : [Entry.parted mode how].countP Entry.isDiscard =
        [Entry.parted mode how].countP Entry.isStray := by simp
    rw [discard, handles, slot, before.1]
    rfl
  case lost => exact h.lost
  case leases =>
    -- Either the call ends or it is given up.
    rw [leases, before.2]
    cases how <;> rfl
  case completed => exact h.completed
  case failed => exact h.failed
  case timedOut => exact h.timedOut
  case ended => exact h.ended
  case values => exact h.values
  case crashes => exact h.crashes

/-! ### The beginning of a lease -/

/-- The entries of a call whose turn it is account for what it finds. -/
theorem accounts_lend (hl : d.lease = none) (now id : Nat) (mode : Mode) (work : Work η σ α) :
    Accounts (d.entriesOfCall mode) d (d.lend now id mode work) := by
  unfold entriesOfCall
  cases hs : d.slot with
  | some x => constructor <;> simp [lend, take, hs, hl, handles, leases, successes]
  | none =>
    cases hopen : d.factory (d.attempts + 1) with
    | ok x =>
      constructor <;> simp [lend, take, hs, hl, handles, leases, successes, hopen,
        List.range_succ, Except.isOk, Except.toBool]
    | error f =>
      constructor <;> simp [lend, take, hs, hl, handles, leases, successes, hopen, report, isValue,
        isCrash, List.range_succ, Except.isOk, Except.toBool]

/-! ### One move -/

/-- The entries of a turn account for it. -/
theorem accounts_turn (alone : d.handles ≤ 1) (now : Nat) :
    Accounts (d.entriesOfTurn now) d ((d.turn now).getD d) := by
  cases hl : d.lease with
  | some l =>
    have hs := slot_of_lease alone hl
    simp only [entriesOfTurn, turn, hl]
    split
    · exact (parts_finish now l hs).accounts alone hl
    · split
      · exact (parts_expire now l hs).accounts alone hl
      · exact .none alone d.queue d.shared
  | none =>
    cases hq : d.queue with
    | nil =>
      simp only [entriesOfTurn, turn, hl, hq]
      exact .none alone d.queue d.shared
    -- | The first order is taken off the queue, which changes no counter, and then served.
    | cons o rest =>
      cases o with
      | call id mode work =>
        have entries : d.entriesOfTurn now = d.entriesOfCall mode := by
          simp only [entriesOfTurn, hl, hq]
        have turned : d.turn now = some ({ d with queue := rest }.lend now id mode work) := by
          simp only [turn, hl, hq]
        rw [entries, turned]
        have after := accounts_lend (d := { d with queue := rest }) hl now id mode work
        exact (Accounts.none alone rest d.shared).trans after
      | reset =>
        simp only [entriesOfTurn, turn, hl, hq]
        cases hs : d.slot <;> constructor <;> simp [handles, leases, hs, hl, successes]

/-- The entries of a move account for it. -/
theorem accounts_act (alone : d.handles ≤ 1) (m : Move η σ α) :
    Accounts (m.entries d) d (m.act d).1 := by
  cases m with
  | submit o => exact .none alone (d.queue ++ [o]) d.shared
  | leave place => exact .none alone (d.queue.eraseIdx place) d.shared
  | alter f => exact .none alone d.queue (f d.shared)
  -- | A turn that nobody takes is recorded by no entry.
  | turn now =>
    have after : ((Move.turn now).act d).1 = (d.turn now).getD d := by
      cases ht : d.turn now <;> simp only [Move.act, ht, Option.getD]
    rw [after]
    exact accounts_turn alone now
  | abort id =>
    show Accounts _ d (d.abort id)
    rcases abort_eq id d with ⟨l, hl, hid, heq⟩ | ⟨hl, heq⟩
    · have entries : (Move.abort id).entries d = [.parted l.mode .aborted] := by
        simp [Move.entries, hl, hid]
      rw [entries, heq]
      exact (parts_withdraw l (slot_of_lease alone hl)).accounts alone hl
    · have entries : (Move.abort id).entries d = [] := by simp [Move.entries, hl]
      rw [entries, heq]
      exact .none alone _ d.shared

/-! ### Any moves -/

/-- The ledger of any moves accounts for them. -/
theorem accounts_play (alone : d.handles ≤ 1) (ms : List (Move η σ α)) :
    Accounts (d.ledger ms) d (d.play ms).1 := by
  -- Induction on the moves; that there is one handle at most is what each of them needs.
  induction ms generalizing d with
  | nil => exact .none alone d.queue d.shared
  | cons m ms ih =>
    have first := accounts_act alone m
    exact first.trans (ih first.alone)

/-- Each entry on the end of a call is of exactly one kind: the call is completed, it has failed, it
    has timed out, or it broke off together with its caller. -/
theorem Entry.kinds (e : Entry) :
    e.isCompleted.toNat + e.isFailed.toNat + e.isTimedOut.toNat + e.isBroken.toNat =
      e.isEnd.toNat := by
  rcases e with _ | _ | _ | ⟨_ | _ | _, _ | _ | _ | _ | _⟩ | _ <;> rfl

/-- An entry counts one or nothing. -/
private theorem countP_cons_toNat (p : Entry → Bool) (e : Entry) (es : List Entry) :
    (e :: es).countP p = es.countP p + (p e).toNat := by
  rw [List.countP_cons]
  cases p e <;> rfl

/-- An end is completed, failed, timed out or broken, and only one of these. -/
theorem countP_isEnd (es : List Entry) :
    es.countP Entry.isCompleted + es.countP Entry.isFailed + es.countP Entry.isTimedOut +
      es.countP Entry.isBroken = es.countP Entry.isEnd := by
  induction es with
  | nil => rfl
  | cons e es ih =>
    have kinds := e.kinds
    simp only [countP_cons_toNat]
    omega

/-- A handle is discarded by closing it or because it went with a blocking call. -/
theorem countP_isDiscard (es : List Entry) :
    es.countP Entry.isDiscard = es.count .closed + es.countP Entry.isStray := by
  induction es with
  | nil => rfl
  | cons e es ih =>
    have kinds : e.isDiscard.toNat = (e == .closed).toNat + e.isStray.toNat := by
      rcases e with _ | _ | _ | ⟨_ | _ | _, _ | _ | _ | _ | _⟩ | _ <;> rfl
    simp only [List.count, countP_cons_toNat] at ih ⊢
    omega

/-- Whatever moves a new domain makes.  The handles opened are the attempts that succeeded.  They
    are those that the domain discarded, by closing one or because it went with a blocking call,
    and the one that the domain has, if it has one.  Each call that obtained a handle and ended,
    without being given up, is counted exactly once, as completed, failed or timed out; only work
    that breaks off together with its caller is not.  Nothing else is counted: a call that obtained
    a handle has ended, was given up or still has it, and a call that ended without one found that
    none could be opened.  The callers of the completed calls are those who are told a value. -/
theorem balance_spec (name : String) (callDeadline : Option Nat) (factory : Nat → Except Fault η)
    (shared : σ) (ms : List (Move η σ α)) :
    let new : Domain η σ α := { name, callDeadline, factory, shared }
    let d := (new.play ms).1
    let es := new.ledger ms
    d.stats.opened = (List.range d.attempts).countP (fun n => (factory (n + 1)).isOk) ∧
    d.stats.opened = es.countP Entry.isDiscard + d.handles ∧ d.handles ≤ 1 ∧
    es.countP Entry.isDiscard = es.count .closed + d.lost.length ∧
    d.stats.completed = es.countP Entry.isCompleted ∧ d.stats.failed = es.countP Entry.isFailed ∧
    d.stats.timedOut = es.countP Entry.isTimedOut ∧
    d.stats.completed + d.stats.failed + d.stats.timedOut + es.countP Entry.isBroken =
      es.countP Entry.isEnd ∧
    (∀ e : Entry, e.isCompleted.toNat + e.isFailed.toNat + e.isTimedOut.toNat +
      e.isBroken.toNat = e.isEnd.toNat) ∧
    es.countP Entry.isLent = es.countP Entry.isEnd + es.countP Entry.isAborted + d.leases ∧
    d.ended.length = es.countP Entry.isEnd + (d.attempts - d.stats.opened) ∧
    d.ended.countP isValue = d.stats.completed ∧
    d.ended.countP isCrash = es.countP Entry.isBroken := by
  intro new d es
  have alone : new.handles ≤ 1 := Nat.zero_le 1
  have all : Accounts es new d := accounts_play alone ms
  -- A new domain has nothing and has counted nothing.
  have opened : d.stats.opened = es.count .opened := all.opened.trans (Nat.zero_add _)
  have completed : d.stats.completed = es.countP Entry.isCompleted :=
    all.completed.trans (Nat.zero_add _)
  have failed : d.stats.failed = es.countP Entry.isFailed := all.failed.trans (Nat.zero_add _)
  have timedOut : d.stats.timedOut = es.countP Entry.isTimedOut :=
    all.timedOut.trans (Nat.zero_add _)
  have lost : d.lost.length = es.countP Entry.isStray := all.lost.trans (Nat.zero_add _)
  have handles : d.handles + es.countP Entry.isDiscard = es.count .opened :=
    all.handles.trans (Nat.zero_add _)
  have leases : d.leases + es.countP Entry.isEnd + es.countP Entry.isAborted =
      es.countP Entry.isLent := all.leases.trans (Nat.zero_add _)
  have attempts : d.attempts = 0 + es.count .opened + es.count .refused := all.attempts
  have ended : d.ended.length = 0 + es.countP Entry.isEnd + es.count .refused := all.ended
  have successes : d.successes = es.count .opened := all.successes.trans (Nat.zero_add _)
  have factory_eq : d.factory = factory := all.factory
  -- What is left over combines these equations.
  refine ⟨?factory, ?handles, all.alone, ?discarded, completed, failed, timedOut, ?once,
    Entry.kinds, ?lent, ?ended, ?values, all.crashes.trans (Nat.zero_add _)⟩
  case factory => rw [opened, ← successes, Domain.successes, factory_eq]
  case handles => omega
  case discarded => rw [lost, countP_isDiscard]
  case once => rw [completed, failed, timedOut, countP_isEnd]
  case lent => omega
  case ended => omega
  case values => rw [completed]; exact all.values.trans (Nat.zero_add _)

end Federation.Domain
