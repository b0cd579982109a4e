import Federation.Directory.Basic
import Federation.Proofs.Domain.Desk

/-!
# One connection to a directory

Calls that share one connection to a directory have it one after the other.  A call is in progress as
long as it has the connection, and it is counted when it gets it; a call that is given up before that
leaves the server alone.  However a call ends, it gives the connection back, so one connection is
enough for all of them.

## Key results

- `Connection.turn`, `Connection.abort`: what a turn and a call that is given up do
- `Connects.run`: the counters of the server, and the connection, at any time
- `exclusive_run`: what there is to be seen of this
-/

namespace Federation.Directory

open Domain (Book Desk Lease Mark Order Step)

/-! ## Counters -/

namespace Server

/-- A server that nobody has called. -/
structure IsNew (s : Server) : Prop where
  calls : s.calls = 0
  active : s.active = 0
  maxActive : s.maxActive = 0

/-- The counters of two servers are the same. -/
structure SameCounts (s t : Server) : Prop where
  calls : t.calls = s.calls
  active : t.active = s.active
  maxActive : t.maxActive = s.maxActive

/-- A server has the same counters as itself. -/
theorem SameCounts.refl (s : Server) : SameCounts s s := ⟨rfl, rfl, rfl⟩

/-- Servers with the same counters still have the same when a call has left. -/
theorem SameCounts.leave {s t : Server} (h : SameCounts s t) : SameCounts s.leave t.leave :=
  ⟨h.calls, congrArg (· - 1) h.active, h.maxActive⟩

/-- Whatever is asked for, an answer does not change the counters. -/
theorem sameCounts_answer (provider : ProviderId) (supported : List Property) (o : Operation)
    (localId : String) (s : Server) : SameCounts s (s.answer provider supported o localId).1 := by
  unfold answer
  split
  · exact .refl s
  · exact .refl s
  · unfold changePassword
    split
    · exact ⟨rfl, rfl, rfl⟩
    · exact .refl s

/-- Something is done to a server from outside: its entries, its latency or its failures may be
    changed, but not its counters. -/
def Spares (f : Server → Server) : Prop := ∀ s, SameCounts s (f s)

end Server

/-- A call in progress leaves the server, be it in the end or because it is given up. -/
structure Leaves (visit : Visit Unit Server Output) : Prop where
  leave : ∀ s, visit.leave s = s.leave
  finish : ∀ h s, Server.SameCounts s.leave (visit.finish h s).2.1
  returns : ∀ h s, ∃ r, (visit.finish h s).2.2 = .returned r

/-- A call to a directory enters the server, and leaves it when it ends. -/
theorem leaves_work (d : Directory) (r : Request) (h : Unit) (s : Server) :
    (d.work r h s).2.1 = s.enter ∧ Leaves (d.work r h s).2.2 := by
  refine ⟨rfl, fun _ => rfl, fun h t => ?_, fun h t => ⟨_, rfl⟩⟩
  exact (Server.sameCounts_answer d.id d.supported r.operation r.localId t).leave

/-! ## The connection -/

variable {d : Directory} {n now : Nat} {k k' : Domain Unit Server Output}

/-- What is known of the connection to a directory when it has been lent some times. -/
structure Connection (d : Directory) (n : Nat) (k : Domain Unit Server Output) : Prop where
  factory : ∀ i, k.factory i = .ok ()
  queue : ∀ o ∈ k.queue, ∃ id r, o = .call id .async (d.work r)
  lease : ∀ l, k.lease = some l → l.mode = .async ∧ Leaves l.visit ∧ 0 < n
  slot : k.lease = none → k.slot.isSome = decide (0 < n)
  calls : k.shared.calls = n
  active : k.shared.active = if k.lease.isSome then 1 else 0
  maxActive : k.shared.maxActive = min 1 n
  opened : k.stats.opened = min 1 n

/-- The call that has the connection ends, and gives it back. -/
theorem Connection.ends (h : Connection d n k) {l : Lease Unit Server Output}
    (hl : k.lease = some l) (hfactory : k'.factory = k.factory) (hqueue : k'.queue = k.queue)
    (hlease : k'.lease = none) (hslot : k'.slot.isSome = true)
    (hopened : k'.stats.opened = k.stats.opened)
    (hshared : Server.SameCounts k.shared.leave k'.shared) : Connection d n k' where
  factory := hfactory ▸ h.factory
  queue := hqueue ▸ h.queue
  lease _ hl' := nomatch hlease.symm.trans hl'
  slot _ := by
    rw [hslot]
    exact (decide_eq_true (h.lease l hl).2.2).symm
  calls := hshared.calls.trans h.calls
  -- One call was active, the one that ends.
  active := by
    rw [hshared.active, hlease]
    show k.shared.active - 1 = 0
    rw [h.active, hl]
    rfl
  maxActive := hshared.maxActive.trans h.maxActive
  opened := hopened.trans h.opened

/-- A call that comes to its end gives the connection back. -/
theorem Connection.finish (h : Connection d n k) {l : Lease Unit Server Output}
    (hl : k.lease = some l) (now : Nat) :
    (k.finish now l).lease = none ∧ Connection d n (k.finish now l) := by
  obtain ⟨hmode, hleaves, -⟩ := h.lease l hl
  -- The work of a directory always returns, so the handle goes back to its slot.
  obtain ⟨r, hr⟩ := hleaves.returns l.handle k.shared
  have hfinish : k.finish now l =
      { k with
        shared := (l.visit.finish l.handle k.shared).2.1, lease := none
        slot := some (l.visit.finish l.handle k.shared).1, stats := k.stats.count r
        ended := k.ended ++ [⟨l.id, now, .returned r⟩] } := by
    unfold Domain.finish
    simp only [hr]
    rfl
  rw [hfinish]
  refine ⟨rfl, h.ends hl rfl rfl rfl rfl ?_ (hleaves.finish l.handle k.shared)⟩
  cases r <;> rfl

/-- A call that is given up gives the connection back. -/
theorem Connection.withdraw (h : Connection d n k) {l : Lease Unit Server Output}
    (hl : k.lease = some l) : Connection d n (k.withdraw l) := by
  obtain ⟨hmode, hleaves, -⟩ := h.lease l hl
  have hwithdraw : k.withdraw l =
      { k with lease := none, slot := some l.handle, shared := k.shared.leave } := by
    simp only [Domain.withdraw, hmode, hleaves.leave]
  rw [hwithdraw]
  exact h.ends hl rfl rfl rfl rfl rfl (.refl _)

/-- The next call gets the connection, which is opened if there is none. -/
theorem Connection.lend (h : Connection d n k) (hl : k.lease = none) (now id : Nat)
    (r : Request) : ∃ l, (k.lend now id .async (d.work r)).lease = some l ∧
      Connection d (n + 1) (k.lend now id .async (d.work r)) := by
  -- The connection is there if it was lent before, and is opened if it was not.
  have htake : ∃ k₁, k.take = (k₁, .ok ()) ∧ k₁.factory = k.factory ∧ k₁.queue = k.queue ∧
      k₁.shared = k.shared ∧ k₁.stats.opened = min 1 (n + 1) := by
    have hslot := h.slot hl
    have hopened := h.opened
    unfold Domain.take
    cases hs : k.slot with
    | some u =>
      rw [hs, Option.isSome_some, eq_comm, decide_eq_true_iff] at hslot
      exact ⟨_, rfl, rfl, rfl, rfl, by show k.stats.opened = _; omega⟩
    | none =>
      rw [hs, Option.isSome_none, eq_comm, decide_eq_false_iff_not] at hslot
      dsimp only
      rw [h.factory]
      exact ⟨_, rfl, rfl, rfl, rfl, by show k.stats.opened + 1 = _; omega⟩
  obtain ⟨k₁, htake, hfactory, hqueue, hshared, hopened⟩ := htake
  obtain ⟨henter, hleaves⟩ := leaves_work d r () k₁.shared
  refine ⟨_, by rw [Domain.lend, htake], ?_⟩
  rw [Domain.lend, htake]
  have hactive := h.active
  rw [hl] at hactive
  have hmax := h.maxActive
  refine ⟨?_, ?_, ?_, nofun, ?_, ?_, ?_, hopened⟩
  · exact hfactory ▸ h.factory
  · exact hqueue ▸ h.queue
  · intro l hl'
    obtain rfl := Option.some.inj hl'
    exact ⟨rfl, hleaves, Nat.succ_pos n⟩
  · show ((d.work r () k₁.shared).2.1).calls = n + 1
    rw [henter, hshared, ← h.calls]
    rfl
  · show ((d.work r () k₁.shared).2.1).active = 1
    rw [henter, hshared]
    exact congrArg (· + 1) hactive
  · show ((d.work r () k₁.shared).2.1).maxActive = min 1 (n + 1)
    rw [henter, hshared]
    show max k.shared.maxActive (k.shared.active + 1) = _
    rw [hmax, hactive]
    show max (min 1 n) 1 = _
    omega

/-- A turn either ends the call that has the connection, or gives it to the next one. -/
theorem Connection.turn (h : Connection d n k) (ht : k.turn now = some k') :
    (k.lease.isSome = true ∧ k'.lease = none ∧ Connection d n k') ∨
      (k.lease = none ∧ k'.lease.isSome = true ∧ Connection d (n + 1) k') := by
  unfold Domain.turn at ht
  -- First the case that a call has the connection: it has come to its end, or it was given up, or
  -- there is no turn.
  split at ht
  · next l hl =>
    rw [hl]
    split at ht
    · obtain rfl := Option.some.inj ht
      exact .inl ⟨rfl, h.finish hl now⟩
    · split at ht
      · obtain rfl := Option.some.inj ht
        obtain ⟨hlease, -⟩ := Domain.withdraw_eq l k
        have hconn := h.withdraw hl
        exact .inl ⟨rfl, hlease, ⟨hconn.factory, hconn.queue, hconn.lease, hconn.slot, hconn.calls,
          hconn.active, hconn.maxActive, h.opened⟩⟩
      · exact nomatch ht
  · next hl =>
    split at ht
    · exact nomatch ht
    · next rest hq =>
      obtain ⟨id, r, ho⟩ := h.queue .reset (hq ▸ List.mem_cons_self)
      exact nomatch ho
    · next id mode work rest hq =>
      obtain rfl := Option.some.inj ht
      obtain ⟨id', r, ho⟩ := h.queue (.call id mode work) (hq ▸ List.mem_cons_self)
      cases ho
      have hrest : Connection d n { k with queue := rest } :=
        ⟨h.factory, fun o ho => h.queue o (hq ▸ List.mem_cons_of_mem _ ho), h.lease, h.slot, h.calls,
          h.active, h.maxActive, h.opened⟩
      obtain ⟨l, hlease, hconn⟩ := hrest.lend hl now id r
      exact .inr ⟨hl, by rw [hlease]; rfl, hconn⟩

/-- Giving a call up keeps what is known of the connection. -/
theorem Connection.abort (h : Connection d n k) (id : Nat) : Connection d n (k.abort id) := by
  rcases Domain.abort_eq id k with ⟨l, hl, -, heq⟩ | ⟨-, heq⟩
  · rw [heq]
    exact h.withdraw hl
  · rw [heq]
    exact ⟨h.factory, fun o ho => h.queue o (List.mem_filter.mp ho).1, h.lease, h.slot, h.calls,
      h.active, h.maxActive, h.opened⟩

/-! ## Schedules -/

/-- The calls that are made, and what may be done to the server besides. -/
def Allows (d : Directory) : Step Unit Server Output → Prop
  | .submit o => ∃ id r, o = .call id .async (d.work r)
  | .alter f => Server.Spares f
  | .leave _ | .abort _ | .turn | .tick => True

/-- The desk at which the calls into a new directory wait for its one connection. -/
def desk (id : ProviderId) (callDeadline : Option Nat) (s : Server) : Desk Unit Server Output where
  domain := { name := id.name ++ "-connection", callDeadline, factory := fun _ => .ok (), shared := s }

variable {x : Desk Unit Server Output}

/-- The orders at a desk, the connection, and the book that is kept about both. -/
structure Connects (d : Directory) (x : Desk Unit Server Output) : Prop where
  orderly : x.Orderly
  connection : Connection d (Mark.admissions x.book.marks).length x.domain

/-- Somebody holds the connection in the book exactly if it is lent. -/
theorem Connects.isSome_holder (h : Connects d x) :
    x.book.holder.isSome = x.domain.lease.isSome := by
  rcases h.orderly.faithful.admitted_cases with ⟨hholder, hlease⟩ | ⟨n, l, work, hholder, hlease, -⟩
  · rw [hholder, hlease]
    rfl
  · rw [hholder, hlease]
    rfl

/-- If a turn is to be had and nobody has the connection, somebody waits for it. -/
theorem Connects.exists_waiting (h : Connects d x) (hl : x.domain.lease = none)
    (ht : x.domain.turn now = some k') : ∃ n rest, x.book.waiting = n :: rest := by
  refine List.exists_cons_of_ne_nil fun hnil => ?_
  have hqueue := h.orderly.faithful.queue
  rw [hnil, List.map_nil, eq_comm, List.map_eq_nil_iff] at hqueue
  rw [(Domain.turn_eq_none_iff now x.domain).mpr (.inl ⟨hl, hqueue⟩)] at ht
  exact nomatch ht

/-- A turn is followed in the book. -/
theorem Connects.turn (h : Connects d x) : Connects d (x.act .turn) := by
  refine ⟨h.orderly.turn, ?_⟩
  unfold Desk.act
  dsimp only
  cases ht : x.domain.turn x.book.now with
  | none => exact h.connection
  | some k' =>
    -- The turn ends a lease, or it admits the first one in line.
    rcases h.connection.turn ht with ⟨hlease, -, hconn⟩ | ⟨hlease, -, hconn⟩
    · rw [Book.admissions_follow_of_lease hlease]
      exact hconn
    · obtain ⟨n, rest, hwaiting⟩ := h.exists_waiting hlease ht
      rw [Book.admissions_follow_of_no_lease hlease, hwaiting, List.length_append]
      exact hconn

/-- Who waits may be given up. -/
theorem admissions_part (gone : Nat → Bool) (b : Book Unit Server Output) :
    Mark.admissions (b.part gone).marks = Mark.admissions b.marks :=
  Book.filterMap_part (fun _ => rfl) gone

/-- Whatever a directory allows to be done at its desk is followed in the book. -/
theorem Connects.act (h : Connects d x) {s : Step Unit Server Output} (hs : d.Allows s) :
    Connects d (x.act s) := by
  have hconn := h.connection
  -- Only turns admit anybody; all other steps leave the number of admissions as it is.
  cases s with
  | turn => exact h.turn
  | submit o =>
    refine ⟨h.orderly.submit o, ?_⟩
    have hcount : Mark.admissions (x.book.come o).marks = Mark.admissions x.book.marks :=
      (Mark.admissions_append _ _).trans (List.append_nil _)
    have hqueue : ∀ o' ∈ x.domain.queue ++ [o], ∃ id r, o' = .call id .async (d.work r) := by
      intro o' ho
      rcases List.mem_append.mp ho with ho | ho
      · exact hconn.queue o' ho
      · exact List.mem_singleton.mp ho ▸ hs
    show Connection d (Mark.admissions (x.book.come o).marks).length (x.domain.submit o)
    rw [hcount]
    exact { hconn with queue := hqueue }
  | leave place =>
    refine ⟨h.orderly.leave place, ?_⟩
    have hqueue : ∀ o ∈ x.domain.queue.eraseIdx place, ∃ id r, o = .call id .async (d.work r) :=
      fun o ho => hconn.queue o (List.mem_of_mem_eraseIdx ho)
    unfold Desk.act
    rw [admissions_part]
    exact { hconn with queue := hqueue }
  | abort id =>
    refine ⟨h.orderly.abort id, ?_⟩
    have hcount : Mark.admissions (x.act (.abort id)).book.marks =
        Mark.admissions x.book.marks := by
      unfold Desk.act
      dsimp only
      split
      · exact Book.admissions_release _ _
      · exact admissions_part _ _
    rw [hcount]
    exact hconn.abort id
  | alter f =>
    have hsame := hs x.domain.shared
    exact ⟨h.orderly.alter f, { hconn with
      calls := hsame.calls.trans hconn.calls
      active := hsame.active.trans hconn.active
      maxActive := hsame.maxActive.trans hconn.maxActive }⟩
  | tick =>
    refine ⟨h.orderly.tick, ?_⟩
    unfold Desk.act
    dsimp only
    split <;> exact hconn

/-- So is all that is done one after the other. -/
theorem Connects.run (h : Connects d x) {ss : List (Step Unit Server Output)}
    (hss : ∀ s ∈ ss, d.Allows s) : Connects d (x.run ss) := by
  induction ss generalizing x with
  | nil => exact h
  | cons s ss ih =>
    exact ih (h.act (hss s List.mem_cons_self)) fun t ht => hss t (List.mem_cons_of_mem s ht)

/-- A directory that nobody has called yet. -/
theorem connects_desk (d : Directory) (callDeadline : Option Nat) {s : Server} (hs : s.IsNew) :
    Connects d (desk d.id callDeadline s) where
  orderly := Domain.Desk.orderly_new rfl rfl rfl
  connection :=
    { factory := fun _ => rfl, queue := nofun, lease := nofun, slot := fun _ => rfl
      calls := hs.calls, active := hs.active, maxActive := hs.maxActive, opened := rfl }

/-! ## What there is to be seen -/

/-- At most one call has the connection, and those that have had it are counted. -/
structure Exclusive (x : Desk Unit Server Output) : Prop where
  /-- Who is admitted has the connection, and who waits is in the queue. -/
  faithful : Domain.Faithful x.domain x.book
  active : x.domain.shared.active = if x.book.holder.isSome then 1 else 0
  maxActive : x.domain.shared.maxActive ≤ 1
  calls : x.domain.shared.calls = (Mark.admissions x.book.marks).length
  nodup : (Mark.admissions x.book.marks).Nodup
  /-- Whoever was given up while waiting has not had the connection. -/
  departed : ∀ n ∈ Mark.departures x.book.marks, n ∉ Mark.admissions x.book.marks
  opened : x.domain.stats.opened = min 1 x.domain.shared.calls
  /-- When the connection is free, the first who waits is the next to have it. -/
  next : ∀ n rest, x.book.holder = none → x.book.waiting = n :: rest →
    (x.act .turn).book.holder = some n
  /-- Only who has the connection, or is given it, touches the server. -/
  touched : ∀ s, (∀ f, s ≠ .alter f) → (x.act s).domain.shared ≠ x.domain.shared →
    x.book.holder.isSome = true ∨ (x.act s).book.holder.isSome = true

/-- The connection is not lent if nobody holds it in the book. -/
theorem Connects.lease_eq_none (h : Connects d x) (hfree : x.book.holder = none) :
    x.domain.lease = none := by
  rw [← Option.isNone_iff_eq_none, ← Option.not_isSome, ← h.isSome_holder, hfree]
  rfl

/-- When the connection is free, the first who waits is the next to have it. -/
theorem Connects.next (h : Connects d x) {n : Nat} {rest : List Nat}
    (hfree : x.book.holder = none) (hwaiting : x.book.waiting = n :: rest) :
    (x.act .turn).book.holder = some n := by
  have hlease := h.lease_eq_none hfree
  unfold Desk.act
  dsimp only
  -- There is a turn, since somebody waits and the connection is free.
  cases ht : x.domain.turn x.book.now with
  | none =>
    rcases (Domain.turn_eq_none_iff _ _).mp ht with ⟨-, hqueue⟩ | ⟨l, hl, -⟩
    · have hlength := congrArg List.length h.orderly.faithful.queue
      rw [hwaiting, hqueue] at hlength
      exact nomatch hlength
    · exact nomatch hlease.symm.trans hl
  | some k' =>
    rcases h.connection.turn ht with ⟨hlent, -⟩ | ⟨-, hlent, -⟩
    · rw [hlease] at hlent
      exact nomatch hlent
    · simp only [Book.follow, hlease, hlent, Book.letIn, hwaiting, Option.isSome_none, if_true,
        Bool.false_eq_true, if_false]

/-- Who touches the server has the connection before or after, unless it is altered from outside. -/
theorem Connects.touched (h : Connects d x) (s : Step Unit Server Output)
    (hs : ∀ f, s ≠ .alter f) (hshared : (x.act s).domain.shared ≠ x.domain.shared) :
    x.book.holder.isSome = true ∨ (x.act s).book.holder.isSome = true := by
  -- Coming and leaving touch nothing, and giving up touches the server only for the holder.
  cases s with
  | submit o => exact absurd rfl hshared
  | leave place => exact absurd rfl hshared
  | alter f => exact absurd rfl (hs f)
  | abort id =>
    refine .inl ?_
    rw [h.isSome_holder]
    rcases Domain.abort_eq id x.domain with ⟨l, hl, -⟩ | ⟨-, heq⟩
    · rw [hl]
      rfl
    · exact absurd (congrArg Domain.shared heq) hshared
  | turn =>
    rw [h.isSome_holder, h.turn.isSome_holder]
    revert hshared
    unfold Desk.act
    dsimp only
    cases ht : x.domain.turn x.book.now with
    | none => exact fun hshared => absurd rfl hshared
    | some k' =>
      exact fun _ => (h.connection.turn ht).imp And.left fun h => h.2.1
  | tick =>
    revert hshared
    unfold Desk.act
    dsimp only
    split <;> exact fun hshared => absurd rfl hshared

/-- All that there is to be seen follows from the book. -/
theorem Connects.exclusive (h : Connects d x) : Exclusive x where
  faithful := h.orderly.faithful
  active := by rw [h.connection.active, h.isSome_holder]
  maxActive := by
    rw [h.connection.maxActive]
    exact Nat.min_le_left 1 _
  calls := h.connection.calls
  nodup := (List.nodup_append.mp h.orderly.tidy.nodup).1
  departed n hn hmem := by
    -- Who was admitted is in the line, and the line holds nobody who has left.
    have hline : n ∈ Mark.admissions x.book.marks ++ x.book.waiting :=
      List.mem_append_left _ hmem
    rw [h.orderly.tidy.line, List.mem_filter, decide_eq_true_iff] at hline
    exact hline.2 hn
  opened := by rw [h.connection.opened, h.connection.calls]
  next _ _ hfree hwaiting := h.next hfree hwaiting
  touched := h.touched

/-- Whatever calls are made to a directory with one connection, at whatever instants they are given
    up, and whatever is done to its server besides: at most one of them has the connection. -/
theorem exclusive_run (d : Directory) (callDeadline : Option Nat) {s : Server} (hs : s.IsNew)
    {ss : List (Step Unit Server Output)} (hss : ∀ s ∈ ss, d.Allows s) :
    Exclusive ((desk d.id callDeadline s).run ss) :=
  ((connects_desk d callDeadline hs).run hss).exclusive

end Federation.Directory
