import Federation.Domain.Journal
import Federation.Proofs.Domain.Book

/-!
# Who is admitted when

A `Desk` is a domain with its book and the clock.  Whatever can happen to a domain is a step of the
desk: orders come and are given up at any time, the domain has its turns, and time passes.  Time
passes only when nothing is left to do at an instant.

## Key results

- `Faithful`: the book tells the truth about the domain
- `Desk.Orderly.act`, `Desk.Orderly.run`: a step, and any steps, keep orders in line
- `Desk.exists_run_settle`, `Desk.exists_run_advanceTo`: what happens in time is a sequence of steps
- `Desk.desk_spec`: whatever happens to a new domain, its orders are served in line and without
  delay
-/

namespace Federation.Domain

variable {η σ α : Type}

/-! ## Desks -/

/-- A domain with the book about its orders. -/
structure Desk (η σ α : Type) where
  domain : Domain η σ α
  book : Book η σ α := {}

/-- What can happen at a desk. -/
inductive Step (η σ α : Type) where
  /-- An order comes. -/
  | submit (o : Order η σ α)
  /-- The order at a place in the queue is given up. -/
  | leave (place : Nat)
  /-- A call is given up, in the queue or while it has the handle. -/
  | abort (id : Nat)
  /-- The surroundings change on their own or by a call that goes on without being awaited. -/
  | alter (f : σ → σ)
  /-- The domain has a turn, if there is something to do. -/
  | turn
  /-- Time passes, if there is nothing to do. -/
  | tick

/-- The order that comes with a step. -/
def Step.order? : Step η σ α → Option (Order η σ α)
  | .submit o => some o
  | .leave _ | .abort _ | .alter _ | .turn | .tick => none

/-- A step for which nobody asks. -/
def Step.IsPassive : Step η σ α → Prop
  | .turn | .tick => True
  | .submit _ | .leave _ | .abort _ | .alter _ => False

namespace Desk

/-- A desk after a step. -/
def act (x : Desk η σ α) : Step η σ α → Desk η σ α
  | .submit o => ⟨x.domain.submit o, x.book.come o⟩
  | .leave place =>
    ⟨{ x.domain with queue := x.domain.queue.eraseIdx place },
      x.book.part fun n => x.book.waiting[place]? = some n⟩
  | .abort id =>
    ⟨x.domain.abort id,
      if x.domain.lease.any fun l => l.id = id then x.book.release .aborted
      else x.book.part fun n => x.book.orders[n]?.any (Order.isCall id)⟩
  | .alter f => { x with domain := { x.domain with shared := f x.domain.shared } }
  | .turn =>
    match x.domain.turn x.book.now with
    | some d => ⟨d, x.book.follow x.domain d⟩
    | none => x
  | .tick =>
    match x.domain.turn x.book.now with
    | some _ => x
    | none => { x with book := { x.book with now := x.book.now + 1 } }

/-- A desk after some steps. -/
def run (x : Desk η σ α) (steps : List (Step η σ α)) : Desk η σ α := steps.foldl act x

end Desk

/-- What a book tells about the queue and about those who were released is true. -/
structure Recorded (d : Domain η σ α) (b : Book η σ α) : Prop where
  /-- The tickets that wait are those of the orders in the queue. -/
  queue : (b.waiting.map fun n => b.orders[n]?) = d.queue.map some
  exits : ∀ n t x, .released n t x ∈ b.marks → ∃ o, b.orders[n]? = some o ∧ x.Suits t o
  ended : d.ended = b.marks.filterMap Mark.ended?

/-- A book tells the truth about a domain. -/
structure Faithful (d : Domain η σ α) (b : Book η σ α) : Prop extends Recorded d b where
  /-- Who is admitted has the handle. -/
  lease : Option.Rel (fun n l => ∃ work, b.orders[n]? = some (.call l.id l.mode work)) b.holder d.lease

/-- Orders are served in line and without delay. -/
structure Desk.Orderly (x : Desk η σ α) : Prop where
  tidy : x.book.Tidy
  prompt : x.book.Prompt
  faithful : Faithful x.domain x.book

/-! ## Truth -/

variable {d d' : Domain η σ α} {b : Book η σ α}

/-- If a call has ended meanwhile, this is how its order is released. -/
theorem exit_of_ended {e : Ended α} (h : d'.ended = d.ended ++ [e]) : d.exit d' = .ended e := by
  simp [exit, h]

/-- If no call has ended meanwhile, the order was one to close the handle. -/
theorem exit_of_not_ended (h : d'.ended = d.ended) : d.exit d' = .closed := by
  simp [exit, h]

/-- An order keeps its number when others come. -/
theorem Book.getElem?_orders_come {n : Nat} {o : Order η σ α} (h : b.orders[n]? = some o)
    (new : Order η σ α) : (b.come new).orders[n]? = some o := by
  obtain ⟨hlt, -⟩ := List.getElem?_eq_some_iff.mp h
  rw [← h]
  exact List.getElem?_append_left hlt

/-- Each number in the line is that of an order. -/
theorem Recorded.exists_order (h : Recorded d b) {n : Nat} (hn : n ∈ b.waiting) :
    ∃ o, b.orders[n]? = some o := by
  have hmem : b.orders[n]? ∈ d.queue.map some := h.queue ▸ List.mem_map_of_mem hn
  obtain ⟨o, -, ho⟩ := List.mem_map.mp hmem
  exact ⟨o, ho.symm⟩

/-- Nobody is admitted, or a call that has the handle. -/
theorem Faithful.admitted_cases (h : Faithful d b) :
    (b.holder = none ∧ d.lease = none) ∨ ∃ n l work, b.holder = some n ∧ d.lease = some l ∧
      b.orders[n]? = some (.call l.id l.mode work) := by
  have hlease := h.lease
  generalize b.holder = holder, d.lease = lease at hlease
  cases hlease with
  | none => exact .inl ⟨rfl, rfl⟩
  | some hwork =>
    obtain ⟨work, hwork⟩ := hwork
    exact .inr ⟨_, _, work, rfl, rfl, hwork⟩

/-- The book stays faithful when an order comes. -/
theorem Faithful.submit (h : Faithful d b) (o : Order η σ α) :
    Faithful (d.submit o) (b.come o) where
  queue := by
    -- The new order gets the next number, so the old numbers keep their orders.
    have hold : (b.waiting.map fun n => (b.come o).orders[n]?) =
        b.waiting.map fun n => b.orders[n]? := by
      refine List.map_congr_left fun n hn => ?_
      obtain ⟨o', ho'⟩ := h.exists_order hn
      rw [Book.getElem?_orders_come ho', ho']
    have hnew : (b.come o).orders[b.orders.length]? = some o := List.getElem?_concat_length
    show (b.waiting ++ [b.orders.length]).map _ = (d.queue ++ [o]).map some
    rw [List.map_append, List.map_append, hold, h.queue, List.map_singleton, hnew]
    rfl
  exits n t x hmem := by
    have hmem : .released n t x ∈ b.marks := by simpa [Book.come] using hmem
    obtain ⟨o', ho', hsuits⟩ := h.exits n t x hmem
    exact ⟨o', Book.getElem?_orders_come ho' o, hsuits⟩
  ended := by
    rw [Book.come, List.filterMap_append]
    exact h.ended.trans (List.append_nil _).symm
  lease := by
    show Option.Rel _ b.holder d.lease
    rcases h.admitted_cases with ⟨hholder, hlease⟩ | ⟨n, l, work, hholder, hlease, hwork⟩
    · rw [hholder, hlease]
      exact .none
    · rw [hholder, hlease]
      exact .some ⟨work, Book.getElem?_orders_come hwork o⟩

/-- Orders that wait are given up. -/
theorem Faithful.part (h : Faithful d b) {gone : Nat → Bool}
    (hqueue : ((b.part gone).waiting.map fun n => b.orders[n]?) = d'.queue.map some)
    (hlease : d'.lease = d.lease) (hended : d'.ended = d.ended) : Faithful d' (b.part gone) where
  queue := hqueue
  exits n t x hmem := by
    have hmem : .released n t x ∈ b.marks := by simpa [Book.part] using hmem
    exact h.exits n t x hmem
  ended := by
    rw [hended, Book.filterMap_part fun _ => rfl]
    exact h.ended
  lease := hlease ▸ h.lease

/-- The first order in the queue is let in. -/
theorem Recorded.letIn (h : Recorded d b) (d' : Domain η σ α) {o : Order η σ α}
    {rest : List (Order η σ α)} (hq : d.queue = o :: rest) (hqueue : d'.queue = rest)
    (hended : d'.ended = d.ended) :
    Recorded d' b.letIn ∧ ∃ n, b.letIn.holder = some n ∧ b.letIn.orders[n]? = some o := by
  have hwaiting := h.queue
  rw [hq, List.map_cons, List.map_eq_cons_iff] at hwaiting
  obtain ⟨n, ns, hwaiting, hn, hns⟩ := hwaiting
  have hletIn : b.letIn =
      { b with waiting := ns, holder := some n, marks := b.marks ++ [.admitted n b.now] } := by
    simp only [Book.letIn, hwaiting]
  rw [hletIn]
  refine ⟨⟨?queue, ?exits, ?ended⟩, n, rfl, hn⟩
  case queue =>
    rw [hqueue]
    exact hns
  case exits =>
    intro m t x hmem
    have hmem : .released m t x ∈ b.marks := by simpa using hmem
    exact h.exits m t x hmem
  case ended =>
    rw [hended, h.ended, List.filterMap_append]
    exact (List.append_nil _).symm

/-- Who is admitted is released, and the handle is not lent any more. -/
theorem Recorded.release (h : Recorded d b) {n : Nat} {x : Exit α} {o : Order η σ α}
    (hholder : b.holder = some n) (ho : b.orders[n]? = some o) (hsuits : x.Suits b.now o)
    (hqueue : d'.queue = d.queue) (hlease : d'.lease = none)
    (hended : d'.ended = d.ended ++ x.ended?.toList) : Faithful d' (b.release x) := by
  have hrelease : b.release x =
      { b with holder := none, marks := b.marks ++ [.released n b.now x] } := by
    simp only [Book.release, hholder]
  rw [hrelease]
  refine ⟨⟨?queue, ?exits, ?ended⟩, ?lease⟩
  case queue =>
    rw [hqueue]
    exact h.queue
  -- An exit is an old one, or the one just marked, of which the suitability is known.
  case exits =>
    intro m t y hmem
    rcases List.mem_append.mp hmem with hmem | hmem
    · exact h.exits m t y hmem
    · obtain ⟨rfl, rfl, rfl⟩ := Mark.released.inj (List.mem_singleton.mp hmem)
      exact ⟨o, ho, hsuits⟩
  case ended =>
    rw [hended, h.ended, List.filterMap_append]
    cases x <;> rfl
  case lease =>
    rw [hlease]
    exact .none

/-- Nobody holds the handle in the book while it is not lent. -/
theorem Faithful.holder_eq_none (h : Faithful d b) (hl : d.lease = none) : b.holder = none := by
  rcases h.admitted_cases with ⟨hholder, -⟩ | ⟨n, l, work, -, hlease, -⟩
  · exact hholder
  · exact nomatch hl.symm.trans hlease

/-- The holder in the book is the order of the call that has the handle. -/
theorem Faithful.holder_of_lease (h : Faithful d b) {l : Lease η σ α} (hl : d.lease = some l) :
    ∃ n work, b.holder = some n ∧ b.orders[n]? = some (.call l.id l.mode work) := by
  rcases h.admitted_cases with ⟨-, hlease⟩ | ⟨n, l', work, hholder, hlease, hwork⟩
  · exact nomatch hl.symm.trans hlease
  · obtain rfl := Option.some.inj (hl.symm.trans hlease)
    exact ⟨n, work, hholder, hwork⟩

/-- A turn is entered in the book as it is. -/
theorem Faithful.turn (h : Faithful d b) (ht : d.turn b.now = some d') :
    Faithful d' (b.follow d d') := by
  rcases turn_cases ht with ⟨l, hl, hends⟩ | ⟨hl, ⟨rest, hq, hd'⟩ | ⟨id, mode, work, rest, hq, hd'⟩⟩
  -- The call that has the handle ends.
  · obtain ⟨n, work, hholder, ho⟩ := h.holder_of_lease hl
    obtain ⟨e, hid, hnow, hended⟩ := hends.ended
    have hexit : d.exit d' = .ended e := exit_of_ended hended
    have hfollow : b.follow d d' = b.release (.ended e) := by
      simp [Book.follow, hl, hends.lease, hexit]
    rw [hfollow]
    exact h.toRecorded.release hholder ho ⟨hnow, l.mode, work, by rw [hid]⟩ hends.queue hends.lease
      hended
  -- The handle is closed.
  · have hlease : d'.lease = none := by rw [hd', hl]
    have hended : d'.ended = d.ended := by rw [hd']
    have hexit : d.exit d' = .closed := exit_of_not_ended hended
    have hfollow : b.follow d d' = b.letIn.release .closed := by
      simp [Book.follow, hl, hlease, hexit]
    obtain ⟨hletIn, n, hholder, ho⟩ := h.toRecorded.letIn { d with queue := rest } hq rfl rfl
    rw [hfollow]
    exact hletIn.release hholder ho rfl (by rw [hd']) hlease (by simpa [Exit.ended?] using hended)
  -- The first call in the queue has the handle, or ends because there is none.
  · obtain ⟨hqueue, hcases⟩ := lend_cases b.now id mode work (d := { d with queue := rest }) hl
    rw [← hd'] at hqueue hcases
    rcases hcases with ⟨l, -, -, hlease, rfl, rfl, -, hended⟩ | ⟨hlease, e, hid, hnow, hended⟩
    · have hfollow : b.follow d d' = b.letIn := by simp [Book.follow, hl, hlease]
      obtain ⟨hletIn, n, hholder, ho⟩ := h.toRecorded.letIn d' hq hqueue hended
      rw [hfollow]
      refine ⟨hletIn, ?_⟩
      rw [hholder, hlease]
      exact .some ⟨work, ho⟩
    · have hexit : d.exit d' = .ended e := exit_of_ended hended
      have hfollow : b.follow d d' = b.letIn.release (.ended e) := by
        simp [Book.follow, hl, hlease, hexit]
      obtain ⟨hletIn, n, hholder, ho⟩ :=
        h.toRecorded.letIn { d with queue := rest } hq rfl rfl
      rw [hfollow]
      refine hletIn.release hholder ho ⟨?_, mode, work, by rw [hid]⟩ hqueue hlease hended
      rw [Book.now_letIn, hnow]

/-! ## Steps -/

namespace Desk

variable {x : Desk η σ α}

/-- An order that comes keeps a desk orderly. -/
theorem Orderly.submit (h : x.Orderly) (o : Order η σ α) : (x.act (.submit o)).Orderly :=
  ⟨h.tidy.come o, h.prompt.come o, h.faithful.submit o⟩

/-- Someone who leaves the queue keeps a desk orderly. -/
theorem Orderly.leave (h : x.Orderly) (place : Nat) : (x.act (.leave place)).Orderly := by
  refine ⟨h.tidy.part _, h.prompt.part _, h.faithful.part ?_ rfl rfl⟩
  have hnodup : x.book.waiting.Nodup := (List.nodup_append.mp h.tidy.nodup).2.1
  show (x.book.waiting.filter _).map _ = (x.domain.queue.eraseIdx place).map some
  rw [filter_ne_getElem? hnodup, map_eraseIdx, map_eraseIdx, h.faithful.queue]

/-- A call that is given up keeps a desk orderly. -/
theorem Orderly.abort (h : x.Orderly) (id : Nat) : (x.act (.abort id)).Orderly := by
  rcases abort_eq id x.domain with ⟨l, hl, rfl, habort⟩ | ⟨hnone, habort⟩
  -- The call has the handle.
  · have hact : x.act (.abort l.id) = ⟨x.domain.withdraw l, x.book.release .aborted⟩ := by
      simp [act, hl, habort]
    obtain ⟨n, work, hholder, ho⟩ := h.faithful.holder_of_lease hl
    obtain ⟨hlease, hqueue, hended⟩ := withdraw_eq l x.domain
    rw [hact]
    refine ⟨h.tidy.release _, h.prompt.release _, ?_⟩
    exact h.faithful.toRecorded.release hholder ho ⟨l.id, l.mode, work, rfl⟩ hqueue hlease
      (by simpa [Exit.ended?] using hended)
  -- The call may be in the queue.
  · have hact : x.act (.abort id) =
        ⟨{ x.domain with queue := x.domain.queue.filter fun o => !o.isCall id },
          x.book.part fun n => x.book.orders[n]?.any (Order.isCall id)⟩ := by
      have hany : (x.domain.lease.any fun l => decide (l.id = id)) = false := by
        rw [Option.filter_eq_none_iff] at hnone
        cases hl : x.domain.lease with
        | none => rfl
        | some l => simpa using hnone l hl
      simp [act, hany, habort]
    rw [hact]
    refine ⟨h.tidy.part _, h.prompt.part _, h.faithful.part ?_ rfl rfl⟩
    let stays (o : Option (Order η σ α)) : Bool := !o.any (Order.isCall id)
    calc (x.book.waiting.filter fun n => stays x.book.orders[n]?).map (fun n => x.book.orders[n]?)
        = (x.book.waiting.map fun n => x.book.orders[n]?).filter stays := by
          rw [List.filter_map]
          rfl
      _ = (x.domain.queue.map some).filter stays := by rw [h.faithful.queue]
      _ = (x.domain.queue.filter fun o => !o.isCall id).map some := List.filter_map

/-- A change of the surroundings keeps a desk orderly. -/
theorem Orderly.alter (h : x.Orderly) (f : σ → σ) : (x.act (.alter f)).Orderly :=
  ⟨h.tidy, h.prompt, ⟨⟨h.faithful.queue, h.faithful.exits, h.faithful.ended⟩, h.faithful.lease⟩⟩

/-- A turn keeps a desk orderly. -/
theorem Orderly.turn (h : x.Orderly) : (x.act .turn).Orderly := by
  cases ht : x.domain.turn x.book.now with
  | none =>
    have hact : x.act .turn = x := by simp only [act, ht]
    rw [hact]
    exact h
  | some d =>
    have hact : x.act .turn = ⟨d, x.book.follow x.domain d⟩ := by simp only [act, ht]
    have hfree : x.domain.lease = none → x.book.holder = none := h.faithful.holder_eq_none
    rw [hact]
    exact ⟨h.tidy.follow hfree d, h.prompt.follow hfree d, h.faithful.turn ht⟩

/-- When nothing is left to do, nobody waits, or a call has the handle for some time to come. -/
theorem Orderly.rests (h : x.Orderly) (hrests : x.domain.turn x.book.now = none) :
    x.book.waiting = [] ∨ ∃ n l, x.book.holder = some n ∧ x.domain.lease = some l ∧
      ∀ t, l.end? = some t → x.book.now < t := by
  rcases (turn_eq_none_iff x.book.now x.domain).mp hrests with ⟨-, hqueue⟩ | ⟨l, hl, -⟩
  · left
    have hwaiting := h.faithful.queue
    rw [hqueue] at hwaiting
    exact List.map_eq_nil_iff.mp hwaiting
  · right
    obtain ⟨n, work, hholder, -⟩ := h.faithful.holder_of_lease hl
    exact ⟨n, l, hholder, hl, fun t ht => lt_of_rests hrests hl ht⟩

/-- A desk stays orderly as time goes on, since time passes only when no turn is left. -/
theorem Orderly.tick (h : x.Orderly) : (x.act .tick).Orderly := by
  cases ht : x.domain.turn x.book.now with
  | some d =>
    have hact : x.act .tick = x := by simp only [act, ht]
    rw [hact]
    exact h
  | none =>
    have hact : x.act .tick = { x with book := { x.book with now := x.book.now + 1 } } := by
      simp only [act, ht]
    -- When the domain has no turn left and nobody holds the handle, nobody waits for it.
    have hidle : x.book.holder = none → x.book.waiting = [] := by
      intro hfree
      rcases h.rests ht with hnil | ⟨n, l, hholder, -⟩
      · exact hnil
      · exact nomatch hfree.symm.trans hholder
    rw [hact]
    refine ⟨?tidy, h.prompt.pass hidle _ (Nat.le_succ _), ?faithful⟩
    case tidy => exact ⟨h.tidy.arrivals, h.tidy.departures, h.tidy.line, h.tidy.releases⟩
    case faithful =>
      exact ⟨⟨h.faithful.queue, h.faithful.exits, h.faithful.ended⟩, h.faithful.lease⟩

/-- Orders are served in line and without delay, whatever happens next. -/
theorem Orderly.act (h : x.Orderly) (s : Step η σ α) : (x.act s).Orderly := by
  cases s with
  | submit o => exact h.submit o
  | leave place => exact h.leave place
  | abort id => exact h.abort id
  | alter f => exact h.alter f
  | turn => exact h.turn
  | tick => exact h.tick

/-- Whatever happens to an orderly desk, it stays orderly. -/
theorem Orderly.run (h : x.Orderly) (steps : List (Step η σ α)) : (x.run steps).Orderly := by
  induction steps generalizing x with
  | nil => exact h
  | cons s steps ih => exact ih (h.act s)

/-- Nobody has come to a new domain. -/
theorem orderly_new {d : Domain η σ α} (hlease : d.lease = none) (hqueue : d.queue = [])
    (hended : d.ended = []) : Orderly ({ domain := d } : Desk η σ α) where
  tidy := ⟨rfl, nofun, rfl, rfl⟩
  prompt := by
    refine ⟨⟨.nil, nofun, fun before after n t heq => ?_⟩, fun _ => nofun⟩
    exact absurd heq.symm (by simp)
  faithful := by
    refine ⟨⟨?_, nofun, hended⟩, ?_⟩
    · rw [hqueue]
      rfl
    · rw [hlease]
      exact .none

/-- Steps are done one stretch after the other. -/
theorem run_append (x : Desk η σ α) (ss ss' : List (Step η σ α)) :
    x.run (ss ++ ss') = (x.run ss).run ss' := List.foldl_append

/-- A passive step brings no order. -/
theorem order?_of_isPassive {s : Step η σ α} (h : s.IsPassive) : s.order? = none := by
  cases s with
  | submit => exact h.elim
  | leave | abort | alter | turn | tick => rfl

/-- The book knows the orders that came, and no others. -/
theorem orders_act (x : Desk η σ α) (s : Step η σ α) :
    (x.act s).book.orders = x.book.orders ++ s.order?.toList := by
  cases s with
  | submit o => rfl
  | leave | alter => exact (List.append_nil _).symm
  | abort =>
    -- No other step brings an order, though it may write into the book.
    refine Eq.trans ?_ (List.append_nil _).symm
    unfold act
    dsimp only
    split
    · exact Book.orders_release _ _
    · rfl
  | turn =>
    refine Eq.trans ?_ (List.append_nil _).symm
    unfold act
    dsimp only
    split
    · exact Book.orders_follow ..
    · rfl
  | tick =>
    refine Eq.trans ?_ (List.append_nil _).symm
    unfold act
    dsimp only
    split <;> rfl

/-- The orders in the book are the old ones and those that came since, in this order. -/
theorem orders_run (x : Desk η σ α) (ss : List (Step η σ α)) :
    (x.run ss).book.orders = x.book.orders ++ ss.filterMap Step.order? := by
  induction ss generalizing x with
  | nil => exact (List.append_nil _).symm
  | cons s ss ih =>
    show ((x.act s).run ss).book.orders = _
    rw [ih, orders_act, List.append_assoc, List.filterMap_cons]
    cases s.order? <;> rfl

/-! ## Time -/

/-- A domain that settles has some turns. -/
theorem exists_run_settle (x : Desk η σ α) :
    ∃ k, (x.run (List.replicate k .turn)).domain = x.domain.settle x.book.now ∧
      (x.run (List.replicate k .turn)).book.now = x.book.now := by
  refine Timed.exhaust_induction (P := fun d => ∃ k, (x.run (List.replicate k .turn)).domain = d ∧
    (x.run (List.replicate k .turn)).book.now = x.book.now) ?_ _ ⟨0, rfl, rfl⟩
  rintro d d' ⟨k, rfl, hnow⟩ ht
  refine ⟨k + 1, ?_⟩
  rw [List.replicate_succ', run_append]
  generalize x.run (List.replicate k .turn) = y at hnow ht ⊢
  have hact : y.run [.turn] = ⟨d', y.book.follow y.domain d'⟩ := by
    simp only [run, List.foldl_cons, List.foldl_nil, act, hnow, ht]
  rw [hact]
  exact ⟨rfl, (Book.now_follow ..).trans hnow⟩

/-- Time passes as long as nothing is to be done. -/
theorem run_ticks (x : Desk η σ α) (k : Nat)
    (hrests : ∀ t, t < x.book.now + k → x.domain.turn t = none) :
    x.run (List.replicate k .tick) =
      { x with book := { x.book with now := x.book.now + k } } := by
  induction k with
  | zero => rfl
  | succ k ih =>
    have hturn : x.domain.turn (x.book.now + k) = none := hrests _ (Nat.lt_succ_self _)
    rw [List.replicate_succ', run_append, ih fun t ht => hrests t (Nat.lt_succ_of_lt ht)]
    simp only [run, List.foldl_cons, List.foldl_nil, act, hturn]
    rfl

/-- A passive step done again and again is passive each time. -/
theorem isPassive_of_replicate {k : Nat} {s t : Step η σ α} (hs : s.IsPassive)
    (ht : t ∈ List.replicate k s) : t.IsPassive := by
  obtain rfl := List.eq_of_mem_replicate ht
  exact hs

/-- Time passes up to an instant before which nothing is to be done. -/
theorem exists_run_ticks {x : Desk η σ α} {t : Nat} (hle : x.book.now ≤ t)
    (hrests : ∀ u, u < t → x.domain.turn u = none) :
    ∃ ss, (∀ s ∈ ss, s.IsPassive) ∧ (x.run ss).domain = x.domain ∧ (x.run ss).book.now = t := by
  refine ⟨List.replicate (t - x.book.now) .tick, fun s => isPassive_of_replicate trivial, ?_⟩
  rw [run_ticks x _ fun u hu => hrests u (by omega)]
  exact ⟨rfl, by show x.book.now + (t - x.book.now) = t; omega⟩

/-- A domain that goes from instant to instant has turns while time passes. -/
theorem exists_run_moves {now u : Nat} {d d' : Domain η σ α} (hm : Timed.Moves now d u d')
    {x : Desk η σ α} (hd : x.domain = d) (hnow : x.book.now = now) (hrests : d.turn now = none) :
    ∃ ss, (∀ s ∈ ss, s.IsPassive) ∧ (x.run ss).domain = d' ∧ (x.run ss).book.now = u := by
  induction hm generalizing x with
  | refl => exact ⟨[], nofun, hd, hnow⟩
  | @step now t u d d' hnext rest ih =>
    subst hd hnow
    obtain ⟨hlt, hrests', -⟩ := steady.next hrests hnext
    -- Time passes until the lease ends; then the domain settles, and goes on from there.
    have hbefore : ∀ v, v < t → x.domain.turn v = none := by
      intro v hv
      refine turn_eq_none_of_lt hrests fun w hw => ?_
      rw [Option.some.inj (hw.symm.trans hnext)]
      exact hv
    obtain ⟨ss, hss, hdomain, hclock⟩ := exists_run_ticks (Nat.le_of_lt hlt) hbefore
    obtain ⟨k, hsettle, hclock'⟩ := exists_run_settle (x.run ss)
    rw [hdomain, hclock] at hsettle
    obtain ⟨ss', hss', hend⟩ := ih hsettle (hclock'.trans hclock) hrests'
    refine ⟨ss ++ List.replicate k .turn ++ ss', fun s hs => ?_, ?_⟩
    · rcases List.mem_append.mp hs with hs | hs
      · rcases List.mem_append.mp hs with hs | hs
        · exact hss s hs
        · exact isPassive_of_replicate (s := .turn) trivial hs
      · exact hss' s hs
    · rw [run_append, run_append]
      exact hend

/-- A domain that goes on to an instant has turns while time passes. -/
theorem exists_run_advanceTo {x : Desk η σ α} (hrests : x.domain.turn x.book.now = none)
    {limit : Nat} (hle : x.book.now ≤ limit) :
    ∃ ss, (∀ s ∈ ss, s.IsPassive) ∧ (x.run ss).domain = Timed.advanceTo limit x.domain ∧
      (x.run ss).book.now = limit := by
  obtain ⟨v, hm, hv, hlate⟩ := steady.advanceTo_moves hrests hle
  obtain ⟨ss, hss, hdomain, hclock⟩ := exists_run_moves hm rfl rfl hrests
  have hrests' := (steady.moves hrests hm).1
  have hbefore : ∀ u, u < limit → (x.run ss).domain.turn u = none := by
    intro u hu
    rw [hdomain]
    exact turn_eq_none_of_lt hrests' fun w hw => Nat.lt_trans hu (hlate w hw)
  obtain ⟨ss', hss', hdomain', hclock'⟩ := exists_run_ticks (hclock ▸ hv) hbefore
  refine ⟨ss ++ ss', fun s hs => (List.mem_append.mp hs).elim (hss s) (hss' s), ?_⟩
  rw [run_append]
  exact ⟨hdomain'.trans hdomain, hclock'⟩

/-- Whatever happens to a new domain, its orders are served one after the other: those that were
    admitted are those that were released and, at most, the one whose call has the handle.  They are
    admitted in the order in which they came, without those that were given up while they waited.
    Who is admitted has just come, or the one before has just been released.  An order is released
    at the instant at which its call ends or is given up.  When nothing is left to do, nobody waits,
    or a call has the handle for some time to come; and it comes to this at any instant. -/
theorem desk_spec (name : String) (callDeadline : Option Nat) (factory : Nat → Except Fault η)
    (shared : σ) (ss : List (Step η σ α)) :
    let x := run { domain := { name, callDeadline, factory, shared } } ss
    let b := x.book
    (Mark.admissions b.marks = Mark.releases b.marks ++ b.holder.toList ∧
      Option.Rel (fun n l => ∃ work, b.orders[n]? = some (.call l.id l.mode work)) b.holder
        x.domain.lease) ∧
    (Mark.arrivals b.marks = List.range b.orders.length ∧
      (b.waiting.map fun n => b.orders[n]?) = x.domain.queue.map some ∧
      Mark.admissions b.marks ++ b.waiting =
        (List.range b.orders.length).filter (· ∉ Mark.departures b.marks)) ∧
    ((b.marks.map Mark.instant).Pairwise (· ≤ ·) ∧
      ∀ before after n t, b.marks = before ++ .admitted n t :: after →
        .came n t ∈ before ∨ Mark.lastRelease? before = some t) ∧
    ((∀ n t e, .released n t e ∈ b.marks → ∃ o, b.orders[n]? = some o ∧ e.Suits t o) ∧
      x.domain.ended = b.marks.filterMap Mark.ended?) ∧
    (x.domain.turn b.now = none → b.waiting = [] ∨
      ∃ n l, b.holder = some n ∧ x.domain.lease = some l ∧ ∀ t, l.end? = some t → b.now < t) ∧
    ∃ k, (x.run (List.replicate k .turn)).book.now = b.now ∧
      (x.run (List.replicate k .turn)).domain.turn b.now = none := by
  intro x b
  -- A new desk is orderly and each step keeps it so; the statement reads off what that says.
  have h : x.Orderly := (orderly_new rfl rfl rfl).run ss
  -- Turns alone settle the domain at the instant, and a settled domain has no turn left.
  obtain ⟨k, hsettle, hnow⟩ := exists_run_settle x
  refine ⟨⟨h.tidy.releases, h.faithful.lease⟩,
    ⟨h.tidy.arrivals, h.faithful.queue, h.tidy.line⟩,
    ⟨h.prompt.timely.sorted, h.prompt.timely.admitted⟩,
    ⟨h.faithful.exits, h.faithful.ended⟩, h.rests, k, hnow, ?_⟩
  rw [hsettle]
  exact rests_settle b.now x.domain

/-- Of three calls, the second is given up while the first has the handle, and the third has it at
    the instant at which the first ends. -/
example :
    let entry (id delay : Nat) : Order Journal Unit Journal :=
      .call id .async (Journal.heldEntry "entry" .read (some delay))
    let x : Desk Journal Unit Journal :=
      run { domain := { name := "ldap", factory := Journal.factory [], shared := () } }
        [.submit (entry 7 2), .submit (entry 8 1), .turn, .tick, .submit (entry 9 1), .abort 8, .tick,
          .turn, .turn]
    x.book.now = 2 ∧ Mark.admissions x.book.marks = [0, 2] ∧ Mark.departures x.book.marks = [1] ∧
      x.book.holder = some 2 := by
  decide

end Desk

end Federation.Domain
