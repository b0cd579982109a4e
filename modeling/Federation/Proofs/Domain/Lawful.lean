import Federation.Domain.Basic
import Federation.Proofs.Call.Lawful
import Federation.Proofs.Timed
import Mathlib.Data.List.Nodup

/-!
# Domains can be relied upon

A call is in progress as long as it has the handle or is in the queue.  Each turn of a domain ends a
call, or takes an order out of the queue; so a domain comes to rest, and then the call that has the
handle has it for some time to come.

## Key results

- `turn_cases`: all that a turn can be
- `turn_spec`: what a turn does to the calls in progress
- `rests_settle`: a domain comes to rest
- `settle_spec`: what a domain that settles does to the calls in progress
- `steady`: a domain at rest comes to rest again when its lease ends
-/

namespace Federation.Domain

variable {η σ α : Type} {now : Nat}

/-- The number of the call that an order asks for. -/
def Order.id? : Order η σ α → Option Nat
  | .call id _ _ => some id
  | .reset => none

/-- Whether an order waits for a certain time only. -/
def Order.IsFinite : Order η σ α → Prop
  | .call _ _ work => ∀ h s, (work h s).2.2.pause.isSome = true
  | .reset => True

/-- The numbers of the calls in the queue. -/
def queued (d : Domain η σ α) : List Nat := d.queue.filterMap Order.id?

/-- The numbers of the calls in progress. -/
def ids (d : Domain η σ α) : List Nat := (d.lease.map Lease.id).toList ++ d.queued

/-- The calls of a domain are the one with the handle and those in the queue. -/
theorem ids_of_lease {d : Domain η σ α} {l : Lease η σ α} (h : d.lease = some l) :
    d.ids = l.id :: d.queued := by
  simp [ids, h]

/-- The calls of a domain that lends nothing are those in the queue. -/
theorem ids_of_no_lease {d : Domain η σ α} (h : d.lease = none) : d.ids = d.queued := by
  simp [ids, h]

/-- The calls have numbers of their own, none of them has ended, and each waits for a certain time
    only. -/
structure IsSound (d : Domain η σ α) : Prop where
  areOpen : AreOpen d.ids d.ended
  isFinite : ∀ o ∈ d.queue, o.IsFinite
  due : ∀ l, d.lease = some l → l.due.isSome = true

/-- How many turns are left at most. -/
def weight (d : Domain η σ α) : Nat := 2 * d.queue.length + if d.lease.isSome then 1 else 0

/-! ## The end of a lease -/

/-- The call that had the handle has ended. -/
structure Ends (now : Nat) (l : Lease η σ α) (d d' : Domain η σ α) : Prop where
  lease : d'.lease = none
  queue : d'.queue = d.queue
  ended : ∃ e : Ended α, e.id = l.id ∧ e.instant = now ∧ d'.ended = d.ended ++ [e]

/-- A call whose work is over ends. -/
theorem ends_finish (now : Nat) (l : Lease η σ α) (d : Domain η σ α) :
    Ends now l d (d.finish now l) := by
  unfold finish
  dsimp only
  split
  · exact ⟨rfl, rfl, ⟨l.id, now, _⟩, rfl, rfl, rfl⟩
  · exact ⟨rfl, rfl, ⟨l.id, now, _⟩, rfl, rfl, rfl⟩
  · exact ⟨rfl, rfl, ⟨l.id, now, _⟩, rfl, rfl, rfl⟩

/-- Withdrawing a lease tells nobody and leaves the queue as it is. -/
theorem withdraw_eq (l : Lease η σ α) (d : Domain η σ α) :
    (d.withdraw l).lease = none ∧ (d.withdraw l).queue = d.queue ∧
      (d.withdraw l).ended = d.ended := by
  unfold withdraw
  split <;> exact ⟨rfl, rfl, rfl⟩

/-- A call that runs out of time ends. -/
theorem ends_expire (now : Nat) (l : Lease η σ α) (d : Domain η σ α) :
    Ends now l d (d.expire now l) := by
  obtain ⟨hlease, hqueue, hended⟩ := withdraw_eq l d
  obtain ⟨ending, hending⟩ : ∃ ending,
      (d.expire now l).ended = (d.withdraw l).ended ++ [⟨l.id, now, ending⟩] := ⟨_, rfl⟩
  exact ⟨hlease, hqueue, ⟨l.id, now, ending⟩, rfl, rfl, hended ▸ hending⟩

/-! ## One turn -/

/-- What a turn does, seen from outside. -/
structure Turned (now : Nat) (d d' : Domain η σ α) : Prop where
  endsAt : EndsAt now d.ids d.ended d'.ids d'.ended
  isFinite : ∀ o ∈ d'.queue, o.IsFinite
  due : ∀ l, d'.lease = some l → l.due.isSome = true
  weight_lt : d'.weight < d.weight
  load_le : d'.load ≤ d.load

/-- A domain stays sound through a turn. -/
theorem Turned.isSound {d d' : Domain η σ α} (h : Turned now d d') (hd : d.IsSound) :
    d'.IsSound :=
  ⟨h.endsAt.areOpen hd.areOpen, h.isFinite, h.due⟩

/-- The end of a call is a turn that leaves less to do. -/
theorem Ends.turned {l : Lease η σ α} {d d' : Domain η σ α} (h : Ends now l d d')
    (hd : d.IsSound) (hl : d.lease = some l) (hweight : d'.weight < d.weight ∧ d'.load ≤ d.load) :
    Turned now d d' := by
  obtain ⟨e, hid, hnow, hended⟩ := h.ended
  have hqueued : d'.queued = d.queued := by rw [queued, queued, h.queue]
  -- The holder is the only call that ends; the queue is as it was.
  refine ⟨?endsAt, ?isFinite, ?due, hweight.1, hweight.2⟩
  case endsAt =>
    rw [ids_of_no_lease h.lease, ids_of_lease hl, hqueued, hended, ← hid]
    exact .one hnow d.ended d.queued
  case isFinite =>
    rw [h.queue]
    exact hd.isFinite
  case due =>
    intro l' hl'
    exact nomatch h.lease.symm.trans hl'

/-- Taking the handle leaves the lease, the queue and the ends as they are. -/
theorem take_eq (d : Domain η σ α) :
    d.take.1.lease = d.lease ∧ d.take.1.queue = d.queue ∧ d.take.1.ended = d.ended := by
  unfold take
  split
  · exact ⟨rfl, rfl, rfl⟩
  · dsimp only
    split <;> exact ⟨rfl, rfl, rfl⟩

/-- Lending the handle either begins a lease or, if no handle can be opened, ends the call. -/
theorem lend_cases (now id : Nat) (mode : Mode) (work : Work η σ α) {d : Domain η σ α}
    (hl : d.lease = none) :
    (d.lend now id mode work).queue = d.queue ∧
      ((∃ l h s, (d.lend now id mode work).lease = some l ∧ l.id = id ∧ l.mode = mode ∧
          l.due = (work h s).2.2.pause.map (now + ·) ∧
          (d.lend now id mode work).ended = d.ended) ∨
        ((d.lend now id mode work).lease = none ∧
          ∃ e : Ended α, e.id = id ∧ e.instant = now ∧
            (d.lend now id mode work).ended = d.ended ++ [e])) := by
  obtain ⟨hlease, hqueue, hended⟩ := take_eq d
  unfold lend
  split
  -- No handle could be opened, so the call ends with this error.
  · next d' f ht =>
    rw [ht] at hlease hqueue hended
    obtain ⟨ending, hending⟩ : ∃ ending,
        (d'.report now id (.returned (.error f))).ended = d'.ended ++ [⟨id, now, ending⟩] :=
      ⟨_, rfl⟩
    exact ⟨hqueue, .inr ⟨hlease.trans hl, ⟨id, now, ending⟩, rfl, rfl, hended ▸ hending⟩⟩
  · next d' h ht =>
    rw [ht] at hlease hqueue hended
    exact ⟨hqueue, .inl ⟨_, h, d'.shared, rfl, rfl, rfl, rfl, hended⟩⟩

/-- All that a turn can be: a lease ends, or the first order in the queue has its turn. -/
theorem turn_cases {d d' : Domain η σ α} (ht : d.turn now = some d') :
    (∃ l, d.lease = some l ∧ Ends now l d d') ∨
      (d.lease = none ∧
        ((∃ rest, d.queue = .reset :: rest ∧ d' = { d with slot := none, queue := rest }) ∨
          ∃ id mode work rest, d.queue = .call id mode work :: rest ∧
            d' = { d with queue := rest }.lend now id mode work)) := by
  unfold turn at ht
  split at ht
  -- The handle is lent: the wait is over, or the limit of the call, or nothing happens.
  · next l hl =>
    split at ht
    · obtain rfl := Option.some.inj ht
      exact .inl ⟨l, hl, ends_finish now l d⟩
    · split at ht
      · obtain rfl := Option.some.inj ht
        exact .inl ⟨l, hl, ends_expire now l d⟩
      · exact nomatch ht
  · next hl =>
    split at ht
    · exact nomatch ht
    · next rest hq => exact .inr ⟨hl, .inl ⟨rest, hq, (Option.some.inj ht).symm⟩⟩
    · next id mode work rest hq =>
      exact .inr ⟨hl, .inr ⟨id, mode, work, rest, hq, (Option.some.inj ht).symm⟩⟩

/-- Each turn leaves fewer turns to come, and no more orders to do. -/
theorem weight_turn {d d' : Domain η σ α} (ht : d.turn now = some d') :
    d'.weight < d.weight ∧ d'.load ≤ d.load := by
  rcases turn_cases ht with ⟨l, hl, hends⟩ | ⟨hl, ⟨rest, hq, rfl⟩ | ⟨id, mode, work, rest, hq, hd'⟩⟩
  · simp [weight, load, hends.lease, hends.queue, hl]
  · simp only [weight, load, hq, hl, List.length_cons]
    omega
  · obtain ⟨hqueue, -⟩ := lend_cases now id mode work (d := { d with queue := rest }) hl
    rw [← hd'] at hqueue
    simp only [weight, load, hq, hl, hqueue, List.length_cons]
    -- At most one order is out of the queue.
    cases d'.lease <;> simp
    omega

/-- A domain that settles comes to rest, whatever its calls do. -/
theorem rests_settle (now : Nat) (d : Domain η σ α) : (d.settle now).turn now = none := by
  -- Each turn lowers the weight, so there are no more turns than the fuel allows.
  refine (Timed.exhaust_spec weight (k := d) (P := fun _ => True)
    (fun _ _ _ ht => ⟨trivial, (weight_turn ht).1⟩) _ trivial ?_).2
  unfold weight
  split <;> omega

/-- A domain that nobody uses and that is to be reset has no handle any more. -/
private theorem turned_reset {d d' : Domain η σ α} {rest : List (Order η σ α)} (hd : d.IsSound)
    (hl : d.lease = none) (hq : d.queue = .reset :: rest)
    (hd' : d' = { d with slot := none, queue := rest })
    (hweight : d'.weight < d.weight ∧ d'.load ≤ d.load) : Turned now d d' := by
  subst hd'
  have hqueued : d.queued = rest.filterMap Order.id? := by
    rw [queued, hq, List.filterMap_cons_none rfl]
  -- A reset ends no call and leaves the others in line.
  refine ⟨?endsAt, ?isFinite, ?due, hweight.1, hweight.2⟩
  case endsAt =>
    rw [ids_of_no_lease hl, ids_of_no_lease (d := { d with slot := none, queue := rest }) hl,
      hqueued]
    exact .refl now _ _
  case isFinite => exact fun o ho => hd.isFinite o (hq ▸ List.mem_cons_of_mem _ ho)
  case due =>
    intro l hl'
    exact nomatch hl.symm.trans hl'

/-- The first call in the queue has the handle, or ends because there is none. -/
private theorem turned_lend {d d' : Domain η σ α} {id : Nat} {mode : Mode} {work : Work η σ α}
    {rest : List (Order η σ α)} (hd : d.IsSound) (hl : d.lease = none)
    (hq : d.queue = .call id mode work :: rest)
    (hd' : d' = { d with queue := rest }.lend now id mode work)
    (hweight : d'.weight < d.weight ∧ d'.load ≤ d.load) : Turned now d d' := by
  have hqueued : d.queued = id :: rest.filterMap Order.id? := by
    rw [queued, hq, List.filterMap_cons_some (f := Order.id?) (b := id) rfl]
  have hfinite : (Order.call id mode work).IsFinite := hd.isFinite _ (hq ▸ List.mem_cons_self)
  obtain ⟨hqueue, hcases⟩ := lend_cases now id mode work (d := { d with queue := rest }) hl
  rw [← hd'] at hqueue hcases
  have hfinite' : ∀ o ∈ d'.queue, o.IsFinite := by
    intro o ho
    rw [hqueue] at ho
    exact hd.isFinite o (hq ▸ List.mem_cons_of_mem _ ho)
  have hqueued' : d'.queued = rest.filterMap Order.id? := by rw [queued, hqueue]
  rcases hcases with ⟨l, h, s, hlease, hid, -, hdue, hended⟩ | ⟨hlease, e, hid, hnow, hended⟩
  · -- The call leaves the queue with the handle.
    refine ⟨?_, hfinite', fun l' hl' => ?_, hweight.1, hweight.2⟩
    · rw [ids_of_no_lease hl, ids_of_lease hlease, hid, hqueued, hqueued', hended]
      exact .refl now _ _
    · rw [hlease, Option.some.injEq] at hl'
      rw [← hl', hdue, Option.isSome_map]
      exact hfinite h s
  · -- The call leaves the queue because it has ended.
    refine ⟨?_, hfinite', fun l' hl' => ?_, hweight.1, hweight.2⟩
    · rw [ids_of_no_lease hl, ids_of_no_lease hlease, hqueued, hqueued', hended, ← hid]
      exact .one hnow d.ended _
    · exact nomatch hlease.symm.trans hl'

/-- A turn ends the call that has the handle, or takes an order out of the queue. -/
theorem turn_spec {d d' : Domain η σ α} (hd : d.IsSound) (ht : d.turn now = some d') :
    Turned now d d' := by
  have hweight := weight_turn ht
  rcases turn_cases ht with ⟨l, hl, hends⟩ | ⟨hl, ⟨rest, hq, hd'⟩ | ⟨id, mode, work, rest, hq, hd'⟩⟩
  · exact hends.turned hd hl hweight
  · exact turned_reset hd hl hq hd' hweight
  · exact turned_lend hd hl hq hd' hweight

/-! ## The domain as a host -/

/-- The ends that a host tells are those of its domain. -/
theorem ended?_eq (d : Domain η σ α) (i : Nat) :
    Host.ended? d i = Federation.ended? d.ended i := rfl

/-- A domain that settles comes to rest. -/
theorem settle_spec {d : Domain η σ α} (hd : d.IsSound) (now : Nat) :
    (EndsAt now d.ids d.ended (d.settle now).ids (d.settle now).ended ∧ (d.settle now).IsSound ∧
        (d.settle now).load ≤ d.load) ∧
      (d.settle now).turn now = none := by
  refine ⟨?_, rests_settle now d⟩
  refine Timed.exhaust_induction (P := fun d' : Domain η σ α =>
    EndsAt now d.ids d.ended d'.ids d'.ended ∧ d'.IsSound ∧ d'.load ≤ d.load) ?_ _
    ⟨.refl now _ _, hd, Nat.le_refl _⟩
  rintro d₁ d₂ ⟨hends, hsound, hload⟩ ht
  have hturn := turn_spec hsound ht
  exact ⟨hends.trans hturn.endsAt, hturn.isSound hsound, Nat.le_trans hturn.load_le hload⟩

/-- What ripening does is one turn, if the handle is lent. -/
theorem ripen_spec {d : Domain η σ α} (hd : d.IsSound) (now : Nat) :
    EndsAt now d.ids d.ended (d.ripen now).ids (d.ripen now).ended ∧ (d.ripen now).IsSound ∧
      (d.ripen now).load ≤ d.load := by
  unfold ripen
  split
  · cases ht : d.turn now with
    | none => exact ⟨.refl now _ _, hd, Nat.le_refl _⟩
    | some d' =>
      have hturn := turn_spec hd ht
      exact ⟨hturn.endsAt, hturn.isSound hd, hturn.load_le⟩
  · exact ⟨.refl now _ _, hd, Nat.le_refl _⟩

/-- A call whose lease is over has ended when the domain has ripened. -/
theorem not_mem_ids_ripen {d : Domain η σ α} {i t : Nat} (hd : d.IsSound)
    (hdue : Host.due? d i = some t) (ht : t ≤ now) : i ∉ (d.ripen now).ids := by
  obtain ⟨l, hl, hend⟩ := Option.bind_eq_some_iff.mp hdue
  obtain ⟨hl, hid⟩ := Option.filter_eq_some_iff.mp hl
  have hid : l.id = i := of_decide_eq_true hid
  have hnodup : (l.id :: d.queued).Nodup := ids_of_lease hl ▸ hd.areOpen.1
  -- Whether the work is over or its time is up, it is this call that ends.
  have key : ∃ d', d.turn now = some d' ∧ Ends now l d d' := by
    unfold turn
    rw [hl]
    dsimp only
    by_cases hdone : Timed.isDue l.due now = true
    · exact ⟨_, if_pos hdone, ends_finish now l d⟩
    · rw [if_neg hdone]
      refine ⟨_, if_pos ?_, ends_expire now l d⟩
      rw [Timed.isDue_iff] at hdone ⊢
      rcases Timed.earlier_eq_some hend with h | h
      · exact absurd ⟨t, h, ht⟩ hdone
      · exact ⟨t, h, ht⟩
  obtain ⟨d', hturn, hends⟩ := key
  have hripen : d.ripen now = d' := by simp [ripen, hl, hturn]
  rw [hripen, ids_of_no_lease hends.lease, queued, hends.queue, ← hid]
  exact (List.nodup_cons.mp hnodup).1

/-- A call whose lease is not over has not ended when the domain has ripened. -/
theorem mem_ids_ripen {d : Domain η σ α} {i : Nat} (hi : i ∈ d.ids)
    (hdue : ∀ t, Host.due? d i = some t → now < t) : i ∈ (d.ripen now).ids := by
  unfold ripen
  split
  · next hlease =>
    obtain ⟨l, hl⟩ := Option.isSome_iff_exists.mp hlease
    -- If the lease is over, it is not the lease of this call.
    have ends : ∀ {d' : Domain η σ α}, Ends now l d d' → (∃ t, l.end? = some t ∧ t ≤ now) →
        i ∈ d'.ids := by
      rintro d' hends ⟨t, ht, hle⟩
      rw [ids_of_lease hl, List.mem_cons] at hi
      rw [ids_of_no_lease hends.lease, queued, hends.queue]
      refine hi.resolve_left fun hid => ?_
      have hdue' : Host.due? d i = some t := by
        show (d.lease.filter fun l => l.id = i).bind Lease.end? = some t
        rw [hl, Option.filter_some, if_pos (decide_eq_true hid.symm)]
        exact ht
      exact absurd (hdue t hdue') (Nat.not_lt_of_le hle)
    -- Both instants at which a lease may end are no earlier than its end.
    have early : ∀ {due : Option Nat}, Timed.isDue due now = true → l.due = due ∨ l.limit = due →
        ∃ t, l.end? = some t ∧ t ≤ now := by
      intro due hisDue heq
      obtain ⟨t, rfl, hle⟩ := Timed.isDue_iff.mp hisDue
      obtain ⟨u, hu, hut⟩ := Timed.earlier_le heq
      exact ⟨u, hu, Nat.le_trans hut hle⟩
    unfold turn
    rw [hl]
    dsimp only
    split
    · next hisDue => exact ends (ends_finish now l d) (early hisDue (.inl rfl))
    · split
      · next hisDue => exact ends (ends_expire now l d) (early hisDue (.inr rfl))
      · exact hi
  · exact hi

/-- A call that comes in is queued last. -/
theorem queued_submit (id : Nat) (mode : Mode) (work : Work η σ α) (d : Domain η σ α) :
    (d.submit (.call id mode work)).queued = d.queued ++ [id] := by
  simp [queued, submit, Order.id?]

/-- A call that comes in is the last of the calls. -/
theorem ids_submit (id : Nat) (mode : Mode) (work : Work η σ α) (d : Domain η σ α) :
    (d.submit (.call id mode work)).ids = d.ids ++ [id] := by
  rw [ids, queued_submit, ← List.append_assoc]
  rfl

/-- A domain stays sound when a new call comes in whose work comes to an end. -/
theorem IsSound.submit {d : Domain η σ α} {id : Nat} {mode : Mode} {work : Work η σ α}
    (h : d.IsSound) (hfinite : ∀ h s, (work h s).2.2.pause.isSome = true) (hnew : id ∉ d.ids)
    (hended : Federation.ended? d.ended id = none) :
    (d.submit (.call id mode work)).IsSound := by
  refine ⟨?_, fun o ho => ?_, h.due⟩
  · rw [ids_submit]
    exact h.areOpen.concat hnew hended
  · -- The new order is as finite as its work.
    rcases List.mem_append.mp ho with ho | ho
    · exact h.isFinite o ho
    · rw [List.mem_singleton] at ho
      subst ho
      exact hfinite

/-- Giving up a call takes the handle from it, or is no matter of the handle. -/
theorem abort_eq (id : Nat) (d : Domain η σ α) :
    (∃ l, d.lease = some l ∧ l.id = id ∧ d.abort id = d.withdraw l) ∨
      ((d.lease.filter fun l => l.id = id) = none ∧
        d.abort id = { d with queue := d.queue.filter fun o => !o.isCall id }) := by
  unfold Domain.abort
  split
  · next l hl =>
    split
    · next hid => exact .inl ⟨l, hl, hid, rfl⟩
    · next hid => exact .inr ⟨by simp [hl, hid], rfl⟩
  · next hl => exact .inr ⟨by simp [hl], rfl⟩

/-- Giving up a call either takes the handle from it or takes it out of the queue. -/
theorem abort_cases (id : Nat) (d : Domain η σ α) :
    (d.abort id).ended = d.ended ∧
      ((∃ l, d.lease = some l ∧ l.id = id ∧ (d.abort id).lease = none ∧
          (d.abort id).queue = d.queue) ∨
        ((∀ l, d.lease = some l → l.id ≠ id) ∧ (d.abort id).lease = d.lease ∧
          (d.abort id).queue = d.queue.filter fun o => !o.isCall id)) := by
  unfold abort
  split
  -- Only the holder has a handle to take away; anybody else may be in the queue.
  · next l hl =>
    split
    · next hid =>
      obtain ⟨hlease, hqueue, hended⟩ := withdraw_eq l d
      exact ⟨hended, .inl ⟨l, hl, hid, hlease, hqueue⟩⟩
    · next hid =>
      refine ⟨rfl, .inr ⟨fun l' hl' => ?_, rfl, rfl⟩⟩
      rw [hl, Option.some.injEq] at hl'
      exact hl' ▸ hid
  · next hl => exact ⟨rfl, .inr ⟨fun l' hl' => (nomatch hl.symm.trans hl'), rfl, rfl⟩⟩

/-- The calls that are left in a queue when one of them is given up. -/
theorem mem_filter_queue {os : List (Order η σ α)} {id x : Nat} :
    x ∈ (os.filter fun o => !o.isCall id).filterMap Order.id? ↔
      x ∈ os.filterMap Order.id? ∧ x ≠ id := by
  simp only [List.mem_filterMap, List.mem_filter]
  constructor
  -- Only a call has an id, so the case of a reset does not arise.
  · rintro ⟨o, ⟨ho, hid⟩, hx⟩
    refine ⟨⟨o, ho, hx⟩, ?_⟩
    rintro rfl
    cases o with
    | call i mode work =>
      obtain rfl := Option.some.inj hx
      simp [Order.isCall] at hid
    | reset => exact nomatch hx
  · rintro ⟨⟨o, ho, hx⟩, hne⟩
    refine ⟨o, ⟨ho, ?_⟩, hx⟩
    cases o with
    | call i mode work =>
      obtain rfl := Option.some.inj hx
      simp [Order.isCall, hne]
    | reset => rfl

/-- The calls left when one is given up are the others. -/
theorem mem_ids_abort {d : Domain η σ α} (h : d.IsSound) {id x : Nat} :
    x ∈ (d.abort id).ids ↔ x ∈ d.ids ∧ x ≠ id := by
  obtain ⟨-, ⟨l, hl, rfl, hlease, hqueue⟩ | ⟨hne, hlease, hqueue⟩⟩ := abort_cases id d
  · -- The call had the handle, so it is not in the queue.
    have hnodup : (l.id :: d.queued).Nodup := ids_of_lease hl ▸ h.areOpen.1
    rw [ids_of_no_lease hlease, ids_of_lease hl, queued, hqueue, List.mem_cons]
    constructor
    · intro hx
      exact ⟨.inr hx, fun hxl => (List.nodup_cons.mp hnodup).1 (hxl ▸ hx)⟩
    · rintro ⟨hx | hx, hxl⟩
      · exact absurd hx hxl
      · exact hx
  -- The call did not have the handle, so only the queue is searched for it.
  · cases hl : d.lease with
    | none =>
      rw [ids_of_no_lease (hlease.trans hl), ids_of_no_lease hl, queued, hqueue, mem_filter_queue]
      rfl
    | some l =>
      rw [ids_of_lease (hlease.trans hl), ids_of_lease hl, queued, hqueue, List.mem_cons,
        mem_filter_queue, List.mem_cons]
      have hlid := hne l hl
      constructor
      · rintro (rfl | ⟨hx, hxid⟩)
        · exact ⟨.inl rfl, hlid⟩
        · exact ⟨.inr hx, hxid⟩
      · rintro ⟨rfl | hx, hxid⟩
        · exact .inl rfl
        · exact .inr ⟨hx, hxid⟩

/-- The calls left when one is given up are different from each other. -/
theorem nodup_ids_abort {d : Domain η σ α} (h : d.IsSound) (id : Nat) : (d.abort id).ids.Nodup := by
  obtain ⟨-, ⟨l, hl, -, hlease, hqueue⟩ | ⟨-, hlease, hqueue⟩⟩ := abort_cases id d
  · have hnodup : (l.id :: d.queued).Nodup := ids_of_lease hl ▸ h.areOpen.1
    rw [ids_of_no_lease hlease, queued, hqueue]
    exact (List.nodup_cons.mp hnodup).2
  · refine h.areOpen.1.sublist ?_
    rw [ids, ids, hlease, queued, hqueue]
    exact (List.filter_sublist.filterMap _).append_left _

/-- A domain stays sound when a call is given up. -/
theorem IsSound.abort {d : Domain η σ α} (h : d.IsSound) (id : Nat) : (d.abort id).IsSound := by
  obtain ⟨hended, hcases⟩ := abort_cases id d
  refine ⟨⟨nodup_ids_abort h id, ?_⟩, ?_, ?_⟩
  · intro x hx
    rw [hended]
    exact h.areOpen.2 x ((mem_ids_abort h).mp hx).1
  · intro o ho
    -- The queue has lost at most the call that was given up.
    rcases hcases with ⟨-, -, -, -, hqueue⟩ | ⟨-, -, hqueue⟩
    · exact h.isFinite o (hqueue ▸ ho)
    · rw [hqueue] at ho
      exact h.isFinite o (List.mem_filter.mp ho).1
  · intro l hl
    rcases hcases with ⟨-, -, -, hlease, -⟩ | ⟨-, hlease, -⟩
    · exact nomatch hlease.symm.trans hl
    · exact h.due l (hlease ▸ hl)

/-- When one call is given up, the others are due as before. -/
theorem due?_abort (d : Domain η σ α) {id x : Nat} (hx : x ≠ id) :
    Host.due? (d.abort id) x = Host.due? d x := by
  show ((d.abort id).lease.filter fun l => l.id = x).bind Lease.end? =
    (d.lease.filter fun l => l.id = x).bind Lease.end?
  obtain ⟨-, ⟨l, hl, rfl, hlease, -⟩ | ⟨-, hlease, -⟩⟩ := abort_cases id d
  · rw [hl, hlease, Option.filter_some, if_neg (by simpa using Ne.symm hx)]
    rfl
  · rw [hlease]

/-- Giving up a call leaves no more to do than before. -/
theorem load_abort (id : Nat) (d : Domain η σ α) : (d.abort id).load ≤ d.load := by
  obtain ⟨-, ⟨l, hl, -, hlease, hqueue⟩ | ⟨-, hlease, hqueue⟩⟩ := abort_cases id d
  · simp [load, hl, hlease, hqueue]
  · have hlength := List.length_filter_le (fun o => !Order.isCall id o) d.queue
    simp only [load, hlease, hqueue]
    omega

/-- The lease of a domain at rest is over in time to come. -/
theorem lt_of_rests {d : Domain η σ α} {l : Lease η σ α} {t : Nat} (hrests : d.turn now = none)
    (hl : d.lease = some l) (ht : l.end? = some t) : now < t := by
  rcases (turn_eq_none_iff now d).mp hrests with ⟨hnone, -⟩ | ⟨l', hl', hdue, hlimit⟩
  · exact nomatch hl.symm.trans hnone
  · obtain rfl := Option.some.inj (hl.symm.trans hl')
    refine Nat.lt_of_not_le fun hle => ?_
    rcases Timed.earlier_eq_some ht with h | h
    · exact absurd (Timed.isDue_iff.mpr ⟨t, h, hle⟩) (by rw [hdue]; exact Bool.false_ne_true)
    · exact absurd (Timed.isDue_iff.mpr ⟨t, h, hle⟩) (by rw [hlimit]; exact Bool.false_ne_true)

/-- A domain at rest has nothing to do before its lease ends. -/
theorem turn_eq_none_of_lt {d : Domain η σ α} {t : Nat} (hrests : d.turn now = none)
    (hnext : ∀ u, d.next? = some u → t < u) : d.turn t = none := by
  rcases (turn_eq_none_iff now d).mp hrests with hidle | ⟨l, hl, -⟩
  · exact (turn_eq_none_iff t d).mpr (.inl hidle)
  -- Neither the end of the work nor the limit is reached before what comes next.
  · have hdue : ∀ {due : Option Nat}, l.due = due ∨ l.limit = due → Timed.isDue due t = false := by
      intro due hor
      refine Bool.eq_false_iff.mpr fun hisDue => ?_
      obtain ⟨u, rfl, hle⟩ := Timed.isDue_iff.mp hisDue
      obtain ⟨v, hv, hvu⟩ := Timed.earlier_le hor
      have hend : d.next? = some v := by
        rw [next?, hl]
        exact hv
      exact absurd (hnext v hend) (by omega)
    exact (turn_eq_none_iff t d).mpr (.inr ⟨l, hl, hdue (.inl rfl), hdue (.inr rfl)⟩)

/-- A lease ends when it is over. -/
theorem exists_turn_of_end {d : Domain η σ α} {l : Lease η σ α} {t : Nat} (hl : d.lease = some l)
    (hend : l.end? = some t) : ∃ d', d.turn t = some d' ∧ d'.load < d.load := by
  cases ht : d.turn t with
  | none =>
    -- If there were no turn, the lease would last beyond its own end.
    rcases (turn_eq_none_iff t d).mp ht with ⟨hnone, -⟩ | ⟨l', hl', hdue, hlimit⟩
    · exact nomatch hl.symm.trans hnone
    · obtain rfl := Option.some.inj (hl.symm.trans hl')
      have hisDue : ∀ {due : Option Nat}, due = some t → Timed.isDue due t = true := fun h =>
        Timed.isDue_iff.mpr ⟨t, h, Nat.le_refl t⟩
      rcases Timed.earlier_eq_some hend with h | h
      · exact nomatch hdue.symm.trans (hisDue h)
      · exact nomatch hlimit.symm.trans (hisDue h)
  | some d' =>
    refine ⟨d', rfl, ?_⟩
    rcases turn_cases ht with ⟨l', -, hends⟩ | ⟨hnone, -⟩
    · simp [load, hends.lease, hends.queue, hl]
    · exact nomatch hl.symm.trans hnone

/-- A domain at rest comes to rest again when its lease ends, and then there is less to do. -/
theorem steady : Timed.Steady fun now (d : Domain η σ α) => d.turn now = none where
  next := by
    intro now t d hrests hnext
    obtain ⟨l, hl, hend⟩ := Option.bind_eq_some_iff.mp hnext
    obtain ⟨d', ht, hless⟩ := exists_turn_of_end hl hend
    refine ⟨lt_of_rests hrests hl hend, rests_settle t d, Nat.lt_of_le_of_lt ?_ hless⟩
    -- The first turn ends the lease, and whatever follows it only makes the load smaller.
    have hsettle : d.settle t = Timed.exhaust (turn t) (2 * d.queue.length) d' := by
      simp only [settle, Timed.exhaust, ht]
    show (d.settle t).load ≤ d'.load
    rw [hsettle]
    refine Timed.exhaust_induction (P := fun k : Domain η σ α => k.load ≤ d'.load) ?_ _ (Nat.le_refl _)
    intro d₁ d₂ hle ht'
    exact Nat.le_trans (weight_turn ht').2 hle

/-- A domain at rest lends its handle for some time to come, if a call is in progress. -/
theorem next?_of_rests {d : Domain η σ α} {i : Nat} (h : d.IsSound) (hrests : d.turn now = none)
    (hi : i ∈ d.ids) : ∃ t, d.next? = some t ∧ now < t := by
  -- A domain at rest that lends nothing has an empty queue, so nothing would be in progress.
  cases hl : d.lease with
  | none =>
    rcases (turn_eq_none_iff now d).mp hrests with ⟨-, hq⟩ | ⟨l, hl', -⟩
    · rw [ids_of_no_lease hl, queued, hq] at hi
      exact absurd hi List.not_mem_nil
    · exact nomatch hl.symm.trans hl'
  | some l =>
    obtain ⟨t, ht⟩ := Option.isSome_iff_exists.mp (h.due l hl)
    obtain ⟨u, hu, -⟩ := Timed.earlier_le (b := l.limit) (.inl ht)
    refine ⟨u, ?_, lt_of_rests hrests hl hu⟩
    rw [next?, hl]
    exact hu

instance : LawfulHost (Domain η σ α) where
  IsFinite request := ∀ h s, (request.2 h s).2.2.pause.isSome = true
  IsSound := IsSound
  Live d i := i ∈ d.ids
  Rests now d := d.turn now = none
  ended?_of_live h hi := h.areOpen.2 _ hi
  submit h hfinite hnew hended := by
    refine ⟨h.submit hfinite hnew hended, fun x => ?_, fun _ => rfl⟩
    show x ∈ (Domain.submit _ _).ids ↔ _
    rw [ids_submit, List.mem_append, List.mem_singleton]
  abort {d} i h := by
    refine ⟨h.abort i, fun _ => mem_ids_abort h, fun x => ?_, fun _ hx => due?_abort d hx,
      load_abort i d⟩
    exact congrArg (Federation.ended? · x) (abort_cases i d).1
  ripen now h := by
    obtain ⟨hends, hsound, hload⟩ := ripen_spec h now
    exact ⟨hsound, hends.runs Domain.ended ended?_eq h.areOpen hload,
      fun _ _ hdue ht => not_mem_ids_ripen h hdue ht⟩
  ripen_live _ hlive hdue := mem_ids_ripen hlive hdue
  settle now h := by
    obtain ⟨⟨hends, hsound, hload⟩, hrests⟩ := settle_spec h now
    exact ⟨hsound, hends.runs Domain.ended ended?_eq h.areOpen hload, hrests⟩
  next {d t} _ ht := by
    obtain ⟨l, hl, hend⟩ := Option.bind_eq_some_iff.mp ht
    refine ⟨l.id, ?_, ?_⟩
    · rw [ids_of_lease hl]
      exact List.mem_cons_self
    · show (d.lease.filter fun l' => l'.id = l.id).bind Lease.end? = some t
      rw [hl, Option.filter_some, if_pos (decide_eq_true rfl)]
      exact hend
  ahead h hrests hdue := by
    obtain ⟨l, hl, hend⟩ := Option.bind_eq_some_iff.mp hdue
    obtain ⟨hl, -⟩ := Option.filter_eq_some_iff.mp hl
    exact lt_of_rests hrests hl hend
  rests h hrests hi := next?_of_rests h hrests hi

end Federation.Domain
