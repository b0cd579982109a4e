import Federation.Domain.Basic
import Federation.Proofs.Call.Alike

/-!
# Domains whose calls go alike

The handle goes from call to call by the clock and by the order of the queue.  So two domains whose
calls go alike lend it at the same instants to the same calls.

## Key results

- `Alike`: domains that differ only in their surroundings, and in what calls do to them
- `Alike.turn`: they have their turns alike
- `mirrors`: and so they do alike whatever they do
-/

namespace Federation.Domain

variable {η σ α : Type} {R : σ → σ → Prop}

/-- The handle is in the hands of calls that go on alike. -/
inductive Lease.Alike (R : σ → σ → Prop) (l : Lease η σ α) : Lease η σ α → Prop
  | intro {w : Visit η σ α} (visit : Visit.Alike R l.visit w) : Alike R l { l with visit := w }

/-- Two orders are to be done alike. -/
inductive Order.Alike (R : σ → σ → Prop) : Order η σ α → Order η σ α → Prop
  | call (id : Nat) (mode : Mode) {v w : Work η σ α} (h : Work.Alike R v w) :
      Alike R (.call id mode v) (.call id mode w)
  | reset : Alike R .reset .reset

/-- Two domains differ only in their surroundings, and in what calls do to them. -/
structure Alike (R : σ → σ → Prop) (d e : Domain η σ α) : Prop where
  rest : e = { d with shared := e.shared, lease := e.lease, queue := e.queue }
  shared : R d.shared e.shared
  lease : Option.Rel (Lease.Alike R) d.lease e.lease
  queue : List.Forall₂ (Order.Alike R) d.queue e.queue

variable {d e : Domain η σ α} {l m : Lease η σ α}

/-- Leases that are alike belong to one call and end at the same time. -/
theorem Lease.Alike.same (h : Lease.Alike R l m) :
    m.id = l.id ∧ m.due = l.due ∧ m.limit = l.limit := by
  obtain ⟨-⟩ := h
  exact ⟨rfl, rfl, rfl⟩

/-- Domains that are alike differ in their surroundings, their lease and their queue only. -/
theorem Alike.exists_eq (h : Alike R d e) :
    ∃ s x q, e = { d with shared := s, lease := x, queue := q } ∧ R d.shared s ∧
      Option.Rel (Lease.Alike R) d.lease x ∧ List.Forall₂ (Order.Alike R) d.queue q :=
  ⟨e.shared, e.lease, e.queue, h.rest, h.shared, h.lease, h.queue⟩

/-- Orders that go alike wait in queues that are alike. -/
theorem Alike.submit (h : Alike R d e) {o o' : Order η σ α} (ho : Order.Alike R o o') :
    Alike R (d.submit o) (e.submit o') := by
  obtain ⟨s, x, q, rfl, hshared, hlease, hqueue⟩ := h.exists_eq
  exact ⟨rfl, hshared, hlease, List.rel_append hqueue (.cons ho .nil)⟩

/-- Domains that are alike take a handle out, or fail to, in the same way. -/
theorem Alike.take (h : Alike R d e) : Alike R d.take.1 e.take.1 ∧ e.take.2 = d.take.2 := by
  obtain ⟨s, x, q, rfl, hshared, hlease, hqueue⟩ := h.exists_eq
  unfold Domain.take
  dsimp only
  cases d.slot with
  | some handle => exact ⟨⟨rfl, hshared, hlease, hqueue⟩, rfl⟩
  | none => cases d.factory (d.attempts + 1) <;> exact ⟨⟨rfl, hshared, hlease, hqueue⟩, rfl⟩

/-- The handle is lent to calls that go alike. -/
theorem Alike.lend (h : Alike R d e) (now id : Nat) (mode : Mode) {v w : Work η σ α}
    (hw : Work.Alike R v w) : Alike R (d.lend now id mode v) (e.lend now id mode w) := by
  obtain ⟨htake, hhandle⟩ := h.take
  unfold Domain.lend
  generalize d.take = x, e.take = y at htake hhandle
  obtain ⟨d, r⟩ := x
  obtain ⟨e, r'⟩ := y
  obtain rfl : r' = r := hhandle
  obtain ⟨s, x, q, rfl, hshared, hlease, hqueue⟩ := htake.exists_eq
  -- Only the surroundings and the visit depend on the work, and of the visit the pause does not.
  cases r' with
  | error f => exact ⟨rfl, hshared, hlease, hqueue⟩
  | ok handle =>
    obtain ⟨hhandle, hshared, hvisit⟩ := hw handle hshared
    dsimp only
    rw [hhandle, hvisit.pause]
    exact ⟨rfl, hshared, .some (.intro hvisit), hqueue⟩

/-- Calls that have gone alike end alike. -/
theorem Alike.finish (h : Alike R d e) (now : Nat) (hl : Lease.Alike R l m) :
    Alike R (d.finish now l) (e.finish now m) := by
  obtain ⟨s, x, q, rfl, hshared, -, hqueue⟩ := h.exists_eq
  obtain ⟨hvisit⟩ := hl
  obtain ⟨hhandle, hshared, hending⟩ := hvisit.finish l.handle hshared
  unfold Domain.finish
  dsimp only
  rw [hhandle, hending]
  cases (l.visit.finish l.handle d.shared).2.2 with
  | returned r => exact ⟨rfl, hshared, .none, hqueue⟩
  | crashed => cases l.mode <;> exact ⟨rfl, hshared, .none, hqueue⟩

/-- A lease is withdrawn alike. -/
theorem Alike.withdraw (h : Alike R d e) (hl : Lease.Alike R l m) :
    Alike R (d.withdraw l) (e.withdraw m) := by
  obtain ⟨s, x, q, rfl, hshared, -, hqueue⟩ := h.exists_eq
  obtain ⟨hvisit⟩ := hl
  unfold Domain.withdraw
  dsimp only
  cases l.mode with
  | blocking => exact ⟨rfl, hshared, .none, hqueue⟩
  | perform | async => exact ⟨rfl, hvisit.leave hshared, .none, hqueue⟩

/-- A lease runs out alike. -/
theorem Alike.expire (h : Alike R d e) (now : Nat) (hl : Lease.Alike R l m) :
    Alike R (d.expire now l) (e.expire now m) := by
  have hwithdraw := h.withdraw hl
  have hsame : e.name = d.name ∧ e.callDeadline = d.callDeadline ∧ e.stats = d.stats := by
    obtain ⟨s, x, q, rfl, -⟩ := h.exists_eq
    exact ⟨rfl, rfl, rfl⟩
  unfold Domain.expire
  dsimp only
  rw [hsame.1, hsame.2.1, hsame.2.2, hl.same.1]
  generalize d.withdraw l = d', e.withdraw m = e' at hwithdraw
  obtain ⟨s, x, q, rfl, hshared, hlease, hqueue⟩ := hwithdraw.exists_eq
  exact ⟨rfl, hshared, hlease, hqueue⟩

/-- Domains that are alike have their turns alike. -/
theorem Alike.turn (h : Alike R d e) (now : Nat) :
    Option.Rel (Alike R) (d.turn now) (e.turn now) := by
  have hlease := h.lease
  have hqueue := h.queue
  unfold Domain.turn
  generalize d.lease = x, e.lease = y at hlease ⊢
  cases hlease with
  | @some l m hl =>
    dsimp only
    rw [hl.same.2.1, hl.same.2.2]
    split
    · exact .some (h.finish now hl)
    · split
      · exact .some (h.expire now hl)
      · exact .none
  | none =>
    -- Nobody has the handle, so it is the turn of the first order in each queue.
    generalize d.queue = ds, e.queue = es at hqueue ⊢
    cases hqueue with
    | nil => exact .none
    | @cons o o' ds es ho hrest =>
      have hnext (slot : Option η) : Alike R { d with slot := slot, lease := none, queue := ds }
          { e with slot := slot, lease := none, queue := es } := by
        obtain ⟨s, x, q, rfl, hshared, -⟩ := h.exists_eq
        exact ⟨rfl, hshared, .none, hrest⟩
      cases ho with
      | reset => exact .some (hnext none)
      | call id mode hw =>
        have hslot : e.slot = d.slot := by
          obtain ⟨s, x, q, rfl, -⟩ := h.exists_eq
          rfl
        rw [hslot]
        exact .some ((hnext d.slot).lend now id mode hw)

/-- Domains that are alike lend at the same time. -/
theorem Alike.isSome_lease (h : Alike R d e) : e.lease.isSome = d.lease.isSome := by
  have hlease := h.lease
  generalize d.lease = x, e.lease = y at hlease ⊢
  cases hlease <;> rfl

/-- A call is given up alike. -/
theorem Alike.abort (h : Alike R d e) (id : Nat) : Alike R (d.abort id) (e.abort id) := by
  have hfilter : Alike R { d with queue := d.queue.filter fun o => !o.isCall id }
      { e with queue := e.queue.filter fun o => !o.isCall id } := by
    obtain ⟨s, x, q, rfl, hshared, hlease, hqueue⟩ := h.exists_eq
    refine ⟨rfl, hshared, hlease, List.rel_filter (fun o o' ho => ?_) hqueue⟩
    cases ho <;> exact Iff.rfl
  -- The call has the handle or waits for it, and which of the two is the same in both domains.
  have hlease := h.lease
  unfold Domain.abort
  generalize d.lease = x, e.lease = y at hlease hfilter ⊢
  cases hlease with
  | none => exact hfilter
  | @some l m hl =>
    dsimp only
    rw [hl.same.1]
    split
    · exact h.withdraw hl
    · exact hfilter

/-- Domains whose calls go alike do alike. -/
theorem mirrors (R : σ → σ → Prop) :
    Host.Mirrors (κ := Domain η σ α) (fun q r => r.1 = q.1 ∧ Work.Alike R q.2 r.2) (Alike R) where
  -- A domain takes as many turns as it has orders, and queues that are alike have the same length.
  settle now k l h := by
    show Alike R (Domain.settle now k) (Domain.settle now l)
    unfold Domain.settle
    rw [← h.queue.length_eq]
    exact Timed.rel_exhaust (fun h => h.turn now) _ h
  next? {k l} h := by
    have hlease := h.lease
    show l.lease.bind Lease.end? = k.lease.bind Lease.end?
    generalize k.lease = x, l.lease = y at hlease ⊢
    cases hlease with
    | none => rfl
    | some hl =>
      obtain ⟨-⟩ := hl
      rfl
  load {k l} h := by
    show Domain.load l = Domain.load k
    unfold Domain.load
    rw [← h.queue.length_eq, h.isSome_lease]
  submit id q r k l hq h := by
    show Alike R (k.submit (.call id q.1 q.2)) (l.submit (.call id r.1 r.2))
    rw [hq.1]
    exact h.submit (.call id q.1 hq.2)
  ripen now k l h := by
    show Alike R (Domain.ripen now k) (Domain.ripen now l)
    unfold Domain.ripen
    rw [h.isSome_lease]
    have hturn := h.turn now
    generalize k.turn now = k', l.turn now = l' at hturn ⊢
    split
    · cases hturn with
      | none => exact h
      | some h' => exact h'
    · exact h
  due? {k l} h id := by
    have hlease := h.lease
    show (l.lease.filter _).bind Lease.end? = (k.lease.filter _).bind Lease.end?
    generalize k.lease = x, l.lease = y at hlease ⊢
    cases hlease with
    | none => rfl
    | some hl =>
      obtain ⟨-⟩ := hl
      rw [Option.filter_some, Option.filter_some]
      dsimp only
      split <;> rfl
  abort id k l h := h.abort id
  ended? {k l} h id := by
    obtain ⟨s, x, q, rfl, -⟩ := h.exists_eq
    rfl

end Federation.Domain
