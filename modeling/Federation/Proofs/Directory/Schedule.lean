import Federation.Call.Caller
import Federation.Proofs.Directory.Connection
import Federation.Proofs.Provider.Lawful
import Mathlib.Logic.Relation

/-!
# Calls into a directory with one connection

A directory whose calls share one connection does nothing by itself that could not happen at the desk
for the connection.  So whatever is known of such a desk is known of the directory, whoever calls it.

## Key results

- `Stands.submit`, `Stands.abort`, `Stands.ripen`, `Stands.settle`, `Stands.wait`: what a host does,
  as steps at the desk
- `Use.reaches`: what a caller does, as steps at the desk
- `uses_callAll`: making some calls and waiting for their ends is such a use
-/

namespace Federation.Directory

open Domain (Desk Order Step)

variable {d x x' : Directory} {y z : Desk Unit Server Output} {rs rs' : List Request} {now t : Nat}

/-- The orders of some requests, which are numbered in the order in which they are made. -/
def orders (d : Directory) (rs : List Request) : List (Order Unit Server Output) :=
  rs.mapIdx fun i r => .call i .async (d.work r)

/-- One more request is one more order, with the next number. -/
theorem orders_concat (d : Directory) (rs : List Request) (r : Request) :
    d.orders (rs ++ [r]) = d.orders rs ++ [.call rs.length .async (d.work r)] :=
  List.mapIdx_concat

/-- A directory has the connection that is lent at a desk, where some requests have been made. -/
structure Stands (d : Directory) (z : Desk Unit Server Output) (rs : List Request) (now : Nat)
    (x : Directory) : Prop where
  directory : x = { d with access := .serialized z.domain }
  now : z.book.now = now
  orders : z.book.orders = d.orders rs

/-- A directory has come by some steps to where it is at an instant, and some requests have been
    made. -/
def Reaches (d : Directory) (y : Desk Unit Server Output) (rs : List Request) (now : Nat)
    (x : Directory) : Prop :=
  ∃ ss, (∀ s ∈ ss, d.Allows s) ∧ d.Stands (y.run ss) rs now x

/-- A directory goes on from where it is. -/
theorem Reaches.goOn (h : d.Reaches y rs now x)
    (next : ∀ z, d.Stands z rs now x →
      ∃ ss, (∀ s ∈ ss, d.Allows s) ∧ d.Stands (z.run ss) rs' t x') : d.Reaches y rs' t x' := by
  obtain ⟨ss, hss, hstands⟩ := h
  obtain ⟨ss', hss', hstands'⟩ := next _ hstands
  refine ⟨ss ++ ss', fun s hs => (List.mem_append.mp hs).elim (hss s) (hss' s), ?_⟩
  rw [Desk.run_append]
  exact hstands'

/-! ## What a host does -/

/-- A request is made. -/
theorem Stands.submit (h : d.Stands z rs now x) (r : Request) :
    d.Stands (z.act (.submit (.call rs.length .async (d.work r)))) (rs ++ [r]) now
      (Host.submit rs.length r x) := by
  obtain ⟨rfl, hnow, horders⟩ := h
  refine ⟨rfl, hnow, ?_⟩
  rw [Desk.orders_act, horders, orders_concat]
  rfl

/-- A request is given up. -/
theorem Stands.abort (h : d.Stands z rs now x) (id : Nat) :
    d.Stands (z.act (.abort id)) rs now (Host.abort id x) := by
  obtain ⟨rfl, hnow, horders⟩ := h
  refine ⟨rfl, ?_, ?_⟩
  · unfold Desk.act
    dsimp only
    split
    · exact (Domain.Book.now_release ..).trans hnow
    · exact hnow
  -- To give up a request is not to make one, so the orders are those from before.
  · rw [Desk.orders_act, horders]
    exact List.append_nil _

/-- Something is done to the server. -/
theorem Stands.serve (h : d.Stands z rs now x) (f : Server → Server) :
    d.Stands (z.act (.alter f)) rs now (x.mapServer f) := by
  obtain ⟨rfl, hnow, horders⟩ := h
  exact ⟨rfl, hnow, horders⟩

/-- What nobody asks for brings no orders. -/
theorem Stands.passive {ss : List (Step Unit Server Output)} {k : Domain Unit Server Output}
    (h : d.Stands z rs now x) (hss : ∀ s ∈ ss, s.IsPassive) (hdomain : (z.run ss).domain = k)
    (hnow : (z.run ss).book.now = t) :
    (∀ s ∈ ss, d.Allows s) ∧
      d.Stands (z.run ss) rs t { d with access := .serialized k } := by
  refine ⟨fun s hs => ?_, by rw [hdomain], hnow, ?_⟩
  · have hpassive := hss s hs
    cases s with
    | submit | leave | abort | alter => exact hpassive.elim
    | turn | tick => trivial
  · have hnone : ss.filterMap Step.order? = [] :=
      List.filterMap_eq_nil_iff.mpr fun s hs => Desk.order?_of_isPassive (hss s hs)
    rw [Desk.orders_run, hnone, List.append_nil, h.orders]

/-- The call that has the connection ends if its time has come. -/
theorem Stands.ripen (h : d.Stands z rs now x) :
    ∃ ss, (∀ s ∈ ss, d.Allows s) ∧ d.Stands (z.run ss) rs now (Host.ripen now x) := by
  have hz := h
  obtain ⟨rfl, rfl, -⟩ := h
  show ∃ ss, _ ∧ d.Stands _ rs _ { d with access := .serialized (z.domain.ripen z.book.now) }
  -- Only a call that has the connection can have waited, and its turn is the one step.
  by_cases hlease : z.domain.lease.isSome = true
  · have hact : (z.act .turn).domain = z.domain.ripen z.book.now ∧
        (z.act .turn).book.now = z.book.now := by
      unfold Desk.act Domain.ripen
      dsimp only
      rw [if_pos hlease]
      cases z.domain.turn z.book.now with
      | none => exact ⟨rfl, rfl⟩
      | some k => exact ⟨rfl, Domain.Book.now_follow ..⟩
    exact ⟨[.turn], hz.passive (fun s hs => List.mem_singleton.mp hs ▸ trivial) hact.1 hact.2⟩
  · rw [Domain.ripen, if_neg hlease]
    exact ⟨[], fun s hs => absurd hs List.not_mem_nil, hz⟩

/-- Everything happens that can happen at an instant. -/
theorem Stands.settle (h : d.Stands z rs now x) :
    ∃ ss, (∀ s ∈ ss, d.Allows s) ∧ d.Stands (z.run ss) rs now (Timed.settle now x) := by
  have hz := h
  obtain ⟨rfl, rfl, -⟩ := h
  obtain ⟨k, hdomain, hnow⟩ := Desk.exists_run_settle z
  have hpassive : ∀ s ∈ List.replicate k (Step.turn : Step Unit Server Output), s.IsPassive :=
    fun s => Desk.isPassive_of_replicate trivial
  exact ⟨_, hz.passive hpassive hdomain hnow⟩

/-- Time passes, in which nothing is due. -/
theorem Stands.wait (h : d.Stands z rs now x) (hrests : LawfulHost.Rests now x) (hle : now ≤ t)
    (hnext : ∀ u, Timed.next? x = some u → t ≤ u) :
    ∃ ss, (∀ s ∈ ss, d.Allows s) ∧ d.Stands (z.run ss) rs t x := by
  have hz := h
  obtain ⟨rfl, rfl, -⟩ := h
  have hidle : z.domain.turn z.book.now = none := hrests
  obtain ⟨ss, hss, hdomain, hnow⟩ := Desk.exists_run_ticks hle fun u hu =>
    Domain.turn_eq_none_of_lt hidle fun v hv => Nat.lt_of_lt_of_le hu (hnext v hv)
  exact ⟨ss, hz.passive hss hdomain hnow⟩

/-- A directory goes on by one step. -/
theorem Reaches.act {s : Step Unit Server Output} (h : d.Reaches y rs now x) (hs : d.Allows s)
    (next : ∀ z, d.Stands z rs now x → d.Stands (z.act s) rs' t x') : d.Reaches y rs' t x' :=
  h.goOn fun z hz => ⟨[s], fun _ ht => List.mem_singleton.mp ht ▸ hs, next z hz⟩

/-- A request that is made leads to where coming to the desk leads. -/
theorem Reaches.submit (h : d.Reaches y rs now x) (r : Request) :
    d.Reaches y (rs ++ [r]) now (Host.submit rs.length r x) :=
  h.act (s := .submit (.call rs.length .async (d.work r))) ⟨rs.length, r, rfl⟩ fun _ hz =>
    hz.submit r

/-- A request that is given up leads to where giving it up at the desk leads. -/
theorem Reaches.abort (h : d.Reaches y rs now x) (id : Nat) :
    d.Reaches y rs now (Host.abort id x) :=
  h.act (s := .abort id) trivial fun _ hz => hz.abort id

/-- So it is when the server is altered in a way that leaves its counters alone. -/
theorem Reaches.serve (h : d.Reaches y rs now x) {f : Server → Server} (hf : Server.Spares f) :
    d.Reaches y rs now (x.mapServer f) :=
  h.act (s := .alter f) hf fun _ hz => hz.serve f

/-- Waits that end lead to where turns at the desk lead. -/
theorem Reaches.ripen (h : d.Reaches y rs now x) : d.Reaches y rs now (Host.ripen now x) :=
  h.goOn fun _ hz => hz.ripen

/-- A directory that settles gets to where turns at the desk lead. -/
theorem Reaches.settle (h : d.Reaches y rs now x) : d.Reaches y rs now (Timed.settle now x) :=
  h.goOn fun _ hz => hz.settle

/-- Time that passes until something is due leads to where waiting at the desk leads. -/
theorem Reaches.wait (h : d.Reaches y rs now x) (hrests : LawfulHost.Rests now x) (hle : now ≤ t)
    (hnext : ∀ u, Timed.next? x = some u → t ≤ u) : d.Reaches y rs t x :=
  h.goOn fun _ hz => hz.wait hrests hle hnext

/-- A new directory is at its desk. -/
theorem reaches_new {callDeadline : Option Nat} {s : Server}
    (serial : d.access = serially d.id callDeadline s) :
    d.Reaches (desk d.id callDeadline s) [] 0 d := by
  refine ⟨[], nofun, ?_, rfl, rfl⟩
  show d = { d with access := serially d.id callDeadline s }
  rw [← serial]

/-! ## Callers -/

/-- What a caller may do, who makes calls and gives them up, lets time pass, and may change the server
    of the directory, but not its counters. -/
inductive Use : Caller Directory → Caller Directory → Prop
  | make (r : Request) (c : Caller Directory) : Use c (c.make r)
  | giveUp (ids : List Nat) (c : Caller Directory) : Use c (c.giveUp ids)
  | settle (c : Caller Directory) : Use c c.settle
  | advance (ms : Nat) (c : Caller Directory) : Use c (c.settle.advance ms)
  | await (patience : Nat) (ids : List Nat) (c : Caller Directory) :
      Use c (c.settle.await patience ids)
  | serve (f : Server → Server) (c : Caller Directory) (h : Server.Spares f) :
      Use c { c with host := c.host.mapServer f }

/-- Making some calls, waiting for their ends and giving up the others are such uses. -/
theorem uses_callAll (patience : Nat) (requests : List Request) (c : Caller Directory) :
    Relation.ReflTransGen Use c (c.callAll patience requests).1 := by
  have makes : ∀ (requests : List Request) (c : Caller Directory),
      Relation.ReflTransGen Use c (requests.foldl (fun c r => c.make r) c) := by
    intro requests
    induction requests with
    | nil => exact fun _ => .refl
    | cons r rest ih => exact fun c => .head (.make r c) (ih (c.make r))
  exact ((makes requests c).tail (.await patience _ _)).tail (.giveUp _ _)

/-- A directory with one connection, when nothing is left to do. -/
theorem steady : Timed.Steady fun now (x : Directory) =>
    (∃ k, x.access = .serialized k) ∧ LawfulHost.Rests now x where
  next {now t x} h ht := by
    obtain ⟨⟨k, hk⟩, hrests⟩ := h
    obtain ⟨id, capabilities, rule, supported, access⟩ := x
    obtain rfl : access = .serialized k := hk
    obtain ⟨hlt, hrests', hload⟩ := Domain.steady.next (k := k) hrests ht
    exact ⟨hlt, ⟨⟨_, rfl⟩, hrests'⟩, hload⟩

/-- When it has settled, the directory rests, and its calls share one connection. -/
theorem Reaches.rests_settle (h : d.Reaches y rs now x) (t : Nat) :
    (∃ k, (Timed.settle t x).access = .serialized k) ∧ LawfulHost.Rests t (Timed.settle t x) := by
  obtain ⟨ss, -, rfl, -⟩ := h
  exact ⟨⟨_, rfl⟩, Domain.rests_settle t _⟩

/-- What a caller does leads to where some steps at the desk lead to. -/
theorem Use.reaches {c c' : Caller Directory} (h : Use c c')
    (hc : ∃ rs : List Request, rs.length = c.next ∧ d.Reaches y rs c.now c.host) :
    ∃ rs : List Request, rs.length = c'.next ∧ d.Reaches y rs c'.now c'.host := by
  obtain ⟨rs, hlength, hreaches⟩ := hc
  have hrests := hreaches.rests_settle c.now
  -- Each thing that a caller can do is one of those above, or many of them one after the other.
  cases h with
  | make r =>
    refine ⟨rs ++ [r], by rw [List.length_append, hlength]; rfl, ?_⟩
    show d.Reaches y (rs ++ [r]) c.now (Host.submit c.next r c.host)
    rw [← hlength]
    exact hreaches.submit r
  | giveUp ids =>
    refine ⟨rs, hlength, Reaches.settle ?_⟩
    exact List.foldlRecOn (motive := fun x => d.Reaches y rs c.now x) ids _ hreaches
      fun x hx id _ => hx.abort id
  | settle => exact ⟨rs, hlength, hreaches.settle⟩
  | advance ms =>
    refine ⟨rs, hlength, ?_⟩
    exact steady.advanceTo_induction (P := fun t x => d.Reaches y rs t x)
      (fun hs hx hle hnext => hx.wait hs.2 hle hnext) (fun hx => hx.settle) hrests hreaches.settle
      (Nat.le_add_right c.now ms)
  | await patience ids =>
    refine ⟨rs, hlength, ?_⟩
    exact steady.runUntil_induction (P := fun t x => d.Reaches y rs t x) _
      (fun hs hx hle hnext => hx.wait hs.2 hle hnext) (fun hx => hx.settle) hrests hreaches.settle
      (Nat.le_add_right c.now patience)
  | serve f _ hf => exact ⟨rs, hlength, hreaches.serve hf⟩

/-- So does all that a caller does, one thing after the other. -/
theorem reaches_of_uses {c c' : Caller Directory} (h : Relation.ReflTransGen Use c c')
    (hc : ∃ rs : List Request, rs.length = c.next ∧ d.Reaches y rs c.now c.host) :
    ∃ rs : List Request, rs.length = c'.next ∧ d.Reaches y rs c'.now c'.host := by
  induction h with
  | refl => exact hc
  | tail _ use ih => exact use.reaches ih

end Federation.Directory
