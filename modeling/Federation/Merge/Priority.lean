import Federation.Record
import Federation.Table

/-! # Merge priority

Providers may have a rank, and lower ranks win.  `Priority.order` sorts records by the rank of their
provider; providers without a rank come last, and records of equal rank keep their order.

* `order_perm` — sorting loses and invents no record.
* `pairwise_order` — a record is never preceded by one of lower priority.
* `order_stable` — records that are in order already stay in it. -/

namespace Federation.Merge

/-- The ranks of providers. -/
structure Priority where
  ranks : Table ProviderId Int := Table.empty

namespace Priority

/-- The rank of a provider. -/
def rank? (t : Priority) (p : ProviderId) : Option Int := t.ranks.get? p

/-- Give a provider a rank, in place of the one it may have. -/
def withRank (t : Priority) (p : ProviderId) (rank : Int) : Priority :=
  ⟨t.ranks.insert p rank⟩

/-- The ranks by position in a list.  A provider listed twice has the rank of its first place; the
    places of the others still count. -/
def ofOrder (ps : List ProviderId) : Priority :=
  ps.zipIdx.foldl (fun t e => if t.ranks.contains e.1 then t else t.withRank e.1 e.2) {}

/-- Whether a provider of rank `a` may stand before one of rank `b`. -/
def before : (a b : Option Int) → Bool
  | some a, some b => a ≤ b
  | some _, none => true
  | none, some _ => false
  | none, none => true

theorem before_trans {a b c : Option Int} (h : before a b) (k : before b c) : before a c := by
  cases a <;> cases b <;> cases c <;> simp_all [before]
  omega

theorem before_total (a b : Option Int) : before a b || before b a := by
  cases a <;> cases b <;> simp [before]
  omega

/-- Whether one record may stand before another. -/
def precedes (t : Priority) (r s : Record) : Bool :=
  before (t.rank? r.provider) (t.rank? s.provider)

/-- The records by priority. -/
def order (t : Priority) (rs : List Record) : List Record :=
  rs.mergeSort t.precedes

theorem order_perm (t : Priority) (rs : List Record) : (t.order rs).Perm rs :=
  List.mergeSort_perm rs _

theorem pairwise_order (t : Priority) (rs : List Record) :
    (t.order rs).Pairwise fun r s => t.precedes r s := by
  apply List.pairwise_mergeSort
  · intro a b c; exact before_trans
  · intro a b; exact before_total _ _

theorem order_stable {t : Priority} {rs : List Record}
    (h : rs.Pairwise fun r s => t.precedes r s) : t.order rs = rs :=
  List.mergeSort_of_pairwise h

theorem rank?_withRank (t : Priority) (p q : ProviderId) (i : Int) :
    (t.withRank p i).rank? q = if q = p then some i else t.rank? q :=
  Table.get?_insert t.ranks p q i

end Priority

end Federation.Merge
