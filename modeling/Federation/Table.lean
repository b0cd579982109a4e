/-! # Tables

A `Table` holds one value for each of its keys and remembers the order in which the keys were first
inserted.

* `get?_insert` — what a table holds after an insertion.
* `keys_insert`, `nodup_keys_insert` — a new key goes to the end, a known one stays where it is, and
  none is repeated. -/

namespace Federation

/-- A finite map that remembers the order of its keys. -/
structure Table (κ ν : Type) where
  entries : List (κ × ν) := []
  deriving Repr

namespace Table

variable {κ ν : Type} [DecidableEq κ]

/-- The table without entries. -/
def empty : Table κ ν := ⟨[]⟩

/-- The value that the first pair of a key gives it. -/
def lookUp (k : κ) : List (κ × ν) → Option ν
  | [] => none
  | e :: es => if e.1 = k then some e.2 else lookUp k es

/-- The pairs with the value of a key replaced, or added at the end. -/
def put (k : κ) (v : ν) : List (κ × ν) → List (κ × ν)
  | [] => [(k, v)]
  | e :: es => if e.1 = k then (k, v) :: es else e :: put k v es

/-- The value of a key. -/
def get? (t : Table κ ν) (k : κ) : Option ν := lookUp k t.entries

/-- The keys in the order of their first insertion. -/
def keys (t : Table κ ν) : List κ := t.entries.map Prod.fst

/-- Whether a key has a value. -/
def contains (t : Table κ ν) (k : κ) : Bool := (t.get? k).isSome

/-- Give a key a value, in place of the one it may have. -/
def insert (t : Table κ ν) (k : κ) (v : ν) : Table κ ν := ⟨put k v t.entries⟩

/-- The table of the given pairs; of several values of a key the last counts. -/
def ofList (es : List (κ × ν)) : Table κ ν :=
  es.foldl (fun t e => t.insert e.1 e.2) empty

@[simp] theorem get?_empty (k : κ) : (empty : Table κ ν).get? k = none := rfl

theorem lookUp_put (k q : κ) (v : ν) (es : List (κ × ν)) :
    lookUp q (put k v es) = if q = k then some v else lookUp q es := by
  induction es with
  | nil => simp [put, lookUp, eq_comm]
  | cons e es ih =>
    rw [put]
    split
    · next h => by_cases hq : q = k <;> simp_all [lookUp, eq_comm]
    · next h =>
      rw [lookUp, lookUp, ih]
      by_cases hq : q = k <;> simp_all [eq_comm]

theorem get?_insert (t : Table κ ν) (k q : κ) (v : ν) :
    (t.insert k v).get? q = if q = k then some v else t.get? q :=
  lookUp_put k q v t.entries

theorem lookUp_eq_none_iff {k : κ} {es : List (κ × ν)} :
    lookUp k es = none ↔ k ∉ es.map Prod.fst := by
  induction es with
  | nil => simp [lookUp]
  | cons e es ih => by_cases h : e.1 = k <;> simp_all [lookUp, eq_comm]

theorem mem_put {k : κ} {v : ν} {e : κ × ν} {es : List (κ × ν)} (h : e ∈ put k v es) :
    e = (k, v) ∨ e ∈ es := by
  induction es with
  | nil => exact .inl (List.mem_singleton.mp h)
  | cons x es ih =>
    rw [put] at h
    split at h
    · exact (List.mem_cons.mp h).imp_right (List.mem_cons_of_mem _)
    · rcases List.mem_cons.mp h with rfl | h
      · exact .inr List.mem_cons_self
      · exact (ih h).imp_right (List.mem_cons_of_mem _)

theorem map_fst_put (k : κ) (v : ν) (es : List (κ × ν)) :
    (put k v es).map Prod.fst =
      if (lookUp k es).isSome then es.map Prod.fst else es.map Prod.fst ++ [k] := by
  induction es with
  | nil => simp [put, lookUp]
  | cons e es ih =>
    by_cases h : e.1 = k
    · simp [put, lookUp, h]
    · simp only [put, lookUp, h, if_false, List.map_cons, ih]
      split <;> simp

theorem keys_insert (t : Table κ ν) (k : κ) (v : ν) :
    (t.insert k v).keys = if t.contains k then t.keys else t.keys ++ [k] :=
  map_fst_put k v t.entries

theorem nodup_keys_insert {t : Table κ ν} (h : t.keys.Nodup) (k : κ) (v : ν) :
    (t.insert k v).keys.Nodup := by
  rw [keys_insert]
  split
  · exact h
  · next hnew =>
    have hk : k ∉ t.keys := lookUp_eq_none_iff.mp (by simpa [contains, get?] using hnew)
    refine List.nodup_append.mpr ⟨h, by simp, fun a ha b hb => ?_⟩
    rintro rfl
    exact hk (List.mem_singleton.mp hb ▸ ha)

end Table

end Federation
