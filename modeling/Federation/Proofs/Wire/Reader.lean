import Federation.Proofs.Json.RoundTrip
import Federation.Wire.Reader
import Mathlib.Data.List.Perm.Basic

/-!
# How fields are found

A field is found by its name, so it matters neither in which order the members of an object stand
nor which other members there are.  A record that was written member by member has exactly the
fields that were given, those that are left out included.

## Key results

- `only?_perm`, `only?_append`: what is found does not depend on the order and on other members
- `fields?_ofMembers`: the fields of a record that was written
- `list?_map`: a list of documents is read back if each of them is
- `isExact_ofMembers`: a record is written without loss if its fields are
-/

namespace Federation.Wire

open Json (IsExact)

variable {α : Type} {name : String} {ms ms' unknown : List (String × Json)}

/-- What succeeds at every element of a list succeeds at the list. -/
theorem mapM_eq_some {β : Type} {f : α → Option β} {g : α → β} {xs : List α}
    (h : ∀ x ∈ xs, f x = some (g x)) : xs.mapM f = some (xs.map g) := by
  induction xs with
  | nil => rfl
  | cons x xs ih =>
    have hrest := ih fun y hy => h y (List.mem_cons_of_mem x hy)
    rw [List.mapM_cons, h x List.mem_cons_self, hrest]
    rfl

/-! ## Members -/

/-- What is found of the members of a name depends on these members only. -/
theorem only?_perm (h : ms.Perm ms') : only? name ms = only? name ms' := by
  have hperm := h.filter fun m => m.1 == name
  unfold only?
  generalize ms.filter (fun m => m.1 == name) = xs at hperm
  generalize ms'.filter (fun m => m.1 == name) = ys at hperm
  -- Lists of one member or none have no other order.
  match xs, ys, hperm with
  | [], ys, hperm => rw [List.nil_perm.mp hperm]
  | [m], ys, hperm => rw [List.singleton_perm.mp hperm]
  | m :: m' :: xs, ys, hperm =>
    match ys, hperm.length_eq with
    | _ :: _ :: _, _ => rfl

/-- Members of other names are passed over. -/
theorem only?_append (h : ∀ m ∈ unknown, m.1 ≠ name) :
    only? name (ms ++ unknown) = only? name ms := by
  have hnone : unknown.filter (fun m => m.1 == name) = [] :=
    List.filter_eq_nil_iff.mpr fun m hm => by simpa using h m hm
  unfold only?
  rw [List.filter_append, hnone, List.append_nil]

/-! ## Records -/

/-- The members that are written for some fields. -/
def present (fields : List (String × Option Json)) : List (String × Json) :=
  fields.filterMap fun m => m.2.map fun j => (m.1, j)

/-- The members that are written are the fields that have a value. -/
theorem mem_present {fields : List (String × Option Json)} {m : String × Json} :
    m ∈ present fields ↔ (m.1, some m.2) ∈ fields := by
  obtain ⟨name, j⟩ := m
  unfold present
  rw [List.mem_filterMap]
  constructor
  · rintro ⟨⟨n, j?⟩, hmem, hm⟩
    obtain ⟨j', hj, heq⟩ := Option.map_eq_some_iff.mp hm
    obtain ⟨rfl, rfl⟩ := Prod.mk.inj heq
    obtain rfl : j? = some j' := hj
    exact hmem
  · exact fun hmem => ⟨(name, some j), hmem, rfl⟩

/-- A field of a record is found by its name. -/
theorem only?_present {fields : List (String × Option Json)}
    (distinct : (fields.map Prod.fst).Nodup) {field : String × Option Json}
    (h : field ∈ fields) : only? field.1 (present fields) = some field.2 := by
  obtain ⟨name, j?⟩ := field
  induction fields with
  | nil => exact absurd h List.not_mem_nil
  | cons f fields ih =>
    obtain ⟨hf, hrest⟩ := List.nodup_cons.mp distinct
    obtain ⟨n, i?⟩ := f
    -- No field that comes later has the name of this one.
    have hother : ∀ m ∈ present fields, m.1 ≠ n := by
      rintro m hm rfl
      exact hf (List.mem_map.mpr ⟨_, mem_present.mp hm, rfl⟩)
    have hsplit : present ((n, i?) :: fields) =
        (i?.map fun i => (n, i)).toList ++ present fields := by
      cases i? <;> rfl
    rw [hsplit]
    -- The field is the first one, or the first one has another name and does not count.
    rcases List.mem_cons.mp h with heq | hmem
    · obtain ⟨rfl, rfl⟩ := Prod.mk.inj heq
      rw [only?_append hother]
      cases j? with
      | none => rfl
      | some j => simp [only?]
    · have hne : n ≠ name := by
        rintro rfl
        exact hf (List.mem_map.mpr ⟨_, hmem, rfl⟩)
      rw [only?_perm List.perm_append_comm, only?_append, ih hrest hmem]
      intro m hm
      cases i? with
      | none => exact absurd hm List.not_mem_nil
      | some i =>
        obtain rfl := List.mem_singleton.mp hm
        exact hne

/-- A record that was written has the fields that were given. -/
theorem fields?_ofMembers {fields : List (String × Option Json)}
    (distinct : (fields.map Prod.fst).Nodup) :
    fields? (fields.map Prod.fst) (.ofMembers fields) = some (fields.map Prod.snd) := by
  show (fields.map Prod.fst).mapM (fun name => only? name (present fields)) = _
  rw [List.mapM_map]
  exact mapM_eq_some fun f hf => only?_present distinct hf

/-! ## Lists -/

/-- A list of documents is read back if each of them is. -/
theorem list?_map {read : Json → Option α} {write : α → Json} {xs : List α}
    (back : ∀ x ∈ xs, read (write x) = some x) : list? read (.array (xs.map write)) = some xs := by
  show (xs.map write).mapM read = some xs
  have hread : xs.mapM (read ∘ write) = some (xs.map id) := mapM_eq_some back
  rw [List.mapM_map, hread, List.map_id]

/-! ## Documents without loss -/

/-- A record is written out exactly if each of its fields is. -/
theorem isExact_ofMembers {fields : List (String × Option Json)}
    (exact : ∀ f ∈ fields, ∀ j, f.2 = some j → IsExact j) : IsExact (.ofMembers fields) := by
  refine .object _ fun m hm => ?_
  exact exact _ (mem_present.mp hm) m.2 rfl

/-- A list is written out exactly if each of its elements is. -/
theorem isExact_list {write : α → Json} {xs : List α} (exact : ∀ x ∈ xs, IsExact (write x)) :
    IsExact (.array (xs.map write)) := by
  refine .array _ fun j hj => ?_
  obtain ⟨x, hx, rfl⟩ := List.mem_map.mp hj
  exact exact x hx

end Federation.Wire
