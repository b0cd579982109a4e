import Federation.Action.Group
import Mathlib.Data.List.Perm.Basic

/-!
# Groups as lists

A group sorts its actions by subject, but from outside it is a list: the actions in the order in
which they came, less those that were dropped.  What it returns for a subject is the part of the list
that is about the subject.

## Key results

- `Holds`: the tables of a group against the list of its actions
- `Holds.insert`: an insertion puts an action at the end of the list
- `Holds.prune`: pruning filters the list, and leaves no subject without actions
- `Holds.size`: no action is lost among the subjects
-/

namespace Federation.Group

variable {φ : Type} {g : Group φ} {xs : List (Subject × Member φ)} {s : Subject}

/-- The actions of a list that are about a subject. -/
def about (s : Subject) (xs : List (Subject × Member φ)) : List (Member φ) :=
  (xs.filter fun x => x.1 = s).map Prod.snd

/-- A group holds some actions, listed with their subjects in the order in which they came. -/
structure Holds (xs : List (Subject × Member φ)) (g : Group φ) : Prop where
  /-- No subject has two entries. -/
  nodup : g.buckets.keys.Nodup
  nonempty : ∀ e ∈ g.buckets.entries, e.2 ≠ []
  /-- Every action is found under its subject, behind those that came before it. -/
  get : ∀ s, g.get s = about s xs
  /-- The actions are those of the list, each as often as it came. -/
  members : g.members.Perm (xs.map Prod.snd)

/-- An empty group holds nothing. -/
theorem holds_empty : Holds ([] : List (Subject × Member φ)) .empty :=
  ⟨List.nodup_nil, nofun, fun _ => rfl, .refl _⟩

/-- The size of a group counts what it holds. -/
theorem Holds.size (h : Holds xs g) : g.size = xs.length := by
  rw [Group.size, h.members.length_eq, List.length_map]

/-! ## Insertion -/

/-- A member put at the end of its subject is one more member, wherever that stands. -/
private theorem flatMap_put (s : Subject) (m : Member φ) (es : List (Subject × List (Member φ))) :
    ((Table.put s ((Table.lookUp s es).getD [] ++ [m]) es).flatMap Prod.snd).Perm
      (es.flatMap Prod.snd ++ [m]) := by
  induction es with
  | nil => exact .refl _
  | cons e es ih =>
    by_cases he : e.1 = s
    · -- The action goes to the end of this entry, before those of the later ones.
      simp only [Table.lookUp, Table.put, he, if_true, Option.getD_some, List.flatMap_cons,
        List.append_assoc]
      exact List.perm_append_comm.append_left e.2
    · simp only [Table.lookUp, Table.put, he, if_false, List.flatMap_cons, List.append_assoc]
      exact ih.append_left e.2

/-- A new member is the last one about its subject, and changes nothing about the others. -/
theorem about_concat (s q : Subject) (m : Member φ) (xs : List (Subject × Member φ)) :
    about q (xs ++ [(s, m)]) = if q = s then about s xs ++ [m] else about q xs := by
  by_cases hq : q = s
  · simp [about, hq]
  · simp [about, hq, Ne.symm hq]

/-- A group holds what is inserted, as well as what it held. -/
theorem Holds.insert (h : Holds xs g) (s : Subject) (m : Member φ) :
    Holds (xs ++ [(s, m)]) (g.insert s m) where
  nodup := Table.nodup_keys_insert h.nodup _ _
  nonempty e he := by
    rcases Table.mem_put he with rfl | he
    · exact List.append_ne_nil_of_right_ne_nil _ (List.cons_ne_nil _ _)
    · exact h.nonempty e he
  get q := by rw [get_insert, about_concat, h.get, h.get]
  -- The order of the members is not kept, since those about one subject are stored together.
  members := by
    rw [List.map_append]
    exact (flatMap_put s m g.buckets.entries).trans (h.members.append_right _)

/-! ## Pruning -/

section Keep

variable {kept : Member φ → Bool} {e : Subject × List (Member φ)}

/-- A subject of which nothing is kept is dropped. -/
theorem keep_of_eq_nil (h : e.2.filter kept = []) : keep kept e = none := by
  rw [keep, h]

/-- A subject of which something is kept stays, with what is kept. -/
theorem keep_of_ne_nil (h : e.2.filter kept ≠ []) : keep kept e = some (e.1, e.2.filter kept) := by
  rw [keep]
  cases hf : e.2.filter kept with
  | nil => exact absurd hf h
  | cons m ms => rfl

/-- An entry that stays keeps its subject and is not empty. -/
theorem keep_eq_some {x : Subject × List (Member φ)} (h : keep kept e = some x) :
    x.1 = e.1 ∧ x.2 ≠ [] := by
  by_cases hf : e.2.filter kept = []
  · exact nomatch (keep_of_eq_nil hf).symm.trans h
  · obtain rfl := Option.some.inj ((keep_of_ne_nil hf).symm.trans h)
    exact ⟨rfl, hf⟩

/-- The subjects that stay are some of those before, in the same order. -/
theorem map_fst_keep_sublist (es : List (Subject × List (Member φ))) :
    List.Sublist ((es.filterMap (keep kept)).map Prod.fst) (es.map Prod.fst) := by
  induction es with
  | nil => exact .refl _
  | cons e es ih =>
    -- An entry is dropped or stays with its subject.
    cases hk : keep kept e with
    | none =>
      rw [List.filterMap_cons_none hk]
      exact ih.cons _
    | some x =>
      rw [List.filterMap_cons_some hk, List.map_cons, List.map_cons, (keep_eq_some hk).1]
      exact ih.cons_cons _

/-- What is kept about a subject is found under it. -/
private theorem lookUp_keep {es : List (Subject × List (Member φ))} (h : (es.map Prod.fst).Nodup) :
    (Table.lookUp s (es.filterMap (keep kept))).getD [] =
      ((Table.lookUp s es).getD []).filter kept := by
  induction es with
  | nil => rfl
  | cons e es ih =>
    rw [List.map_cons, List.nodup_cons] at h
    by_cases he : e.1 = s
    · -- Should the entry be dropped, there is no later one that could take its place.
      have hlater : Table.lookUp s es = none := Table.lookUp_eq_none_iff.mpr (he ▸ h.1)
      by_cases hf : e.2.filter kept = []
      · rw [List.filterMap_cons_none (keep_of_eq_nil hf), ih h.2, hlater]
        simp [Table.lookUp, he, hf]
      · rw [List.filterMap_cons_some (keep_of_ne_nil hf)]
        simp [Table.lookUp, he]
    -- The entry is about another subject, so it does not matter whether it is kept.
    · have hskip : (Table.lookUp s ((e :: es).filterMap (keep kept))) =
          Table.lookUp s (es.filterMap (keep kept)) := by
        by_cases hf : e.2.filter kept = []
        · rw [List.filterMap_cons_none (keep_of_eq_nil hf)]
        · rw [List.filterMap_cons_some (keep_of_ne_nil hf), Table.lookUp, if_neg he]
      rw [hskip, ih h.2, Table.lookUp, if_neg he]

end Keep

/-- Keeping some members keeps those about each subject. -/
theorem about_filter (s : Subject) (kept : Member φ → Bool) (xs : List (Subject × Member φ)) :
    about s (xs.filter fun x => kept x.2) = (about s xs).filter kept := by
  rw [about, about, List.filter_map, List.filter_comm]
  rfl

/-- After pruning, a group holds the members that have not come to an end. -/
theorem Holds.prune (h : Holds xs g) (status : Nat → Status) :
    Holds (xs.filter fun x => !(status x.2.id).isTerminal) (g.prune status) where
  nodup := (map_fst_keep_sublist _).nodup h.nodup
  nonempty x hx := by
    obtain ⟨e, -, he⟩ := List.mem_filterMap.mp hx
    exact (keep_eq_some he).2
  get s := by
    rw [about_filter s fun m => !(status m.id).isTerminal, ← h.get]
    exact lookUp_keep h.nodup
  members := by
    have hfilter := h.members.filter fun m => !(status m.id).isTerminal
    rw [List.filter_map] at hfilter
    rw [members_prune]
    exact hfilter

/-! ## Look-up -/

/-- What is found is the newest action about a subject that has the form. -/
theorem find?_eq [DecidableEq φ] (g : Group φ) (s : Subject) (form : φ) :
    g.find? s form = (((g.get s).filter fun m => m.form = form).getLast?).map Member.id := by
  rw [find?, List.getLast?_filter]

end Federation.Group
