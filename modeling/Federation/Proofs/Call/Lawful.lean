import Federation.Call.Host
import Mathlib.Data.List.Nodup
import Mathlib.Data.List.Perm.Basic

/-!
# Hosts that can be relied upon

A host may schedule its calls as it likes, but a call that was made is in progress until it ends or
is given up, it ends at most once, and it does end.  `LawfulHost` lays this down.  It leaves open
what a call yields, and when.

Requests are taken to wait for a certain time only; work that waits for something outside may never
end.

## Key results

- `EndsAt.trans`: what happens in several steps at an instant
- `EndsAt.areOpen`: calls keep numbers of their own, and no call ends twice
- `EndsAt.runs`: how such steps look from outside
-/

namespace Federation

/-- What work at an instant does to the calls in progress: some of them end then, and nothing else
    happens to any call. -/
structure Host.Runs {κ ω α : Type} [Host κ ω α] (live : κ → Nat → Prop) (now : Nat) (k k' : κ) :
    Prop where
  live_of_live : ∀ i, live k' i → live k i
  ended : ∀ i, live k i → ¬live k' i → ∃ e, Host.ended? k' i = some e ∧ e.instant = now
  ended?_eq : ∀ i, live k' i ∨ ¬live k i → Host.ended? k' i = Host.ended? k i
  load_le : Timed.load k' ≤ Timed.load k

/-- What a host keeps as it does the work of calls and gives them up. -/
structure Host.Keeps {κ ω α : Type} [Host κ ω α] (P : κ → Prop) : Prop where
  abort : ∀ {k : κ} (i : Nat), P k → P (Host.abort i k)
  ripen : ∀ {k : κ} (now : Nat), P k → P (Host.ripen now k)
  settle : ∀ {k : κ} (now : Nat), P k → P (Timed.settle now k)

/-- Whether a call has returned an answer. -/
def Answered {α : Type} (ended : Option (Ended α)) (x : α) : Prop :=
  ∃ e, ended = some e ∧ e.ending = .returned (.ok x)

/-- A call that has not ended has not returned anything. -/
theorem not_answered_none {α : Type} (x : α) : ¬Answered none x := by
  rintro ⟨e, he, -⟩
  exact nomatch he

/-- A host whose calls end. -/
class LawfulHost (κ : Type) {ω α : outParam Type} [Host κ ω α] where
  /-- Whether a request waits for a certain time only. -/
  IsFinite : ω → Prop
  /-- What holds between any two operations. -/
  IsSound : κ → Prop
  /-- Whether a call is in progress. -/
  Live : κ → Nat → Prop
  /-- Whether nothing is left to do at an instant. -/
  Rests : Nat → κ → Prop
  ended?_of_live : ∀ {k : κ} {i : Nat}, IsSound k → Live k i → Host.ended? k i = none
  submit : ∀ {k : κ} {i : Nat} {request : ω}, IsSound k → IsFinite request → ¬Live k i →
    Host.ended? k i = none →
    IsSound (Host.submit i request k) ∧
      (∀ x, Live (Host.submit i request k) x ↔ Live k x ∨ x = i) ∧
      ∀ x, Host.ended? (Host.submit i request k) x = Host.ended? k x
  abort : ∀ {k : κ} (i : Nat), IsSound k →
    IsSound (Host.abort i k) ∧
      (∀ x, Live (Host.abort i k) x ↔ Live k x ∧ x ≠ i) ∧
      (∀ x, Host.ended? (Host.abort i k) x = Host.ended? k x) ∧
      (∀ x, x ≠ i → Host.due? (Host.abort i k) x = Host.due? k x) ∧
      Timed.load (Host.abort i k) ≤ Timed.load k
  ripen : ∀ {k : κ} (now : Nat), IsSound k →
    IsSound (Host.ripen now k) ∧ Host.Runs Live now k (Host.ripen now k) ∧
      ∀ i t, Host.due? k i = some t → t ≤ now → ¬Live (Host.ripen now k) i
  /-- No call ends whose wait is not over. -/
  ripen_live : ∀ {k : κ} {now i : Nat}, IsSound k → Live k i →
    (∀ t, Host.due? k i = some t → now < t) → Live (Host.ripen now k) i
  settle : ∀ {k : κ} (now : Nat), IsSound k →
    IsSound (Timed.settle now k) ∧ Host.Runs Live now k (Timed.settle now k) ∧
      Rests now (Timed.settle now k)
  /-- What is due next is the end of the wait of some call. -/
  next : ∀ {k : κ} {t : Nat}, IsSound k → Timed.next? k = some t →
    ∃ i, Live k i ∧ Host.due? k i = some t
  /-- The wait of a call is over in time to come. -/
  ahead : ∀ {k : κ} {now i t : Nat}, IsSound k → Rests now k → Host.due? k i = some t → now < t
  /-- A call that is in progress ends in time to come. -/
  rests : ∀ {k : κ} {now i : Nat}, IsSound k → Rests now k → Live k i →
    ∃ t, Timed.next? k = some t ∧ now < t

/-- What giving up some calls does. -/
theorem LawfulHost.abortAll {κ ω α : Type} [Host κ ω α] [LawfulHost κ] {k : κ} (is : List Nat)
    (h : IsSound k) :
    IsSound (is.foldl (fun k i => Host.abort i k) k) ∧
      (∀ x, Live (is.foldl (fun k i => Host.abort i k) k) x ↔ Live k x ∧ x ∉ is) ∧
      (∀ x, Host.ended? (is.foldl (fun k i => Host.abort i k) k) x = Host.ended? k x) ∧
      (∀ x, x ∉ is → Host.due? (is.foldl (fun k i => Host.abort i k) k) x = Host.due? k x) ∧
      Timed.load (is.foldl (fun k i => Host.abort i k) k) ≤ Timed.load k := by
  induction is generalizing k with
  | nil => exact ⟨h, fun x => by simp, fun _ => rfl, fun _ _ => rfl, Nat.le_refl _⟩
  | cons i is ih =>
    -- The first call is given up, then the rest of them in the host that is left.
    obtain ⟨hsound, hlive, hended, hdue, hload⟩ := LawfulHost.abort i h
    obtain ⟨hsound', hlive', hended', hdue', hload'⟩ := ih hsound
    refine ⟨hsound', fun x => ?_, fun x => (hended' x).trans (hended x), fun x hx => ?_, ?_⟩
    · rw [List.foldl_cons, hlive', hlive, List.mem_cons, not_or, and_assoc]
    · rw [List.mem_cons, not_or] at hx
      exact (hdue' x hx.2).trans (hdue x hx.1)
    · exact Nat.le_trans hload' hload

/-! ## Calls by their numbers -/

variable {α : Type} {now : Nat} {live live' : List Nat} {es es' : List (Ended α)}

/-- Some of the calls in progress end at an instant, and this is noted. -/
def EndsAt (now : Nat) (live : List Nat) (es : List (Ended α)) (live' : List Nat)
    (es' : List (Ended α)) : Prop :=
  ∃ gone, es' = es ++ gone ∧ (∀ e ∈ gone, e.instant = now) ∧
    (live' ++ gone.map Ended.id).Perm live

/-- The calls in progress have numbers of their own, and none of them has ended. -/
def AreOpen (live : List Nat) (es : List (Ended α)) : Prop :=
  live.Nodup ∧ ∀ i ∈ live, ended? es i = none

/-- A call is looked up among those that ended first, and then among the others. -/
theorem ended?_append (es gone : List (Ended α)) (i : Nat) :
    ended? (es ++ gone) i = (ended? es i).or (ended? gone i) :=
  List.find?_append

/-- A call has not ended if its number is not among those that have. -/
theorem ended?_eq_none_iff {es : List (Ended α)} {i : Nat} :
    ended? es i = none ↔ i ∉ es.map Ended.id := by
  unfold ended?
  rw [List.find?_eq_none]
  constructor
  · intro h hi
    obtain ⟨e, he, rfl⟩ := List.mem_map.mp hi
    exact h e he (decide_eq_true rfl)
  · intro h e he hei
    exact h (List.mem_map.mpr ⟨e, he, of_decide_eq_true hei⟩)

/-- Nothing need end. -/
theorem EndsAt.refl (now : Nat) (live : List Nat) (es : List (Ended α)) :
    EndsAt now live es live es :=
  ⟨[], by simp, nofun, by simp⟩

/-- One call ends. -/
theorem EndsAt.one {e : Ended α} (hnow : e.instant = now) (es : List (Ended α))
    (live : List Nat) : EndsAt now (e.id :: live) es live (es ++ [e]) := by
  refine ⟨[e], rfl, fun x hx => ?_, List.perm_append_singleton _ _⟩
  rw [List.mem_singleton] at hx
  exact hx ▸ hnow

/-- What ends after something else at the same instant ends along with it. -/
theorem EndsAt.trans {live'' : List Nat} {es'' : List (Ended α)}
    (h : EndsAt now live es live' es') (k : EndsAt now live' es' live'' es'') :
    EndsAt now live es live'' es'' := by
  obtain ⟨gone, rfl, hgone, hperm⟩ := h
  obtain ⟨gone', rfl, hgone', hperm'⟩ := k
  refine ⟨gone ++ gone', List.append_assoc .., ?_, ?_⟩
  · intro e he
    rcases List.mem_append.mp he with he | he
    · exact hgone e he
    · exact hgone' e he
  · rw [List.map_append]
    -- The two groups of calls that ended may be named in either order.
    have hswap : (live'' ++ (gone.map Ended.id ++ gone'.map Ended.id)).Perm
        (live'' ++ gone'.map Ended.id ++ gone.map Ended.id) := by
      rw [List.append_assoc]
      exact List.perm_append_comm.append_left _
    exact hswap.trans ((hperm'.append_right _).trans hperm)

/-- One more call is made. -/
theorem AreOpen.concat {i : Nat} (h : AreOpen live es) (hnew : i ∉ live)
    (hended : ended? es i = none) : AreOpen (live ++ [i]) es := by
  refine ⟨?_, fun x hx => ?_⟩
  · rw [← List.concat_eq_append]
    exact h.1.concat hnew
  · rw [List.mem_append, List.mem_singleton] at hx
    rcases hx with hx | rfl
    · exact h.2 x hx
    · exact hended

/-- A call that has gone is not in progress any more. -/
private theorem disjoint_of_perm {gone : List (Ended α)} (h : live.Nodup)
    (hperm : (live' ++ gone.map Ended.id).Perm live) {i : Nat} (hi : i ∈ live') :
    i ∉ gone.map Ended.id :=
  fun hg => (List.nodup_append.mp (hperm.nodup_iff.mpr h)).2.2 i hi i hg rfl

/-- The calls that are left are still open. -/
theorem EndsAt.areOpen (h : EndsAt now live es live' es') (hopen : AreOpen live es) :
    AreOpen live' es' := by
  obtain ⟨gone, rfl, -, hperm⟩ := h
  refine ⟨(List.nodup_append.mp (hperm.nodup_iff.mpr hopen.1)).1, fun i hi => ?_⟩
  have hold : i ∈ live := hperm.mem_iff.mp (List.mem_append_left _ hi)
  rw [ended?_append, hopen.2 i hold, ended?_eq_none_iff.mpr (disjoint_of_perm hopen.1 hperm hi)]
  rfl

/-- When calls end, there are no more of them in progress than before. -/
theorem EndsAt.length_le (h : EndsAt now live es live' es') : live'.length ≤ live.length := by
  obtain ⟨gone, -, -, hperm⟩ := h
  have hlength := hperm.length_eq
  rw [List.length_append] at hlength
  omega

/-- What can be seen of the calls that end at an instant. -/
theorem EndsAt.runs {κ ω : Type} [Host κ ω α] {ids : κ → List Nat} {k k' : κ}
    (log : κ → List (Ended α)) (h : EndsAt now (ids k) (log k) (ids k') (log k'))
    (hlog : ∀ k i, Host.ended? k i = ended? (log k) i) (hopen : AreOpen (ids k) (log k))
    (hload : Timed.load k' ≤ Timed.load k) :
    Host.Runs (fun k i => i ∈ ids k) now k k' := by
  obtain ⟨gone, hes, hgone, hperm⟩ := h
  -- A call that was in progress is either still so, or among those that have ended; and no others
  -- have.
  refine ⟨fun i hi => hperm.mem_iff.mp (List.mem_append_left _ hi), ?_, ?_, hload⟩
  · intro i hi hi'
    have hmem : i ∈ gone.map Ended.id := by
      rcases List.mem_append.mp (hperm.mem_iff.mpr hi) with hl | hg
      · exact absurd hl hi'
      · exact hg
    have hsome : ended? gone i ≠ none := fun hn => ended?_eq_none_iff.mp hn hmem
    obtain ⟨e, he⟩ := Option.ne_none_iff_exists'.mp hsome
    refine ⟨e, ?_, hgone e (List.mem_of_find?_eq_some he)⟩
    rw [hlog, hes, ended?_append, hopen.2 i hi, Option.none_or, he]
  · intro i hi
    have hmem : i ∉ gone.map Ended.id := by
      rcases hi with hi | hi
      · exact disjoint_of_perm hopen.1 hperm hi
      · exact fun hg => hi (hperm.mem_iff.mp (List.mem_append_right _ hg))
    rw [hlog, hlog, hes, ended?_append, ended?_eq_none_iff.mpr hmem, Option.or_none]

end Federation
