import Federation.Proofs.Call.Regime
import Federation.Proofs.Domain.Lawful

/-!
# Domains under a regime

The calls of a domain have the handle one after the other, but they work in the same surroundings as
the caller sees.  So a regime holds that all of them obey: when a call begins and ends, when it has
had the handle for too long, and when it is given up.  Blocking calls are left out, since nobody
knows what becomes of one that is not awaited.

## Key results

- `Under.turn`: a turn keeps a domain under a regime
- `Under.submit`, `Under.abort`, `Under.ripen`, `Under.settle`: so does whatever the domain does
- `Under.transfer`: a domain comes under another regime before a call is made that only this one
  grants
-/

namespace Federation.Domain

variable {η σ α : Type} {R R' : Regime η σ α} {d d' : Domain η σ α} {now : Nat}

/-- An order obeys a regime. -/
def Order.Obeys (R : Regime η σ α) : Order η σ α → Prop
  | .call id mode work => mode ≠ .blocking ∧ R.may id work
  | .reset => True

/-- The calls of a domain obey a regime, and it holds. -/
structure Under (R : Regime η σ α) (d : Domain η σ α) : Prop where
  sound : d.IsSound
  holds : R.holds d.shared d.ended
  obeys : ∀ o ∈ d.queue, o.Obeys R
  lease : ∀ l, d.lease = some l → l.mode ≠ .blocking ∧ R.going l.id l.visit

/-! ## One turn -/

/-- The call that has the handle has not ended. -/
theorem Under.open_of_lease (h : d.Under R) {l : Lease η σ α} (hl : d.lease = some l) :
    Federation.ended? d.ended l.id = none := by
  refine h.sound.areOpen.2 l.id ?_
  rw [ids_of_lease hl]
  exact List.mem_cons_self

/-- The regime holds after the end of a lease. -/
theorem Under.ends {l : Lease η σ α} (h : d.Under R) (hends : Ends now l d d')
    (hsound : d'.IsSound) (hholds : R.holds d'.shared d'.ended) : d'.Under R where
  sound := hsound
  holds := hholds
  obeys := hends.queue ▸ h.obeys
  lease _ hl := nomatch hends.lease.symm.trans hl

/-- The regime holds when the work ends. -/
theorem Under.holds_finish (h : d.Under R) {l : Lease η σ α} (hl : d.lease = some l) (now : Nat) :
    R.holds (d.finish now l).shared (d.finish now l).ended := by
  obtain ⟨hmode, hgoing⟩ := h.lease l hl
  have hends := R.finishes l.handle now hgoing h.holds (h.open_of_lease hl)
  unfold finish
  dsimp only
  split
  · next r hr =>
    rw [hr] at hends
    exact hends
  · next hblocking => exact absurd hblocking hmode
  · next hcrashed _ =>
    rw [hcrashed] at hends
    exact hends

/-- A call that is given up leaves the surroundings as the regime wants them. -/
theorem Under.holds_withdraw (h : d.Under R) {l : Lease η σ α} (hl : d.lease = some l) :
    R.holds (d.withdraw l).shared (d.withdraw l).ended := by
  obtain ⟨hmode, hgoing⟩ := h.lease l hl
  unfold withdraw
  split
  · next hblocking => exact absurd hblocking hmode
  · exact R.leaves hgoing h.holds

/-- The regime holds when the work runs out of time. -/
theorem Under.holds_expire (h : d.Under R) {l : Lease η σ α} (hl : d.lease = some l) (now : Nat) :
    R.holds (d.expire now l).shared (d.expire now l).ended := by
  have hopen : Federation.ended? (d.withdraw l).ended l.id = none := by
    rw [(withdraw_eq l d).2.2]
    exact h.open_of_lease hl
  exact R.fails now _ (h.holds_withdraw hl) hopen

/-- A call that is to have the handle begins its work as the regime wants it, or ends without. -/
theorem under_lend {id : Nat} {mode : Mode} {work : Work η σ α}
    (hholds : R.holds d.shared d.ended) (hobeys : ∀ o ∈ d.queue, o.Obeys R) (hl : d.lease = none)
    (hmode : mode ≠ .blocking) (hmay : R.may id work)
    (hopen : Federation.ended? d.ended id = none)
    (hsound : (d.lend now id mode work).IsSound) : (d.lend now id mode work).Under R := by
  obtain ⟨hlease, hqueue, hended⟩ := take_eq d
  have hshared : d.take.1.shared = d.shared := by
    unfold take
    split
    · rfl
    · dsimp only
      split <;> rfl
  revert hsound
  unfold Domain.lend
  split
  -- There is no handle, so the call fails without having touched the surroundings.
  · next d' f ht =>
    rw [ht] at hlease hqueue hended hshared
    dsimp only at hlease hqueue hended hshared
    intro hsound
    refine ⟨hsound, ?_, ?_, ?_⟩
    · show R.holds d'.shared (d'.ended ++ _)
      rw [hshared, hended]
      exact R.fails now f hholds hopen
    · exact fun o ho => hobeys o (hqueue ▸ ho)
    · exact fun l hl' => nomatch (hlease.trans hl).symm.trans hl'
  · next d' handle ht =>
    rw [ht] at hlease hqueue hended hshared
    dsimp only at hlease hqueue hended hshared
    -- There is a handle, and taking it has changed neither the surroundings nor the ends.
    intro hsound
    rw [← hshared, ← hended] at hholds
    obtain ⟨hholds', hgoing⟩ := R.begins handle hmay hholds
    refine ⟨hsound, hholds', fun o ho => hobeys o (hqueue ▸ ho), fun l hl' => ?_⟩
    obtain rfl := Option.some.inj hl'
    exact ⟨hmode, hgoing⟩

/-- A turn keeps a domain under its regime. -/
theorem Under.turn (h : d.Under R) (ht : d.turn now = some d') : d'.Under R := by
  have hsound := (turn_spec h.sound ht).isSound h.sound
  unfold Domain.turn at ht
  split at ht
  -- The call that has the handle ends, or its time is up.
  · next l hl =>
    split at ht
    · obtain rfl := Option.some.inj ht
      exact h.ends (ends_finish now l d) hsound (h.holds_finish hl now)
    · split at ht
      · obtain rfl := Option.some.inj ht
        exact h.ends (ends_expire now l d) hsound (h.holds_expire hl now)
      · exact nomatch ht
  · next hl =>
    split at ht
    · exact nomatch ht
    · next rest hq =>
      obtain rfl := Option.some.inj ht
      exact ⟨hsound, h.holds, fun o ho => h.obeys o (hq ▸ List.mem_cons_of_mem _ ho), h.lease⟩
    -- The next call in the queue is to have the handle, and has not ended before.
    · next id mode work rest hq =>
      obtain rfl := Option.some.inj ht
      obtain ⟨hmode, hmay⟩ : mode ≠ .blocking ∧ R.may id work :=
        h.obeys (.call id mode work) (hq ▸ List.mem_cons_self)
      have hopen : Federation.ended? d.ended id = none := by
        refine h.sound.areOpen.2 id ?_
        rw [ids_of_no_lease hl, queued, hq, List.filterMap_cons_some (f := Order.id?) (b := id) rfl]
        exact List.mem_cons_self
      have hobeys : ∀ o ∈ rest, o.Obeys R := fun o ho => h.obeys o (hq ▸ List.mem_cons_of_mem _ ho)
      exact under_lend (d := { d with queue := rest }) h.holds hobeys hl hmode hmay hopen hsound

/-! ## The domain as a host -/

/-- A domain under its regime settles under it. -/
theorem Under.settle (h : d.Under R) (now : Nat) : (d.settle now).Under R :=
  Timed.exhaust_induction (fun _ _ h ht => h.turn ht) _ h

/-- A domain under its regime stays under it when something falls due. -/
theorem Under.ripen (h : d.Under R) (now : Nat) : (d.ripen now).Under R := by
  unfold Domain.ripen
  split
  · cases ht : d.turn now with
    | none => exact h
    | some d' => exact h.turn ht
  · exact h

/-- A domain under its regime stays under it when a call is given up. -/
theorem Under.abort (h : d.Under R) (i : Nat) : (d.abort i).Under R := by
  have hsound := h.sound.abort i
  rcases abort_eq i d with ⟨l, hl, -, heq⟩ | ⟨-, heq⟩
  · obtain ⟨hlease, hqueue, -⟩ := withdraw_eq l d
    rw [heq] at hsound ⊢
    exact ⟨hsound, h.holds_withdraw hl, hqueue ▸ h.obeys, fun _ hl' => nomatch hlease.symm.trans hl'⟩
  · rw [heq] at hsound ⊢
    exact ⟨hsound, h.holds, fun o ho => h.obeys o (List.mem_filter.mp ho).1, h.lease⟩

/-- A new call that the regime allows keeps the domain under it. -/
theorem Under.submit (h : d.Under R) {i : Nat} {mode : Mode} {work : Work η σ α}
    (hfinite : ∀ h s, (work h s).2.2.pause.isSome = true) (hnew : i ∉ d.ids)
    (hended : Federation.ended? d.ended i = none) (hmode : mode ≠ .blocking)
    (hmay : R.may i work) : (d.submit (.call i mode work)).Under R where
  sound := h.sound.submit hfinite hnew hended
  holds := h.holds
  lease := h.lease
  obeys o ho := by
    rcases List.mem_append.mp ho with ho | ho
    · exact h.obeys o ho
    · rw [List.mem_singleton] at ho
      exact ho ▸ ⟨hmode, hmay⟩

/-- The surroundings are changed from outside. -/
theorem Under.alter (h : d.Under R) {s : σ} (hs : R.holds s d.ended) :
    Under R { d with shared := s } :=
  ⟨⟨h.sound.areOpen, h.sound.isFinite, h.sound.due⟩, hs, h.obeys, h.lease⟩

/-- The calls in progress obey a regime that differs only in a call that is yet to be made. -/
theorem Under.transfer (h : d.Under R) {n : Nat} (hR : R.Extends n d.shared R')
    (hnew : n ∉ d.ids) (hended : Federation.ended? d.ended n = none) : d.Under R' := by
  refine ⟨h.sound, hR.holds _ hended h.holds, fun o ho => ?_, fun l hl => ?_⟩
  · cases o with
    | reset => trivial
    | call id mode work =>
      have hid : id ∈ d.queued := List.mem_filterMap.mpr ⟨_, ho, rfl⟩
      have hne : id ≠ n := fun he => hnew (he ▸ List.mem_append_right _ hid)
      exact (h.obeys _ ho).imp_right (hR.may id work hne)
  · have hne : l.id ≠ n := by
      rintro rfl
      rw [ids_of_lease hl] at hnew
      exact hnew List.mem_cons_self
    exact (h.lease l hl).imp_right (hR.going l.id l.visit hne)

end Federation.Domain
