import Federation.Proofs.Call.Pool
import Federation.Proofs.Domain.Lawful
import Federation.Provider.Basic

/-!
# Providers can be relied upon

Whatever a provider is asked for, it answers in time: directories wait for their latency, custom
providers for the delay of their response.  Everything else follows from pools and domains, which
providers only wrap up.
-/

namespace Federation

/-- A host that only wraps another one up can be relied upon if that one can. -/
@[reducible]
def LawfulHost.ofView {κ κ' ω ω' α : Type} [Host κ ω α] [Host κ' ω' α] [LawfulHost κ]
    (view : κ' → κ) (request : κ' → ω' → ω)
    (finite : ∀ k w, LawfulHost.IsFinite κ (request k w))
    (submit : ∀ i w k, view (Host.submit i w k) = Host.submit i (request k w) (view k))
    (abort : ∀ i k, view (Host.abort i k) = Host.abort i (view k))
    (ripen : ∀ now k, view (Host.ripen now k) = Host.ripen now (view k))
    (settle : ∀ now k, view (Timed.settle now k) = Timed.settle now (view k))
    (next? : ∀ k, Timed.next? k = Timed.next? (view k))
    (load : ∀ k, Timed.load k = Timed.load (view k))
    (due? : ∀ k i, Host.due? k i = Host.due? (view k) i)
    (ended? : ∀ k i, Host.ended? k i = Host.ended? (view k) i) :
    LawfulHost κ' where
  IsFinite _ := True
  IsSound k := LawfulHost.IsSound (view k)
  Live k i := LawfulHost.Live (view k) i
  Rests now k := LawfulHost.Rests now (view k)
  ended?_of_live h hi := (ended? _ _).trans (LawfulHost.ended?_of_live h hi)
  submit {k i w} h _ hnew hended := by
    rw [ended?] at hended
    simp only [submit, ended?]
    exact LawfulHost.submit h (finite k w) hnew hended
  abort i h := by
    simp only [abort, ended?, due?, load]
    exact LawfulHost.abort i h
  ripen {k} now h := by
    obtain ⟨hsound, hruns, hdue⟩ := LawfulHost.ripen now h
    simp only [ripen, due?]
    refine ⟨hsound, ⟨?_, ?_, ?_, ?_⟩, hdue⟩
    · simpa only [ripen] using hruns.live_of_live
    · simpa only [ripen, ended?] using hruns.ended
    · simpa only [ripen, ended?] using hruns.ended?_eq
    · simpa only [ripen, load] using hruns.load_le
  ripen_live h hlive hdue := by
    simp only [due?] at hdue
    simp only [ripen]
    exact LawfulHost.ripen_live h hlive hdue
  settle {k} now h := by
    obtain ⟨hsound, hruns, hrests⟩ := LawfulHost.settle now h
    simp only [settle]
    refine ⟨hsound, ⟨?_, ?_, ?_, ?_⟩, hrests⟩
    · simpa only [settle] using hruns.live_of_live
    · simpa only [settle, ended?] using hruns.ended
    · simpa only [settle, ended?] using hruns.ended?_eq
    · simpa only [settle, load] using hruns.load_le
  next h ht := by
    simp only [next?, due?] at ht ⊢
    exact LawfulHost.next h ht
  ahead h hrests hdue := LawfulHost.ahead h hrests ((due? _ _).symm.trans hdue)
  rests h hrests hi := by
    simp only [next?]
    exact LawfulHost.rests h hrests hi

namespace Directory

instance : LawfulHost Access where
  IsFinite work := ∀ h s, (work h s).2.2.pause.isSome = true
  IsSound
    | .concurrent pool => LawfulHost.IsSound pool
    | .serialized domain => LawfulHost.IsSound domain
  Live
    | .concurrent pool => LawfulHost.Live pool
    | .serialized domain => LawfulHost.Live domain
  Rests
    | now, .concurrent pool => LawfulHost.Rests now pool
    | now, .serialized domain => LawfulHost.Rests now domain
  ended?_of_live {a _} h hi := by
    cases a with
    | concurrent pool => exact LawfulHost.ended?_of_live (κ := Pool Server Output) h hi
    | serialized domain => exact LawfulHost.ended?_of_live (κ := Domain Unit Server Output) h hi
  submit {a _ _} h hfinite hnew hended := by
    cases a with
    | concurrent pool => exact LawfulHost.submit (κ := Pool Server Output) h (hfinite ()) hnew hended
    | serialized domain =>
      exact LawfulHost.submit (κ := Domain Unit Server Output) h hfinite hnew hended
  abort {a} i h := by
    cases a with
    | concurrent pool => exact LawfulHost.abort (κ := Pool Server Output) i h
    | serialized domain => exact LawfulHost.abort (κ := Domain Unit Server Output) i h
  ripen {a} now h := by
    cases a with
    | concurrent pool =>
      obtain ⟨hsound, hruns, hdue⟩ := LawfulHost.ripen (κ := Pool Server Output) now h
      exact ⟨hsound, ⟨hruns.1, hruns.2, hruns.3, hruns.4⟩, hdue⟩
    | serialized domain =>
      obtain ⟨hsound, hruns, hdue⟩ := LawfulHost.ripen (κ := Domain Unit Server Output) now h
      exact ⟨hsound, ⟨hruns.1, hruns.2, hruns.3, hruns.4⟩, hdue⟩
  ripen_live {a _ _} h hlive hdue := by
    cases a with
    | concurrent pool =>
      exact LawfulHost.ripen_live (κ := Pool Server Output) h hlive hdue
    | serialized domain =>
      exact LawfulHost.ripen_live (κ := Domain Unit Server Output) h hlive hdue
  settle {a} now h := by
    cases a with
    | concurrent pool =>
      obtain ⟨hsound, hruns, hrests⟩ := LawfulHost.settle (κ := Pool Server Output) now h
      exact ⟨hsound, ⟨hruns.1, hruns.2, hruns.3, hruns.4⟩, hrests⟩
    | serialized domain =>
      obtain ⟨hsound, hruns, hrests⟩ := LawfulHost.settle (κ := Domain Unit Server Output) now h
      exact ⟨hsound, ⟨hruns.1, hruns.2, hruns.3, hruns.4⟩, hrests⟩
  next {a _} h ht := by
    cases a with
    | concurrent pool => exact LawfulHost.next (κ := Pool Server Output) h ht
    | serialized domain => exact LawfulHost.next (κ := Domain Unit Server Output) h ht
  ahead {a _ _ _} h hrests hdue := by
    cases a with
    | concurrent pool => exact LawfulHost.ahead (κ := Pool Server Output) h hrests hdue
    | serialized domain => exact LawfulHost.ahead (κ := Domain Unit Server Output) h hrests hdue
  rests {a _ _} h hrests hi := by
    cases a with
    | concurrent pool => exact LawfulHost.rests (κ := Pool Server Output) h hrests hi
    | serialized domain => exact LawfulHost.rests (κ := Domain Unit Server Output) h hrests hi

instance : LawfulHost Directory :=
  .ofView Directory.access work (fun _ _ _ _ => rfl) (fun _ _ _ => rfl) (fun _ _ => rfl)
    (fun _ _ => rfl) (fun _ _ => rfl) (fun _ => rfl) (fun _ => rfl) (fun _ _ => rfl)
    (fun _ _ => rfl)

end Directory

instance : LawfulHost Custom :=
  .ofView Custom.pool Custom.work (fun _ _ _ => rfl) (fun _ _ _ => rfl) (fun _ _ => rfl)
    (fun _ _ => rfl) (fun _ _ => rfl) (fun _ => rfl) (fun _ => rfl) (fun _ _ => rfl)
    (fun _ _ => rfl)

namespace Provider

instance : LawfulHost Provider where
  IsFinite _ := True
  IsSound
    | directory d => LawfulHost.IsSound d
    | custom c => LawfulHost.IsSound c
  Live
    | directory d => LawfulHost.Live d
    | custom c => LawfulHost.Live c
  Rests
    | now, directory d => LawfulHost.Rests now d
    | now, custom c => LawfulHost.Rests now c
  ended?_of_live {p _} h hi := by
    cases p with
    | directory d => exact LawfulHost.ended?_of_live (κ := Directory) h hi
    | custom c => exact LawfulHost.ended?_of_live (κ := Custom) h hi
  submit {p _ _} h _ hnew hended := by
    cases p with
    | directory d => exact LawfulHost.submit (κ := Directory) h trivial hnew hended
    | custom c => exact LawfulHost.submit (κ := Custom) h trivial hnew hended
  abort {p} i h := by
    cases p with
    | directory d => exact LawfulHost.abort (κ := Directory) i h
    | custom c => exact LawfulHost.abort (κ := Custom) i h
  ripen {p} now h := by
    cases p with
    | directory d =>
      obtain ⟨hsound, hruns, hdue⟩ := LawfulHost.ripen (κ := Directory) now h
      exact ⟨hsound, ⟨hruns.1, hruns.2, hruns.3, hruns.4⟩, hdue⟩
    | custom c =>
      obtain ⟨hsound, hruns, hdue⟩ := LawfulHost.ripen (κ := Custom) now h
      exact ⟨hsound, ⟨hruns.1, hruns.2, hruns.3, hruns.4⟩, hdue⟩
  ripen_live {p _ _} h hlive hdue := by
    cases p with
    | directory d => exact LawfulHost.ripen_live (κ := Directory) h hlive hdue
    | custom c => exact LawfulHost.ripen_live (κ := Custom) h hlive hdue
  settle {p} now h := by
    cases p with
    | directory d =>
      obtain ⟨hsound, hruns, hrests⟩ := LawfulHost.settle (κ := Directory) now h
      exact ⟨hsound, ⟨hruns.1, hruns.2, hruns.3, hruns.4⟩, hrests⟩
    | custom c =>
      obtain ⟨hsound, hruns, hrests⟩ := LawfulHost.settle (κ := Custom) now h
      exact ⟨hsound, ⟨hruns.1, hruns.2, hruns.3, hruns.4⟩, hrests⟩
  next {p _} h ht := by
    cases p with
    | directory d => exact LawfulHost.next (κ := Directory) h ht
    | custom c => exact LawfulHost.next (κ := Custom) h ht
  ahead {p _ _ _} h hrests hdue := by
    cases p with
    | directory d => exact LawfulHost.ahead (κ := Directory) h hrests hdue
    | custom c => exact LawfulHost.ahead (κ := Custom) h hrests hdue
  rests {p _ _} h hrests hi := by
    cases p with
    | directory d => exact LawfulHost.rests (κ := Directory) h hrests hi
    | custom c => exact LawfulHost.rests (κ := Custom) h hrests hi

end Provider

end Federation
