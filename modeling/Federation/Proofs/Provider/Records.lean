import Federation.Proofs.Provider.Regime

/-!
# In whose name records are made

A directory makes its records in its own name.  If a custom provider does so, too, every record that
a call into a provider has returned bears the name of this provider.

## Key results

- `Regime.vouching`: the regime under which calls return only what they should
- `IsSigned.isFrom`: a record that a call has returned bears the name of the provider
-/

namespace Federation

/-- The regime under which calls return only what they should, whatever they share. -/
def Regime.vouching {η σ α : Type} (good : α → Prop) : Regime η σ α where
  holds _ es := ∀ e ∈ es, ∀ x, e.ending = .returned (.ok x) → good x
  may _ work := ∀ h s h' s' x, ((work h s).2.2.finish h' s').2.2 = .returned (.ok x) → good x
  going _ visit := ∀ h s x, (visit.finish h s).2.2 = .returned (.ok x) → good x
  begins h hmay hs := ⟨hs, hmay h _⟩
  finishes h now hgoing hs _ := by
    intro e he x hx
    rcases List.mem_append.mp he with he | he
    · exact hs e he x hx
    · obtain rfl := List.mem_singleton.mp he
      exact hgoing h _ x hx
  leaves _ hs := hs
  fails now f hs _ := by
    intro e he x hx
    rcases List.mem_append.mp he with he | he
    · exact hs e he x hx
    · obtain rfl := List.mem_singleton.mp he
      exact nomatch hx

/-! ## Records -/

/-- The record that is answered, if there is one, is made in the name of a provider. -/
def Output.IsFrom (p : ProviderId) (x : Output) : Prop := ∀ r, x.record? = some r → r.provider = p

/-- A record in the name of a provider is an output from it. -/
theorem Output.isFrom_record {p : ProviderId} {r : Record} (h : r.provider = p) :
    (Output.record r).IsFrom p := fun _ hr => Option.some.inj hr ▸ h

/-- A directory answers with records in its own name. -/
theorem Directory.Server.isFrom_answer {provider : ProviderId} {supported : List Property}
    {o : Operation} {localId : String} {s : Server} {x : Output}
    (h : (s.answer provider supported o localId).2 = .ok x) : x.IsFrom provider := by
  intro r hr
  -- Only reading returns a record, and that is made for the account of the directory.
  unfold answer at h
  split at h
  · exact nomatch h
  · obtain rfl := Except.ok.inj h
    unfold read at hr
    split at hr
    · obtain rfl := Option.some.inj hr
      exact congrArg Account.provider (Record.account_ofReports _ _)
    · exact nomatch hr
  · unfold changePassword at h
    split at h
    · obtain rfl := Except.ok.inj h
      exact nomatch hr
    · exact nomatch h

namespace Provider

/-- The records of a provider are made in its own name: it is a directory, or it is a custom
    provider that responds with such records only. -/
def Signs : Provider → Prop
  | directory _ => True
  | custom c => ∀ n request x, (c.respond n request).ending = .returned (.ok x) → x.IsFrom c.id

/-- Calls return records in the name of the provider. -/
def signing : Regimes where
  directory p := .vouching (Output.IsFrom p)
  custom p := .vouching (Output.IsFrom p)

/-- A provider that makes its records in its own name, as have all the calls into it. -/
structure IsSigned (p : Provider) : Prop where
  under : p.Under signing
  signs : p.Signs

variable {p : Provider}

/-- A provider that signs its records still does whatever happens in it. -/
theorem IsSigned.keeps : Host.Keeps IsSigned where
  abort {p} i h := ⟨(Under.keeps signing).abort i h.under, by cases p <;> exact h.signs⟩
  ripen {p} now h := ⟨(Under.keeps signing).ripen now h.under, by cases p <;> exact h.signs⟩
  settle {p} now h := ⟨(Under.keeps signing).settle now h.under, by cases p <;> exact h.signs⟩

/-- A provider that signs its records still does when it is called. -/
theorem IsSigned.submit {i : Nat} (hnew : ¬LawfulHost.Live p i) (hended : Host.ended? p i = none)
    (h : p.IsSigned) (request : Request) : (Host.submit i request p).IsSigned := by
  refine ⟨h.under.submit hnew hended ?grants, by cases p <;> exact h.signs⟩
  case grants =>
    cases p with
    | directory d =>
      intro _ _ _ s x hx
      exact Directory.Server.isFrom_answer (Ending.returned.inj hx)
    | custom c =>
      intro _ seen _ _ x hx
      exact h.signs _ request x hx

/-- A directory signs its records whatever is done to its server. -/
theorem IsSigned.mapServer (f : Directory.Server → Directory.Server) (h : p.IsSigned) :
    (p.mapDirectory (Directory.mapServer f)).IsSigned :=
  ⟨h.under.mapServer fun _ _ _ hs => hs, by cases p <;> exact h.signs⟩

/-- A provider that was not called yet signs its records if it is of the kind that does. -/
theorem isSigned_of_isFresh (h : p.IsFresh) (hsigns : p.Signs) : p.IsSigned :=
  ⟨under_of_isFresh h (fun _ _ => nofun) (fun _ _ => nofun), hsigns⟩

/-- A record that a call has returned bears the name of the provider. -/
theorem IsSigned.isFrom (h : p.IsSigned) {i : Nat} {e : Ended Output} {x : Output}
    (hended : Host.ended? p i = some e) (hx : e.ending = .returned (.ok x)) : x.IsFrom p.id := by
  cases p with
  | directory d =>
    obtain ⟨es, hholds, hes⟩ := h.under.holds_directory
    exact hholds e (List.mem_of_find?_eq_some ((hes i).symm.trans hended)) x hx
  | custom c =>
    obtain ⟨es, hholds, hes⟩ := h.under.holds_custom
    exact hholds e (List.mem_of_find?_eq_some ((hes i).symm.trans hended)) x hx

end Provider

end Federation
