import Federation.Text.Quoted

/-! # Provider identifiers

A provider is a directory that takes part in the federation.  It is known by a name that the
configuration chooses; inside it, a user is known by a *local id*. -/

namespace Federation

/-- The name of a provider. -/
structure ProviderId where
  name : String
  deriving DecidableEq, Repr

namespace ProviderId

/-- The identifier as diagnostics show it. -/
def inspect (p : ProviderId) : String :=
  "ProviderId(" ++ Text.quote p.name ++ ")"

end ProviderId

instance : ToString ProviderId := ⟨ProviderId.name⟩

/-- One user inside one provider. -/
structure Account where
  provider : ProviderId
  localId : String
  deriving DecidableEq, Repr

namespace Account

/-- The account as a short text. -/
def text (a : Account) : String := a.provider.name ++ ":" ++ a.localId

/-- The account as diagnostics show it. -/
def inspect (a : Account) : String :=
  "ProviderSubject \x7b provider: " ++ a.provider.inspect ++ ", local_id: " ++
    Text.quote a.localId ++ " \x7d"

end Account

end Federation
