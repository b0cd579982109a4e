import Federation.Proofs.Json.RoundTrip
import Federation.Proofs.Wire.Reader
import Federation.Wire.Config
import Mathlib

/-!
# Texts of configurations

A configuration is read back from its text, whether it makes sense or not, so that reading and
checking the text finds what checking the configuration finds.

## Key results

- `distinctNames_eq`: settings without repeated names are not changed when they are read
- `settings?_eq_some`: which settings are read as they are
- `providerConfig?_ofProviderConfig`, `config?_ofConfig`: the documents of configurations are read
  back
- `parse_render`: a configuration is read back from its text, and checking it gives the same
-/

namespace Federation

namespace Json

/-- A document in which no object has two members of one name. -/
inductive HasUniqueNames : Json → Prop
  | scalar {j : Json} (items : j.array? = none) (members : j.object? = none) : HasUniqueNames j
  | array (xs : List Json) (items : ∀ x ∈ xs, HasUniqueNames x) : HasUniqueNames (array xs)
  | object (ms : List (String × Json)) (names : (ms.map Prod.fst).Nodup)
      (members : ∀ m ∈ ms, HasUniqueNames m.2) : HasUniqueNames (object ms)

/-- An array stays as it is if each of its items does. -/
theorem distinctItems_eq {xs : List Json} (items : ∀ x ∈ xs, x.distinctNames = x) :
    distinctItems xs = xs := by
  induction xs with
  | nil => rfl
  | cons x xs ih =>
    have hxs := ih fun y hy => items y (List.mem_cons_of_mem x hy)
    rw [distinctItems, items x List.mem_cons_self, hxs]

/-- An object without repeated names stays as it is if each of its values does. -/
theorem distinctMembers_eq {ms : List (String × Json)} (names : (ms.map Prod.fst).Nodup)
    (members : ∀ m ∈ ms, m.2.distinctNames = m.2) : distinctMembers ms = ms := by
  induction ms with
  | nil => rfl
  | cons m ms ih =>
    obtain ⟨name, x⟩ := m
    obtain ⟨hname, hrest⟩ := List.nodup_cons.mp names
    have hms := ih hrest fun m hm => members m (List.mem_cons_of_mem _ hm)
    -- No later member has the name, so this one is not replaced.
    have hother : (ms.any fun m => m.1 == name) = false := by
      rw [List.any_eq_false]
      intro m hm heq
      exact hname (List.mem_map.mpr ⟨m, hm, by simpa using heq⟩)
    have hx : x.distinctNames = x := members _ List.mem_cons_self
    simp [distinctMembers, hms, hother, hx]

/-- A document without repeated names stays as it is when they are resolved. -/
theorem distinctNames_eq {j : Json} (h : j.HasUniqueNames) : j.distinctNames = j := by
  induction h with
  | @scalar j items members =>
    cases j with
    | array xs => exact absurd items (Option.some_ne_none xs)
    | object ms => exact absurd members (Option.some_ne_none ms)
    | _ => rfl
  | array xs _ ih => rw [distinctNames, distinctItems_eq ih]
  | object ms names _ ih => rw [distinctNames, distinctMembers_eq names ih]

/-- Items can be made sense of if each of them can. -/
theorem itemsMeaningful_iff {xs : List Json} :
    itemsMeaningful xs = true ↔ ∀ x ∈ xs, x.isMeaningful = true := by
  induction xs with
  | nil => simp [itemsMeaningful]
  | cons x xs ih => simp [itemsMeaningful, ih]

/-- Members can be made sense of if each of their values can. -/
theorem membersMeaningful_iff {ms : List (String × Json)} :
    membersMeaningful ms = true ↔ ∀ m ∈ ms, m.2.isMeaningful = true := by
  induction ms with
  | nil => simp [membersMeaningful]
  | cons m ms ih => simp [membersMeaningful, ih]

/-- Whatever is written out exactly can be made sense of. -/
theorem IsExact.isMeaningful {j : Json} (h : j.IsExact) : j.isMeaningful = true := by
  induction h with
  | array xs _ ih => exact itemsMeaningful_iff.mpr ih
  | object ms _ ih => exact membersMeaningful_iff.mpr ih
  | _ => rfl

end Json

/-! ## What a configuration can hold -/

/-- The configuration of a provider whose numbers are words and whose settings can be written: they
    hold no doubles and, inside the three arrays and objects around them, do not nest too deeply. -/
structure ProviderConfig.Writable (c : ProviderConfig) : Prop where
  priority : ∀ n ∈ c.priority, Word.isSigned n = true
  deadline : ∀ n ∈ c.deadlineMs, Word.isUnsigned n = true
  exact : c.settings.IsExact
  names : c.settings.HasUniqueNames
  nesting : c.settings.depth + 3 ≤ Wire.nestingLimit

/-- A configuration whose numbers are words and whose settings can be written.  It need not make
    sense. -/
structure Config.Writable (c : Config) : Prop where
  providers : ∀ p ∈ c.providers, p.Writable
  deadline : ∀ n ∈ c.defaultDeadlineMs, Word.isUnsigned n = true

namespace Wire

open Json (IsExact)

variable {α : Type}

/-! ## Fields -/

/-- The name of a property is read back. -/
theorem property?_ofProperty (p : Property) : property? (ofProperty p) = some p := by
  refine choice?_string_name (Property.mem_all p) fun q _ hname => ?_
  have hq := Property.ofName?_name q
  rw [hname, Property.ofName?_name] at hq
  exact (Option.some.inj hq).symm

/-- An optional field is read back, whether it was written or left out. -/
theorem optional?_nullable {read : Json → Option α} {write : α → Json} {a? : Option α}
    (back : ∀ a ∈ a?, read (write a) = some a) (notNull : ∀ a, write a ≠ .null) :
    optional? (nullable? read) none (a?.map write) = some a? := by
  cases a? with
  | none => rfl
  | some a =>
    show nullable? read (write a) = some (some a)
    unfold nullable?
    split
    · next h => exact absurd h (notNull a)
    · rw [back a rfl, Option.map_some]

/-- A signed word is read back. -/
theorem signed?_integer {n : Int} (h : Word.isSigned n = true) : signed? (.integer n) = some n :=
  if_pos h

/-- An unsigned word is read back. -/
theorem unsigned?_natural {n : Nat} (h : Word.isUnsigned n = true) :
    unsigned? (.natural n) = some n := by
  simp [unsigned?, Json.natural, h]

/-- Settings are taken over as they are, if they are exact, repeat no name and are not nested too
    deeply. -/
theorem settings?_eq_some {level : Nat} {j : Json} (exact : j.IsExact) (names : j.HasUniqueNames)
    (nesting : j.depth + level ≤ nestingLimit) : settings? level j = some j := by
  rw [settings?, if_pos ⟨exact.isMeaningful, nesting⟩, Json.distinctNames_eq names]

/-! ## Documents -/

/-- The configuration of a provider is read back, field by field. -/
theorem providerConfig?_ofProviderConfig {c : ProviderConfig} (h : c.Writable) :
    providerConfig? 2 (ofProviderConfig c) = some c := by
  have hfields : fields?
      ["id", "priority", "supports_read", "supports_password_change", "concurrency_safe",
        "deadline_ms", "settings"] (ofProviderConfig c) =
      some [some (ofProviderId c.id), c.priority.map .integer, some (.bool c.supportsRead),
        some (.bool c.supportsPasswordChange), some (.bool c.concurrencySafe),
        c.deadlineMs.map .natural, some c.settings] :=
    fields?_ofMembers (by simp)
  -- A field whose value is missing is not written, and reads as its default.
  have hpriority : optional? (nullable? signed?) none (c.priority.map .integer) = some c.priority :=
    optional?_nullable (fun n hn => signed?_integer (h.priority n hn)) fun _ => nofun
  have hdeadline : optional? (nullable? unsigned?) none (c.deadlineMs.map .natural) =
      some c.deadlineMs :=
    optional?_nullable (fun n hn => unsigned?_natural (h.deadline n hn)) fun _ => nofun
  have hsettings : optional? (settings? (2 + 1)) .null (some c.settings) = some c.settings :=
    settings?_eq_some h.exact h.names h.nesting
  unfold providerConfig?
  simp only [hfields, hpriority, hdeadline, hsettings, Option.bind_eq_bind, Option.bind_some]
  rfl

/-- The merge rules of a configuration are read back. -/
theorem mergeConfig?_ofMergeConfig (c : MergeConfig) :
    mergeConfig? (ofMergeConfig c) = some c := by
  have hunion : list? property? (.array (c.unionProperties.map ofProperty)) =
      some c.unionProperties :=
    list?_map fun p _ => property?_ofProperty p
  show (do some (MergeConfig.mk (← list? property? (.array (c.unionProperties.map ofProperty))))) =
    some c
  rw [hunion]
  rfl

/-- A configuration is read back, field by field. -/
theorem config?_ofConfig {c : Config} (h : c.Writable) : config? (ofConfig c) = some c := by
  have hfields : fields? ["providers", "default_deadline_ms", "merge"] (ofConfig c) =
      some [some (.array (c.providers.map ofProviderConfig)), c.defaultDeadlineMs.map .natural,
        some (ofMergeConfig c.merge)] :=
    fields?_ofMembers (by simp)
  -- Each field is read on its own, whatever the others are.
  have hproviders : list? (providerConfig? 2) (.array (c.providers.map ofProviderConfig)) =
      some c.providers :=
    list?_map fun p hp => providerConfig?_ofProviderConfig (h.providers p hp)
  have hdeadline : optional? (nullable? unsigned?) none (c.defaultDeadlineMs.map .natural) =
      some c.defaultDeadlineMs :=
    optional?_nullable (fun n hn => unsigned?_natural (h.deadline n hn)) fun _ => nofun
  have hmerge : optional? mergeConfig? {} (some (ofMergeConfig c.merge)) = some c.merge :=
    mergeConfig?_ofMergeConfig c.merge
  unfold config?
  simp only [hfields, required?, hproviders, hdeadline, hmerge, Option.bind_eq_bind,
    Option.bind_some]

/-! ## Texts -/

/-- A signed word is written out exactly. -/
theorem isExact_signed {n : Int} (h : Word.isSigned n = true) : IsExact (.integer n) :=
  .integer n (by simp [Json.fitsWord, h])

/-- An unsigned word is written out exactly. -/
theorem isExact_unsigned {n : Nat} (h : Word.isUnsigned n = true) : IsExact (.natural n) :=
  .integer n (by simp [Json.fitsWord, h])

/-- The document of a provider is exact if its settings are. -/
theorem isExact_ofProviderConfig {c : ProviderConfig} (h : c.Writable) :
    IsExact (ofProviderConfig c) := by
  refine isExact_ofMembers ?_
  simp only [List.forall_mem_cons, Option.some.injEq, Option.map_eq_some_iff]
  refine ⟨?_, ?_, ?_, ?_, ?_, ?_, ?_, by simp⟩
  · rintro j rfl; exact .string _
  · rintro j ⟨n, hn, rfl⟩; exact isExact_signed (h.priority n hn)
  · rintro j rfl; exact .bool _
  · rintro j rfl; exact .bool _
  · rintro j rfl; exact .bool _
  · rintro j ⟨n, hn, rfl⟩; exact isExact_unsigned (h.deadline n hn)
  · rintro j rfl; exact h.exact

/-- The document of merge rules is exact. -/
theorem isExact_ofMergeConfig (c : MergeConfig) : IsExact (ofMergeConfig c) := by
  refine .object _ fun m hm => ?_
  obtain rfl := List.mem_singleton.mp hm
  exact isExact_list fun p _ => .string p.name

/-- The document of a configuration is exact if those of its providers are. -/
theorem isExact_ofConfig {c : Config} (h : c.Writable) : IsExact (ofConfig c) := by
  refine isExact_ofMembers ?_
  simp only [List.forall_mem_cons, Option.some.injEq, Option.map_eq_some_iff]
  refine ⟨?_, ?_, ?_, by simp⟩
  · rintro j rfl; exact isExact_list fun p hp => isExact_ofProviderConfig (h.providers p hp)
  · rintro j ⟨n, hn, rfl⟩; exact isExact_unsigned (h.deadline n hn)
  · rintro j rfl; exact isExact_ofMergeConfig c.merge

end Wire

namespace Config

/-- A configuration is read back from its text. -/
theorem parse_render {c : Config} (h : c.Writable) : parse (Wire.ofConfig c).render = .ok c := by
  unfold parse
  rw [Json.parse?_render (Wire.isExact_ofConfig h), Option.bind_some, Wire.config?_ofConfig h]

/-- A configuration is read back from its text, and what is wrong with it is found in its text. -/
theorem ofString_render {c : Config} (h : c.Writable) :
    parse (Wire.ofConfig c).render = .ok c ∧
      (c.validate = .ok () → ofString (Wire.ofConfig c).render = .ok c) ∧
      ∀ f, c.validate = .error f → ofString (Wire.ofConfig c).render = .error f := by
  have hparse := parse_render h
  -- What has been parsed is validated, and nothing else is done with it.
  have hof : ofString (Wire.ofConfig c).render = (do c.validate; return c) := by
    unfold ofString
    rw [hparse]
    rfl
  refine ⟨hparse, fun hvalid => ?_, fun f hinvalid => ?_⟩
  · rw [hof, hvalid]
    rfl
  · rw [hof, hinvalid]
    rfl

/-- A directory with the least rank, the longest deadline and settings that need escapes. -/
def extreme : ProviderConfig :=
  { id := ⟨"ldap"⟩
    priority := some (-9223372036854775808)
    deadlineMs := some 18446744073709551615
    settings := .object [("base \"dn\"", .array [.string "ou=\n", .null]), ("", .object [])] }

/-- Numbers at the ends of their ranges and settings that need escapes can be written. -/
theorem writable_extreme : extreme.Writable where
  priority := by simp [extreme, Word.isSigned, Word.negativeCount]
  deadline := by simp [extreme, Word.isUnsigned, Word.count]
  exact := by
    refine .object _ ?_
    simpa using ⟨.array _ (by simpa using ⟨.string _, .null⟩), .object _ (by simp)⟩
  names := by
    refine .object _ (by simp) ?_
    simpa using ⟨.array _ (by simpa using ⟨.scalar rfl rfl, .scalar rfl rfl⟩),
      .object _ (by simp) (by simp)⟩
  nesting := by decide

/-- A configuration with extreme numbers is read from its text, and is refused if there is no time
    for calls into providers without a deadline of their own. -/
theorem ofString_render_extreme :
    ofString (Wire.ofConfig { providers := [extreme] }).render = .ok { providers := [extreme] } ∧
      ofString (Wire.ofConfig { providers := [extreme], defaultDeadlineMs := some 0 }).render =
        .error Problem.zeroDefaultDeadline.toFault := by
  -- Both documents can be written, so their texts say what they say.
  have hproviders : ∀ p ∈ [extreme], p.Writable := by simpa using writable_extreme
  have hvalid : Config.Writable { providers := [extreme] } := ⟨hproviders, nofun⟩
  have hinvalid : Config.Writable { providers := [extreme], defaultDeadlineMs := some 0 } :=
    ⟨hproviders, by simp [Word.isUnsigned, Word.count]⟩
  have hproblem : problem? { providers := [extreme], defaultDeadlineMs := some 0 } =
      some .zeroDefaultDeadline := by
    simp [problem?, providerProblem?, extreme, show Text.isBlank "ldap" = false by cbv]
  constructor
  · exact (ofString_render hvalid).2.1 (by cbv)
  · exact (ofString_render hinvalid).2.2 Problem.zeroDefaultDeadline.toFault
      (by rw [validate, hproblem])

end Config

end Federation
