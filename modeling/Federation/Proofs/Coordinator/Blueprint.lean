import Federation.Coordinator.Blueprint
import Federation.Proofs.Config.Validity

/-!
# Coordinators as they were described

Settings are made one after the other, in any order and as often as one likes.  Of several that say
the same kind of thing, the last one counts, but every provider that is registered stays registered.
What a coordinator is in the end can be read off the settings themselves, without the tables in which
they were kept meanwhile.

## Key results

- `holds_ofSettings`: what a blueprint holds is what was said last
- `repeated?_eq_none_iff`, `build_eq_ok_iff`: when a coordinator can be made
- `equips_station`: what a station may do, and for how long
- `rank?_mergeEngine`: the ranks, if no engine was given
- `build_spec`: all of it together
-/

namespace Federation

/-- A station is found by its name if names are not repeated. -/
theorem Coordinator.station?_id_of_nodup {c : Coordinator} (h : c.ids.Nodup) {s : Station}
    (hs : s ∈ c.stations) : c.station? s.id = some s :=
  find?_eq_of_nodup h hs

namespace Blueprint

variable {α : Type} {b : Blueprint} {settings : List Setting}

/-! ## Settings -/

namespace Setting

/-- How long a call into a provider may take, if a setting says so of this provider. -/
def deadline? (p : ProviderId) : Setting → Option Nat
  | deadline q ms => if q = p then some ms else none
  | _ => none

/-- How long a call into any other provider may take, if a setting says so. -/
def defaultDeadline? : Setting → Option Nat
  | defaultDeadline ms => some ms
  | _ => none

/-- The operations to which a setting restricts a provider. -/
def capabilities? (p : ProviderId) : Setting → Option Capabilities
  | capabilities q c => if q = p then some c else none
  | _ => none

/-- The engine that a setting gives. -/
def engine? : Setting → Option Merge.Engine
  | engine e => some e
  | _ => none

/-- The configuration that a setting gives. -/
def config? : Setting → Option Config
  | config c => some c
  | _ => none

end Setting

/-- What is said by the last of some settings that says such a thing. -/
def last (said : Setting → Option α) (settings : List Setting) : Option α :=
  settings.reverse.findSome? said

/-- A setting that says something comes after all others, and counts. -/
theorem last_concat (said : Setting → Option α) (settings : List Setting) (s : Setting) :
    last said (settings ++ [s]) = (said s).or (last said settings) := by
  rw [last, List.reverse_concat, List.findSome?_cons, last]
  cases said s <;> rfl

/-- The providers that are registered by some settings, in their order. -/
def registered (settings : List Setting) : List Provider := settings.filterMap Setting.provider?

/-- The entry of a provider in the configuration, if there is one. -/
def configured? (settings : List Setting) (p : ProviderId) : Option ProviderConfig :=
  (last Setting.config? settings).bind fun c => c.provider? p

/-- A blueprint holds what some settings have said last. -/
structure Holds (settings : List Setting) (b : Blueprint) : Prop where
  providers : b.providers = registered settings
  deadlines : ∀ p, b.deadlines.get? p = last (Setting.deadline? p) settings
  defaultDeadline : b.defaultDeadline = last Setting.defaultDeadline? settings
  capabilities : ∀ p, b.capabilities.get? p = last (Setting.capabilities? p) settings
  engine : b.engine = last Setting.engine? settings
  config : b.config = last Setting.config? settings

/-- One more setting replaces what was said of the same thing. -/
theorem Holds.set (h : Holds settings b) (s : Setting) : Holds (settings ++ [s]) (b.set s) where
  -- The setting concerns one of the parts and leaves the others as they were.
  providers := by
    rw [providers_set, h.providers, registered, registered, List.filterMap_append]
    cases s <;> rfl
  deadlines p := by
    rw [last_concat, ← h.deadlines]
    cases s with
    | deadline q ms =>
      rw [Blueprint.set, Table.get?_insert, Setting.deadline?]
      by_cases hq : q = p
      · simp [hq]
      · simp [hq, Ne.symm hq]
    | _ => rfl
  defaultDeadline := by
    rw [last_concat, ← h.defaultDeadline]
    cases s <;> rfl
  capabilities p := by
    rw [last_concat, ← h.capabilities]
    cases s with
    | capabilities q c =>
      rw [Blueprint.set, Table.get?_insert, Setting.capabilities?]
      by_cases hq : q = p
      · simp [hq]
      · simp [hq, Ne.symm hq]
    | _ => rfl
  engine := by
    rw [last_concat, ← h.engine]
    cases s <;> rfl
  config := by
    rw [last_concat, ← h.config]
    cases s <;> rfl

/-- A blueprint made from settings holds what was said last. -/
theorem holds_ofSettings (settings : List Setting) : Holds settings (ofSettings settings) := by
  induction settings using List.reverseRecOn with
  | nil => exact ⟨rfl, fun _ => rfl, rfl, fun _ => rfl, rfl, rfl⟩
  | append_singleton settings s ih =>
    rw [ofSettings, List.foldl_concat]
    exact ih.set s

/-! ## What can be wrong -/

/-- No provider is registered twice exactly if no name is repeated, or was seen before. -/
theorem repeated?_eq_none_iff {seen : List ProviderId} {ps : List Provider} :
    repeated? seen ps = none ↔ (ps.map Provider.id).Nodup ∧ ∀ p ∈ ps, p.id ∉ seen := by
  induction ps generalizing seen with
  | nil => simp [repeated?]
  | cons p ps ih =>
    unfold repeated?
    by_cases hseen : p.id ∈ seen
    · simp [hseen]
    · simp only [hseen, ih, List.contains_eq_mem, decide_false, Bool.false_eq_true, if_false,
        List.mem_append, List.mem_singleton, not_or, List.forall_mem_cons, List.map_cons,
        List.nodup_cons, List.mem_map, not_exists, not_and, forall_and, not_false_eq_true, true_and]
      tauto

/-- A blueprint has no problem exactly if the configuration makes sense, no name is given twice, and
    every configured provider is registered. -/
theorem problem?_eq_none_iff :
    b.problem? = none ↔
      (∀ c, b.config = some c → c.validate = .ok ()) ∧ (b.providers.map Provider.id).Nodup ∧
        ∀ c, b.config = some c → ∀ e ∈ c.providers, e.id ∈ b.providers.map Provider.id := by
  have hrepeated : repeated? [] b.providers = none ↔ (b.providers.map Provider.id).Nodup := by
    simp [repeated?_eq_none_iff]
  have hconfig : b.config.bind Config.problem? = none ↔
      ∀ c, b.config = some c → c.validate = .ok () := by
    cases b.config <;> simp [Config.validate_eq_ok_iff_problem?]
  rw [← hrepeated, ← hconfig]
  unfold problem?
  -- The problems are looked for one after the other, and the first one is told.
  cases b.config.bind Config.problem? with
  | some p => simp
  | none =>
    cases repeated? [] b.providers with
    | some p => simp
    | none =>
      cases b.config with
      | none => simp
      | some c => simp

/-- When a coordinator can be made of a blueprint, and which one it is. -/
theorem build_eq_ok_iff {x : Coordinator} :
    b.build = .ok x ↔ b.problem? = none ∧
      x = { stations := b.providers.map b.station, engine := b.mergeEngine } := by
  unfold build
  cases b.problem? <;> simp [eq_comm]

/-- A coordinator cannot be made exactly if the blueprint has a problem. -/
theorem exists_build_eq_error_iff : (∃ f, b.build = .error f) ↔ b.problem? ≠ none := by
  unfold build
  cases b.problem? <;> simp

/-! ## Stations -/

/-- A station is equipped as some settings say.  Its provider can only be asked for what it declares
    itself, and for less if the configuration says so, and for less again if a setting does.  How long
    a call may take is said by the first of four that says anything. -/
structure Equips (settings : List Setting) (p : Provider) (s : Station) : Prop where
  provider : s.provider = p
  supports : ∀ o, s.capabilities.supports o = true ↔
    p.capabilities.supports o = true ∧
      (∀ e, configured? settings p.id = some e → e.capabilities.supports o = true) ∧
      ∀ n, last (Setting.capabilities? p.id) settings = some n → n.supports o = true
  deadline : s.deadline =
    [last (Setting.deadline? p.id) settings,
      (configured? settings p.id).bind ProviderConfig.deadlineMs,
      last Setting.defaultDeadline? settings,
      (last Setting.config? settings).bind Config.defaultDeadlineMs].findSome? id

/-- All capabilities support everything. -/
theorem supports_all (o : Operation) : Capabilities.all.supports o = true := by
  cases o <;> rfl

/-- Who is not restricted may be asked for everything. -/
theorem supports_getD_all (c : Option Capabilities) (o : Operation) :
    (c.getD .all).supports o = true ↔ ∀ n, c = some n → n.supports o = true := by
  cases c <;> simp [supports_all]

/-- A station is equipped as the settings say. -/
theorem equips_station (h : Holds settings b) (p : Provider) :
    Equips settings p (b.station p) := by
  have hconfigured : ∀ q, b.configOf? q = configured? settings q := by
    intro q
    rw [configOf?, h.config, configured?]
  refine ⟨rfl, fun o => ?supports, ?deadline⟩
  case supports =>
    show (b.capabilitiesOf p).supports o = true ↔ _
    rw [capabilitiesOf, hconfigured, h.capabilities, Capabilities.supports_inter,
      Capabilities.supports_inter, Bool.and_eq_true, Bool.and_eq_true, supports_getD_all,
      supports_getD_all, and_assoc]
    simp
  case deadline =>
    show b.deadlineOf? p.id = _
    rw [deadlineOf?, hconfigured, h.deadlines, h.defaultDeadline, h.config]
    -- Each source of a deadline is asked only if those before it say nothing.
    cases last (Setting.deadline? p.id) settings with
    | some d => rfl
    | none =>
      cases (configured? settings p.id).bind ProviderConfig.deadlineMs with
      | some d => rfl
      | none =>
        cases last Setting.defaultDeadline? settings with
        | some d => rfl
        | none => cases (last Setting.config? settings).bind Config.defaultDeadlineMs <;> rfl

/-! ## Ranks -/

/-- If no engine was given, the ranks are those of the configuration.  If there is no configuration,
    either, providers are ranked in the order in which they were registered. -/
theorem rank?_mergeEngine (hengine : b.engine = none) (hproblem : b.problem? = none)
    {q : ProviderId} {rank : Int} :
    b.mergeEngine.priority.rank? q = some rank ↔
      match b.config with
      | some c => ∃ (i : Nat) (e : ProviderConfig), c.providers[i]? = some e ∧ e.id = q ∧
          rank = e.priority.getD i
      | none => ∃ (i : Nat) (p : Provider), b.providers[i]? = some p ∧ p.id = q ∧ rank = i := by
  obtain ⟨hvalid, hnodup, -⟩ := problem?_eq_none_iff.mp hproblem
  unfold mergeEngine
  rw [hengine]
  cases hconfig : b.config with
  | some c =>
    dsimp only
    rw [Config.priority_mergeEngine,
      Config.rank?_priority_eq_some_iff (Config.nodup_of_validate (hvalid c hconfig))]
  | none =>
    dsimp only
    simp only [Merge.Priority.rank?_ofOrder, Option.map_eq_some_iff,
      idxOf?_eq_some_iff_of_nodup hnodup, List.getElem?_map]
    grind

/-- A coordinator can be made exactly if the configuration makes sense, no two registered providers
    have one name, and every configured provider is registered.  Then it has the registered
    providers, in this order, and each of them is equipped as was said last, be it before or after it
    was registered; nobody is asked for more than it declares.  An engine that was given is the one
    that merges; otherwise the ranks are those of the configuration, and without one they are the
    places in the order of registration. -/
theorem build_spec (settings : List Setting) :
    let ps := registered settings
    let config := last Setting.config? settings
    let b := ofSettings settings
    ((∃ f, b.build = .error f) ↔
      (∃ c, config = some c ∧ c.validate ≠ .ok ()) ∨ ¬(ps.map Provider.id).Nodup ∨
        ∃ c, config = some c ∧ ∃ e ∈ c.providers, e.id ∉ ps.map Provider.id) ∧
    ∀ x, b.build = .ok x →
      x.ids = ps.map Provider.id ∧
      (∀ p ∈ ps, ∃ s, x.station? p.id = some s ∧ Equips settings p s ∧
        ∀ o, s.capabilities.supports o = true → p.capabilities.supports o = true) ∧
      (∀ e, last Setting.engine? settings = some e → x.engine = e) ∧
      (last Setting.engine? settings = none → ∀ q rank,
        x.engine.priority.rank? q = some rank ↔
          match config with
          | some c => ∃ (i : Nat) (e : ProviderConfig), c.providers[i]? = some e ∧ e.id = q ∧
              rank = e.priority.getD i
          | none => ∃ (i : Nat) (p : Provider), ps[i]? = some p ∧ p.id = q ∧ rank = i) := by
  intro ps config b
  have hholds := holds_ofSettings settings
  have hps : b.providers = ps := hholds.providers
  have hconfig : b.config = config := hholds.config
  refine ⟨?fails, fun x hbuild => ?made⟩
  case fails =>
    rw [exists_build_eq_error_iff, Ne, problem?_eq_none_iff, hps, hconfig]
    grind
  case made =>
    obtain ⟨hproblem, rfl⟩ := build_eq_ok_iff.mp hbuild
    obtain ⟨-, hnodup, -⟩ := problem?_eq_none_iff.mp hproblem
    have hids := build_ids hbuild
    refine ⟨hps ▸ hids, fun p hp => ?station, fun e he => ?given, fun hnone q rank => ?ranks⟩
    -- Names are distinct, so the station of a provider is the one made for it.
    case station =>
      have hequips := equips_station hholds p
      have hmem : b.station p ∈ b.providers.map b.station := List.mem_map_of_mem (hps ▸ hp)
      exact ⟨b.station p, Coordinator.station?_id_of_nodup (hids ▸ hnodup) hmem, hequips,
        fun o ho => ((hequips.supports o).mp ho).1⟩
    case given =>
      rw [← hholds.engine] at he
      show b.mergeEngine = e
      unfold mergeEngine
      rw [he]
    case ranks =>
      rw [← hconfig, ← hps]
      exact rank?_mergeEngine (hholds.engine.trans hnone) hproblem

/-- What is said of a provider counts though it is said before the provider is registered. -/
theorem build_spec_overlapping :
    let ldap : Provider := .directory { id := ⟨"ldap"⟩ }
    let hr : Provider := .directory { id := ⟨"hr"⟩ }
    let settings : List Setting :=
      [.deadline ⟨"ldap"⟩ 5, .capabilities ⟨"hr"⟩ .readOnly, .provider hr, .defaultDeadline 9,
        .provider ldap,
        .config
          { providers := [{ id := ⟨"ldap"⟩, priority := some 3, deadlineMs := some 7 }]
            defaultDeadlineMs := some 8 }]
    ∃ x s t, (ofSettings settings).build = .ok x ∧ x.ids = [⟨"hr"⟩, ⟨"ldap"⟩] ∧
      x.station? ⟨"ldap"⟩ = some s ∧ s.deadline = some 5 ∧
      x.station? ⟨"hr"⟩ = some t ∧ t.deadline = some 9 ∧
      t.capabilities.supports (.changePassword "") = false ∧
      x.engine.priority.rank? ⟨"ldap"⟩ = some 3 := by
  intro ldap hr settings
  obtain ⟨-, hmade⟩ := build_spec settings
  obtain ⟨hids, hstations, -, hranks⟩ := hmade _ rfl
  obtain ⟨s, hs, hequips, -⟩ := hstations ldap (by simp [settings, registered, Setting.provider?])
  obtain ⟨t, ht, hequips', -⟩ := hstations hr (by simp [settings, registered, Setting.provider?])
  refine ⟨_, s, t, rfl, hids, hs, hequips.deadline, ht, hequips'.deadline, ?_, ?_⟩
  · refine Bool.eq_false_iff.mpr fun h => ?_
    exact Bool.false_ne_true (((hequips'.supports _).mp h).2.2 .readOnly rfl)
  · exact (hranks rfl _ _).mpr ⟨0, _, rfl, rfl, rfl⟩

end Blueprint

end Federation
