import Activation.Proofs.FirstFailure
import Activation.Proofs.Order.Rank
import Activation.Proofs.Steady

namespace Activation

private theorem Name.pairwise_idxOf_distinct (names : List String) :
    (distinct names).Pairwise fun a b => names.idxOf a < names.idxOf b := by
  refine (Rank.pairwise_distinct names).imp_of_mem fun {a b} ha hb hearlier => ?_
  obtain ⟨i, hi⟩ := Option.isSome_iff_exists.mp (List.isSome_idxOf?.mpr (mem_distinct.mp ha))
  obtain ⟨j, hj⟩ := Option.isSome_iff_exists.mp (List.isSome_idxOf?.mpr (mem_distinct.mp hb))
  rw [hi, hj] at hearlier
  rwa [List.idxOf_eq_getD_idxOf?, List.idxOf_eq_getD_idxOf?, hi, hj]

namespace Resolver

variable {σ : Type} {resolver : Resolver σ} {files : Snapshot} {site other : Site}
  {progress twin after : Progress σ} {catalog : Catalog} {metadata : Metadata}
  {result : Except Error Entry} {names : List String} {name : String}

-- All that a site leaves out by one of the three ways, in their order, repeats included.
def sources (resolver : Resolver σ) (site : Site) : List String :=
  site.exclude ++ site.excludeName ++
    Exclusion.ofProperty resolver.engine resolver.host.properties

theorem exclusions_eq_distinct (resolver : Resolver σ) (site : Site) :
    resolver.exclusions site = Name.distinct (resolver.sources site) := rfl

-- What a site leaves out without need: a known type that is no candidate.
structure Misnames (resolver : Resolver σ) (catalog : Catalog) (site : Site) (name : String) :
    Prop where
  excluded : name ∈ resolver.sources site
  known : resolver.host.types name = true
  unregistered : name ∉ catalog.modules resolver.engine.point

@[simp]
theorem mem_invalidExclusions :
    name ∈ resolver.invalidExclusions catalog site ↔ resolver.Misnames catalog site name := by
  rw [invalidExclusions, Exclusion.invalid, List.mem_filter, Bool.and_eq_true, decide_eq_true_eq,
    exclusions_eq_distinct, Name.mem_distinct, Name.mem_distinct]
  exact ⟨fun h => ⟨h.1, h.2.1, h.2.2⟩, fun h => ⟨h.excluded, h.known, h.unregistered⟩⟩

theorem invalidExclusions_eq_nil_iff :
    resolver.invalidExclusions catalog site = [] ↔
      ∀ name, ¬ resolver.Misnames catalog site name := by
  rw [List.eq_nil_iff_forall_not_mem]
  exact forall_congr' fun name => not_congr mem_invalidExclusions

theorem invalidExclusions_sublist (resolver : Resolver σ) (catalog : Catalog) (site : Site) :
    (resolver.invalidExclusions catalog site).Sublist (Name.distinct (resolver.sources site)) :=
  List.filter_sublist

theorem Course.invalidExclusions_eq
    (h : Course resolver files site progress (.error (.invalidExclusions names)) after calls)
    (hloaded : (progress.stores.loadCatalog files).1 = .ok catalog) :
    resolver.invalidExclusions catalog site = names ∧ names ≠ [] := by
  cases h with
  | exclusions enabled loaded registered invalid =>
      obtain rfl := Except.ok.inj (loaded.symm.trans hloaded)
      exact ⟨rfl, invalid⟩
  | filter admitted loaded chain passed failed => cases failed

theorem resolve_eq_invalidExclusions_iff (henabled : resolver.isEnabled site = .ok true)
    (hloaded : (progress.stores.loadCatalog files).1 = .ok catalog)
    (hregistered : catalog.modules resolver.engine.point ≠ []) :
    (resolver.resolve files site progress).1 = .error (.invalidExclusions names) ↔
      resolver.invalidExclusions catalog site = names ∧ names ≠ [] := by
  constructor
  · intro h
    obtain ⟨result, after, calls, hcourse⟩ := exists_course resolver files site progress
    rw [hcourse.resolve] at h
    obtain rfl : result = .error (.invalidExclusions names) := h
    exact hcourse.invalidExclusions_eq hloaded
  · rintro ⟨rfl, hinvalid⟩
    rw [resolve_of_enabled henabled, resolveEnabled_of_invalid hloaded hregistered hinvalid]

section Quiet

-- The same resolver without listeners: where it ends is where the other one tells them.
def quiet (resolver : Resolver σ) : Resolver σ := { resolver with listeners := [] }

-- What comes of a site when listeners are told of it as well: the same, unless one of them fails.
inductive Told (listeners : List (Listener σ)) :
    Except Error Entry → Except Error Entry → Prop where
  | heard {result : Except Error Entry} : Told listeners result result
  | failed {entry : Entry} {listener : Listener σ} {reason : String}
      (registered : listener ∈ listeners) :
      Told listeners (.ok entry) (.error (.extension s!"listener '{listener.name}'" reason))

private theorem Admitted.quiet (h : resolver.Admitted files site progress catalog) :
    resolver.quiet.Admitted files site progress catalog :=
  ⟨h.enabled, h.loaded, h.registered, h.valid⟩

private theorem Course.quiet (h : Course resolver files site progress result after calls) :
    ∃ plain last others, Course resolver.quiet files site progress plain last others ∧
      Told resolver.listeners plain result := by
  cases h with
  | property unset found unread => exact ⟨_, _, _, .property unset found unread, .heard⟩
  | disabled disabled => exact ⟨_, _, _, .disabled disabled, .heard⟩
  | catalog enabled failed => exact ⟨_, _, _, .catalog enabled failed, .heard⟩
  | candidates enabled loaded unregistered =>
      exact ⟨_, _, _, .candidates enabled loaded unregistered, .heard⟩
  | exclusions enabled loaded registered invalid =>
      exact ⟨_, _, _, .exclusions enabled loaded registered invalid, .heard⟩
  | metadata admitted failed => exact ⟨_, _, _, .metadata admitted.quiet failed, .heard⟩
  | filter admitted loaded chain passed failed =>
      exact ⟨_, _, _, .filter admitted.quiet loaded chain passed failed, .heard⟩
  | listener admitted loaded passed outcome row heard failed =>
      exact ⟨_, _, _, .done admitted.quiet loaded passed outcome .nil,
        .failed (row ▸ List.mem_append_right _ List.mem_cons_self)⟩
  | done admitted loaded passed outcome heard =>
      exact ⟨_, _, _, .done admitted.quiet loaded passed outcome .nil, .heard⟩

theorem told_resolve (resolver : Resolver σ) (files : Snapshot) (site : Site)
    (progress : Progress σ) :
    Told resolver.listeners (resolver.quiet.resolve files site progress).1
      (resolver.resolve files site progress).1 := by
  obtain ⟨result, after, calls, hcourse⟩ := exists_course resolver files site progress
  obtain ⟨plain, last, others, hquiet, htold⟩ := hcourse.quiet
  rwa [hcourse.resolve, hquiet.resolve]

private theorem accepting_quiet (resolver : Resolver σ) (catalog : Catalog) (site : Site)
    (metadata : Metadata) (progress : Progress σ) :
    (resolver.quiet.accepting catalog site metadata progress).1.map Entry.configurations =
      (Filter.screen resolver.filters (resolver.remaining catalog site) metadata
        progress.outside).1 := by
  have hscreen : Filter.screen resolver.quiet.filters (resolver.quiet.remaining catalog site)
      metadata progress.outside = Filter.screen resolver.filters (resolver.remaining catalog site)
        metadata progress.outside := rfl
  rw [accepting, Step.bind, screening, hscreen]
  rcases Filter.screen resolver.filters (resolver.remaining catalog site) metadata
    progress.outside with ⟨error | accepted, outside⟩ <;> rfl

theorem Admitted.resolve_quiet (h : resolver.Admitted files site progress catalog) :
    (resolver.quiet.resolve files site progress).1.map Entry.configurations =
      ((progress.stores.loadMetadata files).1.mapError .stores).bind fun metadata =>
        (Filter.screen resolver.filters (resolver.remaining catalog site) metadata
          progress.outside).1 := by
  cases hm : (progress.stores.loadMetadata files).1 with
  | error fault =>
      rw [h.quiet.resolve_of_unloaded hm]
      rfl
  | ok metadata =>
      rw [h.quiet.resolve_of_loaded hm, accepting_quiet]
      rfl

private theorem remaining_congr (h : ∀ module ∈ catalog.modules resolver.engine.point,
      module ∈ resolver.sources other ↔ module ∈ resolver.sources site) :
    resolver.remaining catalog other = resolver.remaining catalog site := by
  refine List.filter_congr fun module hm => ?_
  simp [exclusions_eq_distinct, h module (Name.mem_distinct.mp hm)]

end Quiet

-- A site that is switched on fails by its exclusions exactly when it names a known type that is no
-- candidate, and the failure lists all such names in the order they are first named. Further names
-- that are no candidates count for nothing: where the same candidates are left out, filters that go
-- by their arguments leave the same modules or fail alike, and only listeners can tell the sites
-- apart.
theorem misnamed_exclusions_fail_others_are_inert (resolver : Resolver σ) (files : Snapshot)
    (site : Site) (progress : Progress σ) (catalog : Catalog)
    (henabled : resolver.isEnabled site = .ok true)
    (hloaded : (progress.stores.loadCatalog files).1 = .ok catalog)
    (hregistered : catalog.modules resolver.engine.point ≠ []) :
    ((∃ names, (resolver.resolve files site progress).1 = .error (.invalidExclusions names)) ↔
      ∃ name, resolver.Misnames catalog site name) ∧
    (∀ names, (resolver.resolve files site progress).1 = .error (.invalidExclusions names) →
      (∀ name, name ∈ names ↔ resolver.Misnames catalog site name) ∧ names.Nodup ∧
      names.Pairwise fun a b =>
        (resolver.sources site).idxOf a < (resolver.sources site).idxOf b) ∧
    ∀ (other : Site) (twin : Progress σ), (∀ filter ∈ resolver.filters, filter.Steady) →
      resolver.isEnabled other = .ok true →
      (twin.stores.loadCatalog files).1 = .ok catalog →
      (twin.stores.loadMetadata files).1 = (progress.stores.loadMetadata files).1 →
      (∀ name, ¬ resolver.Misnames catalog site name) →
      (∀ name, ¬ resolver.Misnames catalog other name) →
      (∀ module ∈ catalog.modules resolver.engine.point,
        module ∈ resolver.sources other ↔ module ∈ resolver.sources site) →
      (resolver.quiet.resolve files other twin).1.map Entry.configurations =
        (resolver.quiet.resolve files site progress).1.map Entry.configurations ∧
      Told resolver.listeners (resolver.quiet.resolve files site progress).1
        (resolver.resolve files site progress).1 ∧
      Told resolver.listeners (resolver.quiet.resolve files other twin).1
        (resolver.resolve files other twin).1 := by
  have hresolve : ∀ names, (resolver.resolve files site progress).1 =
      .error (.invalidExclusions names) ↔
        resolver.invalidExclusions catalog site = names ∧ names ≠ [] :=
    fun names => resolve_eq_invalidExclusions_iff henabled hloaded hregistered
  refine ⟨⟨?_, ?_⟩, fun names h => ?_, ?_⟩
  · rintro ⟨names, h⟩
    obtain ⟨rfl, hinvalid⟩ := (hresolve names).mp h
    obtain ⟨name, hm⟩ := List.exists_mem_of_ne_nil _ hinvalid
    exact ⟨name, mem_invalidExclusions.mp hm⟩
  · rintro ⟨name, hname⟩
    exact ⟨_, (hresolve _).mpr ⟨rfl, List.ne_nil_of_mem (mem_invalidExclusions.mpr hname)⟩⟩
  · obtain ⟨rfl, -⟩ := (hresolve names).mp h
    have hsublist := resolver.invalidExclusions_sublist catalog site
    exact ⟨fun name => mem_invalidExclusions, (Name.nodup_distinct _).sublist hsublist,
      (Name.pairwise_idxOf_distinct _).sublist hsublist⟩
  · intro other twin hfilters hother hcatalog hmetadata hvalid hothers hsame
    have hsite : resolver.Admitted files site progress catalog :=
      ⟨henabled, hloaded, hregistered, invalidExclusions_eq_nil_iff.mpr hvalid⟩
    have htwin : resolver.Admitted files other twin catalog :=
      ⟨hother, hcatalog, hregistered, invalidExclusions_eq_nil_iff.mpr hothers⟩
    refine ⟨?_, resolver.told_resolve files site progress, resolver.told_resolve files other twin⟩
    rw [hsite.resolve_quiet, htwin.resolve_quiet, hmetadata, remaining_congr hsame]
    congr 1
    funext metadata
    exact Filter.screen_steady hfilters _ metadata _ _

-- The second filter goes by the number of slots, and one listener fails when it hears of a ghost.
def afraidOfGhost : Resolver Nat :=
  Assembly.build
    { filters := [.ofCondition .onType,
        ⟨.custom "pairs" fun _ slots _ asked =>
          (.ok (slots.map fun _ => decide (slots.length = 2)), asked + 1), []⟩]
      listeners := [.report, ⟨.custom "timid" fun _ event told =>
        (if event.exclusions.contains "ghost" then .error "boo" else .ok (), told), []⟩]
      host := { types := fun name => decide (name ∈ ["a", "json", "xml"]) } }

def catalogOfABC : Catalog :=
  ["a", "b", "c", "a"].foldl (fun catalog => catalog.register Catalog.defaultPoint) .empty

def progressOfABC : Progress Nat := ⟨.ofLoaded catalogOfABC .empty, [], 0⟩

def ghostSite : Site := { origin := "main", exclude := ["ghost", "b"] }

def phantomSite : Site := { origin := "next", exclude := ["b"], excludeName := ["phantom", "b"] }

theorem misnamed_exclusions_fail_others_are_inert_afraidOfGhost :
    (∀ name, name ∈ ["xml", "json"] ↔ afraidOfGhost.Misnames catalogOfABC
        { origin := "off", exclude := ["xml", "b"], excludeName := ["json", "ghost", "xml"] }
        name) ∧
      (afraidOfGhost.resolve (fun _ => .nothing .notFound) ghostSite progressOfABC).1 =
        .error (.extension "listener 'timid'" "boo") ∧
      (afraidOfGhost.resolve (fun _ => .nothing .notFound) phantomSite progressOfABC).1.map
        Entry.configurations = .ok ["a", "c"] ∧
      (afraidOfGhost.quiet.resolve (fun _ => .nothing .notFound) ghostSite progressOfABC).1.map
        Entry.configurations = .ok ["a", "c"] := by
  have hregistered : catalogOfABC.modules afraidOfGhost.engine.point ≠ [] := by decide
  have hfilters : ∀ filter ∈ afraidOfGhost.filters, filter.Steady := by
    intro filter hm
    obtain rfl | hm := List.mem_cons.mp hm
    · exact Filter.steady_of_condition rfl
    · obtain rfl := List.mem_singleton.mp hm
      exact fun _ _ _ _ => rfl
  have hvalid : ∀ site ∈ [ghostSite, phantomSite], ∀ name,
      ¬ afraidOfGhost.Misnames catalogOfABC site name := by
    rw [List.forall_mem_cons, List.forall_mem_singleton]
    exact ⟨invalidExclusions_eq_nil_iff.mp rfl, invalidExclusions_eq_nil_iff.mp rfl⟩
  obtain ⟨-, hnames, -⟩ := misnamed_exclusions_fail_others_are_inert afraidOfGhost
    (fun _ => .nothing .notFound)
    { origin := "off", exclude := ["xml", "b"], excludeName := ["json", "ghost", "xml"] }
    progressOfABC catalogOfABC rfl rfl hregistered
  obtain ⟨-, -, hinert⟩ := misnamed_exclusions_fail_others_are_inert afraidOfGhost
    (fun _ => .nothing .notFound) phantomSite progressOfABC catalogOfABC rfl rfl hregistered
  obtain ⟨hquiet, -, -⟩ := hinert ghostSite progressOfABC hfilters rfl rfl rfl
    (hvalid _ (by simp)) (hvalid _ (by simp)) (by decide)
  refine ⟨(hnames ["xml", "json"] rfl).1, rfl, rfl, ?_⟩
  rw [hquiet]
  rfl

end Resolver

end Activation
