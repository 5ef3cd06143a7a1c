import Activation.Proofs.Noting

namespace Activation.Resolver

variable {σ : Type} {resolver : Resolver σ} {files : Snapshot} {site : Site}
  {progress after : Progress σ} {catalog : Catalog} {metadata : Metadata}
  {result : Except Error Entry} {calls : List Call}

def invalidExclusions (resolver : Resolver σ) (catalog : Catalog) (site : Site) : List String :=
  Exclusion.invalid (Name.distinct (catalog.modules resolver.engine.point))
    (resolver.exclusions site) resolver.host.types

-- A site that is switched on, and whose exclusions are in order with the candidates there are.
structure Admitted (resolver : Resolver σ) (files : Snapshot) (site : Site)
    (progress : Progress σ) (catalog : Catalog) : Prop where
  enabled : resolver.isEnabled site = .ok true
  loaded : (progress.stores.loadCatalog files).1 = .ok catalog
  registered : catalog.modules resolver.engine.point ≠ []
  valid : resolver.invalidExclusions catalog site = []

def withCatalog (progress : Progress σ) (catalog : Catalog) : Progress σ :=
  { progress with stores := { progress.stores with catalog := some catalog } }

def withStores (progress : Progress σ) (catalog : Catalog) (metadata : Metadata) : Progress σ :=
  { progress with stores := ⟨progress.stores.roots, some catalog, some metadata⟩ }

-- Where the resolution of a site can end, in the order of the stages: with what result, leaving
-- what behind, and after which calls.
inductive Course (resolver : Resolver σ) (files : Snapshot) (site : Site) (progress : Progress σ) :
    Except Error Entry → Progress σ → List Call → Prop where
  | property {value : String} (unset : site.enabled = none)
      (found : resolver.host.properties.get? resolver.engine.enabledProperty = some value)
      (unread : PropertySource.flagOf? value = none) :
      Course resolver files site progress
        (.error (.invalidProperty resolver.engine.enabledProperty value)) progress []
  | disabled (disabled : resolver.isEnabled site = .ok false) :
      Course resolver files site progress (.ok .disabled) progress []
  | catalog {fault : StoreFault} (enabled : resolver.isEnabled site = .ok true)
      (failed : (progress.stores.loadCatalog files).1 = .error fault) :
      Course resolver files site progress (.error (.stores fault)) progress []
  | candidates {catalog : Catalog} (enabled : resolver.isEnabled site = .ok true)
      (loaded : (progress.stores.loadCatalog files).1 = .ok catalog)
      (unregistered : catalog.modules resolver.engine.point = []) :
      Course resolver files site progress
        (.error (.stores (.noCandidates resolver.engine.point))) (withCatalog progress catalog) []
  | exclusions {catalog : Catalog} (enabled : resolver.isEnabled site = .ok true)
      (loaded : (progress.stores.loadCatalog files).1 = .ok catalog)
      (registered : catalog.modules resolver.engine.point ≠ [])
      (invalid : resolver.invalidExclusions catalog site ≠ []) :
      Course resolver files site progress
        (.error (.invalidExclusions (resolver.invalidExclusions catalog site)))
        (withCatalog progress catalog) []
  | metadata {catalog : Catalog} {fault : StoreFault}
      (admitted : resolver.Admitted files site progress catalog)
      (failed : (progress.stores.loadMetadata files).1 = .error fault) :
      Course resolver files site progress (.error (.stores fault)) (withCatalog progress catalog) []
  | filter {catalog : Catalog} {metadata : Metadata} {earlier later : List (Filter σ)}
      {filter : Filter σ} {shown : List Slots} {screened : Slots} {middle outside : σ}
      {error : Error} (admitted : resolver.Admitted files site progress catalog)
      (loaded : (progress.stores.loadMetadata files).1 = .ok metadata)
      (chain : resolver.filters = earlier ++ filter :: later)
      (passed : Filter.Passes metadata earlier ((resolver.remaining catalog site).map some)
        progress.outside shown screened middle)
      (failed : filter.Fails metadata screened middle error outside) :
      Course resolver files site progress (.error error)
        { withStores progress catalog metadata with outside }
        ((shown ++ [screened]).mapIdx .filter)
  | listener {catalog : Catalog} {metadata : Metadata} {shown : List Slots} {screened : Slots}
      {outside : σ} {earlier later : List (Listener σ)} {listener : Listener σ}
      {event : Event} {middle last : Record σ} {reason : String}
      (admitted : resolver.Admitted files site progress catalog)
      (loaded : (progress.stores.loadMetadata files).1 = .ok metadata)
      (passed : Filter.Passes metadata resolver.filters
        ((resolver.remaining catalog site).map some) progress.outside shown screened outside)
      (outcome : event = ⟨screened.filterMap id, .ofList (resolver.exclusions site)⟩)
      (row : resolver.listeners = earlier ++ listener :: later)
      (heard : Listener.Hear event earlier ⟨progress.report, outside⟩ middle)
      (failed : listener.receive event middle = (.error reason, last)) :
      Course resolver files site progress
        (.error (.extension s!"listener '{listener.name}'" reason))
        { withStores progress catalog metadata with report := last.report, outside := last.outside }
        (shown.mapIdx .filter ++
          (List.range (earlier.length + 1)).map fun i => .listener i event)
  | done {catalog : Catalog} {metadata : Metadata} {shown : List Slots} {screened : Slots}
      {outside : σ} {event : Event} {last : Record σ}
      (admitted : resolver.Admitted files site progress catalog)
      (loaded : (progress.stores.loadMetadata files).1 = .ok metadata)
      (passed : Filter.Passes metadata resolver.filters
        ((resolver.remaining catalog site).map some) progress.outside shown screened outside)
      (outcome : event = ⟨screened.filterMap id, .ofList (resolver.exclusions site)⟩)
      (heard : Listener.Hear event resolver.listeners ⟨progress.report, outside⟩ last) :
      Course resolver files site progress
        (.ok (.ofResolved event.configurations event.exclusions))
        { withStores progress catalog metadata with report := last.report, outside := last.outside }
        (shown.mapIdx .filter ++
          (List.range resolver.listeners.length).map fun i => .listener i event)

section Stages

def accepting (resolver : Resolver σ) (catalog : Catalog) (site : Site) (metadata : Metadata) :
    Step σ Entry :=
  Step.bind (screening resolver.filters (resolver.remaining catalog site) metadata) fun accepted =>
  Step.bind (notifying resolver.listeners ⟨accepted, .ofList (resolver.exclusions site)⟩) fun () =>
  .ofResult (.ok (.ofResolved accepted (.ofList (resolver.exclusions site))))

def judging (resolver : Resolver σ) (files : Snapshot) (catalog : Catalog) (site : Site) :
    Step σ Entry :=
  Step.bind (onStores (Stores.loadMetadata files)) (resolver.accepting catalog site)

private theorem resolveEnabled_of_unloaded {fault : StoreFault}
    (h : (progress.stores.loadCatalog files).1 = .error fault) :
    resolver.resolveEnabled files site progress = (.error (.stores fault), progress) := by
  refine Step.bind_of_error ?_ _
  rw [onStores, Stores.loadCandidates, Stores.loadCatalog_error h]
  rfl

private theorem loadCandidates_of_loaded (h : (progress.stores.loadCatalog files).1 = .ok catalog)
    (point : String) :
    onStores (Stores.loadCandidates files point) progress =
      ((Stores.candidatesIn catalog point).mapError .stores, withCatalog progress catalog) := by
  rw [onStores, Stores.loadCandidates, Stores.loadCatalog_ok h]
  rfl

private theorem resolveEnabled_of_unregistered
    (hloaded : (progress.stores.loadCatalog files).1 = .ok catalog)
    (h : catalog.modules resolver.engine.point = []) :
    resolver.resolveEnabled files site progress =
      (.error (.stores (.noCandidates resolver.engine.point)), withCatalog progress catalog) := by
  refine Step.bind_of_error ?_ _
  rw [loadCandidates_of_loaded hloaded, Stores.candidatesIn, h]
  rfl

private theorem candidatesIn_of_registered {point : String} (h : catalog.modules point ≠ []) :
    Stores.candidatesIn catalog point = .ok (catalog.modules point) := by
  rw [Stores.candidatesIn]
  split
  · rename_i hnone
    exact absurd hnone h
  · rfl

private theorem resolveEnabled_of_registered
    (hloaded : (progress.stores.loadCatalog files).1 = .ok catalog)
    (hregistered : catalog.modules resolver.engine.point ≠ []) :
    resolver.resolveEnabled files site progress =
      Step.bind (.ofResult (Exclusion.validate (Name.distinct
        (catalog.modules resolver.engine.point)) (resolver.exclusions site) resolver.host.types))
        (fun () => resolver.judging files catalog site) (withCatalog progress catalog) := by
  refine Step.bind_of_ok ?_ _
  rw [loadCandidates_of_loaded hloaded, candidatesIn_of_registered hregistered]
  rfl

private theorem validate_of_valid (h : resolver.invalidExclusions catalog site = []) :
    Exclusion.validate (Name.distinct (catalog.modules resolver.engine.point))
      (resolver.exclusions site) resolver.host.types = .ok () := by
  rw [invalidExclusions] at h
  rw [Exclusion.validate, h]

private theorem validate_of_invalid (h : resolver.invalidExclusions catalog site ≠ []) :
    Exclusion.validate (Name.distinct (catalog.modules resolver.engine.point))
      (resolver.exclusions site) resolver.host.types =
        .error (.invalidExclusions (resolver.invalidExclusions catalog site)) := by
  rw [Exclusion.validate]
  split
  · rename_i hvalid
    exact absurd hvalid h
  · rfl

theorem resolveEnabled_of_invalid
    (hloaded : (progress.stores.loadCatalog files).1 = .ok catalog)
    (hregistered : catalog.modules resolver.engine.point ≠ [])
    (h : resolver.invalidExclusions catalog site ≠ []) :
    resolver.resolveEnabled files site progress =
      (.error (.invalidExclusions (resolver.invalidExclusions catalog site)),
        withCatalog progress catalog) := by
  rw [resolveEnabled_of_registered hloaded hregistered]
  refine Step.bind_of_error ?_ _
  rw [Step.ofResult, validate_of_invalid h]

theorem Admitted.resolve (h : resolver.Admitted files site progress catalog) :
    resolver.resolve files site progress =
      resolver.judging files catalog site (withCatalog progress catalog) := by
  rw [resolve_of_enabled h.enabled, resolveEnabled_of_registered h.loaded h.registered,
    validate_of_valid h.valid]
  rfl

theorem Admitted.resolve_of_unloaded (h : resolver.Admitted files site progress catalog)
    {fault : StoreFault} (hfailed : (progress.stores.loadMetadata files).1 = .error fault) :
    resolver.resolve files site progress =
      (.error (.stores fault), withCatalog progress catalog) := by
  rw [h.resolve]
  refine Step.bind_of_error ?_ _
  have hagain : ((withCatalog progress catalog).stores.loadMetadata files).1 = .error fault :=
    hfailed
  rw [onStores, Stores.loadMetadata_error hagain]
  rfl

theorem Admitted.resolve_of_loaded (h : resolver.Admitted files site progress catalog)
    (hloaded : (progress.stores.loadMetadata files).1 = .ok metadata) :
    resolver.resolve files site progress =
      resolver.accepting catalog site metadata (withStores progress catalog metadata) := by
  rw [h.resolve]
  refine Step.bind_of_ok ?_ _
  have hagain : ((withCatalog progress catalog).stores.loadMetadata files).1 = .ok metadata :=
    hloaded
  rw [onStores, Stores.loadMetadata_ok hagain]
  rfl

private theorem screening_of_passes (progress : Progress σ) {shown : List Slots} {screened : Slots}
    {outside : σ} {candidates : List String}
    (h : Filter.Passes metadata resolver.filters (candidates.map some) progress.outside shown
      screened outside) :
    screening resolver.filters candidates metadata progress =
      (.ok (screened.filterMap id), { progress with outside }) := by
  rw [screening, h.screen_eq]

private theorem screening_of_fails (progress : Progress σ) {shown : List Slots} {screened : Slots}
    {middle outside : σ} {candidates : List String} {earlier later : List (Filter σ)}
    {filter : Filter σ} {error : Error}
    (hchain : resolver.filters = earlier ++ filter :: later)
    (h : Filter.Passes metadata earlier (candidates.map some) progress.outside shown screened
      middle)
    (hfails : filter.Fails metadata screened middle error outside) :
    screening resolver.filters candidates metadata progress =
      (.error error, { progress with outside }) := by
  rw [screening, hchain, h.screen_of_fails hfails]

private theorem notifying_of_hear (progress : Progress σ) {event : Event} {last : Record σ}
    (h : Listener.Hear event resolver.listeners ⟨progress.report, progress.outside⟩ last) :
    notifying resolver.listeners event progress =
      (.ok (), { progress with report := last.report, outside := last.outside }) := by
  rw [notifying, h.notify_eq]

private theorem notifying_of_fails (progress : Progress σ) {event : Event} {middle last : Record σ}
    {earlier later : List (Listener σ)} {listener : Listener σ} {reason : String}
    (hrow : resolver.listeners = earlier ++ listener :: later)
    (h : Listener.Hear event earlier ⟨progress.report, progress.outside⟩ middle)
    (hfails : listener.receive event middle = (.error reason, last)) :
    notifying resolver.listeners event progress =
      (.error (.extension s!"listener '{listener.name}'" reason),
        { progress with report := last.report, outside := last.outside }) := by
  rw [notifying, hrow, h.notify_append, Listener.notify, hfails]

end Stages

theorem Course.resolve (h : Course resolver files site progress result after calls) :
    resolver.resolve files site progress = (result, after) := by
  cases h with
  | property unset found unread =>
      apply resolve_of_error
      rw [isEnabled, unset]
      simp only [PropertySource.getBool?, found, unread]
      rfl
  | disabled disabled => exact resolve_of_disabled disabled progress
  | catalog enabled failed =>
      rw [resolve_of_enabled enabled]
      exact resolveEnabled_of_unloaded failed
  | candidates enabled loaded unregistered =>
      rw [resolve_of_enabled enabled]
      exact resolveEnabled_of_unregistered loaded unregistered
  | exclusions enabled loaded registered invalid =>
      rw [resolve_of_enabled enabled]
      exact resolveEnabled_of_invalid loaded registered invalid
  | metadata admitted failed => exact admitted.resolve_of_unloaded failed
  | filter admitted loaded chain passed failed =>
      rw [admitted.resolve_of_loaded loaded]
      exact Step.bind_of_error (screening_of_fails (withStores progress _ _) chain passed failed) _
  | @listener _ _ _ _ outside _ _ _ _ _ _ _ admitted loaded passed outcome row heard failed =>
      subst outcome
      rw [admitted.resolve_of_loaded loaded, accepting,
        Step.bind_of_ok (screening_of_passes (withStores progress _ _) passed)]
      exact Step.bind_of_error
        (notifying_of_fails { withStores progress _ _ with outside } row heard failed) _
  | @done _ _ _ _ outside _ _ admitted loaded passed outcome heard =>
      subst outcome
      rw [admitted.resolve_of_loaded loaded, accepting,
        Step.bind_of_ok (screening_of_passes (withStores progress _ _) passed),
        Step.bind_of_ok (notifying_of_hear { withStores progress _ _ with outside } heard)]
      rfl

section Total

private theorem isEnabled_error {error : Error} (h : resolver.isEnabled site = .error error) :
    ∃ value, site.enabled = none ∧
      resolver.host.properties.get? resolver.engine.enabledProperty = some value ∧
      PropertySource.flagOf? value = none := by
  rw [isEnabled] at h
  split at h
  · cases h
  · rename_i hunset
    rw [PropertySource.getBool?] at h
    split at h
    · cases h
    · rename_i value hfound
      split at h
      · cases h
      · rename_i hunread
        exact ⟨value, hunset, hfound, hunread⟩

theorem Admitted.exists_course (h : resolver.Admitted files site progress catalog) :
    ∃ result after calls, Course resolver files site progress result after calls := by
  rcases hm : (progress.stores.loadMetadata files).1 with fault | metadata
  · exact ⟨_, _, _, .metadata h hm⟩
  · obtain ⟨shown, screened, outside, hpassed⟩ | ⟨earlier, filter, later, shown, screened, middle,
      error, outside, hchain, hpassed, hfailed⟩ := Filter.passes_or_fails metadata
        resolver.filters ((resolver.remaining catalog site).map some) progress.outside
    · obtain ⟨last, hheard⟩ | ⟨earlier, listener, later, middle, reason, last, hrow, hheard,
        hfailed⟩ := Listener.hear_or_fails resolver.listeners
          ⟨screened.filterMap id, .ofList (resolver.exclusions site)⟩ ⟨progress.report, outside⟩
      · exact ⟨_, _, _, .done h hm hpassed rfl hheard⟩
      · exact ⟨_, _, _, .listener h hm hpassed rfl hrow hheard hfailed⟩
    · exact ⟨_, _, _, .filter h hm hchain hpassed hfailed⟩

theorem exists_course (resolver : Resolver σ) (files : Snapshot) (site : Site)
    (progress : Progress σ) :
    ∃ result after calls, Course resolver files site progress result after calls := by
  cases he : resolver.isEnabled site with
  | error error =>
      obtain ⟨value, hunset, hfound, hunread⟩ := isEnabled_error he
      exact ⟨_, _, _, .property hunset hfound hunread⟩
  | ok enabled =>
      cases enabled with
      | false => exact ⟨_, _, _, .disabled he⟩
      | true =>
          rcases hc : (progress.stores.loadCatalog files).1 with fault | catalog
          · exact ⟨_, _, _, .catalog he hc⟩
          · by_cases hregistered : catalog.modules resolver.engine.point = []
            · exact ⟨_, _, _, .candidates he hc hregistered⟩
            · by_cases hvalid : resolver.invalidExclusions catalog site = []
              · exact Admitted.exists_course ⟨he, hc, hregistered, hvalid⟩
              · exact ⟨_, _, _, .exclusions he hc hregistered hvalid⟩

end Total

end Activation.Resolver
