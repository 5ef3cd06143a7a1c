import Activation.Proofs.Batch
import Activation.Proofs.Filter
import Activation.Proofs.Listener
import Activation.Proofs.Stores
import Activation.Resolver

namespace Activation.Resolver

variable {σ α β : Type} {progress after : Progress σ}

section Step

theorem Step.bind_ok_iff {step : Step σ α} {next : α → Step σ β} {value : β} :
    Step.bind step next progress = (.ok value, after) ↔
      ∃ result middle, step progress = (.ok result, middle) ∧
        next result middle = (.ok value, after) := by
  unfold Step.bind
  rcases step progress with ⟨error | result, middle⟩
  · simp
  · constructor
    · exact fun h => ⟨result, middle, rfl, h⟩
    · rintro ⟨result', middle', he, h⟩
      cases he
      exact h

theorem Step.bind_of_ok {step : Step σ α} {value : α} {middle : Progress σ}
    (h : step progress = (.ok value, middle)) (next : α → Step σ β) :
    Step.bind step next progress = next value middle := by
  rw [Step.bind, h]

theorem Step.bind_of_error {step : Step σ α} {error : Error} {middle : Progress σ}
    (h : step progress = (.error error, middle)) (next : α → Step σ β) :
    Step.bind step next progress = (.error error, middle) := by
  rw [Step.bind, h]

theorem Step.ofResult_ok_iff {result : Except Error α} {value : α} :
    Step.ofResult result progress = (.ok value, after) ↔
      result = .ok value ∧ after = progress := by
  rw [Step.ofResult, Prod.mk.injEq, eq_comm (a := progress)]

theorem mapError_ok_iff {ε ε' : Type} {f : ε → ε'} {result : Except ε α} {value : α} :
    result.mapError f = .ok value ↔ result = .ok value := by
  cases result <;> simp [Except.mapError]

theorem onStores_ok_iff {access : Stores → Except StoreFault α × Stores} {value : α} :
    onStores access progress = (.ok value, after) ↔
      (access progress.stores).1 = .ok value ∧
        after = { progress with stores := (access progress.stores).2 } := by
  rw [onStores, Prod.mk.injEq, mapError_ok_iff, eq_comm (a := after)]

end Step

variable {resolver : Resolver σ} {files : Snapshot} {site : Site} {catalog : Catalog}
  {metadata : Metadata}

def remaining (resolver : Resolver σ) (catalog : Catalog) (site : Site) : List String :=
  (Name.distinct (catalog.modules resolver.engine.point)).filter fun module =>
    decide (module ∉ resolver.exclusions site)

theorem resolveEnabled_ok (hloaded : progress.stores.Loaded catalog metadata) {entry : Entry}
    (h : resolver.resolveEnabled files site progress = (.ok entry, after)) :
    after.stores = progress.stores ∧ ∃ accepted,
      (Filter.screen resolver.filters (resolver.remaining catalog site) metadata
        progress.outside).1 = .ok accepted ∧
      entry = .ofResolved accepted (.ofList (resolver.exclusions site)) := by
  obtain ⟨registered, middle, hstep, h⟩ := Step.bind_ok_iff.mp h
  rw [onStores_ok_iff, hloaded.loadCandidates] at hstep
  obtain ⟨hregistered, rfl⟩ := hstep
  obtain ⟨rfl, -⟩ := Stores.candidatesIn_ok hregistered
  obtain ⟨_, middle, hstep, h⟩ := Step.bind_ok_iff.mp h
  obtain ⟨-, rfl⟩ := Step.ofResult_ok_iff.mp hstep
  obtain ⟨found, middle, hstep, h⟩ := Step.bind_ok_iff.mp h
  rw [onStores_ok_iff, hloaded.loadMetadata] at hstep
  obtain ⟨hfound, rfl⟩ := hstep
  obtain rfl := Except.ok.inj hfound
  obtain ⟨accepted, middle, hstep, h⟩ := Step.bind_ok_iff.mp h
  obtain ⟨hscreened, rfl⟩ := Prod.mk.inj hstep
  obtain ⟨_, middle, hstep, h⟩ := Step.bind_ok_iff.mp h
  obtain ⟨-, rfl⟩ := Prod.mk.inj hstep
  obtain ⟨hentry, rfl⟩ := Step.ofResult_ok_iff.mp h
  exact ⟨rfl, accepted, hscreened, (Except.ok.inj hentry).symm⟩

theorem resolve_ok (hloaded : progress.stores.Loaded catalog metadata) {entry : Entry}
    (h : resolver.resolve files site progress = (.ok entry, after)) :
    after.stores = progress.stores ∧
      (resolver.isEnabled site = .ok false ∧ entry = .disabled ∨
        resolver.isEnabled site = .ok true ∧ ∃ accepted,
          (Filter.screen resolver.filters (resolver.remaining catalog site) metadata
            progress.outside).1 = .ok accepted ∧
          entry = .ofResolved accepted (.ofList (resolver.exclusions site))) := by
  obtain ⟨enabled, middle, hstep, h⟩ := Step.bind_ok_iff.mp h
  obtain ⟨henabled, rfl⟩ := Step.ofResult_ok_iff.mp hstep
  cases enabled with
  | false =>
      obtain ⟨hentry, rfl⟩ := Step.ofResult_ok_iff.mp h
      exact ⟨rfl, Or.inl ⟨henabled, (Except.ok.inj hentry).symm⟩⟩
  | true =>
      obtain ⟨hstores, hentry⟩ := resolveEnabled_ok hloaded h
      exact ⟨hstores, Or.inr ⟨henabled, hentry⟩⟩

section Switch

theorem resolve_of_error {error : Error} (h : resolver.isEnabled site = .error error)
    (progress : Progress σ) : resolver.resolve files site progress = (.error error, progress) := by
  rw [resolve, h]
  rfl

theorem resolve_of_disabled (h : resolver.isEnabled site = .ok false) (progress : Progress σ) :
    resolver.resolve files site progress = (.ok .disabled, progress) := by
  rw [resolve, h]
  rfl

theorem resolve_of_enabled (h : resolver.isEnabled site = .ok true) (progress : Progress σ) :
    resolver.resolve files site progress = resolver.resolveEnabled files site progress := by
  rw [resolve, h]
  rfl

private theorem isDisabled_of_resolveEnabled {entry : Entry}
    (h : resolver.resolveEnabled files site progress = (.ok entry, after)) :
    entry.isDisabled = false := by
  obtain ⟨registered, loaded, -, h⟩ := Step.bind_ok_iff.mp h
  obtain ⟨_, valid, -, h⟩ := Step.bind_ok_iff.mp h
  obtain ⟨found, known, -, h⟩ := Step.bind_ok_iff.mp h
  obtain ⟨accepted, screened, -, h⟩ := Step.bind_ok_iff.mp h
  obtain ⟨_, told, -, h⟩ := Step.bind_ok_iff.mp h
  obtain ⟨hentry, -⟩ := Step.ofResult_ok_iff.mp h
  rw [← Except.ok.inj hentry]
  rfl

theorem isEnabled_of_resolve {entry : Entry}
    (h : resolver.resolve files site progress = (.ok entry, after)) :
    resolver.isEnabled site = .ok (!entry.isDisabled) ∧
      (entry.isDisabled = true → entry = .disabled) := by
  cases he : resolver.isEnabled site with
  | error error =>
      rw [resolve_of_error he] at h
      cases h
  | ok enabled =>
      cases enabled with
      | false =>
          rw [resolve_of_disabled he] at h
          obtain ⟨hentry, -⟩ := Prod.mk.inj h
          obtain rfl := Except.ok.inj hentry
          exact ⟨rfl, fun _ => rfl⟩
      | true =>
          rw [resolve_of_enabled he] at h
          have hon := isDisabled_of_resolveEnabled h
          rw [hon]
          exact ⟨rfl, fun hoff => by cases hoff⟩

end Switch

-- What the reports among the listeners are told of an entry.
def eventsOf (resolver : Resolver σ) (entry : Entry) : List Event :=
  if entry.isDisabled then []
  else List.replicate (resolver.listeners.countP Listener.isReport)
    ⟨entry.configurations, entry.exclusions⟩

private theorem report_onStores {access : Stores → Except StoreFault α × Stores} {value : α}
    (h : onStores access progress = (.ok value, after)) : after.report = progress.report := by
  rw [(onStores_ok_iff.mp h).2]

private theorem report_screening {filters : List (Filter σ)} {candidates accepted : List String}
    (h : screening filters candidates metadata progress = (.ok accepted, after)) :
    after.report = progress.report := by
  rw [← (Prod.mk.inj h).2]

private theorem report_notifying {listeners : List (Listener σ)} {event : Event}
    (h : notifying listeners event progress = (.ok (), after)) :
    after.report =
      progress.report ++ List.replicate (listeners.countP Listener.isReport) event := by
  obtain ⟨hnotified, rfl⟩ := Prod.mk.inj h
  exact Listener.report_notify (Prod.ext hnotified rfl)

theorem report_resolveEnabled {entry : Entry}
    (h : resolver.resolveEnabled files site progress = (.ok entry, after)) :
    after.report = progress.report ++ resolver.eventsOf entry := by
  obtain ⟨registered, loaded, hcandidates, hvalidate⟩ := Step.bind_ok_iff.mp h
  obtain ⟨_, valid, hvalid, hload⟩ := Step.bind_ok_iff.mp hvalidate
  obtain ⟨found, known, hmetadata, hscreen⟩ := Step.bind_ok_iff.mp hload
  obtain ⟨accepted, screened, hscreened, hnotify⟩ := Step.bind_ok_iff.mp hscreen
  obtain ⟨_, told, htold, hlast⟩ := Step.bind_ok_iff.mp hnotify
  obtain ⟨hentry, hafter⟩ := Step.ofResult_ok_iff.mp hlast
  rw [hafter, report_notifying htold, report_screening hscreened, report_onStores hmetadata,
    (Step.ofResult_ok_iff.mp hvalid).2, report_onStores hcandidates, ← Except.ok.inj hentry]
  rfl

theorem report_resolve {entry : Entry}
    (h : resolver.resolve files site progress = (.ok entry, after)) :
    after.report = progress.report ++ resolver.eventsOf entry := by
  obtain ⟨enabled, middle, hstep, h⟩ := Step.bind_ok_iff.mp h
  obtain ⟨-, rfl⟩ := Step.ofResult_ok_iff.mp hstep
  cases enabled with
  | false =>
      obtain ⟨hentry, rfl⟩ := Step.ofResult_ok_iff.mp h
      obtain rfl := Except.ok.inj hentry
      exact (List.append_nil _).symm
  | true => exact report_resolveEnabled h

theorem batch_eq (resolver : Resolver σ)
    (h : progress.stores.Available files catalog metadata) :
    resolver.batch files progress =
      (.ok (.start (.ofCatalog catalog resolver.engine.point metadata)),
        ⟨⟨progress.stores.roots, some catalog, some metadata⟩, progress.report,
          progress.outside⟩) := by
  have hloaded := h.after_loadCatalog.metadata
  refine Step.bind_ok_iff.mpr ⟨catalog, _, onStores_ok_iff.mpr ⟨h.catalog, rfl⟩,
    Step.bind_ok_iff.mpr ⟨metadata, _, onStores_ok_iff.mpr ⟨hloaded, rfl⟩, ?_⟩⟩
  rw [Stores.loadMetadata_ok hloaded, Stores.loadCatalog_ok h.catalog]
  rfl

theorem batch_ok {batch : Batch} (h : resolver.batch files progress = (.ok batch, after))
    (hstores : progress.stores.Available files catalog metadata) :
    after.stores.Loaded catalog metadata ∧
      batch = .start (.ofCatalog catalog resolver.engine.point metadata) := by
  rw [batch_eq resolver hstores] at h
  obtain ⟨hbatch, rfl⟩ := Prod.mk.inj h
  exact ⟨⟨rfl, rfl⟩, (Except.ok.inj hbatch).symm⟩

theorem available_of_batch {batch : Batch}
    (h : resolver.batch files progress = (.ok batch, after)) :
    ∃ catalog metadata, progress.stores.Available files catalog metadata := by
  obtain ⟨catalog, middle, hstep, h⟩ := Step.bind_ok_iff.mp h
  obtain ⟨hcatalog, rfl⟩ := onStores_ok_iff.mp hstep
  obtain ⟨metadata, last, hstep, -⟩ := Step.bind_ok_iff.mp h
  have hmetadata := (onStores_ok_iff.mp hstep).1
  -- the metadata is read as if the catalog had not been
  exact ⟨catalog, metadata, hcatalog, hmetadata⟩

-- The entry of a site when the filters judge each module for itself.
def entryOf (resolver : Resolver σ) (accepts : Filter σ → Metadata → String → Bool)
    (catalog : Catalog) (metadata : Metadata) (site : Site) : Entry :=
  match resolver.isEnabled site with
  | .ok true =>
      .ofResolved ((resolver.remaining catalog site).filter fun module =>
        resolver.filters.all fun filter => accepts filter metadata module)
        (.ofList (resolver.exclusions site))
  | _ => .disabled

theorem resolve_ok_of_judges {accepts : Filter σ → Metadata → String → Bool}
    (hfilters : ∀ filter ∈ resolver.filters, filter.Judges (accepts filter))
    (hloaded : progress.stores.Loaded catalog metadata) {entry : Entry}
    (h : resolver.resolve files site progress = (.ok entry, after)) :
    after.stores.Loaded catalog metadata ∧
      entry = resolver.entryOf accepts catalog metadata site := by
  obtain ⟨hstores, ⟨henabled, rfl⟩ | ⟨henabled, accepted, hscreened, rfl⟩⟩ := resolve_ok hloaded h
  · rw [entryOf, henabled]
    exact ⟨hstores ▸ hloaded, rfl⟩
  · rw [Filter.screen_of_judges hfilters] at hscreened
    obtain rfl := Except.ok.inj hscreened
    rw [entryOf, henabled]
    exact ⟨hstores ▸ hloaded, rfl⟩

@[simp]
theorem mem_exclusions (module : String) :
    module ∈ resolver.exclusions site ↔ module ∈ site.exclude ∨ module ∈ site.excludeName ∨
      module ∈ Exclusion.ofProperty resolver.engine resolver.host.properties := by
  simp [exclusions, Exclusion.resolve]

@[simp]
theorem mem_remaining (module : String) :
    module ∈ resolver.remaining catalog site ↔
      module ∈ catalog.modules resolver.engine.point ∧ module ∉ resolver.exclusions site := by
  simp [remaining]

end Activation.Resolver
