import Activation.Proofs.History
import Activation.Proofs.Order.Declaration

namespace Activation

section Matching

variable {ε α β : Type} {R : α → α → Prop}

-- The same failure, or values that are related.
inductive Matching (R : α → α → Prop) : Except ε α → Except ε α → Prop where
  | error (error : ε) : Matching R (.error error) (.error error)
  | ok {value other : α} (related : R value other) : Matching R (.ok value) (.ok other)

theorem matching_eq_iff {result other : Except ε α} :
    Matching Eq result other ↔ result = other := by
  constructor
  · rintro (error | rfl) <;> rfl
  · rintro rfl
    cases result with
    | error error => exact .error error
    | ok value => exact .ok rfl

theorem Matching.map_eq {result other : Except ε α} (h : Matching R result other)
    {f g : α → β} (hfg : ∀ a b, R a b → f a = g b) : result.map f = other.map g := by
  cases h with
  | error error => rfl
  | ok related => exact congrArg Except.ok (hfg _ _ related)

theorem Matching.mapError {φ : Type} {result other : Except ε α} (h : Matching R result other)
    (f : ε → φ) : Matching R (result.mapError f) (other.mapError f) := by
  cases h with
  | error error => exact .error (f error)
  | ok related => exact .ok related

theorem Matching.bind {S : β → β → Prop} {result other : Except ε α}
    {f g : α → Except ε β} (h : Matching R result other)
    (hfg : ∀ a b, R a b → Matching S (f a) (g b)) : Matching S (result.bind f) (other.bind g) := by
  cases h with
  | error error => exact .error error
  | ok related => exact hfg _ _ related

end Matching

namespace Stores

variable {files : Snapshot} {stores other : Stores} {catalog twin : Catalog}

structure Akin (files : Snapshot) (stores other : Stores) : Prop where
  catalog : Matching Catalog.SameOrder (stores.loadCatalog files).1 (other.loadCatalog files).1
  metadata : (stores.loadMetadata files).1 = (other.loadMetadata files).1

theorem Akin.after_loadCatalog (h : stores.Akin files other) :
    (stores.loadCatalog files).2.Akin files (other.loadCatalog files).2 := by
  refine ⟨?_, h.metadata⟩
  rw [loadCatalog_again, loadCatalog_again]
  exact h.catalog

theorem Akin.after_loadMetadata (h : stores.Akin files other) :
    (stores.loadMetadata files).2.Akin files (other.loadMetadata files).2 := by
  refine ⟨h.catalog, ?_⟩
  rw [loadMetadata_again, loadMetadata_again]
  exact h.metadata

theorem matching_candidatesIn (h : catalog.SameOrder twin) (point : String) :
    Matching Name.SameFirst (candidatesIn catalog point) (candidatesIn twin point) := by
  have hnil := (h point).eq_nil_iff
  by_cases hnone : catalog.modules point = []
  · rw [candidatesIn_eq_error_iff.mpr ⟨rfl, hnone⟩,
      candidatesIn_eq_error_iff.mpr ⟨rfl, hnil.mp hnone⟩]
    exact .error _
  · rw [candidatesIn_eq_ok_iff.mpr ⟨rfl, hnone⟩,
      candidatesIn_eq_ok_iff.mpr ⟨rfl, mt hnil.mpr hnone⟩]
    exact .ok (h point)

theorem Akin.matching_loadCandidates (h : stores.Akin files other) (point : String) :
    Matching Name.SameFirst (stores.loadCandidates files point).1
      (other.loadCandidates files point).1 :=
  h.catalog.bind fun _ _ hsame => matching_candidatesIn hsame point

end Stores

namespace Batch

structure Twin (batch other : Batch) : Prop where
  sort : ∀ modules, batch.precedence.sort modules = other.precedence.sort modules
  origins : batch.origins = other.origins
  entries : batch.entries = other.entries

variable {batch other : Batch}

theorem twin_start {catalog twin : Catalog} (h : catalog.SameOrder twin) (point : String)
    (metadata : Metadata) :
    (start (.ofCatalog catalog point metadata)).Twin (start (.ofCatalog twin point metadata)) :=
  ⟨Precedence.sort_ofCatalog_congr h point metadata, rfl, rfl⟩

theorem Twin.record (h : batch.Twin other) (site : Site) (entry : Entry) :
    (batch.record site entry).Twin (other.record site entry) := by
  refine ⟨h.sort, ?_, ?_⟩
  · rw [Batch.record, Batch.record, h.origins]
  · rw [Batch.record, Batch.record, h.entries]

theorem Twin.process (h : batch.Twin other) (site : Site) (resolved : Except Error Entry) :
    (batch.process site resolved).2.Twin (other.process site resolved).2 := by
  cases resolved with
  | error error => exact h
  | ok entry => exact h.record site entry

theorem Twin.merged_eq (h : batch.Twin other) : batch.merged = other.merged := by
  unfold merged isExcluded
  rw [h.entries]

theorem Twin.finalize_eq (h : batch.Twin other) : batch.finalize = other.finalize := by
  rw [Batch.finalize_eq, Batch.finalize_eq, h.merged_eq, h.sort, h.origins]

end Batch

namespace Resolver

section Steps

variable {σ α β : Type} {files : Snapshot} {R : α → α → Prop} {S : β → β → Prop}

-- What two runs have left behind, one beside the other.
structure Alongside (files : Snapshot) (progress twin : Progress σ) : Prop where
  stores : progress.stores.Akin files twin.stores
  report : progress.report = twin.report
  outside : progress.outside = twin.outside

-- Steps that keep two runs side by side and come to related values.
def Step.Parallel (files : Snapshot) (R : α → α → Prop) (step other : Step σ α) : Prop :=
  ∀ progress twin, Alongside files progress twin →
    Matching R (step progress).1 (other twin).1 ∧ Alongside files (step progress).2 (other twin).2

theorem Step.Parallel.bind {step other : Step σ α} {next following : α → Step σ β}
    (h : Step.Parallel files R step other)
    (hnext : ∀ value twin, R value twin →
      Step.Parallel files S (next value) (following twin)) :
    Step.Parallel files S (Step.bind step next) (Step.bind other following) := by
  intro progress twin hstart
  obtain ⟨hresult, hmiddle⟩ := h progress twin hstart
  rw [Step.bind, Step.bind]
  rcases hs : step progress with ⟨result, middle⟩
  rcases ho : other twin with ⟨answer, last⟩
  rw [hs, ho] at hresult hmiddle
  cases hresult with
  | error error => exact ⟨.error error, hmiddle⟩
  | ok related => exact hnext _ _ related middle last hmiddle

theorem parallel_ofResult {result other : Except Error α} (h : Matching R result other) :
    Step.Parallel files R (.ofResult result : Step σ α) (.ofResult other) :=
  fun _ _ hstart => ⟨h, hstart⟩

theorem parallel_onStores {access : Stores → Except StoreFault α × Stores}
    (h : ∀ stores other : Stores, stores.Akin files other →
      Matching R (access stores).1 (access other).1 ∧
        (access stores).2.Akin files (access other).2) :
    Step.Parallel files R (onStores access : Step σ α) (onStores access) := by
  intro progress twin hstart
  obtain ⟨hresult, hstores⟩ := h progress.stores twin.stores hstart.stores
  exact ⟨hresult.mapError Error.stores, hstores, hstart.report, hstart.outside⟩

private theorem parallel_loadCatalog (files : Snapshot) :
    Step.Parallel files Catalog.SameOrder (onStores (Stores.loadCatalog files) : Step σ Catalog)
      (onStores (Stores.loadCatalog files)) :=
  parallel_onStores fun _ _ h => ⟨h.catalog, h.after_loadCatalog⟩

private theorem parallel_loadCandidates (files : Snapshot) (point : String) :
    Step.Parallel files Name.SameFirst
      (onStores (Stores.loadCandidates files point) : Step σ (List String))
      (onStores (Stores.loadCandidates files point)) :=
  parallel_onStores fun _ _ h => ⟨h.matching_loadCandidates point, h.after_loadCatalog⟩

private theorem parallel_loadMetadata (files : Snapshot) :
    Step.Parallel files Eq (onStores (Stores.loadMetadata files) : Step σ Metadata)
      (onStores (Stores.loadMetadata files)) :=
  parallel_onStores fun _ _ h => ⟨matching_eq_iff.mpr h.metadata, h.after_loadMetadata⟩

private theorem parallel_screening (filters : List (Filter σ)) (candidates : List String)
    (metadata : Metadata) :
    Step.Parallel files Eq (screening filters candidates metadata)
      (screening filters candidates metadata) := by
  intro progress twin hstart
  simp only [screening, hstart.outside]
  exact ⟨matching_eq_iff.mpr rfl, hstart.stores, hstart.report, rfl⟩

private theorem parallel_notifying (listeners : List (Listener σ)) (event : Event) :
    Step.Parallel files Eq (notifying listeners event) (notifying listeners event) := by
  intro progress twin hstart
  simp only [notifying, hstart.report, hstart.outside]
  exact ⟨matching_eq_iff.mpr rfl, hstart.stores, rfl, rfl⟩

end Steps

section Requests

variable {σ : Type} (resolver : Resolver σ) (files : Snapshot) {progress twin : Progress σ}

theorem parallel_resolveEnabled (site : Site) :
    Step.Parallel files Eq (resolver.resolveEnabled files site)
      (resolver.resolveEnabled files site) := by
  refine (parallel_loadCandidates files _).bind fun registered other hsame => ?_
  -- from here on the registrations of a module count once
  have hcandidates : Name.distinct registered = Name.distinct other := hsame
  simp only [hcandidates]
  refine (parallel_ofResult (matching_eq_iff.mpr rfl)).bind fun _ _ _ => ?_
  refine (parallel_loadMetadata files).bind fun metadata _ hmetadata => ?_
  subst hmetadata
  refine (parallel_screening _ _ metadata).bind fun accepted _ haccepted => ?_
  subst haccepted
  refine (parallel_notifying _ _).bind fun _ _ _ => ?_
  exact parallel_ofResult (matching_eq_iff.mpr rfl)

theorem parallel_resolve (site : Site) :
    Step.Parallel files Eq (resolver.resolve files site) (resolver.resolve files site) := by
  refine (parallel_ofResult (matching_eq_iff.mpr rfl)).bind fun enabled _ henabled => ?_
  subst henabled
  cases enabled with
  | false => exact parallel_ofResult (matching_eq_iff.mpr rfl)
  | true => exact parallel_resolveEnabled resolver files site

theorem parallel_batch :
    Step.Parallel files Batch.Twin (resolver.batch files) (resolver.batch files) := by
  refine (parallel_loadCatalog files).bind fun catalog other hsame => ?_
  refine (parallel_loadMetadata files).bind fun metadata _ hmetadata => ?_
  subst hmetadata
  exact parallel_ofResult (.ok (Batch.twin_start hsame _ metadata))

theorem parallel_processEach (sites : List Site) {batch other : Batch} (hbatch : batch.Twin other)
    (hstart : Alongside files progress twin) :
    Batch.answers (resolver.resolve files) sites progress =
        Batch.answers (resolver.resolve files) sites twin ∧
      (Batch.processEach (resolver.resolve files) sites batch progress).Twin
        (Batch.processEach (resolver.resolve files) sites other twin) ∧
      Alongside files (resolver.resolveAll files sites progress)
        (resolver.resolveAll files sites twin) := by
  induction sites generalizing batch other progress twin with
  | nil => exact ⟨rfl, hbatch, hstart⟩
  | cons site rest ih =>
      obtain ⟨hresult, hmiddle⟩ := parallel_resolve resolver files site progress twin hstart
      have hanswer := matching_eq_iff.mp hresult
      rw [resolveAll, resolveAll, List.foldl_cons, List.foldl_cons]
      simp only [Batch.answers, Batch.processEach, hanswer]
      obtain ⟨hanswers, hbatches, hafter⟩ := ih (hbatch.process site _) hmiddle
      exact ⟨congrArg _ hanswers, hbatches, hafter⟩

theorem parallel_group (sites : List Site) :
    Step.Parallel files Eq (resolver.group files sites) (resolver.group files sites) := by
  refine (parallel_batch resolver files).bind fun batch other htwin progress twin hstart => ?_
  obtain ⟨hanswers, hbatches, hafter⟩ := parallel_processEach resolver files sites htwin hstart
  refine ⟨?_, hafter⟩
  rw [hanswers, hbatches.finalize_eq]
  exact .ok rfl

end Requests

end Resolver

namespace Session

open Resolver

variable {σ : Type} (resolver : Resolver σ) (files : Snapshot)

theorem processAll_cons (site : Site) (sites : List Site) (batch : Batch) :
    processAll resolver files (site :: sites) batch =
      Step.bind (resolver.resolve files site) fun entry =>
        processAll resolver files sites (batch.record site entry) := by
  funext progress
  rw [processAll, Resolver.process, Step.bind]
  rcases resolver.resolve files site progress with ⟨error | entry, after⟩ <;> rfl

theorem parallel_processAll (sites : List Site) {batch other : Batch} (h : batch.Twin other) :
    Step.Parallel files Batch.Twin (processAll resolver files sites batch)
      (processAll resolver files sites other) := by
  induction sites generalizing batch other with
  | nil => exact parallel_ofResult (.ok h)
  | cons site rest ih =>
      rw [processAll_cons, processAll_cons]
      refine (parallel_resolve resolver files site).bind fun entry _ hentry => ?_
      subst hentry
      exact ih (h.record site entry)

theorem parallel_conclude (sites : List Site) :
    Step.Parallel files Eq (conclude resolver files sites) (conclude resolver files sites) := by
  refine (parallel_batch resolver files).bind fun batch other htwin => ?_
  refine (parallel_processAll resolver files sites htwin).bind fun full twin hfull => ?_
  exact parallel_ofResult (matching_eq_iff.mpr hfull.finalize_eq)

end Session

end Activation
