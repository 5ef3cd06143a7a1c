import Activation.Proofs.Listener
import Activation.Proofs.Resolver

namespace Activation.Resolver

variable {σ α β : Type} {files : Snapshot} {catalog : Catalog} {metadata : Metadata}
  {resolver : Resolver σ} {progress other after : Progress σ} {site : Site}

namespace Step

-- A step that has the same result wherever the stores give the same values, and leaves them giving
-- these.
structure Steady (files : Snapshot) (catalog : Catalog) (metadata : Metadata) (step : Step σ α) :
    Prop where
  eq : ∀ {progress other : Progress σ}, progress.stores.Available files catalog metadata →
    other.stores.Available files catalog metadata → (step progress).1 = (step other).1
  available : ∀ {progress : Progress σ}, progress.stores.Available files catalog metadata →
    (step progress).2.stores.Available files catalog metadata

theorem steady_ofResult (result : Except Error α) :
    Steady files catalog metadata (ofResult result : Step σ α) :=
  ⟨fun _ _ => rfl, fun hp => hp⟩

theorem Steady.bind {step : Step σ α} {next : α → Step σ β}
    (h : Steady files catalog metadata step)
    (hnext : ∀ value, Steady files catalog metadata (next value)) :
    Steady files catalog metadata (Step.bind step next) := by
  refine ⟨fun {progress other} hp ho => ?_, fun {progress} hp => ?_⟩
  · have hp' := h.available hp
    have ho' := h.available ho
    rw [Step.bind, Step.bind, Prod.fst_eq_iff.mp (h.eq hp ho)]
    rcases hs : step other with ⟨error | value, middle⟩
    · rfl
    · rw [hs] at ho'
      exact (hnext value).eq hp' ho'
  · have hp' := h.available hp
    rw [Step.bind]
    rcases hs : step progress with ⟨error | value, middle⟩
    · rwa [hs] at hp'
    · rw [hs] at hp'
      exact (hnext value).available hp'

end Step

open Step

private theorem steady_loadCandidates (point : String) :
    Steady files catalog metadata
      (onStores (Stores.loadCandidates files point) : Step σ (List String)) := by
  refine ⟨fun hp ho => ?_, fun hp => ?_⟩
  · simp only [onStores, hp.loadCandidates, ho.loadCandidates]
  · simp only [onStores, hp.loadCandidates]
    exact hp.after_loadCatalog

private theorem steady_loadMetadata :
    Steady files catalog metadata (onStores (Stores.loadMetadata files) : Step σ Metadata) := by
  refine ⟨fun hp ho => ?_, fun hp => hp.after_loadMetadata⟩
  simp only [onStores, hp.metadata, ho.metadata]

private theorem steady_screening {filters : List (Filter σ)} (h : ∀ filter ∈ filters, filter.Steady)
    (candidates : List String) (found : Metadata) :
    Steady files catalog metadata (screening filters candidates found) :=
  ⟨fun _ _ => Filter.screen_steady h candidates found _ _, fun hp => hp⟩

private theorem steady_notifying {listeners : List (Listener σ)}
    (h : ∀ listener ∈ listeners, listener.Steady) (event : Event) :
    Steady files catalog metadata (notifying listeners event) :=
  ⟨fun _ _ => Listener.notify_steady h event _ _, fun hp => hp⟩

theorem steady_resolve (hfilters : ∀ filter ∈ resolver.filters, filter.Steady)
    (hlisteners : ∀ listener ∈ resolver.listeners, listener.Steady) (site : Site) :
    Steady files catalog metadata (resolver.resolve files site) := by
  refine (steady_ofResult _).bind fun enabled => ?_
  cases enabled with
  | false => exact steady_ofResult _
  | true =>
      refine (steady_loadCandidates _).bind fun registered => ?_
      refine (steady_ofResult _).bind fun _ => ?_
      refine steady_loadMetadata.bind fun found => ?_
      refine (steady_screening hfilters _ found).bind fun accepted => ?_
      exact (steady_notifying hlisteners _).bind fun _ => steady_ofResult _

end Activation.Resolver
