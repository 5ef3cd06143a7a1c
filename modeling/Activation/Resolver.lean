import Activation.Batch
import Activation.Filter
import Activation.Listener
import Activation.Site
import Activation.Stores

namespace Activation

structure Resolver (σ : Type) where
  engine : Engine
  host : Host
  filters : List (Filter σ)
  listeners : List (Listener σ)

-- What a resolver's steps leave behind: the stores as far as they are loaded, the report, and the
-- state of the host.
structure Progress (σ : Type) where
  stores : Stores
  report : List Event
  outside : σ

namespace Resolver

variable {σ : Type}

-- A step gives a result or fails, and leaves its traces either way.
abbrev Step (σ α : Type) : Type := Progress σ → Except Error α × Progress σ

def Step.bind {α β : Type} (step : Step σ α) (next : α → Step σ β) : Step σ β := fun progress =>
  match step progress with
  | (.ok value, progress) => next value progress
  | (.error error, progress) => (.error error, progress)

def Step.ofResult {α : Type} (result : Except Error α) : Step σ α := fun progress =>
  (result, progress)

def onStores {α : Type} (access : Stores → Except StoreFault α × Stores) : Step σ α :=
  fun progress =>
    let (result, stores) := access progress.stores
    (result.mapError .stores, { progress with stores })

def screening (filters : List (Filter σ)) (candidates : List String) (metadata : Metadata) :
    Step σ (List String) := fun progress =>
  let (result, outside) := Filter.screen filters candidates metadata progress.outside
  (result, { progress with outside })

def notifying (listeners : List (Listener σ)) (event : Event) : Step σ Unit := fun progress =>
  let (result, record) := Listener.notify listeners event ⟨progress.report, progress.outside⟩
  (result, { progress with report := record.report, outside := record.outside })

-- Whether resolution is switched on: by the site, else by the property, else it is.
def isEnabled (resolver : Resolver σ) (site : Site) : Except Error Bool :=
  match site.enabled with
  | some enabled => .ok enabled
  | none =>
    (resolver.host.properties.getBool? resolver.engine.enabledProperty).map fun flag =>
      flag.getD true

def exclusions (resolver : Resolver σ) (site : Site) : List String :=
  Exclusion.resolve resolver.engine site resolver.host.properties

-- The entry of a site for which resolution is switched on: the candidates less the exclusions, as
-- far as the filters accept them.
def resolveEnabled (resolver : Resolver σ) (files : Snapshot) (site : Site) : Step σ Entry :=
  Step.bind (onStores (Stores.loadCandidates files resolver.engine.point)) fun registered =>
  let candidates := Name.distinct registered
  let exclusions := resolver.exclusions site
  Step.bind (.ofResult (Exclusion.validate candidates exclusions resolver.host.types)) fun () =>
  Step.bind (onStores (Stores.loadMetadata files)) fun metadata =>
  let remaining := candidates.filter fun module => decide (module ∉ exclusions)
  Step.bind (screening resolver.filters remaining metadata) fun accepted =>
  let event : Event := ⟨accepted, .ofList exclusions⟩
  Step.bind (notifying resolver.listeners event) fun () =>
  .ofResult (.ok (.ofResolved event.configurations event.exclusions))

def resolve (resolver : Resolver σ) (files : Snapshot) (site : Site) : Step σ Entry :=
  Step.bind (.ofResult (resolver.isEnabled site)) fun enabled =>
  if enabled then resolver.resolveEnabled files site else .ofResult (.ok .disabled)

def select (resolver : Resolver σ) (files : Snapshot) (site : Site) : Step σ (List String) :=
  Step.bind (resolver.resolve files site) fun entry => .ofResult (.ok entry.configurations)

def batch (resolver : Resolver σ) (files : Snapshot) : Step σ Batch :=
  Step.bind (onStores (Stores.loadCatalog files)) fun catalog =>
  Step.bind (onStores (Stores.loadMetadata files)) fun metadata =>
  .ofResult (.ok (.start (.ofCatalog catalog resolver.engine.point metadata)))

-- Resolve a site and record its entry in a batch. The batch stays as it is when this fails.
def process (resolver : Resolver σ) (files : Snapshot) (batch : Batch) (site : Site)
    (progress : Progress σ) : (Except Error Unit × Batch) × Progress σ :=
  let (resolved, progress) := resolver.resolve files site progress
  (batch.process site resolved, progress)

end Resolver

end Activation
