import Activation.Stores
import Mathlib.Logic.Basic

namespace Activation

namespace Latch

variable {α : Type} {read : Snapshot → Except StoreFault α} {files : Snapshot} {held : Option α}

theorem ask_fst (read : Snapshot → Except StoreFault α) (files : Snapshot) (held : Option α) :
    (ask read files held).1 = held.elim (read files) .ok := by
  cases held with
  | some value => rfl
  | none =>
      rw [ask]
      cases read files <;> rfl

theorem ask_snd (read : Snapshot → Except StoreFault α) (files : Snapshot) (held : Option α) :
    (ask read files held).2 = held.or (read files).toOption := by
  cases held with
  | some value => rfl
  | none =>
      rw [ask]
      cases read files <;> rfl

theorem ask_of_ok {value : α} (h : (ask read files held).1 = .ok value) :
    ask read files held = (.ok value, some value) := by
  refine Prod.ext h ?_
  rw [ask_fst] at h
  rw [ask_snd]
  cases held with
  | some kept => exact congrArg some (Except.ok.inj h)
  | none =>
      rw [Option.elim_none] at h
      rw [h]
      rfl

theorem ask_of_error {fault : StoreFault} (h : (ask read files held).1 = .error fault) :
    ask read files held = (.error fault, held) := by
  refine Prod.ext h ?_
  rw [ask_fst] at h
  rw [ask_snd]
  cases held with
  | some kept => cases h
  | none =>
      rw [Option.elim_none] at h
      rw [h]
      rfl

theorem ask_again (read : Snapshot → Except StoreFault α) (files : Snapshot) (held : Option α) :
    (ask read files (ask read files held).2).1 = (ask read files held).1 := by
  cases h : (ask read files held).1 with
  | ok value => rw [ask_of_ok h, ask]
  | error fault => rw [ask_of_error h, h]

end Latch

namespace Stores

variable {files : Snapshot} {stores after : Stores} {catalog : Catalog} {metadata : Metadata}

structure Loaded (stores : Stores) (catalog : Catalog) (metadata : Metadata) : Prop where
  catalog : stores.catalog = some catalog
  metadata : stores.metadata = some metadata

theorem loadCatalog_ok (h : (stores.loadCatalog files).1 = .ok catalog) :
    stores.loadCatalog files = (.ok catalog, { stores with catalog := some catalog }) := by
  rw [loadCatalog, Latch.ask_of_ok h]

theorem loadMetadata_ok (h : (stores.loadMetadata files).1 = .ok metadata) :
    stores.loadMetadata files = (.ok metadata, { stores with metadata := some metadata }) := by
  rw [loadMetadata, Latch.ask_of_ok h]

theorem loadCatalog_error {fault : StoreFault} (h : (stores.loadCatalog files).1 = .error fault) :
    stores.loadCatalog files = (.error fault, stores) := by
  rw [loadCatalog, Latch.ask_of_error h]

theorem loadMetadata_error {fault : StoreFault} (h : (stores.loadMetadata files).1 = .error fault) :
    stores.loadMetadata files = (.error fault, stores) := by
  rw [loadMetadata, Latch.ask_of_error h]

theorem loadCatalog_again (files : Snapshot) (stores : Stores) :
    ((stores.loadCatalog files).2.loadCatalog files).1 = (stores.loadCatalog files).1 :=
  Latch.ask_again _ files stores.catalog

theorem loadMetadata_again (files : Snapshot) (stores : Stores) :
    ((stores.loadMetadata files).2.loadMetadata files).1 = (stores.loadMetadata files).1 :=
  Latch.ask_again _ files stores.metadata

theorem loadCatalog_ofRoots (files : Snapshot) (roots : List String) :
    ((ofRoots roots).loadCatalog files).1 = Catalog.ofRoots files roots :=
  Latch.ask_fst _ files none

theorem loadMetadata_ofRoots (files : Snapshot) (roots : List String) :
    ((ofRoots roots).loadMetadata files).1 = Metadata.ofRoots files roots :=
  Latch.ask_fst _ files none

theorem loadCandidates_fst (files : Snapshot) (point : String) (stores : Stores) :
    (stores.loadCandidates files point).1 =
      (stores.loadCatalog files).1.bind fun catalog => candidatesIn catalog point :=
  rfl

theorem Loaded.loadCatalog (h : stores.Loaded catalog metadata) (files : Snapshot) :
    stores.loadCatalog files = (.ok catalog, stores) := by
  have hanswer : (stores.loadCatalog files).1 = .ok catalog := by
    rw [Stores.loadCatalog, Latch.ask_fst, h.catalog, Option.elim_some]
  rw [loadCatalog_ok hanswer, ← h.catalog]

theorem Loaded.loadMetadata (h : stores.Loaded catalog metadata) (files : Snapshot) :
    stores.loadMetadata files = (.ok metadata, stores) := by
  have hanswer : (stores.loadMetadata files).1 = .ok metadata := by
    rw [Stores.loadMetadata, Latch.ask_fst, h.metadata, Option.elim_some]
  rw [loadMetadata_ok hanswer, ← h.metadata]

theorem Loaded.loadCandidates (h : stores.Loaded catalog metadata) (files : Snapshot)
    (point : String) :
    stores.loadCandidates files point = (candidatesIn catalog point, stores) := by
  rw [Stores.loadCandidates, h.loadCatalog files]
  rfl

theorem candidatesIn_ok {point : String} {registered : List String}
    (h : candidatesIn catalog point = .ok registered) :
    registered = catalog.modules point ∧ registered ≠ [] := by
  unfold candidatesIn at h
  split at h
  · cases h
  · rename_i hm
    obtain rfl := Except.ok.inj h
    exact ⟨rfl, hm⟩

theorem candidatesIn_eq_ok_iff {catalog : Catalog} {point : String} {modules : List String} :
    candidatesIn catalog point = .ok modules ↔ catalog.modules point = modules ∧ modules ≠ [] := by
  refine ⟨fun h => ?_, fun ⟨hmodules, hne⟩ => ?_⟩
  · obtain ⟨rfl, hne⟩ := candidatesIn_ok h
    exact ⟨rfl, hne⟩
  · subst hmodules
    unfold candidatesIn
    split
    · contradiction
    · rfl

theorem candidatesIn_eq_error_iff {catalog : Catalog} {point : String} {fault : StoreFault} :
    candidatesIn catalog point = .error fault ↔
      fault = .noCandidates point ∧ catalog.modules point = [] := by
  unfold candidatesIn
  split <;> rename_i hm
  · exact ⟨fun h => ⟨(Except.error.inj h).symm, hm⟩, fun h => congrArg Except.error h.1.symm⟩
  · exact ⟨nofun, fun h => absurd h.2 hm⟩

structure Available (files : Snapshot) (catalog : Catalog) (metadata : Metadata)
    (stores : Stores) : Prop where
  catalog : (stores.loadCatalog files).1 = .ok catalog
  metadata : (stores.loadMetadata files).1 = .ok metadata

theorem Loaded.available (h : stores.Loaded catalog metadata) (files : Snapshot) :
    stores.Available files catalog metadata :=
  ⟨by rw [h.loadCatalog], by rw [h.loadMetadata]⟩

theorem Available.after_loadCatalog (h : stores.Available files catalog metadata) :
    (stores.loadCatalog files).2.Available files catalog metadata :=
  ⟨(loadCatalog_again files stores).trans h.catalog, h.metadata⟩

theorem Available.after_loadMetadata (h : stores.Available files catalog metadata) :
    (stores.loadMetadata files).2.Available files catalog metadata :=
  ⟨h.catalog, (loadMetadata_again files stores).trans h.metadata⟩

theorem Available.loadCandidates (h : stores.Available files catalog metadata) (point : String) :
    stores.loadCandidates files point =
      (candidatesIn catalog point, (stores.loadCatalog files).2) := by
  rw [Stores.loadCandidates, loadCatalog_ok h.catalog]
  rfl

end Stores

end Activation
