import Activation.Files
import Activation.Proofs.Roots
import Activation.Proofs.Stores

namespace Activation.Stores

variable {α δ : Type} {look : δ → Snapshot} {files : Snapshot} {stores : Stores}

inductive Request where
  | catalog
  | metadata
  | candidates (point : String)
  | isLoaded

inductive Action (δ : Type) where
  | edit (change : δ → δ)
  | ask (request : Request)

-- A disk of any kind whose files can be looked at, and the stores that are read from it.
structure World (δ : Type) where
  disk : δ
  stores : Stores

def ask (files : Snapshot) (stores : Stores) : Request → Stores
  | .catalog => (stores.loadCatalog files).2
  | .metadata => (stores.loadMetadata files).2
  | .candidates point => (stores.loadCandidates files point).2
  | .isLoaded => stores

def act (look : δ → Snapshot) (world : World δ) : Action δ → World δ
  | .edit change => { world with disk := change world.disk }
  | .ask request => { world with stores := world.stores.ask (look world.disk) request }

def run (look : δ → Snapshot) (actions : List (Action δ)) (world : World δ) : World δ :=
  actions.foldl (act look) world

def Request.needsCatalog : Request → Bool
  | .catalog | .candidates _ => true
  | .metadata | .isLoaded => false

def Request.needsMetadata : Request → Bool
  | .metadata => true
  | .catalog | .candidates _ | .isLoaded => false

-- What the files come to at every such request of a run, whether they are read then or not.
def readings (needs : Request → Bool) (read : Snapshot → Except StoreFault α)
    (look : δ → Snapshot) : List (Action δ) → δ → List (Except StoreFault α)
  | [], _ => []
  | .edit change :: later, disk => readings needs read look later (change disk)
  | .ask request :: later, disk =>
    if needs request then read (look disk) :: readings needs read look later disk
    else readings needs read look later disk

def First (past : List (Except StoreFault α)) (value : α) : Prop :=
  ∃ failed later, past = failed ++ .ok value :: later ∧
    ∀ reading ∈ failed, ∃ fault, reading = .error fault

-- How one of the stores answers after some readings, given what the files come to now: with the
-- first reading that does not fail, this one included, and then the store is held. As long as all
-- fail the answer is the latest failure, and nothing is held that was not before.
structure GivesFirst (held : Stores → Option α) (past : List (Except StoreFault α))
    (now : Except StoreFault α) (stores : Stores) (answered : Except StoreFault α × Stores) :
    Prop where
  held_iff : ∀ value, held stores = some value ↔ First past value
  ok_iff : ∀ value, answered.1 = .ok value ↔ First (past ++ [now]) value
  held_after : ∀ value, answered.1 = .ok value → held answered.2 = some value
  error : ∀ fault, answered.1 = .error fault → now = .error fault ∧ answered.2 = stores

private theorem toOption_eq_some_iff {ε : Type} {result : Except ε α} {value : α} :
    result.toOption = some value ↔ result = .ok value := by
  cases result with
  | error fault => exact ⟨nofun, nofun⟩
  | ok found => exact ⟨fun h => congrArg _ (Option.some.inj h),
      fun h => congrArg _ (Except.ok.inj h)⟩

private theorem first_iff_findSome? {past : List (Except StoreFault α)} {value : α} :
    First past value ↔ past.findSome? Except.toOption = some value := by
  rw [List.findSome?_eq_some_iff]
  constructor
  · rintro ⟨failed, later, rfl, hfailed⟩
    refine ⟨failed, .ok value, later, rfl, rfl, fun reading hm => ?_⟩
    obtain ⟨fault, rfl⟩ := hfailed reading hm
    rfl
  · rintro ⟨failed, reading, later, rfl, hreading, hfailed⟩
    obtain rfl := toOption_eq_some_iff.mp hreading
    refine ⟨failed, later, rfl, fun reading hm => ?_⟩
    cases reading with
    | error fault => exact ⟨fault, rfl⟩
    | ok other => cases hfailed _ hm

theorem givesFirst {held : Stores → Option α} {past : List (Except StoreFault α)}
    (read : Snapshot → Except StoreFault α) (files : Snapshot)
    {answered : Except StoreFault α × Stores}
    (hheld : held stores = past.findSome? Except.toOption)
    (hasked : (answered.1, held answered.2) = Latch.ask read files (held stores))
    (hstays : ∀ fault, answered.1 = .error fault → answered.2 = stores) :
    GivesFirst held past (read files) stores answered := by
  have hanswer : answered.1 = (held stores).elim (read files) .ok := by
    rw [← Latch.ask_fst, ← hasked]
  refine ⟨fun value => ?_, fun value => ?_, fun value h => ?_, fun fault h => ⟨?_, hstays fault h⟩⟩
  · rw [first_iff_findSome?, hheld]
  · rw [first_iff_findSome?, List.findSome?_append, List.findSome?_singleton, ← hheld,
      ← toOption_eq_some_iff, hanswer]
    cases held stores <;> rfl
  · rw [congrArg Prod.fst hasked] at h
    exact congrArg Prod.snd (hasked.trans (Latch.ask_of_ok h))
  · rw [hanswer] at h
    cases hs : held stores with
    | some kept =>
        rw [hs] at h
        cases h
    | none =>
        rw [hs] at h
        exact h

section Loading

variable (files : Snapshot) (stores : Stores)

-- All that a request can change: a store that it needs and that is not held yet.
theorem ask_eq (request : Request) :
    stores.ask files request = { stores with
      catalog := if request.needsCatalog
        then stores.catalog.or (Catalog.ofRoots files stores.roots).toOption else stores.catalog
      metadata := if request.needsMetadata
        then stores.metadata.or (Metadata.ofRoots files stores.roots).toOption
        else stores.metadata } := by
  cases request with
  | catalog | candidates =>
      exact congrArg (fun held => { stores with catalog := held })
        (Latch.ask_snd _ files stores.catalog)
  | metadata =>
      exact congrArg (fun held => { stores with metadata := held })
        (Latch.ask_snd _ files stores.metadata)
  | isLoaded => rfl

theorem roots_ask (request : Request) : (stores.ask files request).roots = stores.roots := by
  rw [ask_eq]

theorem catalog_ask (request : Request) :
    (stores.ask files request).catalog = if request.needsCatalog
      then stores.catalog.or (Catalog.ofRoots files stores.roots).toOption
      else stores.catalog := by
  rw [ask_eq]

theorem metadata_ask (request : Request) :
    (stores.ask files request).metadata = if request.needsMetadata
      then stores.metadata.or (Metadata.ofRoots files stores.roots).toOption
      else stores.metadata := by
  rw [ask_eq]

end Loading

theorem roots_run (actions : List (Action δ)) (world : World δ) :
    (run look actions world).stores.roots = world.stores.roots := by
  induction actions generalizing world with
  | nil => rfl
  | cons action later ih =>
      refine (ih _).trans ?_
      cases action with
      | edit change => rfl
      | ask request => exact roots_ask _ _ request

-- A run leaves a store with what it had, or else with the first of its readings that did not fail.
theorem held_run {held : Stores → Option α} {needs : Request → Bool}
    {read : Snapshot → List String → Except StoreFault α}
    (hask : ∀ files stores request, held (stores.ask files request) =
      if needs request then (held stores).or (read files stores.roots).toOption else held stores)
    (actions : List (Action δ)) (world : World δ) :
    held (run look actions world).stores = (held world.stores).or
      ((readings needs (read · world.stores.roots) look actions world.disk).findSome?
        Except.toOption) := by
  induction actions generalizing world with
  | nil => exact Option.or_none.symm
  | cons action later ih =>
      cases action with
      | edit change => exact ih ⟨change world.disk, world.stores⟩
      | ask request =>
          have hrest := ih (act look world (.ask request))
          simp only [act, roots_ask, hask] at hrest
          refine hrest.trans ?_
          rw [readings]
          by_cases hneeds : needs request
          · rw [if_pos hneeds, if_pos hneeds, Option.or_assoc, List.findSome?_cons]
            cases (read (look world.disk) world.stores.roots).toOption <;> rfl
          · rw [if_neg hneeds, if_neg hneeds]

section FromRoots

variable (look : δ → Snapshot) (roots : List String) (disk : δ) (actions : List (Action δ))

theorem catalog_run_ofRoots :
    (run look actions ⟨disk, .ofRoots roots⟩).stores.catalog =
      (readings Request.needsCatalog (Catalog.ofRoots · roots) look actions disk).findSome?
        Except.toOption :=
  held_run catalog_ask actions ⟨disk, .ofRoots roots⟩

theorem metadata_run_ofRoots :
    (run look actions ⟨disk, .ofRoots roots⟩).stores.metadata =
      (readings Request.needsMetadata (Metadata.ofRoots · roots) look actions disk).findSome?
        Except.toOption :=
  held_run metadata_ask actions ⟨disk, .ofRoots roots⟩

end FromRoots

theorem catalog_run {catalog : Catalog} {world : World δ} (h : world.stores.catalog = some catalog)
    (later : List (Action δ)) : (run look later world).stores.catalog = some catalog := by
  rw [held_run catalog_ask, h, Option.some_or]

theorem metadata_run {metadata : Metadata} {world : World δ}
    (h : world.stores.metadata = some metadata) (later : List (Action δ)) :
    (run look later world).stores.metadata = some metadata := by
  rw [held_run metadata_ask, h, Option.some_or]

theorem loadCatalog_givesFirst {past : List (Except StoreFault Catalog)}
    (hheld : stores.catalog = past.findSome? Except.toOption) (files : Snapshot) :
    GivesFirst Stores.catalog past (Catalog.ofRoots files stores.roots) stores
      (stores.loadCatalog files) := by
  refine givesFirst (Catalog.ofRoots · stores.roots) files hheld rfl fun fault h => ?_
  rw [loadCatalog_error h]

theorem loadMetadata_givesFirst {past : List (Except StoreFault Metadata)}
    (hheld : stores.metadata = past.findSome? Except.toOption) (files : Snapshot) :
    GivesFirst Stores.metadata past (Metadata.ofRoots files stores.roots) stores
      (stores.loadMetadata files) := by
  refine givesFirst (Metadata.ofRoots · stores.roots) files hheld rfl fun fault h => ?_
  rw [loadMetadata_error h]

-- How the candidates of an extension point are answered after some readings of the catalog: from
-- the catalog that is given, and held from then on, even where it has none.
structure GivesCandidates (past : List (Except StoreFault Catalog))
    (now : Except StoreFault Catalog) (stores : Stores) (point : String)
    (answered : Except StoreFault (List String) × Stores) : Prop where
  ok_iff : ∀ modules, answered.1 = .ok modules ↔
    ∃ catalog, First (past ++ [now]) catalog ∧ catalog.modules point = modules ∧ modules ≠ []
  noCandidates_iff : ∀ other, answered.1 = .error (.noCandidates other) ↔
    other = point ∧ ∃ catalog, First (past ++ [now]) catalog ∧ catalog.modules point = []
  held_after : ∀ catalog, First (past ++ [now]) catalog → answered.2.catalog = some catalog
  error : ∀ fault, answered.1 = .error fault → (∀ other, fault ≠ .noCandidates other) →
    now = .error fault ∧ answered.2 = stores

private theorem bind_eq_ok_iff {ε α β : Type} {result : Except ε α} {f : α → Except ε β}
    {answer : β} :
    result.bind f = .ok answer ↔ ∃ value, result = .ok value ∧ f value = .ok answer := by
  cases result with
  | error fault => exact ⟨nofun, nofun⟩
  | ok value => exact ⟨fun h => ⟨value, rfl, h⟩, fun ⟨_, hvalue, h⟩ => Except.ok.inj hvalue ▸ h⟩

private theorem bind_eq_error_iff {ε α β : Type} {result : Except ε α} {f : α → Except ε β}
    {fault : ε} :
    result.bind f = .error fault ↔
      result = .error fault ∨ ∃ value, result = .ok value ∧ f value = .error fault := by
  cases result with
  | error other =>
      exact ⟨fun h => .inl (congrArg _ (Except.error.inj h)), fun h => h.elim
        (fun h => congrArg _ (Except.error.inj h)) nofun⟩
  | ok value =>
      exact ⟨fun h => .inr ⟨value, rfl, h⟩, fun h => h.elim nofun
        fun ⟨_, hvalue, h⟩ => Except.ok.inj hvalue ▸ h⟩

theorem givesCandidates {past : List (Except StoreFault Catalog)}
    {now : Except StoreFault Catalog}
    (h : GivesFirst Stores.catalog past now stores (stores.loadCatalog files))
    (hnow : ∀ other, now ≠ .error (.noCandidates other)) (point : String) :
    GivesCandidates past now stores point (stores.loadCandidates files point) := by
  have hanswer : (stores.loadCandidates files point).1 =
      (stores.loadCatalog files).1.bind fun catalog => candidatesIn catalog point := rfl
  refine ⟨fun modules => ?_, fun other => ?_, fun catalog hfirst => ?_, fun fault hf hother => ?_⟩
  · rw [hanswer, bind_eq_ok_iff]
    exact exists_congr fun catalog => and_congr (h.ok_iff catalog) candidatesIn_eq_ok_iff
  · rw [hanswer, bind_eq_error_iff]
    constructor
    · rintro (hfault | ⟨catalog, hcatalog, hnone⟩)
      · exact absurd (h.error _ hfault).1 (hnow other)
      · obtain ⟨hpoint, hmodules⟩ := candidatesIn_eq_error_iff.mp hnone
        cases hpoint
        exact ⟨rfl, catalog, (h.ok_iff catalog).mp hcatalog, hmodules⟩
    · rintro ⟨rfl, catalog, hfirst, hmodules⟩
      exact .inr ⟨catalog, (h.ok_iff catalog).mpr hfirst,
        candidatesIn_eq_error_iff.mpr ⟨rfl, hmodules⟩⟩
  · exact h.held_after catalog ((h.ok_iff catalog).mpr hfirst)
  · rw [hanswer, bind_eq_error_iff] at hf
    obtain hfault | ⟨catalog, -, hnone⟩ := hf
    · exact h.error fault hfault
    · exact absurd (candidatesIn_eq_error_iff.mp hnone).1 (hother point)

private theorem ofRoots_ne_noCandidates (files : Snapshot) (roots : List String) (point : String) :
    Catalog.ofRoots files roots ≠ .error (.noCandidates point) := by
  intro h
  exact (readRoots_eq_error_iff Catalog.merge_empty).mp h |>.ne_noCandidates point rfl

-- After any run from the start, each store answers with the first of its own readings that did not
-- fail, and holds it; candidates are answered from the same catalog. Whether there is a catalog
-- tells whether one was read, and nothing that was held once changes.
theorem stores_keep_first_reading (look : δ → Snapshot) (roots : List String) (disk : δ)
    (actions : List (Action δ)) :
    let world := run look actions ⟨disk, .ofRoots roots⟩
    let files := look world.disk
    let catalogs := readings Request.needsCatalog (Catalog.ofRoots · roots) look actions disk
    let hints := readings Request.needsMetadata (Metadata.ofRoots · roots) look actions disk
    GivesFirst Stores.catalog catalogs (Catalog.ofRoots files roots) world.stores
      (world.stores.loadCatalog files) ∧
    GivesFirst Stores.metadata hints (Metadata.ofRoots files roots) world.stores
      (world.stores.loadMetadata files) ∧
    (∀ point, GivesCandidates catalogs (Catalog.ofRoots files roots) world.stores point
      (world.stores.loadCandidates files point)) ∧
    (world.stores.isLoaded = true ↔ ∃ catalog, First catalogs catalog) ∧
    ∀ later, let after := run look later world
      (∀ catalog, world.stores.catalog = some catalog → after.stores.catalog = some catalog) ∧
      (∀ metadata, world.stores.metadata = some metadata →
        after.stores.metadata = some metadata) ∧
      (world.stores.isLoaded = true → after.stores.isLoaded = true) := by
  intro world files catalogs hints
  have hroots : world.stores.roots = roots := roots_run actions ⟨disk, .ofRoots roots⟩
  have hcatalog := loadCatalog_givesFirst (catalog_run_ofRoots look roots disk actions) files
  have hmetadata := loadMetadata_givesFirst (metadata_run_ofRoots look roots disk actions) files
  rw [hroots] at hcatalog hmetadata
  refine ⟨hcatalog, hmetadata, givesCandidates hcatalog (ofRoots_ne_noCandidates files roots), ?_,
    fun later => ⟨fun catalog h => catalog_run h later, fun metadata h => metadata_run h later, ?_⟩⟩
  · rw [isLoaded, Option.isSome_iff_exists]
    exact exists_congr hcatalog.held_iff
  · intro h
    obtain ⟨catalog, hc⟩ := Option.isSome_iff_exists.mp h
    exact Option.isSome_iff_exists.mpr ⟨catalog, catalog_run hc later⟩

-- A catalog that is not understood at first, then has nothing for "p", and has "a" only later. The
-- metadata is read after that, and then removed.
def repairing : List (Action Tree) :=
  [.ask .catalog,
    .edit (·.addText [] "app/autoconf.catalog.toml" "[extension_points]\np = []"),
    .ask (.candidates "p"),
    .edit (·.addText [] "app/autoconf.catalog.toml" "[extension_points]\np = ['a']"),
    .edit (·.addText [] "app/autoconf.metadata.toml" "[modules.a]\norder = 1"),
    .ask .metadata,
    .edit (·.remove [] "app/autoconf.metadata.toml")]

def brokenCatalog : World Tree :=
  ⟨Tree.empty.addText [] "app/autoconf.catalog.toml" "][", .ofRoots ["app"]⟩

theorem stores_keep_first_reading_brokenCatalog :
    let world := run (Tree.snapshot · []) repairing brokenCatalog
    let files := world.disk.snapshot []
    let read := (Catalog.ofRoots · ["app"])
    let catalogs :=
      readings Request.needsCatalog read (Tree.snapshot · []) repairing brokenCatalog.disk
    (∃ catalog, First (catalogs ++ [read files]) catalog ∧ catalog.modules "p" = []) ∧
      (read files).map (fun catalog => catalog.modules "p") = .ok ["a"] ∧
      (∃ metadata, (world.stores.loadMetadata files).2.metadata = some metadata ∧
        metadata.get? "a" = some { order := some 1 }) ∧
      (Metadata.ofRoots files ["app"]).map (fun metadata => metadata.get? "a") = .ok none := by
  intro world files read catalogs
  obtain ⟨-, hmetadata, hcandidates, -⟩ := stores_keep_first_reading (Tree.snapshot · []) ["app"]
    brokenCatalog.disk repairing
  have hnone : (world.stores.loadCandidates files "p").1 = .error (.noCandidates "p") := by
    decide +kernel
  have hgiven : (world.stores.loadMetadata files).1.map (fun metadata => metadata.get? "a") =
      .ok (some { order := some 1 }) := by decide +kernel
  obtain ⟨metadata, hm, hget⟩ := exists_of_map_eq_ok hgiven
  exact ⟨(((hcandidates "p").noCandidates_iff "p").mp hnone).2, by decide +kernel,
    ⟨metadata, hmetadata.held_after metadata hm, hget⟩, by decide +kernel⟩

end Activation.Stores
