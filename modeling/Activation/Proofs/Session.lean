import Activation.Proofs.Resolver
import Activation.Session
import Mathlib.Data.List.Find

namespace Activation

namespace Session

open Resolver

variable {σ : Type} {resolver : Resolver σ} {accepts : Filter σ → Metadata → String → Bool}
  {files : Snapshot} {catalog : Catalog} {metadata : Metadata} {sites : List Site}
  {progress after : Progress σ} {site : Site} {module : String}

-- A batch from its start, through all sites, to its imports.
def conclude (resolver : Resolver σ) (files : Snapshot) (sites : List Site) :
    Step σ (List Import) :=
  .bind (resolver.batch files) fun batch =>
  .bind (processAll resolver files sites batch) fun batch =>
  .ofResult batch.finalize

-- The sites with their entries, as far as filters that judge each module for itself go.
def recorded (resolver : Resolver σ) (accepts : Filter σ → Metadata → String → Bool)
    (catalog : Catalog) (metadata : Metadata) (sites : List Site) : List (Site × Entry) :=
  sites.map fun site => (site, resolver.entryOf accepts catalog metadata site)

theorem processAll_cons_ok {batch full : Batch}
    (h : processAll resolver files (site :: sites) batch progress = (.ok full, after)) :
    ∃ entry middle, resolver.resolve files site progress = (.ok entry, middle) ∧
      processAll resolver files sites (batch.record site entry) middle = (.ok full, after) := by
  rcases hs : resolver.resolve files site progress with ⟨error | entry, middle⟩
  · simp only [processAll, Resolver.process, hs, Batch.process] at h
    cases h
  · refine ⟨entry, middle, rfl, ?_⟩
    simp only [processAll, Resolver.process, hs, Batch.process] at h
    exact h

theorem processAll_ok (hfilters : ∀ filter ∈ resolver.filters, filter.Judges (accepts filter))
    (hloaded : progress.stores.Loaded catalog metadata) {batch full : Batch}
    (h : processAll resolver files sites batch progress = (.ok full, after)) :
    full = batch.recordAll (recorded resolver accepts catalog metadata sites) := by
  induction sites generalizing batch progress with
  | nil =>
      obtain ⟨hfull, -⟩ := Prod.mk.inj h
      exact (Except.ok.inj hfull).symm
  | cons site rest ih =>
      obtain ⟨entry, middle, hresolve, hrest⟩ := processAll_cons_ok h
      obtain ⟨hmiddle, rfl⟩ := resolve_ok_of_judges hfilters hloaded hresolve
      exact ih hmiddle hrest

theorem conclude_ok (hfilters : ∀ filter ∈ resolver.filters, filter.Judges (accepts filter))
    (hcatalog : (progress.stores.loadCatalog files).1 = .ok catalog)
    (hmetadata : (progress.stores.loadMetadata files).1 = .ok metadata) {imports : List Import}
    (h : conclude resolver files sites progress = (.ok imports, after)) :
    ((Batch.start (.ofCatalog catalog resolver.engine.point metadata)).recordAll
      (recorded resolver accepts catalog metadata sites)).finalize = .ok imports := by
  obtain ⟨batch, middle, hbatch, h⟩ := Step.bind_ok_iff.mp h
  obtain ⟨hloaded, rfl⟩ := batch_ok hbatch ⟨hcatalog, hmetadata⟩
  obtain ⟨full, middle, hfull, h⟩ := Step.bind_ok_iff.mp h
  obtain rfl := processAll_ok hfilters hloaded hfull
  exact (Step.ofResult_ok_iff.mp h).1

-- What some enabled site leaves out, or the property for all of them.
def Excluded (resolver : Resolver σ) (sites : List Site) (module : String) : Prop :=
  ∃ site ∈ sites, resolver.isEnabled site = .ok true ∧
    (module ∈ site.exclude ∨ module ∈ site.excludeName ∨
      module ∈ Exclusion.ofProperty resolver.engine resolver.host.properties)

-- What is registered and passes every filter, and is left out by no enabled site.
def Wanted (resolver : Resolver σ) (accepts : Filter σ → Metadata → String → Bool)
    (catalog : Catalog) (metadata : Metadata) (sites : List Site) (module : String) : Prop :=
  module ∈ catalog.modules resolver.engine.point ∧ ¬ Excluded resolver sites module ∧
    ∀ filter ∈ resolver.filters, accepts filter metadata module = true

@[simp]
theorem mem_exclusions_entryOf :
    module ∈ (resolver.entryOf accepts catalog metadata site).exclusions ↔
      resolver.isEnabled site = .ok true ∧ module ∈ resolver.exclusions site := by
  unfold entryOf
  split
  · rename_i he
    simp [Entry.ofResolved, he]
  · rename_i hn
    exact ⟨fun hm => absurd hm List.not_mem_nil, fun hm => absurd hm.1 hn⟩

@[simp]
theorem mem_configurations_entryOf :
    module ∈ (resolver.entryOf accepts catalog metadata site).configurations ↔
      resolver.isEnabled site = .ok true ∧ module ∈ catalog.modules resolver.engine.point ∧
        module ∉ resolver.exclusions site ∧
        ∀ filter ∈ resolver.filters, accepts filter metadata module = true := by
  unfold entryOf
  split
  · rename_i he
    simp [Entry.ofResolved, he, and_assoc]
  · rename_i hn
    exact ⟨fun hm => absurd hm List.not_mem_nil, fun hm => absurd hm.1 hn⟩

theorem excluded_iff (accepts : Filter σ → Metadata → String → Bool) (catalog : Catalog)
    (metadata : Metadata) : Excluded resolver sites module ↔
      ∃ site ∈ sites,
        module ∈ (resolver.entryOf accepts catalog metadata site).exclusions := by
  simp [Excluded]

-- No later site can own a module: what is wanted at all is in the entries of all enabled sites.
theorem Wanted.mem_configurations_iff (h : Wanted resolver accepts catalog metadata sites module)
    (hs : site ∈ sites) :
    module ∈ (resolver.entryOf accepts catalog metadata site).configurations ↔
      resolver.isEnabled site = .ok true := by
  obtain ⟨hregistered, hexcluded, haccepted⟩ := h
  rw [mem_configurations_entryOf]
  refine ⟨fun hm => hm.1, fun he => ⟨he, hregistered, fun hm => hexcluded ?_, haccepted⟩⟩
  exact ⟨site, hs, he, (mem_exclusions module).mp hm⟩

theorem mem_merged_iff (precedence : Precedence) :
    module ∈ ((Batch.start precedence).recordAll
      (recorded resolver accepts catalog metadata sites)).merged ↔
      (∃ site ∈ sites, resolver.isEnabled site = .ok true) ∧
        Wanted resolver accepts catalog metadata sites module := by
  have hentries : ((Batch.start precedence).recordAll
      (recorded resolver accepts catalog metadata sites)).entries =
      sites.map (resolver.entryOf accepts catalog metadata) := by
    rw [Batch.entries_recordAll, recorded, List.map_map]
    rfl
  rw [Batch.mem_merged, hentries, List.forall_mem_map]
  constructor
  · rintro ⟨⟨entry, hentry, hm⟩, hkept⟩
    obtain ⟨site, hs, rfl⟩ := List.mem_map.mp hentry
    obtain ⟨he, hregistered, -, haccepted⟩ := mem_configurations_entryOf.mp hm
    refine ⟨⟨site, hs, he⟩, hregistered, fun hx => ?_, haccepted⟩
    obtain ⟨other, ho, hx⟩ := (excluded_iff accepts catalog metadata).mp hx
    exact hkept other ho hx
  · rintro ⟨⟨site, hs, he⟩, hw⟩
    refine ⟨⟨_, List.mem_map_of_mem hs, (hw.mem_configurations_iff hs).mpr he⟩, ?_⟩
    exact fun other ho hx => hw.2.1 ((excluded_iff accepts catalog metadata).mpr ⟨other, ho, hx⟩)

theorem Wanted.find?_recorded (h : Wanted resolver accepts catalog metadata sites module) :
    ((recorded resolver accepts catalog metadata sites).find? fun pair =>
      decide (module ∈ pair.2.configurations)).map Prod.fst =
        sites.find? fun site => decide (resolver.isEnabled site = .ok true) := by
  have hcongr : sites.find? (fun site => decide
      (module ∈ (resolver.entryOf accepts catalog metadata site).configurations)) =
      sites.find? fun site => decide (resolver.isEnabled site = .ok true) :=
    List.find?_congr fun site hs => decide_eq_decide.mpr (h.mem_configurations_iff hs)
  rw [recorded, List.find?_map, Option.map_map, ← hcongr]
  exact congrFun Option.map_id _

private theorem exists_first_enabled (h : ∃ site ∈ sites, resolver.isEnabled site = .ok true) :
    ∃ before first later, sites = before ++ first :: later ∧
      resolver.isEnabled first = .ok true ∧
      (∀ site ∈ before, resolver.isEnabled site ≠ .ok true) ∧
      sites.find? (fun site => decide (resolver.isEnabled site = .ok true)) = some first := by
  obtain ⟨site, hs, he⟩ := h
  have hsome : (sites.find? fun site => decide (resolver.isEnabled site = .ok true)).isSome :=
    List.find?_isSome.mpr ⟨site, hs, decide_eq_true he⟩
  obtain ⟨first, hfirst⟩ := Option.isSome_iff_exists.mp hsome
  obtain ⟨htest, before, later, hsites, hskip⟩ := List.find?_eq_some_iff_append.mp hfirst
  refine ⟨before, first, later, hsites, of_decide_eq_true htest, fun other ho => ?_, hfirst⟩
  simpa using hskip other ho

-- The imports of a session are what its enabled sites want together, in one order, and all of them
-- belong to the first of these sites.
theorem conclude_sorts_wanted (resolver : Resolver σ)
    (accepts : Filter σ → Metadata → String → Bool) (files : Snapshot) (catalog : Catalog)
    (metadata : Metadata) (sites : List Site) (progress : Progress σ) (imports : List Import)
    (hfilters : ∀ filter ∈ resolver.filters, filter.Judges (accepts filter))
    (hcatalog : (progress.stores.loadCatalog files).1 = .ok catalog)
    (hmetadata : (progress.stores.loadMetadata files).1 = .ok metadata)
    (h : (conclude resolver files sites progress).1 = .ok imports) :
    ((∃ site ∈ sites, resolver.isEnabled site = .ok true) →
      (∀ modules, (∀ module, module ∈ modules ↔
          Wanted resolver accepts catalog metadata sites module) →
        (Precedence.ofCatalog catalog resolver.engine.point metadata).sort modules =
          .ok (imports.map Import.module)) ∧
      (∀ module, module ∈ imports.map Import.module ↔
        Wanted resolver accepts catalog metadata sites module) ∧
      (imports.map Import.module).Nodup ∧
      ∃ before first later, sites = before ++ first :: later ∧
        resolver.isEnabled first = .ok true ∧
        (∀ site ∈ before, resolver.isEnabled site ≠ .ok true) ∧
        ∀ item ∈ imports, item.site = first) ∧
    ((∀ site ∈ sites, resolver.isEnabled site ≠ .ok true) → imports = []) ∧
    ∀ host, ∀ filter ∈ (Filter.builtins : List (Filter σ)).map (Filter.inject host),
      filter.SlotWise := by
  have hfinal := conclude_ok hfilters hcatalog hmetadata (Prod.ext h rfl)
  obtain ⟨hsort, howner⟩ := Batch.finalize_recordAll_ok hfinal
  obtain ⟨hgreedy, hall⟩ := (Precedence.sort_ok_iff _ _ _).mp hsort
  have hmem : ∀ module, module ∈ imports.map Import.module ↔
      (∃ site ∈ sites, resolver.isEnabled site = .ok true) ∧
        Wanted resolver accepts catalog metadata sites module := by
    intro module
    rw [← mem_merged_iff (.ofCatalog catalog resolver.engine.point metadata)]
    exact ⟨hgreedy.free.mem_members, hall module⟩
  refine ⟨fun hsome => ⟨fun modules hmodules => ?_, fun module => ?_, hgreedy.free.nodup, ?_⟩,
    fun hnone => ?_, Filter.slotWise_builtins⟩
  · rw [← hsort]
    apply Precedence.sort_congr
    intro module
    rw [hmodules, mem_merged_iff]
    exact (and_iff_right hsome).symm
  · rw [hmem, and_iff_right hsome]
  · obtain ⟨before, first, later, hsites, he, hskip, hfirst⟩ := exists_first_enabled hsome
    refine ⟨before, first, later, hsites, he, hskip, fun item hitem => ?_⟩
    have hwanted := ((hmem item.module).mp (List.mem_map_of_mem hitem)).2
    have hsite := howner item hitem
    rw [hwanted.find?_recorded, hfirst] at hsite
    exact (Option.some.inj hsite).symm
  · have hempty : imports.map Import.module = [] := by
      rw [List.eq_nil_iff_forall_not_mem]
      intro module hm
      obtain ⟨⟨site, hs, he⟩, -⟩ := (hmem module).mp hm
      exact hnone site hs he
    exact List.map_eq_nil_iff.mp hempty

-- "d" fails the only condition, and "b" and "e" are left out by a site and by the property. That
-- the first site leaves out "c" does not count, as it is disabled.
def withoutE : PropertySource :=
  .document [("autoconf.autoconfigure.exclude", .array .brackets [.text "e"])]

def environmentOnly : Resolver Unit :=
  Assembly.build
    { filters := [.ofCondition .onEnvironment], host := { properties := withoutE } }

def catalogRepeatingA : Catalog :=
  ["a", "b", "c", "d", "e", "a"].foldl (fun catalog => catalog.register Catalog.defaultPoint) .empty

def aAfterC : Metadata :=
  (Metadata.empty.insert "a" { after := ["c"] }).insert "d" { onEnvironment := some .web }

def oneDisabled : List Site :=
  [{ origin := "off", enabled := some false, exclude := ["c"] }, { origin := "main" },
    { origin := "next", excludeName := ["b"] }]

theorem conclude_sorts_wanted_oneDisabled :
    (conclude environmentOnly (fun _ => .nothing .notFound) oneDisabled
      ⟨.ofLoaded catalogRepeatingA aAfterC, [], ()⟩).1 =
        .ok [⟨{ origin := "main" }, "c"⟩, ⟨{ origin := "main" }, "a"⟩] ∧
      (∃ before first later, oneDisabled = before ++ first :: later ∧
        environmentOnly.isEnabled first = .ok true ∧
        (∀ site ∈ before, environmentOnly.isEnabled site ≠ .ok true) ∧
        ∀ item ∈ [(⟨{ origin := "main" }, "c"⟩ : Import), ⟨{ origin := "main" }, "a"⟩],
          item.site = first) ∧
      ∀ module, module ∈ ["c", "a"] ↔ Wanted environmentOnly
        (fun _ => Condition.accepts environmentOnly.host .onEnvironment) catalogRepeatingA aAfterC
        oneDisabled module := by
  have h : (conclude environmentOnly (fun _ => .nothing .notFound) oneDisabled
      ⟨.ofLoaded catalogRepeatingA aAfterC, [], ()⟩).1 =
        .ok [⟨{ origin := "main" }, "c"⟩, ⟨{ origin := "main" }, "a"⟩] := by decide
  have hfilters : ∀ filter ∈ environmentOnly.filters,
      filter.Judges (Condition.accepts environmentOnly.host .onEnvironment) := by
    intro filter hm
    obtain rfl := List.mem_singleton.mp hm
    exact Filter.judges_inject_condition environmentOnly.host .onEnvironment
  have henabled : ∃ site ∈ oneDisabled, environmentOnly.isEnabled site = .ok true :=
    ⟨{ origin := "main" }, by decide, by decide⟩
  obtain ⟨-, hmem, -, hfirst⟩ := (conclude_sorts_wanted environmentOnly
    (fun _ => Condition.accepts environmentOnly.host .onEnvironment) _ catalogRepeatingA aAfterC
    oneDisabled _ _ hfilters rfl rfl h).1 henabled
  exact ⟨h, hfirst, hmem⟩

end Session

end Activation
