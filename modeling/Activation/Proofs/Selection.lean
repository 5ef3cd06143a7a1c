import Activation.Assembly
import Activation.Proofs.Calls
import Activation.Proofs.Screening
import Activation.Proofs.Steady

namespace Activation

namespace Batch

variable {precedence : Precedence} {site : Site} {entry : Entry}

theorem finalize_record (h : ∀ module ∈ entry.configurations, module ∉ entry.exclusions) :
    ((start precedence).record site entry).finalize =
      (precedence.sort entry.configurations).map (List.map fun module => ⟨site, module⟩) := by
  have hmerged : precedence.sort ((start precedence).recordAll [(site, entry)]).merged =
      precedence.sort entry.configurations := by
    refine precedence.sort_congr fun module => ?_
    rw [mem_merged_iff_kept, Kept, List.forall_mem_singleton]
    constructor
    · rintro ⟨⟨pair, hpair, hm⟩, -⟩
      obtain rfl := List.mem_singleton.mp hpair
      exact hm
    · exact fun hm => ⟨⟨_, List.mem_singleton_self _, hm⟩, h module hm⟩
  have hrecord : (start precedence).record site entry =
      (start precedence).recordAll [(site, entry)] := rfl
  rw [hrecord, ← hmerged]
  cases hf : ((start precedence).recordAll [(site, entry)]).finalize with
  | error error =>
      rw [← map_module_finalize, hf]
      rfl
  | ok imports =>
      obtain ⟨hsort, howner⟩ := finalize_recordAll_ok hf
      have hsite : ∀ item ∈ imports, (⟨site, item.module⟩ : Import) = item := by
        intro item hm
        obtain ⟨pair, hpair, hs⟩ := Option.map_eq_some_iff.mp (howner item hm)
        obtain rfl := List.mem_singleton.mp (List.mem_of_find?_eq_some hpair)
        obtain rfl : site = item.site := hs
        rfl
      have himports : (imports.map Import.module).map (fun module => ⟨site, module⟩) = imports := by
        rw [List.map_map]
        exact (List.map_congr_left hsite).trans (List.map_id' imports)
      rw [hsort, Except.map, himports]

theorem orderingCycle_of_finalize_record {error : Error}
    (hf : ((start precedence).record site entry).finalize = .error error) :
    ∃ members, error = .orderingCycle members :=
  @finalize_error precedence [(site, entry)] error hf

theorem perm_of_finalize_record (h : ∀ module ∈ entry.configurations, module ∉ entry.exclusions)
    (hnodup : entry.configurations.Nodup) {imports : List Import}
    (hf : ((start precedence).record site entry).finalize = .ok imports) :
    (imports.map Import.module).Perm entry.configurations ∧ ∀ item ∈ imports, item.site = site := by
  rw [finalize_record h] at hf
  cases hs : precedence.sort entry.configurations with
  | error error =>
      rw [hs] at hf
      cases hf
  | ok sorted =>
      rw [hs] at hf
      obtain rfl := Except.ok.inj hf
      obtain ⟨hgreedy, hall⟩ := (precedence.sort_ok_iff _ _).mp hs
      have hsorted : (sorted.map fun module => (⟨site, module⟩ : Import)).map Import.module =
          sorted := by
        rw [List.map_map]
        exact List.map_id' sorted
      refine ⟨?_, List.forall_mem_map.mpr fun module _ => rfl⟩
      rw [hsorted]
      exact (List.perm_ext_iff_of_nodup hgreedy.free.nodup hnodup).mpr fun module =>
        ⟨hgreedy.free.mem_members, hall module⟩

end Batch

namespace Resolver

variable {σ : Type} {resolver : Resolver σ} {files : Snapshot} {catalog : Catalog}
  {metadata : Metadata} {site : Site} {progress after : Progress σ} {entry : Entry}

theorem select_eq (resolver : Resolver σ) (files : Snapshot) (site : Site)
    (progress : Progress σ) :
    (resolver.select files site progress).1 =
      (resolver.resolve files site progress).1.map Entry.configurations := by
  rw [select, Step.bind]
  rcases resolver.resolve files site progress with ⟨error | entry, after⟩ <;> rfl

theorem configurations_of_resolve (hloaded : progress.stores.Loaded catalog metadata)
    (h : resolver.resolve files site progress = (.ok entry, after)) :
    entry.configurations.Sublist (Name.distinct (catalog.modules resolver.engine.point)) ∧
      ∀ module ∈ entry.configurations, module ∉ entry.exclusions := by
  obtain ⟨-, ⟨-, rfl⟩ | ⟨-, accepted, hscreened, rfl⟩⟩ := resolve_ok hloaded h
  · exact ⟨List.nil_sublist _, fun module hm => absurd hm List.not_mem_nil⟩
  · have hremaining := Filter.sublist_of_screen hscreened
    refine ⟨hremaining.trans List.filter_sublist, fun module hm hexcluded => ?_⟩
    obtain ⟨-, hkept⟩ := (mem_remaining module).mp (hremaining.subset hm)
    exact hkept (NameSet.mem_ofList.mp hexcluded)

-- Selecting the modules of a site fails where a new batch does when it processes this site, and
-- with the same error. Else the batch comes to the same modules, all of them of this site, or to a
-- cycle. It comes to the very list that was selected where the modules have one order and no
-- constraints among them, nor any of a module on itself.
theorem select_agrees_with_batch (resolver : Resolver σ) (files : Snapshot) (catalog : Catalog)
    (metadata : Metadata) (site : Site) (progress other : Progress σ)
    (hfilters : ∀ filter ∈ resolver.filters, filter.Steady)
    (hlisteners : ∀ listener ∈ resolver.listeners, listener.Steady)
    (hstores : progress.stores.Available files catalog metadata)
    (hother : other.stores.Available files catalog metadata) :
    ∃ batch middle, resolver.batch files other = (.ok batch, middle) ∧
      let processed := (resolver.process files batch site middle).1
      (∀ error, (resolver.select files site progress).1 = .error error ↔
        processed.1 = .error error) ∧
      ∀ modules, (resolver.select files site progress).1 = .ok modules →
        processed.1 = .ok () ∧ modules.Nodup ∧
        (∀ imports, processed.2.finalize = .ok imports →
          (imports.map Import.module).Perm modules ∧ ∀ item ∈ imports, item.site = site) ∧
        (∀ error, processed.2.finalize = .error error →
          ∃ members, error = .orderingCycle members) ∧
        ((∀ a ∈ modules, ∀ b ∈ modules, metadata.orderOf a = metadata.orderOf b) →
          (∀ a ∈ modules, ∀ b ∈ modules, a ∉ metadata.after b ∧ a ∉ metadata.before b) →
            processed.2.finalize = .ok (modules.map fun module => ⟨site, module⟩)) := by
  refine ⟨_, _, batch_eq resolver hother, ?_⟩
  generalize hmiddle : (⟨⟨other.stores.roots, some catalog, some metadata⟩, other.report,
    other.outside⟩ : Progress σ) = middle
  have hloaded : middle.stores.Loaded catalog metadata := hmiddle ▸ ⟨rfl, rfl⟩
  have hsame := (steady_resolve hfilters hlisteners site).eq hstores (hloaded.available files)
  rw [select_eq, hsame, process]
  rcases hr : resolver.resolve files site middle with ⟨error | entry, after⟩
  · refine ⟨fun reason => ?_, fun modules h => by cases h⟩
    exact ⟨fun h => by cases h; rfl, fun h => by cases h; rfl⟩
  · refine ⟨fun error => iff_of_false (fun h => by cases h) (fun h => by cases h), ?_⟩
    intro modules hmodules
    obtain rfl : entry.configurations = modules := Except.ok.inj hmodules
    obtain ⟨hsub, hkept⟩ := configurations_of_resolve hloaded hr
    have hnodup := hsub.nodup (Name.nodup_distinct _)
    refine ⟨rfl, hnodup, fun imports hf => Batch.perm_of_finalize_record hkept hnodup hf,
      fun error hf => Batch.orderingCycle_of_finalize_record hf, fun horder hfree => ?_⟩
    have hrank := Precedence.pairwise_rank_ofCatalog hsub horder
    have hsort := Precedence.sort_of_pairwise hrank fun a b hb => ?_
    · exact (Batch.finalize_record hkept).trans (congrArg _ hsort)
    · exact hb.2.2.elim (hfree a hb.1 b hb.2.1).1 (hfree b hb.2.1 a hb.1).2

-- "a" would have to come after itself.
def afterItself : Metadata := Metadata.empty.insert "a" { after := ["a"] }

def catalogOfA : Catalog := Catalog.empty.register Catalog.defaultPoint "a"

def progressAfterItself : Progress Unit := ⟨.ofLoaded catalogOfA afterItself, [], ()⟩

def builtinsOnly : Resolver Unit := (Assembly.ofChoices []).build

-- No constraint relates two different modules that are selected, and still the batch has a cycle.
theorem finalize_afterItself :
    (∀ filter ∈ builtinsOnly.filters, filter.Steady) ∧ builtinsOnly.listeners = [] ∧
      progressAfterItself.stores.Available (fun _ => .nothing .notFound) catalogOfA afterItself ∧
      (builtinsOnly.select (fun _ => .nothing .notFound) { origin := "main" }
        progressAfterItself).1 = .ok ["a"] ∧
      (∀ a ∈ ["a"], ∀ b ∈ ["a"], afterItself.orderOf a = afterItself.orderOf b) ∧
      (∀ a ∈ ["a"], ∀ b ∈ ["a"], a ≠ b → a ∉ afterItself.after b ∧ a ∉ afterItself.before b) ∧
      ∃ batch middle,
        builtinsOnly.batch (fun _ => .nothing .notFound) progressAfterItself = (.ok batch, middle) ∧
        (builtinsOnly.process (fun _ => .nothing .notFound) batch { origin := "main" }
          middle).1.2.finalize = .error (.orderingCycle ["a"]) := by
  let precedence := Precedence.ofCatalog catalogOfA Catalog.defaultPoint afterItself
  have hsort : precedence.sort ["a"] = .error (.orderingCycle ["a"]) :=
    Precedence.sort_singleton_of_constrains (by decide)
  have hresolve : builtinsOnly.resolve (fun _ => .nothing .notFound) { origin := "main" }
      progressAfterItself = (.ok (.ofResolved ["a"] (.ofList [])), progressAfterItself) := rfl
  have hrecord : (builtinsOnly.process (fun _ => .nothing .notFound) (.start precedence)
      { origin := "main" } progressAfterItself).1.2 =
        (Batch.start precedence).record { origin := "main" } (.ofResolved ["a"] (.ofList [])) := by
    rw [process, hresolve]
    rfl
  have hfinalize : (builtinsOnly.process (fun _ => .nothing .notFound) (.start precedence)
      { origin := "main" } progressAfterItself).1.2.finalize = .error (.orderingCycle ["a"]) := by
    rw [hrecord, Batch.finalize_record (by decide), Entry.ofResolved, hsort]
    rfl
  exact ⟨Filter.steady_builtins builtinsOnly.host, rfl, ⟨rfl, rfl⟩, by decide, by decide, by decide,
    _, _, rfl, hfinalize⟩

-- The second filter counts what it is asked and lets everything pass. "c" is no module for this
-- host, so that the constraint on it is none among those that are selected.
def environmentThenCounting : Resolver Nat :=
  Assembly.build
    { filters := [.ofCondition .onEnvironment,
        ⟨.custom "counting" fun _ slots _ asked => (.ok (slots.map fun _ => true), asked + 1), []⟩]
      listeners := [.report] }

def catalogRepeatingB : Catalog :=
  ["b", "a", "b", "c"].foldl (fun catalog => catalog.register Catalog.defaultPoint) .empty

def bAfterFiltered : Metadata :=
  (Metadata.empty.insert "b" { after := ["c"] }).insert "c" { onEnvironment := some .web }

theorem select_agrees_with_batch_bAfterFiltered :
    (environmentThenCounting.select (fun _ => .nothing .notFound) { origin := "main" }
        ⟨.ofLoaded catalogRepeatingB bAfterFiltered, [], 0⟩).1 = .ok ["b", "a"] ∧
      ∃ batch middle, environmentThenCounting.batch (fun _ => .nothing .notFound)
          ⟨.ofLoaded catalogRepeatingB bAfterFiltered, [], 5⟩ = (.ok batch, middle) ∧
        (environmentThenCounting.process (fun _ => .nothing .notFound) batch { origin := "main" }
          middle).1.2.finalize =
            .ok [⟨{ origin := "main" }, "b"⟩, ⟨{ origin := "main" }, "a"⟩] := by
  have hfilters : ∀ filter ∈ environmentThenCounting.filters, filter.Steady := by
    intro filter hm
    obtain rfl | hm := List.mem_cons.mp hm
    · exact Filter.steady_of_condition rfl
    · obtain rfl := List.mem_singleton.mp hm
      exact fun _ _ _ _ => rfl
  have hlisteners : ∀ listener ∈ environmentThenCounting.listeners, listener.Steady :=
    Listener.steady_of_all_isReport rfl
  have hselect : (environmentThenCounting.select (fun _ => .nothing .notFound) { origin := "main" }
      ⟨.ofLoaded catalogRepeatingB bAfterFiltered, [], 0⟩).1 = .ok ["b", "a"] := by decide
  obtain ⟨batch, middle, hbatch, -, hmodules⟩ := select_agrees_with_batch environmentThenCounting
    (fun _ => .nothing .notFound) catalogRepeatingB bAfterFiltered { origin := "main" }
    ⟨.ofLoaded catalogRepeatingB bAfterFiltered, [], 0⟩
    ⟨.ofLoaded catalogRepeatingB bAfterFiltered, [], 5⟩ hfilters hlisteners ⟨rfl, rfl⟩ ⟨rfl, rfl⟩
  obtain ⟨-, -, -, -, hlist⟩ := hmodules _ hselect
  exact ⟨hselect, batch, middle, hbatch, hlist (by decide) (by decide)⟩

end Resolver

end Activation
