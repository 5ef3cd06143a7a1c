import Activation.Proofs.Calls
import Activation.Proofs.Session
import Activation.Proofs.Steady

namespace Activation.Session

open Resolver

variable {σ : Type} {resolver : Resolver σ} {files : Snapshot} {catalog : Catalog}
  {metadata : Metadata} {sites others : List Site} {progress after : Progress σ}
  {entry : Site → Entry}

theorem processAll_of_steady
    (hsteady : ∀ site ∈ sites, Step.Steady files catalog metadata (resolver.resolve files site))
    (hstores : progress.stores.Available files catalog metadata)
    (hentry : ∀ site ∈ sites, (resolver.resolve files site progress).1 = .ok (entry site))
    (batch : Batch) :
    ∃ after, processAll resolver files sites batch progress =
        (.ok (batch.recordAll (sites.map fun site => (site, entry site))), after) ∧
      after.report =
        progress.report ++ sites.flatMap fun site => resolver.eventsOf (entry site) := by
  induction sites generalizing batch progress with
  | nil => exact ⟨progress, rfl, (List.append_nil _).symm⟩
  | cons site rest ih =>
      have hsite := hentry site List.mem_cons_self
      have hmiddle := (hsteady site List.mem_cons_self).available hstores
      rcases hs : resolver.resolve files site progress with ⟨answer, middle⟩
      rw [hs] at hsite hmiddle
      obtain rfl : answer = .ok (entry site) := hsite
      have hrest : ∀ other ∈ rest, (resolver.resolve files other middle).1 = .ok (entry other) := by
        intro other ho
        rw [(hsteady other (List.mem_cons_of_mem _ ho)).eq hmiddle hstores]
        exact hentry other (List.mem_cons_of_mem _ ho)
      obtain ⟨after, hprocess, hreport⟩ :=
        ih (fun other ho => hsteady other (List.mem_cons_of_mem _ ho)) hmiddle hrest
          (batch.record site (entry site))
      refine ⟨after, ?_, ?_⟩
      · simp only [processAll, Resolver.process, hs, Batch.process]
        exact hprocess
      · rw [hreport, report_resolve hs, List.append_assoc, List.flatMap_cons]

theorem conclude_of_steady
    (hsteady : ∀ site ∈ sites, Step.Steady files catalog metadata (resolver.resolve files site))
    (hstores : progress.stores.Available files catalog metadata)
    (hentry : ∀ site ∈ sites, (resolver.resolve files site progress).1 = .ok (entry site)) :
    (conclude resolver files sites progress).1 =
        ((Batch.start (.ofCatalog catalog resolver.engine.point metadata)).recordAll
          (sites.map fun site => (site, entry site))).finalize ∧
      (conclude resolver files sites progress).2.report =
        progress.report ++ sites.flatMap fun site => resolver.eventsOf (entry site) := by
  have hbatch := batch_eq resolver hstores
  have hloaded := (batch_ok hbatch hstores).1.available files
  obtain ⟨after, hprocess, hreport⟩ := processAll_of_steady hsteady hloaded
    (fun site hs => ((hsteady site hs).eq hloaded hstores).trans (hentry site hs))
    (.start (.ofCatalog catalog resolver.engine.point metadata))
  have hconclude : conclude resolver files sites progress =
      (((Batch.start (.ofCatalog catalog resolver.engine.point metadata)).recordAll
        (sites.map fun site => (site, entry site))).finalize, after) := by
    simp only [conclude, Step.bind, hbatch, hprocess, Step.ofResult]
  rw [hconclude]
  exact ⟨rfl, hreport⟩

theorem kept_congr (h : ∀ site, site ∈ others ↔ site ∈ sites) (module : String) :
    Batch.Kept (others.map fun site => (site, entry site)) module ↔
      Batch.Kept (sites.map fun site => (site, entry site)) module := by
  simp only [Batch.Kept, List.mem_map, exists_exists_and_eq_and, forall_exists_index, and_imp,
    forall_apply_eq_imp_iff₂, h]

-- Which modules a session comes to, and in which order, is the same for its sites in any order and
-- any number.
theorem conclude_ignores_site_order (resolver : Resolver σ) (files : Snapshot) (catalog : Catalog)
    (metadata : Metadata) (sites others : List Site) (progress : Progress σ)
    (hfilters : ∀ filter ∈ resolver.filters, filter.Steady)
    (hlisteners : ∀ listener ∈ resolver.listeners, listener.Steady)
    (hstores : progress.stores.Available files catalog metadata)
    (hresolve : ∀ site ∈ sites, ∃ entry, (resolver.resolve files site progress).1 = .ok entry)
    (hothers : ∀ site, site ∈ others ↔ site ∈ sites) :
    (conclude resolver files others progress).1.map (List.map Import.module) =
      (conclude resolver files sites progress).1.map (List.map Import.module) ∧
    (∀ error, (conclude resolver files sites progress).1 = .error error →
      ∃ members, error = .orderingCycle members) ∧
    ∃ events shuffled,
      (conclude resolver files sites progress).2.report = progress.report ++ events ∧
      (conclude resolver files others progress).2.report = progress.report ++ shuffled ∧
      (∀ event, event ∈ shuffled ↔ event ∈ events) ∧
      (others.Perm sites → shuffled.Perm events) := by
  have hsteady : ∀ site, Step.Steady files catalog metadata (resolver.resolve files site) :=
    steady_resolve hfilters hlisteners
  have : Nonempty Entry := ⟨.disabled⟩
  choose! entry hentry using hresolve
  obtain ⟨hsites, hevents⟩ := conclude_of_steady (fun site _ => hsteady site) hstores hentry
  obtain ⟨hshuffled, hshuffledEvents⟩ := conclude_of_steady (fun site _ => hsteady site) hstores
    fun site hs => hentry site ((hothers site).mp hs)
  refine ⟨?_, fun error he => ?_, _, _, hevents, hshuffledEvents, fun event => ?_, fun hperm => ?_⟩
  · rw [hsites, hshuffled, Batch.map_module_finalize, Batch.map_module_finalize]
    apply Precedence.sort_congr
    intro module
    rw [Batch.mem_merged_iff_kept, Batch.mem_merged_iff_kept, kept_congr hothers]
  · rw [hsites] at he
    exact Batch.finalize_error he
  · simp only [List.mem_flatMap, hothers]
  · exact hperm.flatMap_right _

-- The second filter counts what it is asked, and accepts all or nothing by the number of slots:
-- with "b" left out there are too few of them.
def countingSlots : Resolver Nat :=
  Assembly.build
    { filters := [.ofCondition .onEnvironment,
        ⟨.custom "counting" fun _ slots _ asked =>
          (.ok (slots.map fun _ => decide (3 < slots.length)), asked + 1), []⟩]
      listeners := [.report]
      host := { properties := withoutE } }

def preloaded : Progress Nat := ⟨.ofLoaded catalogRepeatingA aAfterC, [], 0⟩

theorem conclude_ignores_site_order_countingSlots :
    (conclude countingSlots (fun _ => .nothing .notFound) (oneDisabled.reverse ++ oneDisabled)
        preloaded).1.map (List.map Import.module) = .ok ["c", "a"] ∧
      (conclude countingSlots (fun _ => .nothing .notFound) oneDisabled.reverse
        preloaded).2.report.Perm
        (conclude countingSlots (fun _ => .nothing .notFound) oneDisabled preloaded).2.report := by
  have hfilters : ∀ filter ∈ countingSlots.filters, filter.Steady := by
    intro filter hm
    obtain rfl | hm := List.mem_cons.mp hm
    · exact Filter.steady_of_condition rfl
    · obtain rfl := List.mem_singleton.mp hm
      exact fun _ _ _ _ => rfl
  have hlisteners : ∀ listener ∈ countingSlots.listeners, listener.Steady :=
    Listener.steady_of_all_isReport rfl
  have hstores : preloaded.stores.Available (fun _ => .nothing .notFound) catalogRepeatingA
      aAfterC := ⟨rfl, rfl⟩
  have hresolve : ∀ site ∈ oneDisabled, ∃ entry,
      (countingSlots.resolve (fun _ => .nothing .notFound) site preloaded).1 = .ok entry := by
    rw [oneDisabled, List.forall_mem_cons, List.forall_mem_cons, List.forall_mem_singleton]
    exact ⟨⟨_, rfl⟩, ⟨_, rfl⟩, ⟨_, rfl⟩⟩
  have horder := fun others => conclude_ignores_site_order countingSlots
    (fun _ => .nothing .notFound) catalogRepeatingA aAfterC oneDisabled others preloaded hfilters
    hlisteners hstores hresolve
  constructor
  · obtain ⟨hmodules, -⟩ := horder (oneDisabled.reverse ++ oneDisabled) (by simp)
    rw [hmodules]
    decide
  · obtain ⟨-, -, events, shuffled, hevents, hshuffled, -, hperm⟩ :=
      horder oneDisabled.reverse fun site => List.mem_reverse
    rw [hevents, hshuffled]
    exact (hperm (List.reverse_perm _)).append_left _

end Activation.Session
