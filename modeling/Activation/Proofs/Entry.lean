import Activation.Proofs.FirstFailure
import Activation.Proofs.Screening

namespace Activation

namespace Filter

variable {σ : Type} {filters : List (Filter σ)} {candidates : List String} {metadata : Metadata}
  {state after : σ} {answers : List (List Bool)}

def Refused (answers : List (List Bool)) (position : Nat) : Prop :=
  ∃ answer ∈ answers, answer[position]? = some false

instance (answers : List (List Bool)) : DecidablePred (Refused answers) := fun position =>
  inferInstanceAs (Decidable (∃ answer ∈ answers, answer[position]? = some false))

theorem Asked.length_eq (h : Asked metadata candidates state filters answers after) :
    ∀ answer ∈ answers, answer.length = candidates.length := by
  induction h with
  | nil => exact List.forall_mem_nil _
  | snoc _ _ counted ih =>
      exact List.forall_mem_append.mpr ⟨ih, List.forall_mem_singleton.mpr counted⟩

private theorem approved_iff_not_refused {position : Nat}
    (hcount : ∀ answer ∈ answers, position < answer.length) :
    Approved answers position ↔ ¬ Refused answers position := by
  rw [Approved, Refused, not_exists]
  refine forall_congr' fun answer => ?_
  rw [not_and]
  refine forall_congr' fun hm => ?_
  rw [List.getElem?_eq_getElem (hcount answer hm), Option.some.injEq, Option.some.injEq,
    Bool.not_eq_false]

-- Without repeats a candidate can be told by its name, and not by its position only.
private theorem approvedOf_eq_filter (hnodup : candidates.Nodup)
    (hcount : ∀ answer ∈ answers, answer.length = candidates.length) :
    approvedOf candidates answers =
      candidates.filter fun module => decide (¬ Refused answers (candidates.idxOf module)) := by
  have hentries : ∀ entry ∈ candidates.zipIdx, decide (Approved answers entry.2) =
      decide (¬ Refused answers (candidates.idxOf entry.1)) := by
    intro entry hm
    obtain ⟨hlt, hmodule⟩ := List.getElem?_eq_some_iff.mp (List.mk_mem_zipIdx_iff_getElem?.mp hm)
    have hposition : candidates.idxOf entry.1 = entry.2 := by
      rw [← hmodule, hnodup.idxOf_getElem]
    rw [decide_eq_decide, hposition]
    exact approved_iff_not_refused fun answer ha => (hcount answer ha).symm ▸ hlt
  calc approvedOf candidates answers
      = (candidates.zipIdx.filter fun entry =>
          decide (¬ Refused answers (candidates.idxOf entry.1))).map Prod.fst := by
        rw [approvedOf, List.filter_congr hentries]
    _ = (candidates.zipIdx.map Prod.fst).filter fun module =>
          decide (¬ Refused answers (candidates.idxOf module)) := by
        rw [List.filter_map]
        rfl
    _ = _ := by rw [List.zipIdx_map_fst]

end Filter

namespace Resolver

variable {σ : Type} {resolver : Resolver σ} {files : Snapshot} {site : Site} {catalog : Catalog}
  {metadata : Metadata} {progress after : Progress σ} {entry : Entry}

theorem nodup_remaining (resolver : Resolver σ) (catalog : Catalog) (site : Site) :
    (resolver.remaining catalog site).Nodup :=
  (Name.nodup_distinct _).filter _

theorem remaining_eq_filter (resolver : Resolver σ) (catalog : Catalog) (site : Site) :
    resolver.remaining catalog site =
      (Name.distinct (catalog.modules resolver.engine.point)).filter fun module =>
        decide (module ∉ NameSet.ofList (resolver.exclusions site)) := by
  refine List.filter_congr fun module _ => ?_
  simp

theorem asked_of_resolve (h : resolver.resolve files site progress = (.ok entry, after))
    (hon : entry.isDisabled = false) :
    ∃ catalog metadata answers outside,
      (progress.stores.loadCatalog files).1 = .ok catalog ∧
      (progress.stores.loadMetadata files).1 = .ok metadata ∧
      Filter.Asked metadata (resolver.remaining catalog site) progress.outside resolver.filters
        answers outside ∧
      entry = .ofResolved (Filter.approvedOf (resolver.remaining catalog site) answers)
        (.ofList (resolver.exclusions site)) ∧
      resolver.noting.resolve files site (progress.noting []) =
        (.ok entry, after.noting
          (Filter.callsOf (resolver.remaining catalog site) answers resolver.filters.length ++
            (List.range resolver.listeners.length).map fun i =>
              .listener i ⟨entry.configurations, entry.exclusions⟩)) := by
  obtain ⟨result, last, calls, hcourse⟩ := exists_course resolver files site progress
  obtain ⟨rfl, rfl⟩ := Prod.mk.inj (h.symm.trans hcourse.resolve)
  cases hcourse with
  | disabled => cases hon
  | @done catalog metadata shown screened outside event last admitted loaded passed outcome heard =>
      obtain ⟨answers, hasked, rfl⟩ := passed.asked (Filter.view_nil _).symm .nil
      rw [List.nil_append, List.nil_append] at hasked
      rw [List.nil_append] at outcome
      have hnoting := (Course.done admitted loaded hasked.passes outcome heard).resolve_noting
      rw [Filter.mapIdx_shownTo, hasked.length_answers] at hnoting
      rw [Filter.filterMap_view] at outcome
      subst outcome
      exact ⟨catalog, metadata, answers, outside, admitted.loaded, loaded, hasked, rfl, hnoting⟩

-- An entry lists the candidates that it does not leave out and that no filter is against, each once
-- and in the order of their declaration, and leaves out what the site and the property name. This
-- is what every listener is told, and once.
theorem entry_lists_what_is_left (resolver : Resolver σ) (files : Snapshot) (site : Site)
    (progress after : Progress σ) (entry : Entry)
    (h : resolver.resolve files site progress = (.ok entry, after))
    (hon : entry.isDisabled = false) :
    ∃ catalog metadata answers outside,
      (progress.stores.loadCatalog files).1 = .ok catalog ∧
      (progress.stores.loadMetadata files).1 = .ok metadata ∧
      let candidates := Name.distinct (catalog.modules resolver.engine.point)
      let offered := candidates.filter fun module => decide (module ∉ entry.exclusions)
      Filter.Asked metadata offered progress.outside resolver.filters answers outside ∧
      entry.configurations = (offered.filter fun module =>
        decide (¬ Filter.Refused answers (offered.idxOf module))) ∧
      entry.configurations.Nodup ∧
      entry.configurations.Sublist candidates ∧
      (∀ module ∈ entry.configurations, module ∉ entry.exclusions) ∧
      (∀ name, name ∈ entry.exclusions ↔ name ∈ site.exclude ∨ name ∈ site.excludeName ∨
        name ∈ Exclusion.ofProperty resolver.engine resolver.host.properties) ∧
      resolver.noting.resolve files site (progress.noting []) =
        (.ok entry, after.noting (Filter.callsOf offered answers resolver.filters.length ++
          (List.range resolver.listeners.length).map fun i =>
            .listener i ⟨entry.configurations, entry.exclusions⟩)) := by
  obtain ⟨catalog, metadata, answers, outside, hcatalog, hmetadata, hasked, rfl, hnoting⟩ :=
    asked_of_resolve h hon
  have hnodup := resolver.nodup_remaining catalog site
  have hlisted := Filter.approvedOf_eq_filter hnodup hasked.length_eq
  have hsublist := Filter.approvedOf_sublist (resolver.remaining catalog site) answers
  refine ⟨catalog, metadata, answers, outside, hcatalog, hmetadata, ?_⟩
  intro candidates offered
  have hoffered : resolver.remaining catalog site = offered :=
    resolver.remaining_eq_filter catalog site
  rw [hoffered] at hasked hnoting hnodup hlisted hsublist ⊢
  refine ⟨hasked, hlisted, hnodup.sublist hsublist, hsublist.trans List.filter_sublist, ?_, ?_,
    hnoting⟩
  · intro module hm
    exact of_decide_eq_true (List.mem_filter.mp (hsublist.subset hm)).2
  · intro name
    exact NameSet.mem_ofList.trans (mem_exclusions name)

-- The first filter is against whatever stands first, and the second one is for empty slots too. "d"
-- is left out by the property, and "x" is no candidate.
def byPosition : Resolver Nat :=
  Assembly.build
    { filters := Filter.mixedFilters.take 2
      listeners := [.report]
      host := { properties :=
        .document [("autoconf.autoconfigure.exclude", .array .brackets [.text "d"])] } }

def excludingTwice : Site := { origin := "main", exclude := ["b"], excludeName := ["x", "b"] }

def progressOfABCD : Progress Nat :=
  ⟨.ofLoaded (["a", "b", "a", "c", "d", "c"].foldl
    (fun catalog => catalog.register Catalog.defaultPoint) .empty) .empty, [], 0⟩

def onlyC : Entry := .ofResolved ["c"] (.ofList ["b", "x", "d"])

theorem entry_lists_what_is_left_byPosition :
    byPosition.resolve (fun _ => .nothing .notFound) excludingTwice progressOfABCD =
        (.ok onlyC,
          { progressOfABCD with report := [⟨["c"], onlyC.exclusions⟩], outside := 2 }) ∧
      (∃ catalog, (progressOfABCD.stores.loadCatalog fun _ => .nothing .notFound).1 = .ok catalog ∧
        onlyC.configurations.Sublist (Name.distinct (catalog.modules byPosition.engine.point))) ∧
      (∀ module ∈ onlyC.configurations, module ∉ onlyC.exclusions) ∧
      ∀ name, name ∈ onlyC.exclusions ↔
        name ∈ excludingTwice.exclude ∨ name ∈ excludingTwice.excludeName ∨
          name ∈ Exclusion.ofProperty byPosition.engine byPosition.host.properties := by
  have h : byPosition.resolve (fun _ => .nothing .notFound) excludingTwice progressOfABCD =
      (.ok onlyC,
        { progressOfABCD with report := [⟨["c"], onlyC.exclusions⟩], outside := 2 }) := rfl
  obtain ⟨catalog, metadata, answers, outside, hcatalog, -, -, -, -, hsublist, hdisjoint,
    hexclusions, -⟩ :=
    entry_lists_what_is_left byPosition _ excludingTwice progressOfABCD _ onlyC h rfl
  exact ⟨h, ⟨catalog, hcatalog, hsublist⟩, hdisjoint, hexclusions⟩

end Resolver

end Activation
