import Activation.Batch
import Activation.Proofs.Order.Sort

namespace Activation.Batch

variable {batch : Batch} {module : String}

def recordAll (batch : Batch) (pairs : List (Site × Entry)) : Batch :=
  pairs.foldl (fun built pair => built.record pair.1 pair.2) batch

private theorem lookup_trace (site : Site) (origins : List (String × Site))
    (module other : String) :
    (trace site origins module).lookup other =
      (origins.lookup other).or (if other = module then some site else none) := by
  unfold trace
  split
  · rename_i hs
    by_cases he : other = module
    · subst he
      obtain ⟨first, hfirst⟩ := Option.isSome_iff_exists.mp hs
      simp [hfirst]
    · simp [he]
  · rw [List.lookup_append]
    congr 1
    exact Name.lookup_cons (module, site) [] other

private theorem lookup_foldl_trace (site : Site) (modules : List String)
    (origins : List (String × Site)) (other : String) :
    (modules.foldl (trace site) origins).lookup other =
      (origins.lookup other).or (if other ∈ modules then some site else none) := by
  induction modules generalizing origins with
  | nil => simp
  | cons first rest ih =>
      rw [List.foldl_cons, ih, lookup_trace, Option.or_assoc]
      congr 1
      by_cases he : other = first <;> simp [he]

theorem precedence_recordAll (batch : Batch) (pairs : List (Site × Entry)) :
    (batch.recordAll pairs).precedence = batch.precedence := by
  induction pairs generalizing batch with
  | nil => rfl
  | cons pair rest ih => exact ih (batch.record pair.1 pair.2)

theorem entries_recordAll (batch : Batch) (pairs : List (Site × Entry)) :
    (batch.recordAll pairs).entries = batch.entries ++ pairs.map Prod.snd := by
  induction pairs generalizing batch with
  | nil => simp [recordAll]
  | cons pair rest ih =>
      have hstep := ih (batch.record pair.1 pair.2)
      rw [recordAll, List.foldl_cons, ← recordAll, hstep, record, List.map_cons,
        List.append_assoc, List.singleton_append]

theorem lookup_origins_recordAll (batch : Batch) (pairs : List (Site × Entry))
    (module : String) :
    (batch.recordAll pairs).origins.lookup module = (batch.origins.lookup module).or
      ((pairs.find? fun pair => decide (module ∈ pair.2.configurations)).map Prod.fst) := by
  induction pairs generalizing batch with
  | nil => simp [recordAll]
  | cons pair rest ih =>
      have hstep := ih (batch.record pair.1 pair.2)
      rw [recordAll, List.foldl_cons, ← recordAll, hstep, record, lookup_foldl_trace,
        Option.or_assoc, List.find?_cons]
      congr 1
      by_cases hm : module ∈ pair.2.configurations <;> simp [hm]

theorem isExcluded_iff (batch : Batch) (module : String) :
    batch.isExcluded module = true ↔ ∃ entry ∈ batch.entries, module ∈ entry.exclusions := by
  simp [isExcluded, List.any_eq_true, NameSet.contains_iff]

@[simp]
theorem mem_merged (batch : Batch) (module : String) :
    module ∈ batch.merged ↔ (∃ entry ∈ batch.entries, module ∈ entry.configurations) ∧
      ∀ entry ∈ batch.entries, module ∉ entry.exclusions := by
  rw [merged, Name.mem_distinct, List.mem_filter, List.mem_flatMap, Bool.not_eq_true',
    ← Bool.not_eq_true, isExcluded_iff]
  push Not
  rfl

-- Every module has an origin, so that none is lost when the origins are looked up.
private theorem map_module_filterMap {origins : List (String × Site)} {modules : List String}
    (h : ∀ module ∈ modules, (origins.lookup module).isSome) :
    (modules.filterMap fun module => (origins.lookup module).map fun site =>
      (⟨site, module⟩ : Import)).map Import.module = modules := by
  induction modules with
  | nil => rfl
  | cons first rest ih =>
      obtain ⟨site, hs⟩ := Option.isSome_iff_exists.mp (h first List.mem_cons_self)
      rw [List.filterMap_cons, hs]
      simp only [Option.map_some, List.map_cons]
      rw [ih fun module hm => h module (List.mem_cons_of_mem _ hm)]

@[simp]
theorem sort_nil (precedence : Precedence) : precedence.sort [] = .ok [] :=
  (precedence.sort_ok_iff [] []).mpr ⟨Placement.placing_nil _, fun _ hm => hm⟩

theorem finalize_eq (batch : Batch) :
    batch.finalize = (batch.precedence.sort batch.merged).map fun sorted =>
      sorted.filterMap fun module =>
        (batch.origins.lookup module).map fun site => ⟨site, module⟩ := by
  rw [finalize]
  split
  · rename_i he
    have hnil : batch.merged = [] := by
      rw [merged, List.isEmpty_iff.mp he]
      rfl
    rw [hnil, sort_nil]
    rfl
  · rfl

theorem lookup_origins_start (precedence : Precedence) (pairs : List (Site × Entry))
    (module : String) : ((start precedence).recordAll pairs).origins.lookup module =
      (pairs.find? fun pair => decide (module ∈ pair.2.configurations)).map Prod.fst := by
  rw [lookup_origins_recordAll]
  rfl

private theorem isSome_lookup_of_merged {precedence : Precedence} {pairs : List (Site × Entry)}
    (h : module ∈ ((start precedence).recordAll pairs).merged) :
    (((start precedence).recordAll pairs).origins.lookup module).isSome := by
  obtain ⟨⟨entry, he, hc⟩, -⟩ := (mem_merged _ _).mp h
  rw [entries_recordAll] at he
  obtain ⟨pair, hp, rfl⟩ := List.mem_map.mp he
  rw [lookup_origins_start, Option.isSome_map]
  exact List.find?_isSome.mpr ⟨pair, hp, by simpa using hc⟩

theorem finalize_start (precedence : Precedence) (pairs : List (Site × Entry)) :
    ((start precedence).recordAll pairs).finalize =
      (precedence.sort ((start precedence).recordAll pairs).merged).map fun sorted =>
        sorted.filterMap fun module =>
          (((start precedence).recordAll pairs).origins.lookup module).map fun site =>
            ⟨site, module⟩ := by
  rw [finalize_eq, precedence_recordAll]
  rfl

theorem map_module_finalize (precedence : Precedence) (pairs : List (Site × Entry)) :
    ((start precedence).recordAll pairs).finalize.map (List.map Import.module) =
      precedence.sort ((start precedence).recordAll pairs).merged := by
  rw [finalize_start]
  cases hs : precedence.sort ((start precedence).recordAll pairs).merged with
  | error error => rfl
  | ok sorted =>
      refine congrArg Except.ok (map_module_filterMap fun module hm => ?_)
      obtain ⟨hgreedy, -⟩ := (Precedence.sort_ok_iff _ _ _).mp hs
      exact isSome_lookup_of_merged (hgreedy.free.mem_members hm)

-- The imports are the sorted modules, each with the site of the first entry that holds it.
theorem finalize_recordAll_ok {precedence : Precedence} {pairs : List (Site × Entry)}
    {imports : List Import} (h : ((start precedence).recordAll pairs).finalize = .ok imports) :
    precedence.sort ((start precedence).recordAll pairs).merged =
        .ok (imports.map Import.module) ∧
      ∀ item ∈ imports,
        (pairs.find? fun pair => decide (item.module ∈ pair.2.configurations)).map Prod.fst =
          some item.site := by
  refine ⟨?_, fun item hitem => ?_⟩
  · rw [← map_module_finalize, h]
    rfl
  · rw [finalize_start] at h
    cases hs : precedence.sort ((start precedence).recordAll pairs).merged with
    | error error =>
        rw [hs] at h
        cases h
    | ok sorted =>
        rw [hs] at h
        obtain rfl := Except.ok.inj h
        obtain ⟨module, -, hitem⟩ := List.mem_filterMap.mp hitem
        obtain ⟨site, hsite, rfl⟩ := Option.map_eq_some_iff.mp hitem
        rw [← lookup_origins_start]
        exact hsite

end Activation.Batch
