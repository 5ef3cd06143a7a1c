import Activation.Filter
import Mathlib.Data.List.Basic
import Mathlib.Data.Prod.Basic

namespace Activation

namespace Condition

def holds (host : Host) : Condition → Hints → Bool
  | .onType, hints => hints.onTypes.all host.types
  | .onInstance, hints => hints.onInstances.all host.instances
  | .onEnvironment, hints =>
      match hints.onEnvironment with
      | some requirement => requirement.isMetBy host.environment
      | none => true

def accepts (host : Host) (condition : Condition) (metadata : Metadata) (module : String) : Bool :=
  match metadata.get? module with
  | some hints => condition.holds host hints
  | none => true

-- Whatever a condition was handed before, it is decided on the host that was handed over last.
theorem decision?_append_capabilities (granted : Granted) (host : Host) (condition : Condition) :
    condition.decision? (granted ++ host.capabilities) = some (condition.holds host) := by
  have hreverse : (granted ++ host.capabilities).reverse =
      [.environment host.environment, .properties host.properties, .instances host.instances,
        .types host.types] ++ granted.reverse := List.reverse_append
  cases condition with
  | onType => rw [decision?, Granted.types?, hreverse]; rfl
  | onInstance => rw [decision?, Granted.instances?, hreverse]; rfl
  | onEnvironment => rw [decision?, Granted.environment?, hreverse]; rfl

end Condition

namespace Filter

variable {σ : Type} {accepts : Filter σ → Metadata → String → Bool}

-- A filter that never fails and judges each module for itself. What it says of empty slots is left
-- open, and so is what it does with the state of the host.
def Judges (filter : Filter σ) (accepts : Metadata → String → Bool) : Prop :=
  ∀ (slots : Slots) (metadata : Metadata) (state : σ), ∃ verdicts after,
    filter.answer slots metadata state = (.ok verdicts, after) ∧
      verdicts.length = slots.length ∧
      ∀ (i : Nat) (module : String), slots[i]? = some (some module) →
        verdicts[i]? = some (accepts metadata module)

def SlotWise (filter : Filter σ) : Prop := ∃ accepts, filter.Judges accepts

private theorem mask_eq_map {slots : Slots} {verdicts : List Bool} {test : String → Bool}
    (hlength : verdicts.length = slots.length)
    (h : ∀ (i : Nat) (module : String), slots[i]? = some (some module) →
      verdicts[i]? = some (test module)) :
    mask slots verdicts = slots.map fun slot => slot.filter test := by
  apply List.ext_getElem?
  intro i
  rw [mask, List.getElem?_zipWith, List.getElem?_map]
  cases hs : slots[i]? with
  | none => rfl
  | some slot =>
      have hi : i < verdicts.length := hlength ▸ (List.getElem?_eq_some_iff.mp hs).1
      cases slot with
      | none => simp [hi]
      | some module =>
          rw [h i module hs]
          by_cases ht : test module <;> simp [Option.filter, ht]

theorem verdicts_of_judges {filter : Filter σ} {test : Metadata → String → Bool}
    (h : filter.Judges test) (slots : Slots) (metadata : Metadata) (state : σ) :
    ∃ verdicts after, filter.verdicts slots metadata state = (.ok verdicts, after) ∧
      mask slots verdicts = slots.map fun slot => slot.filter (test metadata) := by
  obtain ⟨verdicts, after, hanswer, hlength, hverdict⟩ := h slots metadata state
  refine ⟨verdicts, after, ?_, mask_eq_map hlength (hverdict)⟩
  rw [Filter.verdicts, hanswer]
  simp only [hlength, if_true]

theorem screenSlots_of_judges (filters : List (Filter σ))
    (h : ∀ filter ∈ filters, filter.Judges (accepts filter)) (slots : Slots)
    (metadata : Metadata) (state : σ) :
    (screenSlots filters slots metadata state).1 = .ok (slots.map fun slot =>
      slot.filter fun module => filters.all fun filter => accepts filter metadata module) := by
  induction filters generalizing slots state with
  | nil =>
      have hslot : ∀ slot : Option String, slot.filter (fun _ => true) = slot := by
        intro slot
        cases slot <;> rfl
      simp [screenSlots, hslot]
  | cons filter others ih =>
      obtain ⟨verdicts, after, hverdicts, hmask⟩ :=
        verdicts_of_judges (h filter List.mem_cons_self) slots metadata state
      rw [screenSlots, hverdicts]
      simp only [hmask]
      rw [ih fun other hm => h other (List.mem_cons_of_mem _ hm), List.map_map]
      congr 2
      funext slot
      simp only [Function.comp_apply, Option.filter_filter, List.all_cons]

theorem screen_of_judges {filters : List (Filter σ)}
    (h : ∀ filter ∈ filters, filter.Judges (accepts filter)) (candidates : List String)
    (metadata : Metadata) (state : σ) :
    (screen filters candidates metadata state).1 = .ok (candidates.filter fun module =>
      filters.all fun filter => accepts filter metadata module) := by
  have hscreened := screenSlots_of_judges filters h (candidates.map some) metadata state
  simp only [screen, hscreened, Except.map, List.map_map, List.filterMap_map]
  congr 1
  rw [← List.filterMap_eq_filter]
  congr 1

section Steady

-- A filter whose answers are not affected by the state of the host, though they may change it.
def Steady (filter : Filter σ) : Prop :=
  ∀ (slots : Slots) (metadata : Metadata) (state other : σ),
    (filter.answer slots metadata state).1 = (filter.answer slots metadata other).1

theorem steady_of_condition {filter : Filter σ} {condition : Condition}
    (h : filter.judge = .condition condition) : filter.Steady := by
  intro slots metadata state other
  rw [answer, answer, h]

theorem Steady.verdicts_fst {filter : Filter σ} (h : filter.Steady) (slots : Slots)
    (metadata : Metadata) (state other : σ) :
    (filter.verdicts slots metadata state).1 = (filter.verdicts slots metadata other).1 := by
  have hanswer := Prod.fst_eq_iff.mp (h slots metadata state other)
  unfold verdicts
  rw [hanswer]
  rcases filter.answer slots metadata other with ⟨result, after⟩
  cases result with
  | error reason => rfl
  | ok verdicts =>
      simp only
      split <;> rfl

theorem screenSlots_steady {filters : List (Filter σ)} (h : ∀ filter ∈ filters, filter.Steady)
    (slots : Slots) (metadata : Metadata) (state other : σ) :
    (screenSlots filters slots metadata state).1 =
      (screenSlots filters slots metadata other).1 := by
  induction filters generalizing slots state other with
  | nil => rfl
  | cons filter others ih =>
      have hverdicts := Prod.fst_eq_iff.mp
        ((h filter List.mem_cons_self).verdicts_fst slots metadata state other)
      rw [screenSlots, screenSlots, hverdicts]
      rcases filter.verdicts slots metadata other with ⟨result, after⟩
      cases result with
      | error error => rfl
      | ok verdicts => exact ih (fun other hm => h other (List.mem_cons_of_mem _ hm)) _ _ _

theorem screen_steady {filters : List (Filter σ)} (h : ∀ filter ∈ filters, filter.Steady)
    (candidates : List String) (metadata : Metadata) (state other : σ) :
    (screen filters candidates metadata state).1 =
      (screen filters candidates metadata other).1 := by
  simp only [screen, screenSlots_steady h (candidates.map some) metadata state other]

end Steady

section Builtin

theorem judges_inject_of_condition {filter : Filter σ} {condition : Condition}
    (h : filter.judge = .condition condition) (host : Host) :
    (inject host filter).Judges (condition.accepts host) := by
  intro slots metadata state
  refine ⟨slots.map (Condition.verdict (condition.holds host) metadata), state, ?_, by simp, ?_⟩
  · rw [inject, Granted.inject_eq, answer, h]
    simp only [Condition.verdicts, Condition.decision?_append_capabilities]
  · intro i module hs
    rw [List.getElem?_map, hs]
    rfl

@[simp]
theorem judge_inject (host : Host) (filter : Filter σ) :
    (inject host filter).judge = filter.judge :=
  rfl

theorem custom_of_error {filter : Filter σ} {host : Host} {slots : Slots} {metadata : Metadata}
    {state after : σ} {reason : String}
    (h : (inject host filter).answer slots metadata state = (.error reason, after)) :
    ∃ name verdicts, (inject host filter).judge = .custom name verdicts := by
  cases hj : (inject host filter).judge with
  | custom name verdicts => exact ⟨name, verdicts, rfl⟩
  | condition condition =>
      rw [judge_inject] at hj
      obtain ⟨verdicts, last, hok, -⟩ := judges_inject_of_condition hj host slots metadata state
      rw [hok] at h
      cases h

theorem judges_inject_condition (host : Host) (condition : Condition) :
    (inject host (ofCondition condition : Filter σ)).Judges (condition.accepts host) :=
  judges_inject_of_condition rfl host

theorem exists_condition_of_mem_builtins {host : Host} {filter : Filter σ}
    (hm : filter ∈ (builtins : List (Filter σ)).map (inject host)) :
    ∃ condition, filter = inject host (ofCondition condition) := by
  obtain ⟨builtin, hb, rfl⟩ := List.mem_map.mp hm
  obtain ⟨condition, -, rfl⟩ := List.mem_map.mp hb
  exact ⟨condition, rfl⟩

theorem steady_builtins (host : Host) :
    ∀ filter ∈ (builtins : List (Filter σ)).map (inject host), filter.Steady := by
  intro filter hm
  obtain ⟨condition, rfl⟩ := exists_condition_of_mem_builtins hm
  exact steady_of_condition (judge_inject host (ofCondition condition))

theorem slotWise_builtins (host : Host) :
    ∀ filter ∈ (builtins : List (Filter σ)).map (inject host), filter.SlotWise := by
  intro filter hm
  obtain ⟨condition, rfl⟩ := exists_condition_of_mem_builtins hm
  exact ⟨_, judges_inject_condition host condition⟩

end Builtin

end Filter

end Activation
