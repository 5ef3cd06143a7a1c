import Activation.Proofs.Filter

namespace Activation

structure Hints.MetBy (hints : Hints) (host : Host) : Prop where
  types : ∀ name ∈ hints.onTypes, host.types name = true
  instances : ∀ name ∈ hints.onInstances, host.instances name = true
  environment : ∀ requirement, hints.onEnvironment = some requirement →
    requirement.isMetBy host.environment = true

-- A module that has no hints suits every host.
def Host.Suits (host : Host) (metadata : Metadata) (module : String) : Prop :=
  ∀ hints, metadata.get? module = some hints → hints.MetBy host

namespace Condition

theorem holds_onEnvironment_iff (host : Host) (hints : Hints) :
    onEnvironment.holds host hints = true ↔ ∀ requirement,
      hints.onEnvironment = some requirement → requirement.isMetBy host.environment = true := by
  rw [holds]
  cases hints.onEnvironment with
  | none => simp
  | some requirement => simp

theorem all_holds_iff (host : Host) (hints : Hints) :
    (∀ condition ∈ all, condition.holds host hints = true) ↔ hints.MetBy host := by
  rw [all, List.forall_mem_cons, List.forall_mem_cons, List.forall_mem_singleton,
    holds_onEnvironment_iff, holds, holds, List.all_eq_true, List.all_eq_true]
  exact ⟨fun h => ⟨h.1, h.2.1, h.2.2⟩, fun h => ⟨h.types, h.instances, h.environment⟩⟩

theorem all_accepts_iff (host : Host) (metadata : Metadata) (module : String) :
    (∀ condition ∈ all, condition.accepts host metadata module = true) ↔
      host.Suits metadata module := by
  unfold accepts Host.Suits
  cases metadata.get? module with
  | none => simp
  | some hints => simp [all_holds_iff]

end Condition

instance (host : Host) (metadata : Metadata) : DecidablePred (host.Suits metadata) := fun module =>
  decidable_of_iff _ (Condition.all_accepts_iff host metadata module)

namespace Filter

variable {σ : Type} {accepts : Filter σ → Metadata → String → Bool}
  {filters others : List (Filter σ)}

theorem screen_judges_congr (hfilters : ∀ filter ∈ filters, filter.Judges (accepts filter))
    (hothers : ∀ filter, filter ∈ others ↔ filter ∈ filters) (candidates : List String)
    (metadata : Metadata) (state other : σ) :
    (screen others candidates metadata other).1 = (screen filters candidates metadata state).1 := by
  have hothers' : ∀ filter ∈ others, filter.Judges (accepts filter) :=
    fun filter hm => hfilters filter ((hothers filter).mp hm)
  rw [screen_of_judges hfilters, screen_of_judges hothers']
  congr 2
  funext module
  rw [Bool.eq_iff_iff, List.all_eq_true, List.all_eq_true]
  simp only [hothers]

def acceptsOn (host : Host) (filter : Filter σ) : Metadata → String → Bool :=
  match filter.judge with
  | .condition condition => condition.accepts host
  | .custom _ _ => fun _ _ => true

theorem screen_builtins (host : Host) (candidates : List String) (metadata : Metadata)
    (state : σ) :
    (screen (builtins.map (inject host)) candidates metadata state).1 =
      .ok (candidates.filter fun module => decide (host.Suits metadata module)) := by
  have hjudges : ∀ filter ∈ (builtins : List (Filter σ)).map (inject host),
      filter.Judges (acceptsOn host filter) := by
    intro filter hm
    obtain ⟨condition, rfl⟩ := exists_condition_of_mem_builtins hm
    have haccepts : acceptsOn host (inject host (ofCondition condition : Filter σ)) =
        condition.accepts host := by rw [inject, Granted.inject_eq]; rfl
    rw [haccepts]
    exact judges_inject_condition host condition
  rw [screen_of_judges hjudges]
  congr 2
  funext module
  rw [Bool.eq_iff_iff, decide_eq_true_eq, ← Condition.all_accepts_iff, List.all_eq_true, builtins,
    List.map_map, List.forall_mem_map]
  refine forall₂_congr fun condition _ => ?_
  rw [Function.comp_apply, inject, Granted.inject_eq]
  rfl

-- A condition that was handed nothing fails before it looks at any slot.
theorem screen_builtins_of_nothing (candidates : List String) (metadata : Metadata) (state : σ) :
    screen builtins candidates metadata state =
      (.error (.extension "filter 'on-type'"
        "on-type condition evaluated without an injected type resolver"), state) :=
  rfl

-- Where each filter judges every module for itself, neither their order nor their number matters:
-- what all of them accept is left. The conditions are such filters as soon as they have been handed
-- a host, and leave what suits it. Before that they fail, be there any candidates or not.
theorem screen_keeps_what_all_accept :
    (∀ (accepts : Filter σ → Metadata → String → Bool) (filters : List (Filter σ)),
      (∀ filter ∈ filters, filter.Judges (accepts filter)) →
      ∀ (candidates : List String) (metadata : Metadata) (state : σ),
        (screen filters candidates metadata state).1 = .ok (candidates.filter fun module =>
          decide (∀ filter ∈ filters, accepts filter metadata module = true)) ∧
        ∀ (others : List (Filter σ)) (other : σ),
          (∀ filter, filter ∈ others ↔ filter ∈ filters) →
            (screen others candidates metadata other).1 =
              (screen filters candidates metadata state).1) ∧
    (∀ host : Host,
      (∀ filter ∈ (builtins : List (Filter σ)).map (inject host), filter.SlotWise) ∧
      ∀ (candidates : List String) (metadata : Metadata) (state : σ),
        (screen (builtins.map (inject host)) candidates metadata state).1 =
          .ok (candidates.filter fun module => decide (host.Suits metadata module))) ∧
    ∀ (candidates : List String) (metadata : Metadata) (state : σ),
      screen builtins candidates metadata state = (.error (.extension "filter 'on-type'"
        "on-type condition evaluated without an injected type resolver"), state) := by
  refine ⟨fun accepts filters hfilters candidates metadata state => ⟨?_, fun others other hothers =>
    screen_judges_congr hfilters hothers candidates metadata state other⟩,
    fun host => ⟨slotWise_builtins host, screen_builtins host⟩, screen_builtins_of_nothing⟩
  rw [screen_of_judges hfilters]
  congr 2
  funext module
  rw [Bool.eq_iff_iff, List.all_eq_true, decide_eq_true_eq]

-- "b" displeases the first filter, and so does every empty slot. "c" asks for a type that is not
-- known.
def againstB : Filter Nat :=
  ⟨.custom "against b" fun _ slots _ asked =>
    (.ok (slots.map fun slot => slot.any fun module => decide (module ≠ "b")), asked + 1), []⟩

def jsonHost : Host := { types := fun name => decide (name = "json") }

def jsonHints : Metadata :=
  (Metadata.empty.insert "a" { onTypes := ["json"] }).insert "c" { onTypes := ["json", "xml"] }

theorem screen_keeps_what_all_accept_againstB :
    (screen [againstB, inject jsonHost (ofCondition .onType)] ["a", "b", "c", "a"]
        jsonHints 0).1 = .ok ["a", "a"] ∧
      (screen [inject jsonHost (ofCondition .onType), againstB, againstB] ["a", "b", "c", "a"]
        jsonHints 5).1 = .ok ["a", "a"] := by
  let accepts : Filter Nat → Metadata → String → Bool := fun filter => match filter.judge with
    | .condition condition => condition.accepts jsonHost
    | .custom _ _ => fun _ module => decide (module ≠ "b")
  have hagainst : againstB.Judges (accepts againstB) := by
    intro slots metadata asked
    refine ⟨_, asked + 1, rfl, List.length_map _, fun i module hs => ?_⟩
    rw [List.getElem?_map, hs]
    rfl
  have hfilters : ∀ filter ∈ [againstB, inject jsonHost (ofCondition .onType)],
      filter.Judges (accepts filter) := by
    rw [List.forall_mem_cons, List.forall_mem_singleton]
    exact ⟨hagainst, judges_inject_condition jsonHost .onType⟩
  obtain ⟨hkept, hagain⟩ := screen_keeps_what_all_accept.1 accepts _ hfilters ["a", "b", "c", "a"]
    jsonHints 0
  have hleft : (screen [againstB, inject jsonHost (ofCondition .onType)] ["a", "b", "c", "a"]
      jsonHints 0).1 = .ok ["a", "a"] := by rw [hkept]; rfl
  refine ⟨hleft, ?_⟩
  rw [hagain [inject jsonHost (ofCondition .onType), againstB, againstB] 5 (fun filter => ?_),
    hleft]
  simp only [List.mem_cons, List.not_mem_nil, or_false]
  tauto

end Filter

end Activation
