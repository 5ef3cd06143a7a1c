import Activation.Assembly
import Activation.Proofs.Course

namespace Activation

namespace Resolver

variable {σ : Type} {resolver : Resolver σ} {files : Snapshot} {site : Site}
  {progress : Progress σ} {component reason : String}

-- Where an extension fails, it is a filter or a listener, and the reason is its own.
theorem exists_failing_of_resolve
    (h : (resolver.resolve files site progress).1 = .error (.extension component reason)) :
    (∃ filter ∈ resolver.filters, component = s!"filter '{filter.name}'" ∧
      ∃ slots metadata state after,
        filter.answer slots metadata state = (.error reason, after)) ∨
    ∃ listener ∈ resolver.listeners, component = s!"listener '{listener.name}'" ∧
      ∃ event record after, listener.receive event record = (.error reason, after) := by
  obtain ⟨result, after, calls, hcourse⟩ := exists_course resolver files site progress
  rw [hcourse.resolve] at h
  cases hcourse with
  | property | disabled | catalog | candidates | exclusions | metadata | done => cases h
  | filter admitted loaded chain passed failed =>
      cases failed with
      | verdictCount => cases h
      | extension answered =>
          obtain ⟨rfl, rfl⟩ := Error.extension.inj (Except.error.inj h)
          exact Or.inl ⟨_, by simp [chain], rfl, _, _, _, _, answered⟩
  | listener admitted loaded passed outcome row heard failed =>
      obtain ⟨rfl, rfl⟩ := Error.extension.inj (Except.error.inj h)
      exact Or.inr ⟨_, by simp [row], rfl, _, _, _, failed⟩

end Resolver

namespace Assembly

variable {σ α : Type} {choices : List (Choice σ)}

namespace Choice

def engine? : Choice σ → Option Engine
  | .engine chosen => some chosen
  | _ => none

def host? : Choice σ → Option Host
  | .host chosen => some chosen
  | _ => none

def filter? : Choice σ → Option (Filter σ)
  | .filter chosen => some chosen
  | _ => none

def listener? : Choice σ → Option (Listener σ)
  | .listener chosen => some chosen
  | _ => none

end Choice

private theorem last_foldl_choose (field : Assembly σ → α) (chosen? : Choice σ → Option α)
    (h : ∀ assembly choice,
      field (assembly.choose choice) = (chosen? choice).getD (field assembly))
    (choices : List (Choice σ)) (assembly : Assembly σ) :
    field (choices.foldl choose assembly) =
      (choices.filterMap chosen?).getLast?.getD (field assembly) := by
  induction choices generalizing assembly with
  | nil => rfl
  | cons choice rest ih =>
      rw [List.foldl_cons, ih, h, List.filterMap_cons]
      cases chosen? choice with
      | none => rfl
      | some value => rw [List.getLast?_cons]; rfl

private theorem append_foldl_choose (field : Assembly σ → List α) (added? : Choice σ → Option α)
    (h : ∀ choice ∈ choices, ∀ assembly,
      field (assembly.choose choice) = field assembly ++ (added? choice).toList)
    (assembly : Assembly σ) :
    field (choices.foldl choose assembly) = field assembly ++ choices.filterMap added? := by
  induction choices generalizing assembly with
  | nil => exact (List.append_nil _).symm
  | cons choice rest ih =>
      rw [List.foldl_cons, ih fun other ho => h other (List.mem_cons_of_mem _ ho),
        h choice List.mem_cons_self, List.append_assoc, List.filterMap_cons]
      cases added? choice <;> rfl

theorem engine_ofChoices (choices : List (Choice σ)) :
    (ofChoices choices).engine = (choices.filterMap Choice.engine?).getLast?.getD {} :=
  last_foldl_choose engine Choice.engine? (fun _ choice => by cases choice <;> rfl) choices {}

theorem host_ofChoices (choices : List (Choice σ)) :
    (ofChoices choices).host = (choices.filterMap Choice.host?).getLast?.getD {} :=
  last_foldl_choose host Choice.host? (fun _ choice => by cases choice <;> rfl) choices {}

theorem listeners_ofChoices (choices : List (Choice σ)) :
    (ofChoices choices).listeners = choices.filterMap Choice.listener? :=
  append_foldl_choose listeners Choice.listener?
    (fun choice _ _ => by cases choice <;> simp [choose, Choice.listener?]) {}

private theorem filters_foldl_choose (h : ∀ row, Choice.filters row ∉ choices)
    (assembly : Assembly σ) :
    (choices.foldl choose assembly).filters =
      assembly.filters ++ choices.filterMap Choice.filter? := by
  refine append_foldl_choose filters Choice.filter? (fun choice hc _ => ?_) assembly
  cases choice with
  | filters row => exact absurd hc (h row)
  | _ => simp [choose, Choice.filter?]

theorem filters_ofChoices_append {before after : List (Choice σ)} {chain : List (Filter σ)}
    (h : ∀ row, Choice.filters row ∉ after) :
    (ofChoices (before ++ .filters chain :: after)).filters =
      chain ++ after.filterMap Choice.filter? := by
  rw [ofChoices, List.foldl_append, List.foldl_cons, filters_foldl_choose h]
  rfl

theorem filters_ofChoices_of_builtins (h : ∀ row, Choice.filters row ∉ choices) :
    (ofChoices choices).filters = Filter.builtins ++ choices.filterMap Choice.filter? :=
  filters_foldl_choose h {}

-- Everything of a host is handed over behind what an extension has been handed before.
theorem filters_build (assembly : Assembly σ) :
    assembly.build.filters = assembly.filters.map fun filter =>
      { filter with granted := filter.granted ++ assembly.host.capabilities } :=
  List.map_congr_left fun filter _ => by rw [Filter.inject, Granted.inject_eq]

theorem listeners_build (assembly : Assembly σ) :
    assembly.build.listeners = assembly.listeners.map fun listener =>
      { listener with granted := listener.granted ++ assembly.host.capabilities } :=
  List.map_congr_left fun listener _ => by rw [Listener.inject, Granted.inject_eq]

theorem judges_of_mem_build {assembly : Assembly σ} {filter : Filter σ} {condition : Condition}
    (hm : filter ∈ assembly.build.filters) (hj : filter.judge = .condition condition) :
    filter.Judges (condition.accepts assembly.host) := by
  obtain ⟨chosen, -, rfl⟩ := List.mem_map.mp hm
  rw [Filter.judge_inject] at hj
  exact Filter.judges_inject_of_condition hj assembly.host

-- What is built has the engine and the host that were named last, the filters of the last row and
-- those after it, and all listeners. Each of them has been handed everything of this host, once and
-- after all it had before. So only an extension of the host's own can ever fail, and never a
-- condition for want of what it looks at.
theorem build_hands_over_last_host (choices : List (Choice σ)) :
    let built := (ofChoices choices).build
    let hooks : Granted := [.types built.host.types, .instances built.host.instances,
      .properties built.host.properties, .environment built.host.environment]
    built.engine = (choices.filterMap Choice.engine?).getLast?.getD {} ∧
    built.host = (choices.filterMap Choice.host?).getLast?.getD {} ∧
    (∀ before chain after, choices = before ++ Choice.filters chain :: after →
      (∀ row, Choice.filters row ∉ after) →
        built.filters = (chain ++ after.filterMap Choice.filter?).map fun filter =>
          { filter with granted := filter.granted ++ hooks }) ∧
    ((∀ row, Choice.filters row ∉ choices) →
      built.filters = (Filter.builtins ++ choices.filterMap Choice.filter?).map
        fun filter : Filter σ => { filter with granted := filter.granted ++ hooks }) ∧
    built.listeners = ((choices.filterMap Choice.listener?).map fun listener =>
      { listener with granted := listener.granted ++ hooks }) ∧
    (∀ filter ∈ built.filters, ∀ condition, filter.judge = .condition condition →
      filter.Judges (condition.accepts built.host)) ∧
    ∀ files site progress component reason,
      (built.resolve files site progress).1 = .error (.extension component reason) →
        (∃ filter ∈ built.filters, (∃ name verdicts, filter.judge = .custom name verdicts) ∧
          component = s!"filter '{filter.name}'" ∧
          ∃ slots metadata state after,
            filter.answer slots metadata state = (.error reason, after)) ∨
        ∃ listener ∈ built.listeners, component = s!"listener '{listener.name}'" ∧
          ∃ event record after, listener.receive event record = (.error reason, after) := by
  intro built hooks
  refine ⟨engine_ofChoices choices, host_ofChoices choices, ?_, ?_, ?_,
    fun filter hm condition hj => judges_of_mem_build hm hj, ?_⟩
  · intro before chain after hchoices hafter
    have hrow : (ofChoices choices).filters = chain ++ after.filterMap Choice.filter? := by
      rw [hchoices, filters_ofChoices_append hafter]
    rw [filters_build, hrow]
    rfl
  · intro hnone
    rw [filters_build, filters_ofChoices_of_builtins hnone]
    rfl
  · rw [listeners_build, listeners_ofChoices]
    rfl
  · intro files site progress component reason hfailed
    obtain ⟨filter, hm, hname, slots, metadata, state, after, hanswer⟩ | hlistener :=
      Resolver.exists_failing_of_resolve hfailed
    · obtain ⟨chosen, -, rfl⟩ := List.mem_map.mp hm
      exact Or.inl ⟨_, hm, Filter.custom_of_error hanswer, hname, slots, metadata, state, after,
        hanswer⟩
    · exact Or.inr hlistener

-- The filter that is chosen first goes with the conditions that its row takes the place of. The
-- host that counts is named after all filters.
def closed : Filter Unit := ⟨.custom "closed" fun _ _ _ state => (.error "no entry", state), []⟩

def lastHost : Host := { types := fun name => decide (name = "json"), environment := .reactive }

def hostNamedLast : List (Choice Unit) :=
  [.filter closed, .host { environment := .servlet }, .filters [.ofCondition .onInstance],
    .listener .report, .filter closed, .host lastHost, .engine { point := "plugins" }]

def progressOfA : Progress Unit :=
  ⟨.ofLoaded (Catalog.empty.register "plugins" "a") .empty, [], ()⟩

theorem build_hands_over_last_host_hostNamedLast :
    (ofChoices hostNamedLast).build.engine = { point := "plugins" } ∧
      (ofChoices hostNamedLast).build.host = lastHost ∧
      (ofChoices hostNamedLast).build.filters =
        [⟨.condition .onInstance, lastHost.capabilities⟩, ⟨closed.judge, lastHost.capabilities⟩] ∧
      (ofChoices hostNamedLast).build.listeners = [⟨.report, lastHost.capabilities⟩] ∧
      (ofChoices (hostNamedLast.take 2)).build.filters =
        [⟨.condition .onType, Host.capabilities { environment := .servlet }⟩,
          ⟨.condition .onInstance, Host.capabilities { environment := .servlet }⟩,
          ⟨.condition .onEnvironment, Host.capabilities { environment := .servlet }⟩,
          ⟨closed.judge, Host.capabilities { environment := .servlet }⟩] ∧
      (⟨.condition .onInstance, lastHost.capabilities⟩ : Filter Unit).Judges
        (Condition.accepts lastHost .onInstance) ∧
      ∃ filter ∈ (ofChoices hostNamedLast).build.filters,
        (∃ name verdicts, filter.judge = .custom name verdicts) ∧
          "filter 'closed'" = s!"filter '{filter.name}'" := by
  obtain ⟨hengine, hhost, hrow, -, hlisteners, hjudges, hfailed⟩ :=
    build_hands_over_last_host hostNamedLast
  obtain ⟨-, -, -, hnone, -⟩ := build_hands_over_last_host (hostNamedLast.take 2)
  have hfilters := hrow (hostNamedLast.take 2) [.ofCondition .onInstance] (hostNamedLast.drop 3) rfl
    (fun row hm => by simp [hostNamedLast] at hm)
  refine ⟨hengine, hhost, hfilters, hlisteners, hnone fun row hm => by simp [hostNamedLast] at hm,
    hjudges _ (by rw [hfilters]; exact List.mem_cons_self) .onInstance rfl, ?_⟩
  obtain ⟨filter, hm, hcustom, hname, -⟩ | ⟨listener, hm, hname, -⟩ :=
    hfailed (fun _ => .nothing .notFound) { origin := "main" } progressOfA "filter 'closed'"
      "no entry" rfl
  · exact ⟨filter, hm, hcustom, hname⟩
  · rw [hlisteners] at hm
    obtain rfl := List.mem_singleton.mp hm
    exact absurd hname (by decide)

end Assembly

end Activation
