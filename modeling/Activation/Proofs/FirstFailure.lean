import Activation.Assembly
import Activation.Proofs.Course

namespace Activation.Resolver

variable {σ : Type} {resolver : Resolver σ} {files : Snapshot} {site : Site}
  {progress after : Progress σ} {catalog : Catalog} {metadata : Metadata}
  {result : Except Error Entry} {calls : List Call}

section Noting

private theorem Admitted.noting (h : resolver.Admitted files site progress catalog) :
    resolver.noting.Admitted files site (progress.noting []) catalog :=
  ⟨h.enabled, h.loaded, h.registered, h.valid⟩

private theorem filters_noting_append {earlier later : List (Filter σ)} {filter : Filter σ}
    (h : resolver.filters = earlier ++ filter :: later) :
    ∃ after, resolver.noting.filters =
      (earlier.mapIdx fun i filter => filter.noting (.filter i)) ++
        filter.noting (.filter earlier.length) :: after := by
  rw [Resolver.noting, h]
  exact Filter.notingAll_append earlier later filter

private theorem listeners_noting_append {earlier later : List (Listener σ)} {listener : Listener σ}
    (h : resolver.listeners = earlier ++ listener :: later) :
    ∃ after, resolver.noting.listeners =
      ((earlier.mapIdx fun i listener => listener.noting (.listener i)).flatten ++
        [.marking (.listener earlier.length) listener.name]) ++ listener.beside :: after := by
  rw [Resolver.noting, h]
  exact Listener.notingAll_append earlier later listener

theorem Course.noting (h : Course resolver files site progress result after calls) :
    ∃ noted, Course resolver.noting files site (progress.noting []) result (after.noting calls)
      noted := by
  cases h with
  | property unset found unread => exact ⟨_, .property unset found unread⟩
  | disabled disabled => exact ⟨_, .disabled disabled⟩
  | catalog enabled failed => exact ⟨_, .catalog enabled failed⟩
  | candidates enabled loaded unregistered => exact ⟨_, .candidates enabled loaded unregistered⟩
  | exclusions enabled loaded registered invalid =>
      exact ⟨_, .exclusions enabled loaded registered invalid⟩
  | metadata admitted failed => exact ⟨_, .metadata admitted.noting failed⟩
  | @filter _ _ earlier _ filter shown screened _ _ _ admitted loaded chain passed failed =>
      obtain ⟨later, hchain⟩ := filters_noting_append chain
      have hcalls : (shown ++ [screened]).mapIdx Call.filter =
          shown.mapIdx .filter ++ [.filter earlier.length screened] := by
        rw [List.mapIdx_append, ← passed.length_shown, List.mapIdx_cons, Nat.zero_add]
        rfl
      rw [hcalls]
      exact ⟨_, .filter admitted.noting loaded hchain (passed.noting .filter [])
        (failed.noting (.filter earlier.length) _)⟩
  | @listener _ _ shown _ _ earlier _ listener event middle last reason admitted loaded passed
      outcome row heard failed =>
      obtain ⟨later, hrow⟩ := listeners_noting_append row
      have hcalls : (List.range (earlier.length + 1)).map (fun i => Call.listener i event) =
          (List.range earlier.length).map (fun i => .listener i event) ++
            [.listener earlier.length event] := by
        rw [List.range_succ, List.map_append]
        rfl
      -- the failing listener is marked like the others, and only then told
      have hheard := (heard.noting .listener (shown.mapIdx .filter)).append
        (Listener.hear_marking (.listener earlier.length) listener.name event middle _)
      have hfailed : listener.beside.receive event (middle.noting (shown.mapIdx .filter ++
          (List.range (earlier.length + 1)).map fun i => .listener i event)) =
          (.error reason, last.noting (shown.mapIdx .filter ++
            (List.range (earlier.length + 1)).map fun i => .listener i event)) := by
        rw [Listener.receive_beside, failed]
      rw [hcalls, ← List.append_assoc] at hfailed ⊢
      rw [← listener.name_beside]
      exact ⟨_, .listener admitted.noting loaded (passed.noting .filter []) outcome hrow hheard
        hfailed⟩
  | @done _ _ shown _ _ _ _ admitted loaded passed outcome heard =>
      exact ⟨_, .done admitted.noting loaded (passed.noting .filter []) outcome
        (heard.noting .listener (shown.mapIdx .filter))⟩

theorem Course.resolve_noting (h : Course resolver files site progress result after calls) :
    resolver.noting.resolve files site (progress.noting []) = (result, after.noting calls) := by
  obtain ⟨noted, hnoted⟩ := h.noting
  exact hnoted.resolve

theorem Course.unique {other : Except Error Entry} {last : Progress σ} {others : List Call}
    (h : Course resolver files site progress result after calls)
    (ho : Course resolver files site progress other last others) :
    other = result ∧ last = after ∧ others = calls := by
  obtain ⟨rfl, rfl⟩ := Prod.mk.inj (ho.resolve.symm.trans h.resolve)
  obtain ⟨-, hcalls⟩ := Prod.mk.inj (ho.resolve_noting.symm.trans h.resolve_noting)
  simp only [Progress.noting, Progress.mk.injEq, Prod.mk.injEq, true_and] at hcalls
  exact ⟨rfl, rfl, hcalls⟩

end Noting

section Due

-- What has succeeded by the time a call is made.
inductive Due (resolver : Resolver σ) (files : Snapshot) (site : Site) (progress : Progress σ) :
    Call → Prop where
  | filter {i : Nat} {slots : Slots} {catalog : Catalog} {metadata : Metadata}
      {shown : List Slots} {middle : σ}
      (admitted : resolver.Admitted files site progress catalog)
      (loaded : (progress.stores.loadMetadata files).1 = .ok metadata)
      (passed : Filter.Passes metadata (resolver.filters.take i)
        ((resolver.remaining catalog site).map some) progress.outside shown slots middle) :
      Due resolver files site progress (.filter i slots)
  | listener {i : Nat} {event : Event} {catalog : Catalog} {metadata : Metadata}
      {shown : List Slots} {screened : Slots} {outside : σ} {middle : Record σ}
      (admitted : resolver.Admitted files site progress catalog)
      (loaded : (progress.stores.loadMetadata files).1 = .ok metadata)
      (passed : Filter.Passes metadata resolver.filters
        ((resolver.remaining catalog site).map some) progress.outside shown screened outside)
      (outcome : event = ⟨screened.filterMap id, .ofList (resolver.exclusions site)⟩)
      (heard : Listener.Hear event (resolver.listeners.take i) ⟨progress.report, outside⟩ middle) :
      Due resolver files site progress (.listener i event)

variable {shown : List Slots} {screened : Slots} {outside : σ} {call : Call}

private theorem due_of_mem_shown {filters : List (Filter σ)} {earlier : List (Filter σ)}
    (admitted : resolver.Admitted files site progress catalog)
    (loaded : (progress.stores.loadMetadata files).1 = .ok metadata)
    (hchain : resolver.filters = earlier ++ filters)
    (passed : Filter.Passes metadata earlier ((resolver.remaining catalog site).map some)
      progress.outside shown screened outside)
    (hm : call ∈ (shown ++ [screened]).mapIdx Call.filter) :
    resolver.Due files site progress call := by
  obtain ⟨i, hi, rfl⟩ := List.mem_mapIdx.mp hm
  have hle : i ≤ earlier.length := by
    rw [List.length_append, passed.length_shown, List.length_singleton] at hi
    omega
  obtain ⟨before, middle, hbefore⟩ := passed.take (List.getElem?_eq_getElem hi)
  rw [← List.take_append_of_le_length hle, ← hchain] at hbefore
  exact .filter admitted loaded hbefore

private theorem due_of_mem_passed (admitted : resolver.Admitted files site progress catalog)
    (loaded : (progress.stores.loadMetadata files).1 = .ok metadata)
    (passed : Filter.Passes metadata resolver.filters
      ((resolver.remaining catalog site).map some) progress.outside shown screened outside)
    (hm : call ∈ shown.mapIdx Call.filter) : resolver.Due files site progress call := by
  refine due_of_mem_shown admitted loaded (List.append_nil _).symm passed ?_
  rw [List.mapIdx_append]
  exact List.mem_append_left _ hm

private theorem due_of_heard {earlier later : List (Listener σ)} {event : Event} {middle : Record σ}
    (admitted : resolver.Admitted files site progress catalog)
    (loaded : (progress.stores.loadMetadata files).1 = .ok metadata)
    (passed : Filter.Passes metadata resolver.filters
      ((resolver.remaining catalog site).map some) progress.outside shown screened outside)
    (outcome : event = ⟨screened.filterMap id, .ofList (resolver.exclusions site)⟩)
    (row : resolver.listeners = earlier ++ later)
    (heard : Listener.Hear event earlier ⟨progress.report, outside⟩ middle) {i : Nat}
    (hi : i ≤ earlier.length) : resolver.Due files site progress (.listener i event) := by
  obtain ⟨middle, hheard⟩ := heard.take i
  rw [← List.take_append_of_le_length hi, ← row] at hheard
  exact .listener admitted loaded passed outcome hheard

-- A filter is called only when all before it have succeeded, and a listener only when all filters
-- have, and all listeners before it.
theorem Course.due (h : Course resolver files site progress result after calls) :
    ∀ call ∈ calls, resolver.Due files site progress call := by
  intro call hm
  cases h with
  | property | disabled | catalog | candidates | exclusions | metadata => cases hm
  | filter admitted loaded chain passed failed =>
      exact due_of_mem_shown admitted loaded chain passed hm
  | listener admitted loaded passed outcome row heard failed =>
      rcases List.mem_append.mp hm with hm | hm
      · exact due_of_mem_passed admitted loaded passed hm
      · obtain ⟨i, hi, rfl⟩ := List.mem_map.mp hm
        have hle := Nat.le_of_lt_succ (List.mem_range.mp hi)
        exact due_of_heard admitted loaded passed outcome row heard hle
  | done admitted loaded passed outcome heard =>
      rcases List.mem_append.mp hm with hm | hm
      · exact due_of_mem_passed admitted loaded passed hm
      · obtain ⟨i, hi, rfl⟩ := List.mem_map.mp hm
        have hle := Nat.le_of_lt (List.mem_range.mp hi)
        exact due_of_heard admitted loaded passed outcome (List.append_nil _).symm heard hle

end Due

section Effects

theorem Course.unset_of_invalidProperty {key value : String}
    (h : Course resolver files site progress (.error (.invalidProperty key value)) after calls) :
    site.enabled = none := by
  cases h with
  | property unset found unread => exact unset
  | filter admitted loaded chain passed failed => cases failed

theorem Course.eq_of_not_enabled (h : Course resolver files site progress result after calls)
    (hn : resolver.isEnabled site ≠ .ok true) : after = progress := by
  cases h with
  | property | disabled => rfl
  | catalog enabled | candidates enabled | exclusions enabled => exact absurd enabled hn
  | metadata admitted | filter admitted | listener admitted | done admitted =>
      exact absurd admitted.enabled hn

theorem Course.metadata_eq (h : Course resolver files site progress result after calls)
    (hn : ∀ catalog, ¬ resolver.Admitted files site progress catalog) :
    after.stores.metadata = progress.stores.metadata := by
  cases h with
  | property | disabled | catalog | candidates | exclusions => rfl
  | metadata admitted | filter admitted | listener admitted | done admitted =>
      exact absurd admitted (hn _)

theorem Course.calls_of_ok {entry : Entry}
    (h : Course resolver files site progress (.ok entry) after calls)
    (hn : entry.isDisabled = false) :
    ∃ shown : List Slots, shown.length = resolver.filters.length ∧
      calls = shown.mapIdx .filter ++ (List.range resolver.listeners.length).map fun i =>
        .listener i ⟨entry.configurations, entry.exclusions⟩ := by
  cases h with
  | disabled => cases hn
  | done admitted loaded passed outcome heard => exact ⟨_, passed.length_shown, rfl⟩

end Effects

-- Resolving a site goes through its stages in one order, ends with the error of the first that
-- fails, and by then has not touched what comes later.
theorem resolve_ends_at_first_failure (resolver : Resolver σ) (files : Snapshot) (site : Site)
    (progress : Progress σ) :
    ∃ result after calls, resolver.resolve files site progress = (result, after) ∧
      resolver.noting.resolve files site (progress.noting []) = (result, after.noting calls) ∧
      Course resolver files site progress result after calls ∧
      (∀ other last others, Course resolver files site progress other last others →
        other = result ∧ last = after ∧ others = calls) ∧
      (∀ key value, result = .error (.invalidProperty key value) → site.enabled = none) ∧
      (resolver.isEnabled site ≠ .ok true → after = progress) ∧
      ((∀ catalog, ¬ resolver.Admitted files site progress catalog) →
        after.stores.metadata = progress.stores.metadata) ∧
      (∀ call ∈ calls, resolver.Due files site progress call) ∧
      ∀ entry, result = .ok entry → entry.isDisabled = false →
        ∃ shown : List Slots, shown.length = resolver.filters.length ∧
          calls = shown.mapIdx .filter ++ (List.range resolver.listeners.length).map fun i =>
            .listener i ⟨entry.configurations, entry.exclusions⟩ := by
  obtain ⟨result, after, calls, hcourse⟩ := exists_course resolver files site progress
  refine ⟨result, after, calls, hcourse.resolve, hcourse.resolve_noting, hcourse,
    fun _ _ _ => hcourse.unique, fun key value he => ?_, hcourse.eq_of_not_enabled,
    hcourse.metadata_eq, hcourse.due, fun entry he => ?_⟩
  · subst he
    exact hcourse.unset_of_invalidProperty
  · subst he
    exact hcourse.calls_of_ok

-- The second filter gives no verdicts, and after it there are a filter and a listener that would
-- fail as well.
def tooFewVerdicts : Resolver Nat :=
  Assembly.build
    { filters := [.ofCondition .onType,
        ⟨.custom "short" fun _ _ _ asked => (.ok [], asked + 1), []⟩,
        ⟨.custom "broken" fun _ _ _ asked => (.error "broken", asked + 1), []⟩]
      listeners := [.report, ⟨.custom "deaf" fun _ _ told => (.error "deaf", told + 1), []⟩] }

def progressOfAB : Progress Nat :=
  ⟨.ofLoaded (["a", "b", "a"].foldl (fun catalog => catalog.register Catalog.defaultPoint) .empty)
    (Metadata.empty.insert "a" { onTypes := ["json"] }), [], 0⟩

theorem resolve_ends_at_first_failure_tooFewVerdicts :
    tooFewVerdicts.Course (fun _ => .nothing .notFound) { origin := "main" } progressOfAB
        (.error (.verdictCount "short" 2 0)) { progressOfAB with outside := 1 }
        [.filter 0 [some "a", some "b"], .filter 1 [none, some "b"]] ∧
      tooFewVerdicts.Due (fun _ => .nothing .notFound) { origin := "main" } progressOfAB
        (.filter 1 [none, some "b"]) := by
  obtain ⟨result, after, calls, hresolve, hnoting, hcourse, -, -, -, -, hdue, -⟩ :=
    resolve_ends_at_first_failure tooFewVerdicts (fun _ => .nothing .notFound) { origin := "main" }
      progressOfAB
  obtain ⟨rfl, rfl⟩ : Except.error (.verdictCount "short" 2 0) = result ∧
      { progressOfAB with outside := 1 } = after := Prod.mk.inj hresolve
  obtain rfl : [.filter 0 [some "a", some "b"], .filter 1 [none, some "b"]] = calls :=
    congrArg (fun ended => ended.2.outside.2) hnoting
  exact ⟨hcourse, hdue _ (by simp)⟩

end Activation.Resolver
