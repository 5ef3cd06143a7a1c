import Activation.Proofs.Calls
import Activation.Proofs.Session

namespace Activation

def Event.ofEntry (entry : Entry) : Event := ⟨entry.configurations, entry.exclusions⟩

namespace Session

open Resolver

section Pairs

variable {σ : Type} {resolver : Resolver σ} {files : Snapshot} {sites : List Site}
  {progress after : Progress σ} {pairs : List (Site × Entry)} {module : String}

-- A site that is switched on or off, with an entry of that kind.
structure Answered (resolver : Resolver σ) (pair : Site × Entry) : Prop where
  isEnabled : resolver.isEnabled pair.1 = .ok (!pair.2.isDisabled)
  disabled : pair.2.isDisabled = true → pair.2 = .disabled

-- The sites that are switched on, with their entries.
def enabledPairs (resolver : Resolver σ) (pairs : List (Site × Entry)) : List (Site × Entry) :=
  pairs.filter fun pair => decide (resolver.isEnabled pair.1 = .ok true)

theorem Answered.isEnabled_iff {pair : Site × Entry} (h : Answered resolver pair) :
    resolver.isEnabled pair.1 = .ok true ↔ pair.2.isDisabled = false := by
  rw [h.isEnabled]
  cases pair.2.isDisabled <;> simp

theorem Answered.isEnabled_of_mem {pair : Site × Entry} (h : Answered resolver pair)
    (hm : module ∈ pair.2.configurations ∨ module ∈ pair.2.exclusions) :
    resolver.isEnabled pair.1 = .ok true := by
  rw [h.isEnabled_iff, Bool.eq_false_iff]
  intro hoff
  rw [h.disabled hoff] at hm
  rcases hm with hm | hm
  · exact List.not_mem_nil hm
  · exact List.not_mem_nil hm

-- The batch of a session that succeeds and its report are made of the same entries, those that came
-- of resolving the sites in order.
theorem processAll_ok_answers {batch full : Batch}
    (h : processAll resolver files sites batch progress = (.ok full, after)) :
    ∃ pairs : List (Site × Entry),
      Batch.answers (resolver.resolve files) sites progress =
        pairs.map (fun pair => (pair.1, .ok pair.2)) ∧
      pairs.map Prod.fst = sites ∧ (∀ pair ∈ pairs, Answered resolver pair) ∧
      full = batch.recordAll pairs ∧
      after.report = progress.report ++ pairs.flatMap fun pair => resolver.eventsOf pair.2 := by
  induction sites generalizing batch progress with
  | nil =>
      obtain ⟨hfull, rfl⟩ := Prod.mk.inj h
      refine ⟨[], rfl, rfl, fun pair hm => ?_, (Except.ok.inj hfull).symm, ?_⟩
      · cases hm
      · exact (List.append_nil _).symm
  | cons site rest ih =>
      obtain ⟨entry, middle, hresolve, hrest⟩ := processAll_cons_ok h
      obtain ⟨hon, hoff⟩ := isEnabled_of_resolve hresolve
      obtain ⟨pairs, hanswers, hsites, hpairs, hfull, hreport⟩ := ih hrest
      refine ⟨(site, entry) :: pairs, ?_, ?_, ?_, hfull, ?_⟩
      · rw [Batch.answers, hresolve, List.map_cons, ← hanswers]
      · rw [List.map_cons, hsites]
      · exact List.forall_mem_cons.mpr ⟨⟨hon, hoff⟩, hpairs⟩
      · rw [hreport, report_resolve hresolve, List.append_assoc, List.flatMap_cons]

-- With one report among the listeners there is one event for each site that is switched on.
theorem flatMap_eventsOf (hreport : resolver.listeners.countP Listener.isReport = 1)
    (h : ∀ pair ∈ pairs, Answered resolver pair) :
    pairs.flatMap (fun pair => resolver.eventsOf pair.2) =
      (enabledPairs resolver pairs).map fun pair => .ofEntry pair.2 := by
  induction pairs with
  | nil => rfl
  | cons pair rest ih =>
      obtain ⟨hpair, hrest⟩ := List.forall_mem_cons.mp h
      have hcons : enabledPairs resolver (pair :: rest) =
          if pair.2.isDisabled = false then pair :: enabledPairs resolver rest
          else enabledPairs resolver rest := by
        simp only [enabledPairs, List.filter_cons, hpair.isEnabled_iff, decide_eq_true_eq]
      rw [List.flatMap_cons, ih hrest, hcons, eventsOf, hreport]
      cases pair.2.isDisabled <;> rfl

theorem kept_iff_enabledPairs (h : ∀ pair ∈ pairs, Answered resolver pair) :
    Batch.Kept pairs module ↔ Batch.Kept (enabledPairs resolver pairs) module := by
  have hmem : ∀ pair, pair ∈ enabledPairs resolver pairs ↔
      pair ∈ pairs ∧ resolver.isEnabled pair.1 = .ok true := by
    intro pair
    rw [enabledPairs, List.mem_filter, decide_eq_true_eq]
  unfold Batch.Kept
  constructor
  · rintro ⟨⟨pair, hp, hc⟩, hkept⟩
    have hon := (h pair hp).isEnabled_of_mem (Or.inl hc)
    exact ⟨⟨pair, (hmem pair).mpr ⟨hp, hon⟩, hc⟩,
      fun other ho => hkept other ((hmem other).mp ho).1⟩
  · rintro ⟨⟨pair, hp, hc⟩, hkept⟩
    refine ⟨⟨pair, ((hmem pair).mp hp).1, hc⟩, fun other ho hx => ?_⟩
    exact hkept other ((hmem other).mpr ⟨ho, (h other ho).isEnabled_of_mem (Or.inr hx)⟩) hx

private theorem find?_enabledPairs (h : ∀ pair ∈ pairs, Answered resolver pair) :
    (enabledPairs resolver pairs).find? (fun pair => decide (module ∈ pair.2.configurations)) =
      pairs.find? fun pair => decide (module ∈ pair.2.configurations) := by
  rw [enabledPairs, List.find?_filter]
  apply List.find?_congr
  intro pair hp
  have hon : module ∈ pair.2.configurations ∨ module ∈ pair.2.exclusions →
      resolver.isEnabled pair.1 = .ok true := (h pair hp).isEnabled_of_mem
  simp only [decide_eq_true_eq, decide_eq_decide]
  exact ⟨fun hm => hm.2, fun hm => ⟨hon (Or.inl hm), hm⟩⟩

end Pairs

variable {files : Snapshot} {session : Session} {settings : List (String × String)}

private theorem countP_isReport_resolver (session : Session) (settings : List (String × String)) :
    (session.resolver settings).listeners.countP Listener.isReport = 1 :=
  rfl

theorem resolveSites_ok {progress after : Progress Unit} {imports : List Import}
    (h : session.resolveSites settings files progress = (.ok imports, after)) :
    ∃ precedence start pairs,
      (session.resolver settings).batch files progress = (.ok (.start precedence), start) ∧
      Batch.answers ((session.resolver settings).resolve files) session.sites start =
        pairs.map (fun pair => (pair.1, .ok pair.2)) ∧
      pairs.map Prod.fst = session.sites ∧
      (∀ pair ∈ pairs, Answered (session.resolver settings) pair) ∧
      ((Batch.start precedence).recordAll pairs).finalize = .ok imports ∧
      after.report = progress.report ++
        (enabledPairs (session.resolver settings) pairs).map fun pair => .ofEntry pair.2 := by
  obtain ⟨batch, start, hbatch, hrest⟩ := Step.bind_ok_iff.mp h
  obtain ⟨full, last, hfull, hfinalize⟩ := Step.bind_ok_iff.mp hrest
  obtain ⟨hfinal, rfl⟩ := Step.ofResult_ok_iff.mp hfinalize
  obtain ⟨pairs, hanswers, hsites, hpairs, rfl, hreport⟩ := processAll_ok_answers hfull
  obtain ⟨catalog, metadata, havailable⟩ := available_of_batch hbatch
  have hbegin := batch_eq (session.resolver settings) havailable
  obtain ⟨hstart, rfl⟩ := Prod.mk.inj (hbatch.symm.trans hbegin)
  obtain rfl := Except.ok.inj hstart
  rw [flatMap_eventsOf (countP_isReport_resolver _ _) hpairs] at hreport
  exact ⟨_, _, pairs, hbegin, hanswers, hsites, hpairs, hfinal, hreport⟩

theorem resolve_ok {roots : List String} {resolution : Resolution}
    (h : session.resolve roots settings files = .ok resolution) :
    ∃ after, session.resolveSites settings files ⟨.ofRoots roots, [], ()⟩ =
      (.ok resolution.imports, after) ∧ after.report = resolution.events := by
  rw [resolve] at h
  rcases hs : session.resolveSites settings files ⟨.ofRoots roots, [], ()⟩ with
    ⟨error | imports, after⟩
  · rw [hs] at h
    cases h
  · rw [hs] at h
    obtain rfl := Except.ok.inj h
    exact ⟨after, rfl, rfl⟩

theorem resolveFile_ok {path : String} {roots : List String} {resolution : Resolution}
    (h : resolveFile files path roots settings = .ok resolution) :
    ∃ session, ofFile files path = .ok session ∧
      session.resolve (rootsFor path roots) settings files = .ok resolution := by
  rw [resolveFile] at h
  cases hs : ofFile files path with
  | error fault =>
      rw [hs] at h
      cases h
  | ok session =>
      rw [hs] at h
      exact ⟨session, rfl, mapError_ok_iff.mp h⟩

-- The report explains the outcome of a session file: it holds one event for every site that is
-- switched on, in order, what the site came to. The imports are what some event lists and none
-- leaves out, and each belongs to the site whose event is the first to list it.
theorem report_explains_imports (files : Snapshot) (path : String) (roots : List String)
    (settings : List (String × String)) (resolution : Resolution)
    (h : resolveFile files path roots settings = .ok resolution) :
    ∃ session batch start pairs, ofFile files path = .ok session ∧
      (session.resolver settings).batch files ⟨.ofRoots (rootsFor path roots), [], ()⟩ =
        (.ok batch, start) ∧
      Batch.answers ((session.resolver settings).resolve files) session.sites start =
        pairs.map (fun pair => (pair.1, .ok pair.2)) ∧
      let enabled := session.sites.filter fun site =>
        decide ((session.resolver settings).isEnabled site = .ok true)
      (enabledPairs (session.resolver settings) pairs).map Prod.fst = enabled ∧
      resolution.events =
        (enabledPairs (session.resolver settings) pairs).map (fun pair => .ofEntry pair.2) ∧
      (∀ module, module ∈ resolution.imports.map Import.module ↔
        (∃ event ∈ resolution.events, module ∈ event.configurations) ∧
          ∀ event ∈ resolution.events, module ∉ event.exclusions) ∧
      ∀ item ∈ resolution.imports,
        enabled[resolution.events.findIdx fun event =>
          decide (item.module ∈ event.configurations)]? = some item.site := by
  obtain ⟨session, hsession, hresolve⟩ := resolveFile_ok h
  obtain ⟨after, houtcome, hevents⟩ := resolve_ok hresolve
  obtain ⟨precedence, start, pairs, hbatch, hanswers, hsites, hpairs, hfinal, hreport⟩ :=
    resolveSites_ok houtcome
  have hall : resolution.events = (enabledPairs (session.resolver settings) pairs).map
      (fun pair => .ofEntry pair.2) := hevents.symm.trans hreport
  have henabled : (enabledPairs (session.resolver settings) pairs).map Prod.fst =
      session.sites.filter fun site =>
        decide ((session.resolver settings).isEnabled site = .ok true) := by
    rw [← hsites, List.filter_map]
    rfl
  refine ⟨session, _, start, pairs, hsession, hbatch, hanswers, henabled, hall,
    fun module => ?_, fun item hitem => ?_⟩
  · rw [Batch.mem_imports_iff_kept hfinal, kept_iff_enabledPairs hpairs, hall]
    simp only [Batch.Kept, List.mem_map, exists_exists_and_eq_and, forall_exists_index, and_imp,
      forall_apply_eq_imp_iff₂]
    rfl
  · have hsite := (Batch.finalize_recordAll_ok hfinal).2 item hitem
    rw [← find?_enabledPairs hpairs, List.find?_eq_getElem?_findIdx, ← List.getElem?_map,
      henabled] at hsite
    rw [hall, List.findIdx_map]
    exact hsite

-- "d" fails its condition and "e" is left out by a variable. What the site that is switched off
-- leaves out does not count.
def fullSession : Snapshot := fun path =>
  if path = "app/session.toml" then
    .file (.ok "[[sites]]\norigin = 'off'\nenabled = false\nexclude = ['c']
      [[sites]]\norigin = 'main'\n[[sites]]\norigin = 'next'\nexclude_name = ['b']")
  else if path = "app/autoconf.catalog.toml" then
    .file (.ok "[extension_points]
      'autoconf.EnableAutoConfiguration' = ['a', 'b', 'c', 'd', 'e', 'a']")
  else if path = "app/autoconf.metadata.toml" then
    .file (.ok "[modules.a]\nafter = ['c']\n[modules.d]\non_environment = 'web'")
  else .nothing .notFound

theorem report_explains_imports_fullSession :
    ∃ resolution, resolveFile fullSession "app/session.toml" []
        [("AUTOCONF_AUTOCONFIGURE_EXCLUDE", "e")] = .ok resolution ∧
      resolution.events.map Event.configurations = [["a", "b", "c"], ["a", "c"]] ∧
      ∀ module, module ∈ ["c", "a"] ↔
        (∃ event ∈ resolution.events, module ∈ event.configurations) ∧
          ∀ event ∈ resolution.events, module ∉ event.exclusions := by
  have houtcome : (resolveFile fullSession "app/session.toml" []
      [("AUTOCONF_AUTOCONFIGURE_EXCLUDE", "e")]).map (fun resolution =>
        (resolution.imports.map Import.module, resolution.events.map Event.configurations)) =
      .ok (["c", "a"], [["a", "b", "c"], ["a", "c"]]) := by decide +kernel
  cases hr : resolveFile fullSession "app/session.toml" []
      [("AUTOCONF_AUTOCONFIGURE_EXCLUDE", "e")] with
  | error failure =>
      rw [hr] at houtcome
      cases houtcome
  | ok resolution =>
      rw [hr] at houtcome
      obtain ⟨himports, hevents⟩ := Prod.mk.inj (Except.ok.inj houtcome)
      obtain ⟨_, _, _, _, -, -, -, -, -, hmem, -⟩ := report_explains_imports _ _ _ _ _ hr
      rw [himports] at hmem
      exact ⟨resolution, rfl, hevents, hmem⟩

end Session

end Activation
