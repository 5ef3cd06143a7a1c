import Activation.Proofs.Disabled
import Activation.Proofs.Steady

namespace Activation.Resolver

variable {σ α β : Type} {resolver : Resolver σ} {files others : Snapshot} {catalog : Catalog}
  {metadata : Metadata} {progress twin : Progress σ} {site : Site}

-- What a resolver can be asked for. A site may be processed into a batch that was begun at any time
-- before; a group is a batch from its begin to its imports.
inductive Request where
  | enabled (site : Site)
  | resolve (site : Site)
  | select (site : Site)
  | batch
  | process (batch : Batch) (site : Site)
  | group (sites : List Site)

inductive Answer where
  | enabled (result : Except Error Bool)
  | entry (result : Except Error Entry)
  | modules (result : Except Error (List String))
  | batch (result : Except Error Batch)
  | processed (result : Except Error Unit × Batch)
  -- What comes of each site, and of them all.
  | group (result : Except Error (List (Site × Except Error Entry) × Except Error (List Import)))

-- A batch from its begin, through all sites whatever comes of them, to its imports.
def group (resolver : Resolver σ) (files : Snapshot) (sites : List Site) :
    Step σ (List (Site × Except Error Entry) × Except Error (List Import)) :=
  Step.bind (resolver.batch files) fun batch progress =>
    (.ok (Batch.answers (resolver.resolve files) sites progress,
      (Batch.processEach (resolver.resolve files) sites batch progress).finalize),
      resolver.resolveAll files sites progress)

def perform (resolver : Resolver σ) (files : Snapshot) (request : Request)
    (progress : Progress σ) : Answer × Progress σ :=
  match request with
  | .enabled site => (.enabled (resolver.isEnabled site), progress)
  | .resolve site => (resolver.resolve files site progress).map .entry id
  | .select site => (resolver.select files site progress).map .modules id
  | .batch => (resolver.batch files progress).map .batch id
  | .process batch site => (resolver.process files batch site progress).map .processed id
  | .group sites => (resolver.group files sites progress).map .group id

structure World (σ : Type) where
  files : Snapshot
  progress : Progress σ

inductive Action where
  | write (files : Snapshot)
  | ask (request : Request)

def act (resolver : Resolver σ) (world : World σ) : Action → World σ
  | .write files => { world with files }
  | .ask request =>
      { world with progress := (resolver.perform world.files request world.progress).2 }

def run (resolver : Resolver σ) (actions : List Action) (world : World σ) : World σ :=
  actions.foldl resolver.act world

-- Two runs with the same result that add the same to the report, and that leave their stores alone.
structure Agree (progress twin : Progress σ) (ended other : α × Progress σ) : Prop where
  result : ended.1 = other.1
  report : ∃ events, ended.2.report = progress.report ++ events ∧
    other.2.report = twin.report ++ events
  stores : ended.2.stores = progress.stores
  twin : other.2.stores = twin.stores

theorem Agree.of_fst_eq {result other : α} (h : result = other) :
    Agree progress twin (result, progress) (other, twin) :=
  ⟨h, ⟨[], (List.append_nil _).symm, (List.append_nil _).symm⟩, rfl, rfl⟩

theorem Agree.map {ended other : α × Progress σ} (h : Agree progress twin ended other)
    (f : α → β) : Agree progress twin (ended.map f id) (other.map f id) :=
  ⟨congrArg f h.result, h.report, h.stores, h.twin⟩

theorem Agree.trans {ended other : α × Progress σ} {last final : β × Progress σ}
    (h : Agree progress twin ended other) (hlast : Agree ended.2 other.2 last final) :
    Agree progress twin last final := by
  obtain ⟨events, hended, hother⟩ := h.report
  obtain ⟨more, hmore, hfinal⟩ := hlast.report
  refine ⟨hlast.result, ⟨events ++ more, ?_, ?_⟩, hlast.stores.trans h.stores,
    hlast.twin.trans h.twin⟩
  · rw [hmore, hended, List.append_assoc]
  · rw [hfinal, hother, List.append_assoc]

theorem Agree.bind {step other : Step σ α} {next following : α → Step σ β}
    (hloaded : progress.stores.Loaded catalog metadata)
    (htwin : twin.stores.Loaded catalog metadata)
    (h : Agree progress twin (step progress) (other twin))
    (hnext : ∀ value middle last, middle.stores.Loaded catalog metadata →
      last.stores.Loaded catalog metadata →
      Agree middle last (next value middle) (following value last)) :
    Agree progress twin (Step.bind step next progress) (Step.bind other following twin) := by
  have hresult := h.result
  rw [Step.bind, Step.bind]
  rcases hs : step progress with ⟨result, middle⟩
  rcases ho : other twin with ⟨answer, last⟩
  rw [hs, ho] at h hresult
  obtain rfl : result = answer := hresult
  cases result with
  | error error => exact ⟨rfl, h.report, h.stores, h.twin⟩
  | ok value => exact h.trans (hnext value middle last (h.stores ▸ hloaded) (h.twin ▸ htwin))

section Steps

variable (hloaded : progress.stores.Loaded catalog metadata)
  (htwin : twin.stores.Loaded catalog metadata)
include hloaded htwin

private theorem agree_loadCandidates (files others : Snapshot) (point : String) :
    Agree progress twin (onStores (Stores.loadCandidates files point) progress)
      (onStores (Stores.loadCandidates others point) twin) := by
  rw [onStores, onStores, hloaded.loadCandidates, htwin.loadCandidates]
  exact .of_fst_eq rfl

private theorem agree_loadMetadata (files others : Snapshot) :
    Agree progress twin (onStores (Stores.loadMetadata files) progress)
      (onStores (Stores.loadMetadata others) twin) := by
  rw [onStores, onStores, hloaded.loadMetadata, htwin.loadMetadata]
  exact .of_fst_eq rfl

private theorem agree_batch (files others : Snapshot) :
    Agree progress twin (resolver.batch files progress) (resolver.batch others twin) := by
  have hcatalog : Agree progress twin (onStores (Stores.loadCatalog files) progress)
      (onStores (Stores.loadCatalog others) twin) := by
    rw [onStores, onStores, hloaded.loadCatalog, htwin.loadCatalog]
    exact .of_fst_eq rfl
  refine hcatalog.bind hloaded htwin fun catalog middle last hmiddle hlast => ?_
  refine (agree_loadMetadata hmiddle hlast files others).bind hmiddle hlast ?_
  exact fun metadata middle last _ _ => .of_fst_eq rfl

end Steps

private theorem agree_screening {filters : List (Filter σ)} (h : ∀ filter ∈ filters, filter.Steady)
    (candidates : List String) (found : Metadata) (progress twin : Progress σ) :
    Agree progress twin (screening filters candidates found progress)
      (screening filters candidates found twin) :=
  ⟨Filter.screen_steady h candidates found _ _,
    ⟨[], (List.append_nil _).symm, (List.append_nil _).symm⟩, rfl, rfl⟩

private theorem agree_notifying {listeners : List (Listener σ)}
    (h : ∀ listener ∈ listeners, listener.Steady) (event : Event) (progress twin : Progress σ) :
    Agree progress twin (notifying listeners event progress) (notifying listeners event twin) :=
  ⟨Listener.notify_steady h event _ _, Listener.report_notify_steady h event _ _, rfl, rfl⟩

section Requests

variable (hfilters : ∀ filter ∈ resolver.filters, filter.Steady)
  (hlisteners : ∀ listener ∈ resolver.listeners, listener.Steady)
include hfilters hlisteners

theorem agree_resolve (hloaded : progress.stores.Loaded catalog metadata)
    (htwin : twin.stores.Loaded catalog metadata) (files others : Snapshot) (site : Site) :
    Agree progress twin (resolver.resolve files site progress)
      (resolver.resolve others site twin) := by
  have hswitch : Agree progress twin
      (Step.ofResult (resolver.isEnabled site) progress)
      (Step.ofResult (resolver.isEnabled site) twin) := .of_fst_eq rfl
  refine hswitch.bind hloaded htwin fun enabled progress twin hloaded htwin => ?_
  cases enabled with
  | false => exact .of_fst_eq rfl
  | true =>
      refine (agree_loadCandidates hloaded htwin files others _).bind hloaded htwin ?_
      intro registered progress twin hloaded htwin
      refine Agree.bind hloaded htwin (.of_fst_eq rfl) fun _ progress twin hloaded htwin => ?_
      refine (agree_loadMetadata hloaded htwin files others).bind hloaded htwin ?_
      intro found progress twin hloaded htwin
      refine (agree_screening hfilters _ found progress twin).bind hloaded htwin ?_
      intro accepted progress twin hloaded htwin
      refine (agree_notifying hlisteners _ progress twin).bind hloaded htwin ?_
      exact fun _ progress twin _ _ => .of_fst_eq rfl

theorem agree_resolveAll (hloaded : progress.stores.Loaded catalog metadata)
    (htwin : twin.stores.Loaded catalog metadata) (files others : Snapshot) (sites : List Site) :
    Agree progress twin
      (Batch.answers (resolver.resolve files) sites progress,
        resolver.resolveAll files sites progress)
      (Batch.answers (resolver.resolve others) sites twin,
        resolver.resolveAll others sites twin) := by
  induction sites generalizing progress twin with
  | nil => exact .of_fst_eq rfl
  | cons site rest ih =>
      have hsite := agree_resolve hfilters hlisteners hloaded htwin files others site
      have hrest := hsite.trans (ih (hsite.stores ▸ hloaded) (hsite.twin ▸ htwin))
      refine ⟨?_, hrest.report, hrest.stores, hrest.twin⟩
      exact congrArg₂ (fun answer answers => (site, answer) :: answers) hsite.result hrest.result

theorem agree_perform (hloaded : progress.stores.Loaded catalog metadata)
    (htwin : twin.stores.Loaded catalog metadata) (files others : Snapshot) (request : Request) :
    Agree progress twin (resolver.perform files request progress)
      (resolver.perform others request twin) := by
  cases request with
  | enabled site => exact .of_fst_eq rfl
  | resolve site => exact (agree_resolve hfilters hlisteners hloaded htwin files others site).map _
  | select site =>
      refine ((agree_resolve hfilters hlisteners hloaded htwin files others site).bind hloaded htwin
        fun entry middle last _ _ => ?_).map _
      exact .of_fst_eq rfl
  | batch => exact (agree_batch hloaded htwin files others).map _
  | process batch site =>
      exact ((agree_resolve hfilters hlisteners hloaded htwin files others site).map
        (batch.process site)).map _
  | group sites =>
      refine ((agree_batch hloaded htwin files others).bind hloaded htwin
        fun batch middle last hmiddle hlast => ?_).map _
      have hsites := agree_resolveAll hfilters hlisteners hmiddle hlast files others sites
      rw [Batch.processEach_eq_recordAll, Batch.processEach_eq_recordAll]
      exact hsites.map fun answers => (Except.ok
        (answers, (batch.recordAll (Batch.resolved answers)).finalize) : Except Error _)

theorem loaded_run {world : World σ} (hloaded : world.progress.stores.Loaded catalog metadata)
    (actions : List Action) :
    (resolver.run actions world).progress.stores.Loaded catalog metadata := by
  induction actions generalizing world with
  | nil => exact hloaded
  | cons action rest ih =>
      have hact : (resolver.act world action).progress.stores.Loaded catalog metadata := by
        cases action with
        | write files => exact hloaded
        | ask request =>
            have hself := agree_perform hfilters hlisteners hloaded hloaded world.files world.files
              request
            exact hself.stores.symm ▸ hloaded
      exact ih hact

end Requests

-- An entry that is not for a site switched off takes both stores to be loaded.
theorem loaded_of_resolve {entry : Entry} {after : Progress σ}
    (h : resolver.resolve files site progress = (.ok entry, after))
    (hon : resolver.isEnabled site = .ok true) :
    ∃ catalog metadata, progress.stores.Available files catalog metadata ∧
      after.stores.Loaded catalog metadata := by
  obtain ⟨result, last, calls, hcourse⟩ := exists_course resolver files site progress
  obtain ⟨rfl, rfl⟩ := Prod.mk.inj (hcourse.resolve.symm.trans h)
  cases hcourse with
  | disabled disabled =>
      rw [hon] at disabled
      cases disabled
  | done admitted loaded => exact ⟨_, _, ⟨admitted.loaded, loaded⟩, ⟨rfl, rfl⟩⟩

theorem isEnabled_eq_of_resolve {entry : Entry} {after : Progress σ}
    (h : resolver.resolve files site progress = (.ok entry, after)) :
    resolver.isEnabled site = .ok true ∨
      resolver.isEnabled site = .ok false ∧ entry = .disabled := by
  obtain ⟨hswitch, hdisabled⟩ := isEnabled_of_resolve h
  cases hd : entry.isDisabled with
  | false => exact Or.inl (by rw [hswitch, hd]; rfl)
  | true => exact Or.inr ⟨by rw [hswitch, hd]; rfl, hdisabled hd⟩

theorem resolve_run_of_resolve {entry : Entry} {after : Progress σ}
    (hfilters : ∀ filter ∈ resolver.filters, filter.Steady)
    (hlisteners : ∀ listener ∈ resolver.listeners, listener.Steady)
    (h : resolver.resolve files site progress = (.ok entry, after)) (between : List Action) :
    let later := resolver.run between ⟨files, after⟩
    (resolver.resolve later.files site later.progress).1 = .ok entry := by
  intro later
  obtain hon | ⟨hoff, rfl⟩ := isEnabled_eq_of_resolve h
  · obtain ⟨catalog, metadata, havailable, hloaded⟩ := loaded_of_resolve h hon
    have hagain : (resolver.resolve files site after).1 = .ok entry := by
      rw [(steady_resolve hfilters hlisteners site).eq (hloaded.available _) havailable, h]
    have hlater : later.progress.stores.Loaded catalog metadata :=
      loaded_run hfilters hlisteners hloaded between
    rw [← hagain]
    exact (agree_resolve hfilters hlisteners hlater hloaded _ _ site).result
  · rw [resolve_of_disabled hoff]

-- Once both stores are loaded, nothing that happened before or in between is seen in an answer, nor
-- in what it adds to the report: all is as if these stores had been there from the start. A site
-- that came to an entry comes to the same entry ever after.
theorem answers_ignore_history (resolver : Resolver σ)
    (hfilters : ∀ filter ∈ resolver.filters, filter.Steady)
    (hlisteners : ∀ listener ∈ resolver.listeners, listener.Steady) (start : World σ)
    (before : List Action) :
    (∀ catalog metadata,
      (resolver.run before start).progress.stores.Loaded catalog metadata →
      ∀ (between : List Action) (request : Request) (files : Snapshot) (outside : σ),
        let world := resolver.run (before ++ between) start
        let answered := resolver.perform world.files request world.progress
        let fresh := resolver.perform files request ⟨.ofLoaded catalog metadata, [], outside⟩
        answered.1 = fresh.1 ∧ answered.2.report = world.progress.report ++ fresh.2.report) ∧
    ∀ (site : Site) (between : List Action) (entry : Entry),
      let world := resolver.run before start
      let later := resolver.run (before ++ .ask (.resolve site) :: between) start
      (resolver.resolve world.files site world.progress).1 = .ok entry →
      (resolver.resolve later.files site later.progress).1 = .ok entry := by
  constructor
  · intro catalog metadata hloaded between request files outside world answered fresh
    have hworld : world.progress.stores.Loaded catalog metadata := by
      have hrun := loaded_run hfilters hlisteners hloaded between
      rwa [run, run, ← List.foldl_append] at hrun
    have hfresh : (Stores.ofLoaded catalog metadata).Loaded catalog metadata := ⟨rfl, rfl⟩
    obtain ⟨hanswer, ⟨events, hevents, hfreshEvents⟩, -, -⟩ :
        Agree world.progress ⟨.ofLoaded catalog metadata, [], outside⟩ answered fresh :=
      agree_perform hfilters hlisteners hworld hfresh world.files files request
    refine ⟨hanswer, ?_⟩
    rw [hevents, hfreshEvents, List.nil_append]
  · intro site between entry world later hentry
    rcases hs : resolver.resolve world.files site world.progress with ⟨answer, after⟩
    rw [hs] at hentry
    obtain rfl : answer = .ok entry := hentry
    -- what follows the first answer is a run from the world that it leaves behind
    have hlater : later = resolver.run between ⟨world.files, after⟩ := by
      have hact : resolver.act world (.ask (.resolve site)) = ⟨world.files, after⟩ := by
        rw [act, perform, hs]
        rfl
      rw [← hact]
      exact List.foldl_append
    rw [hlater]
    exact resolve_run_of_resolve hfilters hlisteners hs between

-- The files are spoilt as soon as the catalog and the metadata are loaded.
def beforeSpoiling : World Unit :=
  ⟨fun path => if path = "app/autoconf.catalog.toml" then
      .file (.ok "[extension_points]\n'autoconf.EnableAutoConfiguration' = ['b', 'a', 'b']")
    else .nothing .notFound, ⟨.ofRoots ["app"], [], ()⟩⟩

def spoiling : List Action := [.ask .batch, .write fun _ => .file (.ok "][")]

def reporting : Resolver Unit := Assembly.build { listeners := [.report] }

theorem answers_ignore_history_spoiling :
    ∃ catalog metadata entry,
      (reporting.run spoiling beforeSpoiling).progress.stores.Loaded catalog metadata ∧
      entry.configurations = ["b", "a"] ∧
      let later :=
        reporting.run (spoiling ++ [.ask (.resolve { origin := "main" }), .ask .batch])
          beforeSpoiling
      (reporting.resolve later.files { origin := "main" } later.progress).1 = .ok entry ∧
      (reporting.perform later.files (.group [{ origin := "main" }]) later.progress).1 =
        (reporting.perform beforeSpoiling.files (.group [{ origin := "main" }])
          ⟨.ofLoaded catalog metadata, [], ()⟩).1 := by
  have hstores : (reporting.run spoiling beforeSpoiling).progress.stores.catalog.isSome ∧
      (reporting.run spoiling beforeSpoiling).progress.stores.metadata.isSome := by decide +kernel
  obtain ⟨catalog, hcatalog⟩ := Option.isSome_iff_exists.mp hstores.1
  obtain ⟨metadata, hmetadata⟩ := Option.isSome_iff_exists.mp hstores.2
  have hconfigurations :
      (reporting.resolve (reporting.run spoiling beforeSpoiling).files { origin := "main" }
        (reporting.run spoiling beforeSpoiling).progress).1.map Entry.configurations =
          .ok ["b", "a"] := by
    decide +kernel
  obtain ⟨entry, hentry, hlist⟩ : ∃ entry,
      (reporting.resolve (reporting.run spoiling beforeSpoiling).files { origin := "main" }
        (reporting.run spoiling beforeSpoiling).progress).1 = .ok entry ∧
        entry.configurations = ["b", "a"] := by
    revert hconfigurations
    cases (reporting.resolve (reporting.run spoiling beforeSpoiling).files { origin := "main" }
      (reporting.run spoiling beforeSpoiling).progress).1 with
    | error error => exact fun h => by cases h
    | ok entry => exact fun h => ⟨entry, rfl, Except.ok.inj h⟩
  have hlisteners : ∀ listener ∈ reporting.listeners, listener.Steady :=
    Listener.steady_of_all_isReport rfl
  obtain ⟨hpreloaded, hagain⟩ :=
    answers_ignore_history reporting (Filter.steady_builtins _) hlisteners beforeSpoiling spoiling
  refine ⟨catalog, metadata, entry, ⟨hcatalog, hmetadata⟩, hlist,
    hagain _ [.ask .batch] entry hentry, ?_⟩
  exact (hpreloaded catalog metadata ⟨hcatalog, hmetadata⟩ _ _ beforeSpoiling.files ()).1

end Activation.Resolver
