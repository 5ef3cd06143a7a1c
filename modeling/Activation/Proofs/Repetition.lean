import Activation.Proofs.Name.Distinct
import Activation.Proofs.Parallel
import Activation.Proofs.Roots

namespace Activation

section Reading

variable {α : Type} {parse : String → Except Toml.Fault α} {merge : α → α → α} {fileName : String}
  {files : Snapshot} {roots : List String} {empty start : α} {fault : StoreFault}

theorem FirstSpoilt.filter (h : FirstSpoilt parse fileName files roots fault) {p : String → Bool}
    (hp : ∀ root, p root = false →
      ∀ other, ¬ Spoilt parse files (Path.join root fileName) other) :
    FirstSpoilt parse fileName files (roots.filter p) fault := by
  induction h with
  | @here root rest fault spoilt =>
      cases hr : p root with
      | true =>
          rw [List.filter_cons_of_pos hr]
          exact .here spoilt
      | false => exact absurd spoilt (hp root hr fault)
  | @later root rest fault sound _ ih =>
      cases hr : p root with
      | true =>
          rw [List.filter_cons_of_pos hr]
          exact .later sound ih
      | false =>
          rw [List.filter_cons_of_neg (by simp [hr])]
          exact ih

theorem FirstSpoilt.distinct (h : FirstSpoilt parse fileName files roots fault) :
    FirstSpoilt parse fileName files (Name.distinct roots) fault := by
  induction h with
  | here spoilt => exact .here spoilt
  | later sound _ ih =>
      refine .later sound (ih.filter fun other ho => ?_)
      obtain rfl := not_not.mp (of_decide_eq_false ho)
      exact sound

theorem matching_readRoots_distinct {R : α → α → Prop}
    (hempty : ∀ store, merge store empty = store)
    (hR : ∀ store other, readRoots parse merge fileName files start roots = .ok store →
      readRoots parse merge fileName files start (Name.distinct roots) = .ok other →
      R store other) :
    Matching R (readRoots parse merge fileName files start roots)
      (readRoots parse merge fileName files start (Name.distinct roots)) := by
  cases hr : readRoots parse merge fileName files start roots with
  | error fault =>
      have hspoilt := (readRoots_eq_error_iff hempty).mp hr
      rw [readRoots_of_firstSpoilt hempty hspoilt.distinct]
      exact .error fault
  | ok store =>
      have hsound := ((readRoots_eq_ok_iff hempty).mp hr).1
      have hd := readRoots_of_sound hempty
        (fun root hm => hsound root (Name.mem_distinct.mp hm)) start
      rw [hd]
      exact .ok (hR _ _ hr hd)

end Reading

namespace Catalog

theorem matching_ofRoots_distinct (files : Snapshot) (roots : List String) :
    Matching SameOrder (ofRoots files roots) (ofRoots files (Name.distinct roots)) := by
  refine matching_readRoots_distinct merge_empty fun catalog other h ho point => ?_
  rw [modules_of_ofRootsBy h, modules_of_ofRootsBy ho]
  exact (Name.distinct_flatMap_distinct _ roots).symm

end Catalog

namespace Metadata

variable {files : Snapshot} {roots others : List String} {metadata other : Metadata}
  {module : String}

theorem foldl_merge_dedup (stores : String → Metadata) (roots : List String) :
    (roots.dedup.map stores).foldl merge empty = (roots.map stores).foldl merge empty := by
  refine ext_get? fun module => ?_
  rw [get?_foldl_merge, get?_foldl_merge, ← List.map_reverse, ← List.map_reverse,
    List.findSome?_map, List.findSome?_map, Name.findSome?_reverse_dedup]

theorem ofRoots_dedup_eq_ok_iff (files : Snapshot) (roots : List String) (metadata : Metadata) :
    ofRoots files roots.dedup = .ok metadata ↔ ofRoots files roots = .ok metadata := by
  rw [ofRoots, ofRoots, ofRootsBy, ofRootsBy, readRoots_eq_ok_iff merge_empty,
    readRoots_eq_ok_iff merge_empty,
    foldl_merge_dedup]
  simp only [List.mem_dedup]

-- Two different roots give different hints for a module.
def Contested (files : Snapshot) (roots : List String) (module : String) : Prop :=
  ∃ root ∈ roots, ∃ other ∈ roots, root ≠ other ∧
    ∃ hints others, (inRoot parse files root).get? module = some hints ∧
      (inRoot parse files other).get? module = some others ∧ hints ≠ others

theorem contested_of_ne (hm : ofRoots files roots = .ok metadata)
    (ho : ofRoots files others = .ok other) (hmem : ∀ root, root ∈ roots ↔ root ∈ others)
    (hne : metadata.get? module ≠ other.get? module) : Contested files roots module := by
  by_contra hn
  refine hne ?_
  rw [get?_eq_findSome? hm, get?_eq_findSome? ho]
  apply Name.findSome?_eq_of_agree
  · simpa using hmem
  · intro x hx y hy hints others hhints hothers
    by_contra hdiffer
    refine hn ⟨x, List.mem_reverse.mp hx, y, List.mem_reverse.mp hy, ?_, hints, others, hhints,
      hothers, hdiffer⟩
    rintro rfl
    exact hdiffer (Option.some.inj (hhints.symm.trans hothers))

theorem ofRoots_distinct_of_not_contested (h : ∀ module, ¬ Contested files roots module) :
    ofRoots files roots = ofRoots files (Name.distinct roots) := by
  refine matching_eq_iff.mp (matching_readRoots_distinct merge_empty fun metadata other hm ho => ?_)
  refine ext_get? fun module => ?_
  by_contra hne
  exact h module (contested_of_ne hm ho (fun _ => Name.mem_distinct.symm) hne)

end Metadata

namespace Resolver

variable {σ α : Type} {files : Snapshot} {roots others : List String} {progress twin : Progress σ}

-- Two ends that only their stores could tell apart.
structure SameEnd (ended other : Except Error α × Progress σ) : Prop where
  result : ended.1 = other.1
  report : ended.2.report = other.2.report
  outside : ended.2.outside = other.2.outside

theorem Step.Parallel.sameEnd {step : Step σ α} (h : Step.Parallel files Eq step step)
    (hstart : Alongside files progress twin) : SameEnd (step progress) (step twin) := by
  obtain ⟨hresult, hafter⟩ := h progress twin hstart
  exact ⟨matching_eq_iff.mp hresult, hafter.report, hafter.outside⟩

-- Lists of roots that no resolution can tell apart, be it of a site, of a group of sites whatever
-- comes of each, of a group up to the first failure, or of a session and its file.
structure Interchangeable (files : Snapshot) (roots others : List String) : Prop where
  resolve : ∀ {σ : Type} (resolver : Resolver σ) (report : List Event) (outside : σ) (site : Site),
    SameEnd (resolver.resolve files site ⟨.ofRoots roots, report, outside⟩)
      (resolver.resolve files site ⟨.ofRoots others, report, outside⟩)
  group : ∀ {σ : Type} (resolver : Resolver σ) (report : List Event) (outside : σ)
    (sites : List Site),
    SameEnd (resolver.group files sites ⟨.ofRoots roots, report, outside⟩)
      (resolver.group files sites ⟨.ofRoots others, report, outside⟩)
  conclude : ∀ {σ : Type} (resolver : Resolver σ) (report : List Event) (outside : σ)
    (sites : List Site),
    SameEnd (Session.conclude resolver files sites ⟨.ofRoots roots, report, outside⟩)
      (Session.conclude resolver files sites ⟨.ofRoots others, report, outside⟩)
  session : ∀ (session : Session) (settings : List (String × String)),
    session.resolve roots settings files = session.resolve others settings files
  file : ∀ (path : String) (settings : List (String × String)),
    Session.resolveFile files path roots settings = Session.resolveFile files path others settings

theorem resolve_congr {session : Session} {settings : List (String × String)}
    (h : SameEnd (session.resolveSites settings files ⟨.ofRoots roots, [], ()⟩)
      (session.resolveSites settings files ⟨.ofRoots others, [], ()⟩)) :
    session.resolve roots settings files = session.resolve others settings files := by
  obtain ⟨hresult, hreport, -⟩ := h
  rw [Session.resolve, Session.resolve]
  rcases hr : session.resolveSites settings files ⟨.ofRoots roots, [], ()⟩ with ⟨result, after⟩
  rcases ho : session.resolveSites settings files ⟨.ofRoots others, [], ()⟩ with ⟨answer, last⟩
  rw [hr, ho] at hresult hreport
  obtain rfl : result = answer := hresult
  cases result with
  | error error => rfl
  | ok imports =>
      have hreport : after.report = last.report := hreport
      simp only [hreport]

theorem resolveFile_congr (hnil : roots = [] ↔ others = [])
    (h : ∀ (session : Session) settings, session.resolve roots settings files =
      session.resolve others settings files) (path : String) (settings : List (String × String)) :
    Session.resolveFile files path roots settings =
      Session.resolveFile files path others settings := by
  by_cases hnone : roots = []
  · rw [hnone, hnil.mp hnone]
  · have hroots : Session.rootsFor path roots = roots := by simp [Session.rootsFor, hnone]
    have hothers : Session.rootsFor path others = others := by
      simp [Session.rootsFor, mt hnil.mpr hnone]
    rw [Session.resolveFile, Session.resolveFile, hroots, hothers]
    simp only [h]

theorem interchangeable_distinct
    (h : Metadata.ofRoots files roots = Metadata.ofRoots files (Name.distinct roots)) :
    Interchangeable files roots (Name.distinct roots) := by
  have hstores : (Stores.ofRoots roots).Akin files (.ofRoots (Name.distinct roots)) := by
    constructor
    · rw [Stores.loadCatalog_ofRoots, Stores.loadCatalog_ofRoots]
      exact Catalog.matching_ofRoots_distinct files roots
    · rw [Stores.loadMetadata_ofRoots, Stores.loadMetadata_ofRoots]
      exact h
  have hconclude : ∀ {σ : Type} (resolver : Resolver σ) (report : List Event) (outside : σ)
      (sites : List Site),
      SameEnd (Session.conclude resolver files sites ⟨.ofRoots roots, report, outside⟩)
        (Session.conclude resolver files sites
          ⟨.ofRoots (Name.distinct roots), report, outside⟩) :=
    fun resolver report outside sites =>
      (Session.parallel_conclude resolver files sites).sameEnd ⟨hstores, rfl, rfl⟩
  have hsession : ∀ (session : Session) settings, session.resolve roots settings files =
      session.resolve (Name.distinct roots) settings files :=
    fun session settings =>
      resolve_congr (hconclude (session.resolver settings) [] () session.sites)
  exact {
    resolve := fun resolver report outside site =>
      (parallel_resolve resolver files site).sameEnd ⟨hstores, rfl, rfl⟩
    group := fun resolver report outside sites =>
      (parallel_group resolver files sites).sameEnd ⟨hstores, rfl, rfl⟩
    conclude := hconclude
    session := hsession
    file := resolveFile_congr Name.distinct_eq_nil_iff.symm hsession }

end Resolver

-- Candidates and the order of declaration are those of the first occurrences of the roots, and the
-- metadata is that of the last ones, which are what `dedup` keeps. What a repeated root changes
-- about the hints is contested between roots, and without such hints it changes nothing at all.
theorem repeated_roots_matter_by_hints_only (files : Snapshot) (roots : List String) :
    (∀ point, listCandidates files roots point =
      listCandidates files (Name.distinct roots) point) ∧
    (∀ metadata, Metadata.ofRoots files roots = .ok metadata ↔
      Metadata.ofRoots files roots.dedup = .ok metadata) ∧
    (∀ point metadata modules,
      (Catalog.ofRoots files roots).map (fun catalog =>
        (Precedence.ofCatalog catalog point metadata).sort modules) =
      (Catalog.ofRoots files (Name.distinct roots)).map fun catalog =>
        (Precedence.ofCatalog catalog point metadata).sort modules) ∧
    (Metadata.ofRoots files roots = Metadata.ofRoots files (Name.distinct roots) →
      Resolver.Interchangeable files roots (Name.distinct roots)) ∧
    (∀ metadata other module, Metadata.ofRoots files roots = .ok metadata →
      Metadata.ofRoots files (Name.distinct roots) = .ok other →
      metadata.get? module ≠ other.get? module → Metadata.Contested files roots module) ∧
    ((∀ module, ¬ Metadata.Contested files roots module) →
      Resolver.Interchangeable files roots (Name.distinct roots)) := by
  have hcatalog := Catalog.matching_ofRoots_distinct files roots
  refine ⟨fun point => ?_, fun metadata => (Metadata.ofRoots_dedup_eq_ok_iff _ _ _).symm,
    fun point metadata modules => ?_, Resolver.interchangeable_distinct,
    fun metadata other module hm ho => ?_, fun hnone => ?_⟩
  · have hcandidates := hcatalog.bind fun _ _ hsame => Stores.matching_candidatesIn hsame point
    rw [listCandidates, listCandidates, Stores.loadCandidates_fst, Stores.loadCandidates_fst,
      Stores.loadCatalog_ofRoots, Stores.loadCatalog_ofRoots]
    exact hcandidates.map_eq fun _ _ hsame => hsame
  · exact hcatalog.map_eq fun _ _ hsame =>
      Precedence.sort_ofCatalog_congr hsame point metadata modules
  · exact Metadata.contested_of_ne hm ho fun _ => Name.mem_distinct.symm
  · exact Resolver.interchangeable_distinct (Metadata.ofRoots_distinct_of_not_contested hnone)

-- Only "base" and "hints" have metadata. Named again, "base" takes back what "hints" says of "a".
theorem repeated_roots_matter_by_hints_only_overlappingRoots :
    listCandidates overlappingRoots ["late", "base", "late"] "p" = .ok ["c", "b", "a"] ∧
      Resolver.Interchangeable overlappingRoots ["late", "base", "late"] ["late", "base"] ∧
      (∃ metadata, Metadata.ofRoots overlappingRoots ["hints", "base"] = .ok metadata ∧
        metadata.get? "a" = some { order := some 1, after := ["b"] }) ∧
      Metadata.Contested overlappingRoots ["base", "hints", "base"] "a" := by
  obtain ⟨hcandidates, -, -, -, -, hinert⟩ :=
    repeated_roots_matter_by_hints_only overlappingRoots ["late", "base", "late"]
  obtain ⟨-, hlast, -, -, hcontested, -⟩ :=
    repeated_roots_matter_by_hints_only overlappingRoots ["base", "hints", "base"]
  have hlate : Metadata.inRoot Metadata.parse overlappingRoots "late" = .empty := by decide +kernel
  have hnone : ∀ module, ¬ Metadata.Contested overlappingRoots ["late", "base", "late"] module := by
    rintro module ⟨root, hr, other, ho, hne, hints, others, hroot, hother, -⟩
    have hbase : ∀ root ∈ ["late", "base", "late"], ∀ hints,
        (Metadata.inRoot Metadata.parse overlappingRoots root).get? module = some hints →
          root = "base" := by
      intro root hr hints hget
      by_contra hb
      obtain rfl : root = "late" := by simpa [hb] using hr
      rw [hlate] at hget
      cases hget
    exact hne ((hbase root hr hints hroot).trans (hbase other ho others hother).symm)
  have hagain : (Metadata.ofRoots overlappingRoots ["base", "hints", "base"]).map
      (fun metadata => metadata.get? "a") = .ok (some { order := some 1, after := ["b"] }) := by
    decide +kernel
  have honce : (Metadata.ofRoots overlappingRoots ["base", "hints"]).map
      (fun metadata => metadata.get? "a") = .ok (some { before := ["c"] }) := by decide +kernel
  obtain ⟨metadata, hm, hget⟩ := exists_of_map_eq_ok hagain
  obtain ⟨other, ho, hother⟩ := exists_of_map_eq_ok honce
  refine ⟨?_, hinert hnone, ⟨metadata, (hlast metadata).mp hm, hget⟩,
    hcontested metadata other "a" hm ho ?_⟩
  · rw [hcandidates]
    decide +kernel
  · rw [hget, hother]
    decide

end Activation
