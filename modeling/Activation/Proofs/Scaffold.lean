import Activation.Proofs.Files
import Activation.Proofs.Listing
import Activation.Proofs.Name.Distinct
import Activation.Proofs.Roots
import Mathlib.Data.List.Induction

namespace Activation

-- One registration: the modules of a library for an extension point, which need not be named.
inductive Registration where
  | library (name : String) (modules : List String)
  | libraryFor (name point : String) (modules : List String)
deriving DecidableEq

namespace Registration

def name : Registration → String
  | library name _ => name
  | libraryFor name _ _ => name

def point : Registration → String
  | library _ _ => Catalog.defaultPoint
  | libraryFor _ point _ => point

def modules : Registration → List String
  | library _ modules => modules
  | libraryFor _ _ modules => modules

def line (registration : Registration) : String × List String :=
  (registration.point, registration.modules)

end Registration

namespace Scaffold

open Toml

variable {registrations : List Registration} {registration : Registration} {scaffold : Scaffold}

def register (scaffold : Scaffold) (registration : Registration) : Scaffold :=
  scaffold.library registration.name registration.point registration.modules

def registerAll (registrations : List Registration) : Scaffold :=
  registrations.foldl register empty

def linesOf (registrations : List Registration) (library : String) :
    List (String × List String) :=
  (registrations.filter fun registration => registration.name = library).map Registration.line

-- The modules that are registered for an extension point of a library, none if there are none.
def registered (registrations : List Registration) (library point : String) : List String :=
  ((linesOf registrations library).lookup point).getD []

theorem linesOf_append (registrations : List Registration) (registration : Registration)
    (library : String) :
    linesOf (registrations ++ [registration]) library =
      if registration.name = library then linesOf registrations library ++ [registration.line]
      else linesOf registrations library := by
  by_cases hl : registration.name = library
  · simp [linesOf, hl]
  · simp [linesOf, hl]

private theorem linesOf_eq_nil_iff {library : String} :
    linesOf registrations library = [] ↔ library ∉ registrations.map Registration.name := by
  simp [linesOf, List.filter_eq_nil_iff]

-- The text of the catalog of a library, which is there as soon as something is registered.
def contentOf (registrations : List Registration) (library : String) : Option String :=
  if library ∈ registrations.map Registration.name then
    some (textOf (linesOf registrations library))
  else none

theorem contentOf_append (registrations : List Registration) (registration : Registration)
    (library : String) :
    contentOf (registrations ++ [registration]) library =
      if library = registration.name then
        some (textOf (linesOf registrations library ++ [registration.line]))
      else contentOf registrations library := by
  rw [contentOf, contentOf, linesOf_append]
  by_cases hl : library = registration.name
  · simp [hl]
  · simp [hl, Ne.symm hl]

structure Built (registrations : List Registration) (scaffold : Scaffold) : Prop where
  directory : ∃ entries, scaffold.files.get? home = some (.directory entries)
  holds : ∀ library, Path.IsFileName library →
    scaffold.files.Holds (home ++ [library]) Catalog.fileName (contentOf registrations library)
  names : ∀ name ∈ registrations.map Registration.name, Path.IsFileName name
  roots : scaffold.roots = Name.distinct (registrations.map Registration.name)

theorem isFileName_fileName : Path.IsFileName Catalog.fileName := by decide

private theorem built_empty : Built [] empty where
  directory := ⟨[], rfl⟩
  holds := by
    intro library _
    exact .nothing rfl
  names := nofun
  roots := rfl

theorem snapshot_built (h : Built registrations scaffold) {library : String}
    (hlibrary : Path.IsFileName library) :
    scaffold.snapshot (Path.join library Catalog.fileName) =
      (contentOf registrations library).elim (.nothing .notFound) fun content =>
        .file (.ok content) := by
  obtain ⟨entries, hentries⟩ := h.directory
  exact Tree.snapshot_join hlibrary isFileName_fileName hentries (h.holds library hlibrary)

theorem content_built (h : Built registrations scaffold) {library : String}
    (hlibrary : Path.IsFileName library) :
    (match scaffold.snapshot (Path.join library Catalog.fileName) with
      | .file (.ok content) => content
      | _ => catalogHeader) = textOf (linesOf registrations library) := by
  rw [snapshot_built h hlibrary, contentOf]
  by_cases hm : library ∈ registrations.map Registration.name
  · rw [if_pos hm]
    rfl
  · rw [if_neg hm, linesOf_eq_nil_iff.mpr hm]
    rfl

private theorem sameDirectory_iff {a b : String} (ha : Path.IsFileName a) (hb : Path.IsFileName b) :
    sameDirectory a b = true ↔ a = b := by
  rw [sameDirectory, Path.steps_of_isFileName ha, Path.steps_of_isFileName hb]
  simp

theorem roots_register (h : Built registrations scaffold)
    (hname : Path.IsFileName registration.name) :
    (scaffold.register registration).roots =
      Name.distinct ((registrations ++ [registration]).map Registration.name) := by
  have hany : scaffold.roots.any (sameDirectory registration.name) = true ↔
      registration.name ∈ registrations.map Registration.name := by
    rw [List.any_eq_true, h.roots]
    constructor
    · rintro ⟨root, hroot, hsame⟩
      have hm := Name.mem_distinct.mp hroot
      exact (sameDirectory_iff hname (h.names root hm)).mp hsame ▸ hm
    · intro hm
      exact ⟨_, Name.mem_distinct.mpr hm, (sameDirectory_iff hname hname).mpr rfl⟩
  have hstep : (scaffold.register registration).roots =
      if scaffold.roots.any (sameDirectory registration.name) then scaffold.roots
      else scaffold.roots ++ [registration.name] := rfl
  rw [hstep, List.map_append, List.map_singleton, Name.distinct_concat, ← h.roots]
  simp only [hany]

theorem built_register (h : Built registrations scaffold)
    (hname : Path.IsFileName registration.name) :
    Built (registrations ++ [registration]) (scaffold.register registration) := by
  have hheld := h.holds registration.name hname
  have hfiles : (scaffold.register registration).files =
      scaffold.files.addText home (Path.join registration.name Catalog.fileName)
        (textOf (linesOf registrations registration.name ++ [registration.line])) := by
    rw [textOf_append, ← content_built h hname]
    rfl
  constructor
  · rw [hfiles]
    exact Tree.directory_addText hname isFileName_fileName hheld _
  · intro library hlibrary
    rw [hfiles, contentOf_append]
    by_cases hl : library = registration.name
    · subst hl
      rw [if_pos rfl]
      exact Tree.holds_addText hname isFileName_fileName hheld _
    · rw [if_neg hl]
      exact Tree.holds_addText_of_ne hname isFileName_fileName hl hheld (h.holds library hlibrary) _
  · intro name hm
    rw [List.map_append, List.mem_append] at hm
    rcases hm with hm | hm
    · exact h.names name hm
    · exact List.mem_singleton.mp hm ▸ hname
  · exact roots_register h hname

theorem built_registerAll
    (h : ∀ registration ∈ registrations, Path.IsFileName registration.name) :
    Built registrations (registerAll registrations) := by
  induction registrations using List.reverseRecOn with
  | nil => exact built_empty
  | append_singleton registrations registration ih =>
      obtain ⟨hbefore, hlast⟩ := List.forall_mem_append.mp h
      rw [registerAll, List.foldl_append]
      exact built_register (ih hbefore) (hlast _ List.mem_cons_self)

theorem nodup_linesOf
    (h : (registrations.map fun registration => (registration.name, registration.point)).Nodup)
    (library : String) : ((linesOf registrations library).map Prod.fst).Nodup := by
  have hpairs := (List.pairwise_map.mp h).filter fun registration =>
    decide (registration.name = library)
  rw [linesOf, List.map_map]
  refine List.pairwise_map.mpr (hpairs.imp_of_mem fun {first second} hf hs hne hpoint => hne ?_)
  have hfirst : first.name = library := by simpa using (List.mem_filter.mp hf).2
  have hsecond : second.name = library := by simpa using (List.mem_filter.mp hs).2
  exact Prod.ext (hfirst.trans hsecond.symm) hpoint

theorem registered_of_mem
    (h : (registrations.map fun registration => (registration.name, registration.point)).Nodup)
    (hm : registration ∈ registrations) :
    registered registrations registration.name registration.point = registration.modules := by
  have hline : registration.line ∈ linesOf registrations registration.name :=
    List.mem_map_of_mem (List.mem_filter.mpr ⟨hm, by simp⟩)
  rw [registered, Name.lookup_of_mem (nodup_linesOf h _) hline]
  rfl

theorem isPlainLine_linesOf
    (h : ∀ registration ∈ registrations, IsPlainLine registration.line) (library : String) :
    ∀ line ∈ linesOf registrations library, IsPlainLine line := by
  intro line hm
  obtain ⟨registration, hr, rfl⟩ := List.mem_map.mp hm
  exact h registration (List.mem_of_mem_filter hr)

theorem read_registerAll
    (hnames : ∀ registration ∈ registrations, Path.IsFileName registration.name)
    (hlines : ∀ registration ∈ registrations, IsPlainLine registration.line)
    (hnodup : (registrations.map fun registration =>
      (registration.name, registration.point)).Nodup) {library : String}
    (hm : library ∈ registrations.map Registration.name) :
    ∃ content catalog,
      (registerAll registrations).snapshot (Path.join library Catalog.fileName) =
        .file (.ok content) ∧
      Catalog.parse content = .ok catalog ∧
      ∀ point, catalog.modules point = registered registrations library point := by
  have hbuilt := built_registerAll hnames
  have hpoints := nodup_linesOf hnodup library
  have hparse := parse_textOf (isPlainLine_linesOf hlines library) hpoints
  refine ⟨textOf (linesOf registrations library), _, ?_, hparse, modules_ofList hpoints⟩
  rw [snapshot_built hbuilt (hbuilt.names library hm), contentOf, if_pos hm]
  rfl

structure ReadsBack (registrations : List Registration) (scaffold : Scaffold) : Prop where
  -- From the catalog of each library what was registered for it.
  each : ∀ registration ∈ registrations, ∃ catalog,
    Catalog.read scaffold.snapshot (Path.join registration.name Catalog.fileName) = .ok catalog ∧
    catalog.modules registration.point = registration.modules ∧
    ∀ point, catalog.modules point = registered registrations registration.name point
  -- The libraries, in the order in which they were first named.
  roots : scaffold.roots = Name.distinct (registrations.map Registration.name)
  -- From all of them what was registered for one library after the other.
  together : ∃ catalog, Catalog.ofRoots scaffold.snapshot scaffold.roots = .ok catalog ∧
    ∀ point, catalog.modules point =
      scaffold.roots.flatMap fun library => registered registrations library point

-- What is registered in libraries is read back, however the registrations are mixed.
theorem registerAll_reads_back (registrations : List Registration)
    (hnames : ∀ registration ∈ registrations, Path.IsFileName registration.name)
    (hlines : ∀ registration ∈ registrations, IsPlainLine registration.line)
    (hnodup : (registrations.map fun registration =>
      (registration.name, registration.point)).Nodup) :
    ReadsBack registrations (registerAll registrations) := by
  have hroots := (built_registerAll hnames).roots
  have hread : ∀ library ∈ (registerAll registrations).roots, ∃ content catalog,
      (registerAll registrations).snapshot (Path.join library Catalog.fileName) =
        .file (.ok content) ∧
      Catalog.parse content = .ok catalog ∧
      ∀ point, catalog.modules point = registered registrations library point := by
    intro library hm
    rw [hroots] at hm
    exact read_registerAll hnames hlines hnodup (Name.mem_distinct.mp hm)
  constructor
  · intro registration hm
    have hroot : registration.name ∈ (registerAll registrations).roots := by
      rw [hroots]
      exact Name.mem_distinct.mpr (List.mem_map_of_mem hm)
    obtain ⟨content, catalog, hfound, hparse, hmodules⟩ := hread _ hroot
    refine ⟨catalog, ?_, ?_, hmodules⟩
    · rw [Catalog.read, readStore, hfound]
      simp only [Found.read, hparse]
    · rw [hmodules]
      exact registered_of_mem hnodup hm
  · exact hroots
  · have hsound : ∀ library ∈ (registerAll registrations).roots, ∀ fault,
        ¬ Spoilt Catalog.parse (registerAll registrations).snapshot
          (Path.join library Catalog.fileName) fault := by
      intro library hm fault
      obtain ⟨content, catalog, hfound, hparse, -⟩ := hread library hm
      exact not_spoilt_of_parse hfound hparse
    have hmerged : Catalog.ofRoots (registerAll registrations).snapshot
        (registerAll registrations).roots = .ok _ :=
      (readRoots_eq_ok_iff Catalog.merge_empty).mpr ⟨hsound, rfl⟩
    refine ⟨_, hmerged, fun point => ?_⟩
    rw [Catalog.modules_of_ofRootsBy hmerged]
    refine List.flatMap_congr fun library hm => ?_
    obtain ⟨content, catalog, hfound, hparse, hmodules⟩ := hread library hm
    rw [Catalog.inRoot, storeAt_of_parse hfound hparse, hmodules]

-- Two libraries in turns, with names that are odd but stand for themselves between double quotes.
def interleaved : List Registration :=
  [.library "zweite" ["demo.C", "demo.A"], .library "first" ["demo.A", "demo.B"],
    .libraryFor "zweite" "an\tother ] # point" ["", "größe", "'x', y"],
    .libraryFor "first" "demo.Other" ["demo.D", "demo.D"]]

theorem registerAll_reads_back_interleaved :
    (registerAll interleaved).roots = ["zweite", "first"] ∧
      (∃ catalog, Catalog.read (registerAll interleaved).snapshot "zweite/autoconf.catalog.toml" =
          .ok catalog ∧
        catalog.modules "an\tother ] # point" = ["", "größe", "'x', y"] ∧
        catalog.modules "demo.Other" = []) ∧
      ∃ catalog,
        Catalog.ofRoots (registerAll interleaved).snapshot ["zweite", "first"] = .ok catalog ∧
        catalog.modules Catalog.defaultPoint = ["demo.C", "demo.A", "demo.A", "demo.B"] ∧
        catalog.modules "demo.Other" = ["demo.D", "demo.D"] := by
  obtain ⟨heach, hroots, together⟩ :=
    registerAll_reads_back interleaved (by decide) (by decide) (by decide)
  have hnames : (registerAll interleaved).roots = ["zweite", "first"] := hroots.trans (by decide)
  obtain ⟨catalog, hcatalog, hpoint, hmodules⟩ := heach
    (.libraryFor "zweite" "an\tother ] # point" ["", "größe", "'x', y"]) (by decide)
  obtain ⟨merged, hmerged, hall⟩ := together
  rw [hnames] at hmerged hall
  exact ⟨hnames, ⟨catalog, hcatalog, hpoint, (hmodules _).trans (by decide)⟩,
    ⟨merged, hmerged, (hall _).trans (by decide), (hall _).trans (by decide)⟩⟩

end Scaffold

end Activation
