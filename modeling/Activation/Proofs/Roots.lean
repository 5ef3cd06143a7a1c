import Activation.Proofs.Merge
import Activation.Stores

namespace Activation

theorem exists_of_map_eq_ok {ε α β : Type} {f : α → β} {result : Except ε α} {value : β}
    (h : result.map f = .ok value) : ∃ x, result = .ok x ∧ f x = value := by
  cases result with
  | error error => cases h
  | ok x => exact ⟨x, rfl, Except.ok.inj h⟩

section Reading

variable {α : Type} {parse : String → Except Toml.Fault α} {merge : α → α → α} {fileName : String}
  {files : Snapshot} {path root : String} {roots : List String} {empty start : α}
  {fault : StoreFault}

-- What is wrong with a regular file: it cannot be read as text, or it is not understood.
inductive Spoilt (parse : String → Except Toml.Fault α) (files : Snapshot) (path : String) :
    StoreFault → Prop where
  | unreadable {fault : ReadFault} (found : files path = .file (.error fault)) :
      Spoilt parse files path (.unreadable path fault)
  | invalid {content : String} {fault : Toml.Fault} (found : files path = .file (.ok content))
      (refused : parse content = .error fault) : Spoilt parse files path (.invalid path fault)

-- The fault of the first root whose file is spoilt.
inductive FirstSpoilt (parse : String → Except Toml.Fault α) (fileName : String)
    (files : Snapshot) : List String → StoreFault → Prop where
  | here {root : String} {roots : List String} {fault : StoreFault}
      (spoilt : Spoilt parse files (Path.join root fileName) fault) :
      FirstSpoilt parse fileName files (root :: roots) fault
  | later {root : String} {roots : List String} {fault : StoreFault}
      (sound : ∀ other, ¬ Spoilt parse files (Path.join root fileName) other)
      (rest : FirstSpoilt parse fileName files roots fault) :
      FirstSpoilt parse fileName files (root :: roots) fault

theorem FirstSpoilt.ne_noCandidates (h : FirstSpoilt parse fileName files roots fault)
    (point : String) : fault ≠ .noCandidates point := by
  induction h with
  | here spoilt => cases spoilt <;> exact nofun
  | later _ _ ih => exact ih

-- What the file under a path holds if it is understood, and nothing else.
def storeAt (parse : String → Except Toml.Fault α) (empty : α) (files : Snapshot)
    (path : String) : α :=
  match files path with
  | .file (.ok content) => (parse content).toOption.getD empty
  | _ => empty

def readInto (parse : String → Except Toml.Fault α) (merge : α → α → α) (files : Snapshot)
    (path : String) (merged : α) : Except StoreFault α :=
  if (files path).isFile then (readStore parse files path).map (merge merged) else .ok merged

@[simp]
theorem readRoots_cons (start : α) (root : String) (roots : List String) :
    readRoots parse merge fileName files start (root :: roots) =
      (readInto parse merge files (Path.join root fileName) start).bind fun merged =>
        readRoots parse merge fileName files merged roots :=
  rfl

theorem readRoots_append (start : α) (xs ys : List String) :
    readRoots parse merge fileName files start (xs ++ ys) =
      (readRoots parse merge fileName files start xs).bind fun merged =>
        readRoots parse merge fileName files merged ys :=
  List.foldlM_append

private theorem readInto_of_spoilt (h : Spoilt parse files path fault) (merge : α → α → α)
    (merged : α) : readInto parse merge files path merged = .error fault := by
  cases h with
  | unreadable found =>
      rw [readInto, readStore, found]
      rfl
  | invalid found refused =>
      rw [readInto, readStore, found]
      simp only [Found.isFile, Found.read, refused, if_true]
      rfl

private theorem readInto_of_sound (h : ∀ fault, ¬ Spoilt parse files path fault)
    (hempty : ∀ store, merge store empty = store) (merged : α) :
    readInto parse merge files path merged =
      .ok (merge merged (storeAt parse empty files path)) := by
  rw [readInto, readStore, storeAt]
  cases hf : files path with
  | nothing fault => exact (congrArg Except.ok (hempty merged)).symm
  | file content =>
      cases content with
      | error fault => exact absurd (.unreadable hf) (h _)
      | ok content =>
          cases hp : parse content with
          | error fault => exact absurd (.invalid hf hp) (h _)
          | ok store =>
              simp only [Found.isFile, Found.read, hp, if_true]
              rfl

theorem not_spoilt_of_parse {content : String} {store : α}
    (hfound : files path = .file (.ok content)) (hparse : parse content = .ok store) :
    ¬ Spoilt parse files path fault := by
  intro h
  cases h with
  | unreadable found =>
      rw [hfound] at found
      cases found
  | invalid found refused =>
      rw [hfound] at found
      cases found
      rw [hparse] at refused
      cases refused

theorem storeAt_of_parse {content : String} {store : α}
    (hfound : files path = .file (.ok content)) (hparse : parse content = .ok store)
    (empty : α) : storeAt parse empty files path = store := by
  rw [storeAt, hfound]
  simp only [hparse]
  rfl

theorem exists_firstSpoilt_iff :
    (∃ fault, FirstSpoilt parse fileName files roots fault) ↔
      ∃ root ∈ roots, ∃ fault, Spoilt parse files (Path.join root fileName) fault := by
  constructor
  · rintro ⟨fault, h⟩
    induction h with
    | here spoilt => exact ⟨_, List.mem_cons_self, _, spoilt⟩
    | later _ _ ih =>
        obtain ⟨root, hm, hspoilt⟩ := ih
        exact ⟨root, List.mem_cons_of_mem _ hm, hspoilt⟩
  · rintro ⟨root, hm, fault, hspoilt⟩
    induction roots with
    | nil => cases hm
    | cons first rest ih =>
        by_cases hf : ∃ other, Spoilt parse files (Path.join first fileName) other
        · obtain ⟨other, hother⟩ := hf
          exact ⟨other, .here hother⟩
        · rcases List.mem_cons.mp hm with rfl | hm
          · exact absurd ⟨fault, hspoilt⟩ hf
          · obtain ⟨other, hrest⟩ := ih hm
            exact ⟨other, .later (not_exists.mp hf) hrest⟩

theorem readRoots_of_firstSpoilt (hempty : ∀ store, merge store empty = store)
    (h : FirstSpoilt parse fileName files roots fault) (start : α) :
    readRoots parse merge fileName files start roots = .error fault := by
  induction h generalizing start with
  | here spoilt =>
      rw [readRoots_cons, readInto_of_spoilt spoilt]
      rfl
  | later sound _ ih =>
      rw [readRoots_cons, readInto_of_sound sound hempty]
      exact ih _

theorem readRoots_of_sound (hempty : ∀ store, merge store empty = store)
    (h : ∀ root ∈ roots, ∀ fault, ¬ Spoilt parse files (Path.join root fileName) fault)
    (start : α) :
    readRoots parse merge fileName files start roots =
      .ok ((roots.map fun root => storeAt parse empty files (Path.join root fileName)).foldl merge
        start) := by
  induction roots generalizing start with
  | nil => rfl
  | cons root rest ih =>
      obtain ⟨hroot, hrest⟩ := List.forall_mem_cons.mp h
      rw [readRoots_cons, readInto_of_sound hroot hempty]
      exact ih hrest _

theorem readRoots_eq_error_iff (hempty : ∀ store, merge store empty = store) :
    readRoots parse merge fileName files start roots = .error fault ↔
      FirstSpoilt parse fileName files roots fault := by
  refine ⟨fun h => ?_, fun h => readRoots_of_firstSpoilt hempty h start⟩
  by_cases hs : ∃ root ∈ roots, ∃ fault, Spoilt parse files (Path.join root fileName) fault
  · obtain ⟨first, hfirst⟩ := exists_firstSpoilt_iff.mpr hs
    rw [readRoots_of_firstSpoilt hempty hfirst] at h
    exact Except.error.inj h ▸ hfirst
  · push Not at hs
    rw [readRoots_of_sound hempty hs] at h
    cases h

theorem readRoots_eq_ok_iff (hempty : ∀ store, merge store empty = store) {store : α} :
    readRoots parse merge fileName files start roots = .ok store ↔
      (∀ root ∈ roots, ∀ fault, ¬ Spoilt parse files (Path.join root fileName) fault) ∧
        store = (roots.map fun root =>
          storeAt parse empty files (Path.join root fileName)).foldl merge start := by
  by_cases hs : ∃ root ∈ roots, ∃ fault, Spoilt parse files (Path.join root fileName) fault
  · obtain ⟨first, hfirst⟩ := exists_firstSpoilt_iff.mpr hs
    rw [readRoots_of_firstSpoilt hempty hfirst]
    obtain ⟨root, hm, fault, hspoilt⟩ := hs
    exact ⟨nofun, fun h => absurd hspoilt (h.1 root hm fault)⟩
  · push Not at hs
    rw [readRoots_of_sound hempty hs]
    exact ⟨fun h => ⟨hs, (Except.ok.inj h).symm⟩, fun h => congrArg Except.ok h.2.symm⟩

theorem readRoots_eq_ok (hempty : ∀ store, merge store empty = store) {store : α}
    (h : readRoots parse merge fileName files start roots = .ok store) :
    store = (roots.map fun root => storeAt parse empty files (Path.join root fileName)).foldl merge
      start :=
  ((readRoots_eq_ok_iff hempty).mp h).2

-- What was merged before can as well be merged into afterwards.
theorem readRoots_merge
    (hassoc : ∀ first second third, merge (merge first second) third =
      merge first (merge second third)) (first start : α) (roots : List String) :
    readRoots parse merge fileName files (merge first start) roots =
      (readRoots parse merge fileName files start roots).map (merge first) := by
  induction roots generalizing start with
  | nil => rfl
  | cons root rest ih =>
      rw [readRoots_cons, readRoots_cons, readInto, readInto]
      by_cases hf : (files (Path.join root fileName)).isFile
      · rw [if_pos hf, if_pos hf]
        cases readStore parse files (Path.join root fileName) with
        | error fault => rfl
        | ok store =>
            have hrest := ih (merge start store)
            rw [← hassoc] at hrest
            exact hrest
      · rw [if_neg hf, if_neg hf]
        exact ih start

theorem readRoots_append_eq_merge
    (hassoc : ∀ first second third, merge (merge first second) third =
      merge first (merge second third)) (hempty : ∀ store, merge store empty = store)
    (xs ys : List String) :
    readRoots parse merge fileName files empty (xs ++ ys) =
      (readRoots parse merge fileName files empty xs).bind fun first =>
        (readRoots parse merge fileName files empty ys).map (merge first) := by
  rw [readRoots_append]
  congr 1
  funext first
  rw [← readRoots_merge hassoc, hempty]

theorem readRoots_skip (h : (files (Path.join root fileName)).isFile = false)
    (start : α) (xs ys : List String) :
    readRoots parse merge fileName files start (xs ++ root :: ys) =
      readRoots parse merge fileName files start (xs ++ ys) := by
  rw [readRoots_append, readRoots_append]
  congr 1
  funext merged
  rw [readRoots_cons, readInto, if_neg (by rw [h]; exact Bool.false_ne_true)]
  rfl

-- Reading fails when some root has a spoilt file, and then with the fault of the first of these.
structure FailsAtFirst (parse : String → Except Toml.Fault α) (fileName : String)
    (files : Snapshot) (roots : List String) (result : Except StoreFault α) : Prop where
  error_iff : ∀ fault, result = .error fault ↔ FirstSpoilt parse fileName files roots fault
  fails_iff : (∃ fault, result = .error fault) ↔
    ∃ root ∈ roots, ∃ fault, Spoilt parse files (Path.join root fileName) fault

theorem failsAtFirst_readRoots (hempty : ∀ store, merge store empty = store) (start : α) :
    FailsAtFirst parse fileName files roots
      (readRoots parse merge fileName files start roots) := by
  have herror : ∀ fault, readRoots parse merge fileName files start roots = .error fault ↔
      FirstSpoilt parse fileName files roots fault := fun _ => readRoots_eq_error_iff hempty
  refine ⟨herror, ?_⟩
  rw [← exists_firstSpoilt_iff]
  exact exists_congr herror

end Reading

namespace Catalog

variable {parse : String → Except Toml.Fault Catalog} {files : Snapshot} {roots : List String}
  {catalog : Catalog}

-- The catalog of one root, without any extension points where there is none.
def inRoot (parse : String → Except Toml.Fault Catalog) (files : Snapshot) (root : String) :
    Catalog :=
  storeAt parse empty files (Path.join root fileName)

theorem modules_of_ofRootsBy (h : ofRootsBy parse files roots = .ok catalog) (point : String) :
    catalog.modules point =
      roots.flatMap fun root => (inRoot parse files root).modules point := by
  rw [readRoots_eq_ok merge_empty h, modules_foldl_merge, modules_empty, List.nil_append,
    List.flatMap_map]
  rfl

end Catalog

namespace Metadata

variable {parse : String → Except Toml.Fault Metadata} {files : Snapshot} {roots : List String}
  {metadata : Metadata} {module : String} {hints : Hints}

def inRoot (parse : String → Except Toml.Fault Metadata) (files : Snapshot) (root : String) :
    Metadata :=
  storeAt parse empty files (Path.join root fileName)

-- The last root that declares a module declares these hints for it.
def LastDeclared (parse : String → Except Toml.Fault Metadata) (files : Snapshot)
    (roots : List String) (module : String) (hints : Hints) : Prop :=
  ∃ before root later, roots = before ++ root :: later ∧
    (inRoot parse files root).get? module = some hints ∧
    ∀ other ∈ later, (inRoot parse files other).get? module = none

-- The roots are gone through from the last to the first.
theorem get?_eq_findSome? (h : ofRootsBy parse files roots = .ok metadata) (module : String) :
    metadata.get? module =
      roots.reverse.findSome? fun root => (inRoot parse files root).get? module := by
  rw [readRoots_eq_ok merge_empty h, get?_foldl_merge, ← List.map_reverse, List.findSome?_map]
  exact Option.or_none

theorem get?_of_ofRootsBy (h : ofRootsBy parse files roots = .ok metadata) :
    metadata.get? module = some hints ↔ LastDeclared parse files roots module hints := by
  rw [get?_eq_findSome? h, List.findSome?_eq_some_iff]
  constructor
  · rintro ⟨later, root, before, hroots, hhints, hlater⟩
    refine ⟨before.reverse, root, later.reverse, ?_, hhints, fun other ho => ?_⟩
    · rw [← List.reverse_reverse roots, hroots]
      simp
    · exact hlater other (List.mem_reverse.mp ho)
  · rintro ⟨before, root, later, rfl, hhints, hlater⟩
    refine ⟨later.reverse, root, before.reverse, by simp, hhints, fun other ho => ?_⟩
    exact hlater other (List.mem_reverse.mp ho)

end Metadata

-- Reading several roots fails at the first spoilt file. Otherwise an extension point has what each
-- root registers for it, one root after the other, and a module has the hints of the last root that
-- declares it. So the roots can be read in two parts and merged, and a root that has no catalog
-- adds nothing to the one while it counts for the other. All this holds for any way to understand
-- the text of one file, so for that of `ofRoots` as well.
theorem ofRoots_merges_in_order (parse : String → Except Toml.Fault Catalog)
    (parseHints : String → Except Toml.Fault Metadata) (files : Snapshot) :
    (∀ roots, FailsAtFirst parse Catalog.fileName files roots
      (Catalog.ofRootsBy parse files roots)) ∧
    (∀ roots catalog, Catalog.ofRootsBy parse files roots = .ok catalog → ∀ point,
      catalog.modules point =
        roots.flatMap fun root => (Catalog.inRoot parse files root).modules point) ∧
    (∀ roots, FailsAtFirst parseHints Metadata.fileName files roots
      (Metadata.ofRootsBy parseHints files roots)) ∧
    (∀ roots metadata, Metadata.ofRootsBy parseHints files roots = .ok metadata →
      ∀ module hints, metadata.get? module = some hints ↔
        Metadata.LastDeclared parseHints files roots module hints) ∧
    ∀ xs ys,
      (Catalog.ofRootsBy parse files (xs ++ ys) =
        (Catalog.ofRootsBy parse files xs).bind fun catalog =>
          (Catalog.ofRootsBy parse files ys).map catalog.merge) ∧
      (Metadata.ofRootsBy parseHints files (xs ++ ys) =
        (Metadata.ofRootsBy parseHints files xs).bind fun metadata =>
          (Metadata.ofRootsBy parseHints files ys).map metadata.merge) ∧
      ∀ root, Catalog.isIn files root = false →
        Catalog.ofRootsBy parse files (xs ++ root :: ys) =
          Catalog.ofRootsBy parse files (xs ++ ys) ∧
        ∀ metadata module hints,
          Metadata.ofRootsBy parseHints files (xs ++ root :: ys) = .ok metadata →
          (Metadata.inRoot parseHints files root).get? module = some hints →
          (∀ other ∈ ys, (Metadata.inRoot parseHints files other).get? module = none) →
          metadata.get? module = some hints := by
  refine ⟨fun roots => failsAtFirst_readRoots Catalog.merge_empty _,
    fun roots catalog h => Catalog.modules_of_ofRootsBy h,
    fun roots => failsAtFirst_readRoots Metadata.merge_empty _,
    fun roots metadata h module hints => Metadata.get?_of_ofRootsBy h,
    fun xs ys => ⟨readRoots_append_eq_merge Catalog.merge_assoc Catalog.merge_empty xs ys,
      readRoots_append_eq_merge Metadata.merge_assoc Metadata.merge_empty xs ys,
      fun root hroot => ⟨readRoots_skip hroot _ xs ys, ?_⟩⟩⟩
  intro metadata module hints h hhints hlater
  exact (Metadata.get?_of_ofRootsBy h).mpr ⟨xs, root, ys, rfl, hhints, hlater⟩

-- "hints" has no catalog, and what it says of "a" replaces all that "base" does. The catalog of
-- "torn" is no text.
def overlappingRoots : Snapshot := fun path =>
  if path = "base/autoconf.catalog.toml" then .file (.ok "[extension_points]\np = ['a', 'b', 'a']")
  else if path = "base/autoconf.metadata.toml" then
    .file (.ok "[modules.a]\norder = 1\nafter = ['b']\n[modules.b]\norder = 3")
  else if path = "hints/autoconf.metadata.toml" then .file (.ok "[modules.a]\nbefore = ['c']")
  else if path = "late/autoconf.catalog.toml" then
    .file (.ok "[extension_points]\nq = []\np = ['c', 'b']")
  else if path = "torn/autoconf.catalog.toml" then .file (.error .notText)
  else .nothing .notFound

theorem ofRoots_merges_in_order_overlappingRoots :
    (∃ catalog, Catalog.ofRoots overlappingRoots ["base", "hints", "late"] = .ok catalog ∧
      ["base", "hints", "late"].flatMap
        (fun root => (Catalog.inRoot Catalog.parse overlappingRoots root).modules "p") =
          ["a", "b", "a", "c", "b"]) ∧
      Metadata.LastDeclared Metadata.parse overlappingRoots ["base", "hints", "late"] "a"
        { before := ["c"] } ∧
      FirstSpoilt Catalog.parse Catalog.fileName overlappingRoots ["base", "torn", "late"]
        (.unreadable "torn/autoconf.catalog.toml" .notText) := by
  obtain ⟨hfailure, hmodules, -, hhints, -⟩ :=
    ofRoots_merges_in_order Catalog.parse Metadata.parse overlappingRoots
  have hcatalog : (Catalog.ofRoots overlappingRoots ["base", "hints", "late"]).map
      (fun catalog => catalog.modules "p") = .ok ["a", "b", "a", "c", "b"] := by decide +kernel
  have hmetadata : (Metadata.ofRoots overlappingRoots ["base", "hints", "late"]).map
      (fun metadata => metadata.get? "a") = .ok (some { before := ["c"] }) := by decide +kernel
  have htorn : Catalog.ofRoots overlappingRoots ["base", "torn", "late"] =
      .error (.unreadable "torn/autoconf.catalog.toml" .notText) := by decide +kernel
  obtain ⟨catalog, hc, hlist⟩ := exists_of_map_eq_ok hcatalog
  obtain ⟨metadata, hm, hget⟩ := exists_of_map_eq_ok hmetadata
  exact ⟨⟨catalog, hc, (hmodules _ _ hc "p").symm.trans hlist⟩, (hhints _ _ hm "a" _).mp hget,
    ((hfailure _).error_iff _).mp htorn⟩

end Activation
