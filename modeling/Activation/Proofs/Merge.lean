import Activation.Catalog
import Activation.Metadata
import Activation.Proofs.Name.Lookup
import Mathlib.Data.List.Nodup
import Mathlib.Data.List.Perm.Basic

namespace Activation

private theorem firstPositionsFrom_names (start : Nat) (names : List String) :
    (firstPositionsFrom start names).map Prod.fst = Name.distinct names := by
  induction names generalizing start with
  | nil => rfl
  | cons name rest ih =>
      rw [firstPositionsFrom, Name.distinct, List.map_cons, ← ih (start + 1), List.filter_map]
      rfl

private theorem lookup_firstPositionsFrom (start : Nat) (names : List String) (name : String) :
    (firstPositionsFrom start names).lookup name = (names.idxOf? name).map (· + start) := by
  induction names generalizing start with
  | nil => rfl
  | cons first rest ih =>
      rw [firstPositionsFrom, Name.lookup_cons, Name.idxOf?_cons_add]
      by_cases he : name = first
      · rw [if_pos he, if_pos he]
      · rw [if_neg he, if_neg he, Name.lookup_filter_ne _ he, ih]

@[simp]
theorem Catalog.lookup_declared (catalog : Catalog) (point module : String) :
    (catalog.declared point).lookup module = (catalog.modules point).idxOf? module := by
  rw [declared, firstPositions, lookup_firstPositionsFrom]
  simp

@[simp]
theorem Catalog.names_declared (catalog : Catalog) (point : String) :
    (catalog.declared point).map Prod.fst = Name.distinct (catalog.modules point) :=
  firstPositionsFrom_names 0 _

theorem Catalog.nodup_declared (catalog : Catalog) (point : String) :
    ((catalog.declared point).map Prod.fst).Nodup := by
  simp

private theorem firstPositionsFrom_sublist (start : Nat) (names : List String) :
    (firstPositionsFrom start names).Sublist (names.zipIdx start) := by
  induction names generalizing start with
  | nil => exact List.Sublist.slnil
  | cons name rest ih => exact (List.filter_sublist.trans (ih (start + 1))).cons_cons _

theorem Catalog.pairwise_declared (catalog : Catalog) (point : String) :
    (catalog.declared point).Pairwise fun a b => a.2 < b.2 := by
  have hall : ((catalog.modules point).zipIdx.map Prod.snd).Pairwise (· < ·) := by
    rw [List.zipIdx_map_snd]
    exact List.pairwise_lt_range'
  exact (List.pairwise_map.mp hall).sublist (firstPositionsFrom_sublist 0 _)

namespace NameMap

variable {α : Type}

@[simp]
theorem nodup_names (map : NameMap α) : (map.entries.map Prod.fst).Nodup := by
  refine map.ascending.imp fun {a b} hlt equal => ?_
  subst equal
  exact String.lt_irrefl a hlt

theorem mem_entries_iff (map : NameMap α) (entry : String × α) :
    entry ∈ map.entries ↔ map.get? entry.1 = some entry.2 :=
  ⟨Name.lookup_of_mem map.nodup_names, Name.mem_of_lookup⟩

-- Maps with the same look-ups have the same entries, and so do they in the one order there is.
theorem ext_get? {map other : NameMap α} (h : ∀ name, map.get? name = other.get? name) :
    map = other := by
  have hperm : map.entries.Perm other.entries := by
    rw [List.perm_ext_iff_of_nodup (List.Nodup.of_map _ map.nodup_names)
      (List.Nodup.of_map _ other.nodup_names)]
    intro entry
    rw [mem_entries_iff, mem_entries_iff, h]
  have hentries : map.entries = other.entries := by
    refine hperm.eq_of_pairwise (fun a b _ _ hab hba => ?_) (List.pairwise_map.mp map.ascending)
      (List.pairwise_map.mp other.ascending)
    exact absurd (String.lt_trans hab hba) (String.lt_irrefl _)
  cases map
  cases other
  cases hentries
  rfl

end NameMap

namespace Catalog

theorem modules_eq (catalog : Catalog) (point : String) :
    catalog.modules point = (catalog.points.get? point).getD [] := rfl

theorem ext_points {catalog other : Catalog}
    (h : ∀ point, catalog.points.get? point = other.points.get? point) : catalog = other :=
  congrArg Catalog.mk (NameMap.ext_get? h)

theorem get?_foldl_append {entries : List (String × List String)}
    (hn : (entries.map Prod.fst).Nodup) (catalog : Catalog) (point : String) :
    (entries.foldl (fun merged entry => merged.append entry.1 entry.2) catalog).points.get? point =
      ((entries.lookup point).map (catalog.modules point ++ ·)).or
        (catalog.points.get? point) := by
  induction entries generalizing catalog with
  | nil => rfl
  | cons entry rest ih =>
      obtain ⟨hfresh, hrest⟩ := List.nodup_cons.mp hn
      rw [List.foldl_cons, ih hrest]
      by_cases he : point = entry.1
      · subst he
        simp [Name.lookup_eq_none_of_notMem hfresh]
      · simp [he]

@[simp]
theorem get?_merge (catalog other : Catalog) (point : String) :
    (catalog.merge other).points.get? point =
      ((other.points.get? point).map (catalog.modules point ++ ·)).or
        (catalog.points.get? point) :=
  get?_foldl_append other.points.nodup_names catalog point

@[simp]
theorem modules_merge (catalog other : Catalog) (point : String) :
    (catalog.merge other).modules point = catalog.modules point ++ other.modules point := by
  rw [modules_eq (catalog.merge other), get?_merge, modules_eq other]
  cases other.points.get? point with
  | none => exact (List.append_nil _).symm
  | some added => rfl

theorem merge_assoc (first second third : Catalog) :
    (first.merge second).merge third = first.merge (second.merge third) := by
  refine ext_points fun point => ?_
  rw [get?_merge, get?_merge, get?_merge, get?_merge, modules_merge]
  cases third.points.get? point with
  | none => rfl
  | some added => simp [List.append_assoc]

@[simp]
theorem merge_empty (catalog : Catalog) : catalog.merge empty = catalog := rfl

theorem modules_foldl_merge (stores : List Catalog) (catalog : Catalog) (point : String) :
    (stores.foldl merge catalog).modules point =
      catalog.modules point ++ stores.flatMap fun store => store.modules point := by
  induction stores generalizing catalog with
  | nil => simp
  | cons store rest ih => simp [ih]

end Catalog

namespace Metadata

theorem ext_get? {metadata other : Metadata}
    (h : ∀ module, metadata.get? module = other.get? module) : metadata = other :=
  congrArg Metadata.mk (NameMap.ext_get? h)

@[simp]
theorem get?_merge (metadata other : Metadata) (module : String) :
    (metadata.merge other).get? module = (other.get? module).or (metadata.get? module) :=
  NameMap.get?_insertAll other.modules.entries other.modules.nodup_names metadata.modules module

theorem merge_assoc (first second third : Metadata) :
    (first.merge second).merge third = first.merge (second.merge third) := by
  refine ext_get? fun module => ?_
  simp [Option.or_assoc]

@[simp]
theorem merge_empty (metadata : Metadata) : metadata.merge empty = metadata := rfl

theorem get?_foldl_merge (stores : List Metadata) (metadata : Metadata) (module : String) :
    (stores.foldl merge metadata).get? module =
      (stores.reverse.findSome? fun store => store.get? module).or (metadata.get? module) := by
  induction stores generalizing metadata with
  | nil => rfl
  | cons store rest ih =>
      rw [List.foldl_cons, ih, get?_merge, List.reverse_cons, List.findSome?_append,
        List.findSome?_singleton, Option.or_assoc]

end Metadata

end Activation
