import Activation.Proofs.Merge
import Activation.Proofs.Name.Distinct
import Activation.Proofs.Order.Sort

namespace Activation

namespace Rank

variable {a b : String}

theorem eq_iff_not_earlier (a b : Option Nat) : a = b ↔ ¬ Earlier a b ∧ ¬ Earlier b a := by
  constructor
  · rintro rfl
    exact ⟨Earlier.irrefl a, Earlier.irrefl a⟩
  · rintro ⟨hab, hba⟩
    exact ((Earlier.total a b).resolve_left hab).resolve_right hba

private theorem not_earlier_zero (a : Option Nat) : ¬ Earlier a (some 0) := by
  cases a with
  | none => exact id
  | some a => exact Nat.not_lt_zero a

private theorem earlier_cons_iff (first : String) (rest : List String) (a b : String) :
    Earlier ((first :: rest).idxOf? a) ((first :: rest).idxOf? b) ↔
      b ≠ first ∧ (a = first ∨ Earlier (rest.idxOf? a) (rest.idxOf? b)) := by
  rw [List.idxOf?_cons, List.idxOf?_cons]
  by_cases hb : b = first
  · subst hb
    rw [beq_self_eq_true, if_pos rfl]
    exact iff_of_false (not_earlier_zero _) fun h => h.1 rfl
  · rw [beq_false_of_ne (Ne.symm hb), if_neg Bool.false_ne_true]
    by_cases ha : a = first
    · subst ha
      rw [beq_self_eq_true, if_pos rfl]
      refine iff_of_true ?_ ⟨hb, Or.inl rfl⟩
      cases rest.idxOf? b with
      | none => trivial
      | some position => exact Nat.succ_pos position
    · rw [beq_false_of_ne (Ne.symm ha), if_neg Bool.false_ne_true, earlier_map_succ_iff]
      simp [ha, hb]

private theorem earlier_filter_iff {p : String → Bool} (ha : p a = true) (hb : p b = true)
    (names : List String) :
    Earlier ((names.filter p).idxOf? a) ((names.filter p).idxOf? b) ↔
      Earlier (names.idxOf? a) (names.idxOf? b) := by
  induction names with
  | nil => exact Iff.rfl
  | cons first rest ih =>
      rw [earlier_cons_iff]
      cases hp : p first with
      | true => rw [List.filter_cons_of_pos hp, earlier_cons_iff, ih]
      | false =>
          have hfirst : ∀ name, p name = true → name ≠ first := by
            rintro name hname rfl
            rw [hp] at hname
            cases hname
          rw [List.filter_cons_of_neg (by simp [hp]), ih]
          simp [hfirst a ha, hfirst b hb]

theorem earlier_distinct_iff (names : List String) (a b : String) :
    Earlier ((Name.distinct names).idxOf? a) ((Name.distinct names).idxOf? b) ↔
      Earlier (names.idxOf? a) (names.idxOf? b) := by
  induction names with
  | nil => exact Iff.rfl
  | cons first rest ih =>
      rw [Name.distinct, earlier_cons_iff, earlier_cons_iff]
      refine and_congr_right fun hb => or_congr_right' fun ha => ?_
      rw [earlier_filter_iff (by simpa using ha) (by simpa using hb), ih]

theorem earlier_congr {xs ys : List String} (h : Name.SameFirst xs ys) (a b : String) :
    Earlier (xs.idxOf? a) (xs.idxOf? b) ↔ Earlier (ys.idxOf? a) (ys.idxOf? b) := by
  rw [← earlier_distinct_iff, h, earlier_distinct_iff]

end Rank

namespace Catalog

-- Catalogs that declare the same modules first in the same order, for every extension point.
def SameOrder (catalog other : Catalog) : Prop :=
  ∀ point, Name.SameFirst (catalog.modules point) (other.modules point)

end Catalog

namespace Precedence

variable {catalog other : Catalog}

theorem rank_lt_congr (h : catalog.SameOrder other) (point : String) (metadata : Metadata)
    (a b : String) :
    (ofCatalog catalog point metadata).rank a < (ofCatalog catalog point metadata).rank b ↔
      (ofCatalog other point metadata).rank a < (ofCatalog other point metadata).rank b := by
  have hearlier := Rank.earlier_congr (h point)
  simp only [rank_ofCatalog, Rank.lt_def, Rank.eq_iff_not_earlier, hearlier]

theorem sort_ofCatalog_congr (h : catalog.SameOrder other) (point : String) (metadata : Metadata)
    (modules : List String) :
    (ofCatalog catalog point metadata).sort modules =
      (ofCatalog other point metadata).sort modules := by
  have hagrees : (ofCatalog catalog point metadata).Agrees (ofCatalog other point metadata)
      modules :=
    ⟨fun a _ b _ => rank_lt_congr h point metadata a b, fun _ _ _ _ => Iff.rfl⟩
  exact hagrees.sort_eq fun _ => Iff.rfl

theorem ofCatalog_eq_ofDeclared (catalog : Catalog) (point : String) (metadata : Metadata) :
    ofCatalog catalog point metadata = ofDeclared metadata (catalog.modules point) := by
  have hpositions : (ofCatalog catalog point metadata).positions =
      (ofDeclared metadata (catalog.modules point)).positions := by
    refine NameMap.ext_get? fun module => ?_
    rw [position_ofCatalog, position_ofDeclared]
  exact congrArg (Precedence.mk metadata) hpositions

end Precedence

namespace Catalog

-- The first occurrence of a name in a list is at this position.
structure FirstAt (names : List String) (name : String) (position : Nat) : Prop where
  occurs : names[position]? = some name
  first : ∀ earlier < position, names[earlier]? ≠ some name

theorem idxOf?_eq_some_iff_firstAt {names : List String} {name : String} {position : Nat} :
    names.idxOf? name = some position ↔ FirstAt names name position := by
  rw [List.idxOf?_eq_some_iff]
  constructor
  · rintro ⟨hlt, hname, hfirst⟩
    refine ⟨List.getElem?_eq_some_iff.mpr ⟨hlt, hname⟩, fun earlier he hsome => ?_⟩
    exact hfirst earlier he (List.getElem?_eq_some_iff.mp hsome).2
  · rintro ⟨hoccurs, hfirst⟩
    obtain ⟨hlt, hname⟩ := List.getElem?_eq_some_iff.mp hoccurs
    refine ⟨hlt, hname, fun earlier he hequal => hfirst earlier he ?_⟩
    exact List.getElem?_eq_some_iff.mpr ⟨by omega, hequal⟩

theorem idxOf?_append (xs ys : List String) (name : String) :
    (xs ++ ys).idxOf? name = (xs.idxOf? name).or ((ys.idxOf? name).map (· + xs.length)) :=
  List.findIdx?_append

theorem lookup_declared_merge (catalog other : Catalog) (point module : String) :
    ((catalog.merge other).declared point).lookup module =
      ((catalog.declared point).lookup module).or
        (((other.declared point).lookup module).map (· + (catalog.modules point).length)) := by
  simp [idxOf?_append]

-- Each module stands in the index at its first declaration, and the index lists the modules in the
-- order of these. What is merged in goes behind, and changes nothing for what was there. A catalog
-- and the list of what it declares decide the same order, with the same notes.
theorem declarations_agree (catalog : Catalog) (point : String) :
    (∀ module, module ∈ (catalog.declared point).map Prod.fst ↔
      module ∈ catalog.modules point) ∧
    (∀ module position, (catalog.declared point).lookup module = some position ↔
      FirstAt (catalog.modules point) module position) ∧
    ((catalog.declared point).map Prod.fst = Name.distinct (catalog.modules point) ∧
      (catalog.declared point).Pairwise fun a b => a.2 < b.2) ∧
    (∀ other : Catalog,
      (∀ module ∈ catalog.modules point, ((catalog.merge other).declared point).lookup module =
        (catalog.declared point).lookup module) ∧
      ∀ module ∉ catalog.modules point, ((catalog.merge other).declared point).lookup module =
        ((other.declared point).lookup module).map (· + (catalog.modules point).length)) ∧
    ∀ metadata modules,
      (Precedence.ofCatalog catalog point metadata).sort modules =
        (Precedence.ofDeclared metadata (catalog.modules point)).sort modules ∧
      (Precedence.ofCatalog catalog point metadata).notes modules =
        (Precedence.ofDeclared metadata (catalog.modules point)).notes modules := by
  refine ⟨fun module => ?_, fun module position => ?_, ⟨catalog.names_declared point,
    catalog.pairwise_declared point⟩, fun other => ⟨fun module hm => ?_, fun module hm => ?_⟩,
    fun metadata modules => ?_⟩
  · simp
  · simp [idxOf?_eq_some_iff_firstAt]
  · have hsome := List.isSome_idxOf?.mpr hm
    rw [← lookup_declared] at hsome
    rw [lookup_declared_merge, Option.or_of_isSome hsome]
  · have hnone := List.idxOf?_eq_none_iff.mpr hm
    rw [← lookup_declared] at hnone
    rw [lookup_declared_merge, hnone, Option.none_or]
  · rw [Precedence.ofCatalog_eq_ofDeclared]
    exact ⟨rfl, rfl⟩

end Catalog

end Activation
