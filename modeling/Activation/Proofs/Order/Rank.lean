import Activation.Order.Sort
import Activation.Proofs.Merge
import Activation.Proofs.Text
import Mathlib.Data.List.Destutter
import Mathlib.Data.Prod.Lex
import Mathlib.Logic.Function.Basic
import Mathlib.Order.WithBot

namespace Activation

namespace Rank

-- The place of a declaration, that of a missing one being the last of all.
def place : Option Nat → WithTop Nat
  | some position => WithTop.some position
  | none => ⊤

-- A rank as a tuple: the order of such tuples is the lexicographic one, and names are compared by
-- their bytes.
def key (rank : Rank) : Int ×ₗ WithTop Nat ×ₗ List UInt8 :=
  toLex (rank.order, toLex (place rank.position, Text.bytes rank.name))

private theorem earlier_iff_place_lt (a b : Option Nat) : Earlier a b ↔ place a < place b := by
  cases a with
  | none => simp [Earlier, place]
  | some a =>
      cases b with
      | none => simp [Earlier, place]
      | some b => simp [Earlier, place]

private theorem place_injective : Function.Injective place := by
  intro a b h
  cases a <;> cases b <;> simp_all [place]

theorem lt_iff_key_lt (a b : Rank) : a < b ↔ a.key < b.key := by
  rw [lt_def, key, key, Prod.Lex.toLex_lt_toLex, Prod.Lex.toLex_lt_toLex]
  simp only [earlier_iff_place_lt, place_injective.eq_iff, Text.lt_iff_bytes_lt]

theorem earlier_map_succ_iff (a b : Option Nat) :
    Earlier (a.map (· + 1)) (b.map (· + 1)) ↔ Earlier a b := by
  cases a with
  | none => exact Iff.rfl
  | some a =>
      cases b with
      | none => exact Iff.rfl
      | some b => exact Nat.succ_lt_succ_iff

theorem pairwise_distinct (names : List String) :
    (Name.distinct names).Pairwise fun a b => Earlier (names.idxOf? a) (names.idxOf? b) := by
  induction names with
  | nil => exact List.Pairwise.nil
  | cons first rest ih =>
      have hother : ∀ name ∈ (Name.distinct rest).filter fun name => decide (name ≠ first),
          (first :: rest).idxOf? name = (rest.idxOf? name).map (· + 1) := by
        intro name hm
        have hne : name ≠ first := of_decide_eq_true (List.mem_filter.mp hm).2
        simp [List.idxOf?_cons, Ne.symm hne]
      rw [Name.distinct, List.pairwise_cons]
      constructor
      · intro name hm
        rw [hother name hm, List.idxOf?_cons, beq_self_eq_true, if_pos rfl]
        cases rest.idxOf? name with
        | none => trivial
        | some position => exact Nat.succ_pos position
      · refine (ih.filter _).imp_of_mem fun ha hb h => ?_
        rw [hother _ ha, hother _ hb]
        exact (earlier_map_succ_iff _ _).mpr h

theorem lt_asymm {a b : Rank} (hab : a < b) : ¬ b < a :=
  fun hba => lt_irrefl a (lt_trans hab hba)

private theorem not_lt_trans {a b c : Rank} (hab : ¬ b < a) (hbc : ¬ c < b) : ¬ c < a := by
  intro hca
  rcases lt_or_eq_or_gt a b with hlt | rfl | hgt
  · exact hbc (lt_trans hca hlt)
  · exact hbc hca
  · exact hab hgt

end Rank

variable {rank : String → Rank}

theorem pairwise_placeByRank (hrank : Function.Injective rank) (name : String)
    {names : List String} (h : names.Pairwise fun a b => rank a < rank b) :
    (placeByRank rank name names).Pairwise fun a b => rank a < rank b := by
  have htotal : ∀ a b : String, rank a < rank b ∨ a = b ∨ rank b < rank a := fun a b =>
    (Rank.lt_or_eq_or_gt _ _).imp_right (Or.imp_left fun heq => hrank heq)
  have hplaced := @Name.pairwise_place _ _ _ (fun a b => rank a < rank b) _ id
    (fun _ _ _ => Rank.lt_trans) htotal name names (by simpa using h)
  rw [placeByRank]
  simpa using hplaced

theorem pairwise_byRank (hrank : Function.Injective rank) (names : List String) :
    (byRank rank names).Pairwise fun a b => rank a < rank b := by
  induction names with
  | nil => exact List.Pairwise.nil
  | cons first rest ih => exact pairwise_placeByRank hrank first ih

theorem nodup_of_pairwise_rank {names : List String}
    (h : names.Pairwise fun a b => rank a < rank b) : names.Nodup := by
  apply h.imp
  rintro a _ hlt rfl
  exact Rank.lt_irrefl _ hlt

theorem eq_of_pairwise_rank {xs ys : List String} (hx : xs.Pairwise fun a b => rank a < rank b)
    (hy : ys.Pairwise fun a b => rank a < rank b) (h : ∀ name, name ∈ xs ↔ name ∈ ys) :
    xs = ys := by
  have hperm : xs.Perm ys :=
    (List.perm_ext_iff_of_nodup (nodup_of_pairwise_rank hx) (nodup_of_pairwise_rank hy)).mpr h
  exact hperm.eq_of_pairwise (fun _ _ _ _ hab hba => absurd hba (Rank.lt_asymm hab)) hx hy

theorem byRank_congr (hrank : Function.Injective rank) {xs ys : List String}
    (h : ∀ name, name ∈ xs ↔ name ∈ ys) : byRank rank xs = byRank rank ys :=
  eq_of_pairwise_rank (pairwise_byRank hrank xs) (pairwise_byRank hrank ys)
    fun name => by simp [h]

theorem placeByRank_perm {name : String} {names : List String} (hn : name ∉ names) :
    (placeByRank rank name names).Perm (name :: names) :=
  @Name.place_perm _ _ _ (fun a b => rank a < rank b) _ id name names (by simpa using hn)

theorem byRank_perm (rank : String → Rank) {names : List String} (hn : names.Nodup) :
    (byRank rank names).Perm names := by
  induction names with
  | nil => exact List.Perm.refl _
  | cons first rest ih =>
      obtain ⟨hfirst, hrest⟩ := List.nodup_cons.mp hn
      exact (placeByRank_perm (mt mem_byRank.mp hfirst)).trans ((ih hrest).cons first)

def sortedByRank (rank : String → Rank) (names : List String) : List String :=
  names.mergeSort fun a b => decide (¬ rank b < rank a)

theorem pairwise_sortedByRank (rank : String → Rank) (names : List String) :
    (sortedByRank rank names).Pairwise fun a b => ¬ rank b < rank a := by
  have h := @List.pairwise_mergeSort String (fun a b => decide (¬ rank b < rank a))
    (fun a b c hab hbc => by
      simp only [decide_eq_true_eq] at hab hbc ⊢
      exact Rank.not_lt_trans hab hbc)
    (fun a b => by
      simp only [Bool.or_eq_true, decide_eq_true_eq]
      exact not_or_of_imp Rank.lt_asymm) names
  exact h.imp of_decide_eq_true

private theorem eq_of_not_lt (hrank : Function.Injective rank) (a b : String)
    (hba : ¬ rank b < rank a) (hab : ¬ rank a < rank b) : a = b := by
  rcases Rank.lt_or_eq_or_gt (rank a) (rank b) with hlt | heq | hgt
  · exact absurd hlt hab
  · exact hrank heq
  · exact absurd hgt hba

-- Equal names stand side by side in a list that is sorted by rank, as different names have
-- different ranks. That is why it is enough to drop what repeats its neighbour.
theorem byRank_eq_destutter (hrank : Function.Injective rank) (names : List String) :
    byRank rank names = (sortedByRank rank names).destutter (· ≠ ·) := by
  have hsorted := pairwise_sortedByRank rank names
  have : Std.Antisymm fun a b => ¬ rank b < rank a := ⟨eq_of_not_lt hrank⟩
  rw [hsorted.destutter_eq_dedup]
  have hstrict : (sortedByRank rank names).dedup.Pairwise fun a b => rank a < rank b := by
    have hboth := (hsorted.sublist (List.dedup_sublist _)).and (List.nodup_dedup _)
    refine hboth.imp fun {a b} ⟨hba, hne⟩ => ?_
    by_contra hab
    exact hne (eq_of_not_lt hrank a b hba hab)
  refine eq_of_pairwise_rank (pairwise_byRank hrank names) hstrict fun name => ?_
  simp [sortedByRank]

namespace Precedence

theorem rank_injective (precedence : Precedence) : Function.Injective precedence.rank :=
  fun _ _ h => congrArg Rank.name h

def key (precedence : Precedence) (module : String) : Int ×ₗ WithTop Nat ×ₗ List UInt8 :=
  (precedence.rank module).key

theorem position_ofCatalog (catalog : Catalog) (point : String) (metadata : Metadata)
    (module : String) :
    (ofCatalog catalog point metadata).positions.get? module =
      (catalog.modules point).idxOf? module := by
  rw [ofCatalog, NameMap.ofList, NameMap.get?_insertAll _ (catalog.nodup_declared point),
    catalog.lookup_declared]
  simp [NameMap.get?, NameMap.empty]

theorem position_ofDeclared (metadata : Metadata) (declared : List String) (module : String) :
    (ofDeclared metadata declared).positions.get? module = declared.idxOf? module := by
  have hp : ∀ start, ((declared.zipIdx start).foldr
      (fun entry built => built.insert entry.1 entry.2) NameMap.empty).get? module =
      (declared.idxOf? module).map (· + start) := by
    induction declared with
    | nil => intro start; rfl
    | cons first rest ih =>
        intro start
        rw [List.zipIdx_cons, List.foldr_cons, NameMap.get?_insert, ih, Name.idxOf?_cons_add]
  have h := hp 0
  simp only [Nat.add_zero, Option.map_id'] at h
  exact h

theorem rank_ofCatalog (catalog : Catalog) (point : String) (metadata : Metadata)
    (module : String) :
    (ofCatalog catalog point metadata).rank module =
      ⟨metadata.orderOf module, (catalog.modules point).idxOf? module, module⟩ := by
  rw [rank, position_ofCatalog]
  rfl

theorem pairwise_rank_ofCatalog {catalog : Catalog} {point : String} {metadata : Metadata}
    {modules : List String} (hsub : modules.Sublist (Name.distinct (catalog.modules point)))
    (horder : ∀ a ∈ modules, ∀ b ∈ modules, metadata.orderOf a = metadata.orderOf b) :
    modules.Pairwise fun a b =>
      (ofCatalog catalog point metadata).rank a < (ofCatalog catalog point metadata).rank b := by
  refine ((Rank.pairwise_distinct _).sublist hsub).imp_of_mem fun {a b} ha hb hearlier => ?_
  rw [rank_ofCatalog, rank_ofCatalog]
  exact Rank.lt_def.mpr (Or.inr ⟨horder a ha b hb, Or.inl hearlier⟩)

theorem rank_ofDeclared (metadata : Metadata) (declared : List String) (module : String) :
    (ofDeclared metadata declared).rank module =
      ⟨metadata.orderOf module, declared.idxOf? module, module⟩ := by
  rw [rank, position_ofDeclared]
  rfl

end Precedence

end Activation
