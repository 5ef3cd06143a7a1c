import Activation.Proofs.Order.Rank
import Mathlib.Data.Finite.Defs
import Mathlib.Data.Set.Finite.List
import Mathlib.Logic.Relation
import Mathlib.Order.WellFounded

namespace Activation.Placement

section Placing

variable {ρ : Type} [LT ρ] {rank : String → ρ} {R : String → String → Prop}
  {members placed order : List String}

-- The first by rank of the modules with a property.
def First (rank : String → ρ) (P : String → Prop) (module : String) : Prop :=
  P module ∧ ∀ other, P other → other = module ∨ rank module < rank other

-- A module may be placed next when all that has to come before it has been placed.
def Free (R : String → String → Prop) (members placed : List String) (module : String) : Prop :=
  module ∈ members ∧ module ∉ placed ∧ ∀ earlier, R earlier module → earlier ∈ placed

-- Each module of a list is placed by a rule that knows the modules before it.
def Placing (rule : List String → String → Prop) (placed : List String) : Prop :=
  ∀ i (hi : i < placed.length), rule (placed.take i) placed[i]

def Greedy (rank : String → ρ) (R : String → String → Prop) (members placed : List String) :
    Prop :=
  Placing (fun placed => First rank (Free R members placed)) placed

-- The members in an order that keeps to the relation.
structure Arrangement (R : String → String → Prop) (members order : List String) : Prop where
  nodup : order.Nodup
  mem_iff : ∀ module, module ∈ order ↔ module ∈ members
  before : ∀ earlier later, R earlier later → order.idxOf earlier < order.idxOf later

theorem First.congr {P Q : String → Prop} (h : ∀ module, P module ↔ Q module) (module : String) :
    First rank P module ↔ First rank Q module := by
  rw [funext fun module => propext (h module)]

-- Whatever else the two ranks say, they agree on the modules in question.
theorem First.of_lt {σ : Type} [LT σ] {key : String → σ} {P : String → Prop} {module : String}
    (h : First rank P module) (hkey : ∀ a b, P a → P b → rank a < rank b → key a < key b) :
    First key P module :=
  ⟨h.1, fun other ho => (h.2 other ho).imp_right (hkey module other h.1 ho)⟩

@[simp]
theorem placing_nil (rule : List String → String → Prop) : Placing rule [] := by
  intro i hi
  exact absurd hi (Nat.not_lt_zero i)

theorem Placing.append {rule : List String → String → Prop} (h : Placing rule placed)
    (module : String) (hm : rule placed module) : Placing rule (placed ++ [module]) := by
  intro i hi
  rw [List.length_append, List.length_singleton] at hi
  by_cases he : i < placed.length
  · rw [List.take_append_of_le_length (by omega), List.getElem_append_left he]
    exact h i he
  · obtain rfl : i = placed.length := by omega
    simpa using hm

theorem Placing.of_append {rule : List String → String → Prop} {module : String}
    (h : Placing rule (placed ++ [module])) : Placing rule placed ∧ rule placed module := by
  refine ⟨fun i hi => ?_, ?_⟩
  · have hrule := h i (by simp; omega)
    rwa [List.take_append_of_le_length (by omega), List.getElem_append_left hi] at hrule
  · have hrule := h placed.length (by simp)
    simpa using hrule

theorem Placing.mono {rule other : List String → String → Prop} (h : Placing rule placed)
    (himp : ∀ placed module, rule placed module → other placed module) : Placing other placed :=
  fun i hi => himp _ _ (h i hi)

theorem Greedy.of_lt {σ : Type} [LT σ] {key : String → σ} (h : Greedy rank R members placed)
    (hkey : ∀ a ∈ members, ∀ b ∈ members, rank a < rank b → key a < key b) :
    Greedy key R members placed :=
  h.mono fun _ _ hfirst => hfirst.of_lt fun a b ha hb => hkey a ha.1 b hb.1

theorem Greedy.free (h : Greedy rank R members placed) : Placing (Free R members) placed :=
  h.mono fun _ _ hm => hm.1

theorem Placing.mem_members (h : Placing (Free R members) placed) {module : String}
    (hm : module ∈ placed) : module ∈ members := by
  obtain ⟨i, hi, rfl⟩ := List.getElem_of_mem hm
  exact (h i hi).1

theorem Placing.nodup (h : Placing (Free R members) placed) : placed.Nodup := by
  rw [List.nodup_iff_injective_getElem]
  have hne : ∀ i j (hi : i < placed.length) (hj : j < placed.length), i < j →
      placed[i] ≠ placed[j] := by
    intro i j hi hj hij he
    exact (h j hj).2.1 (he ▸ List.mem_take_iff_getElem.mpr ⟨i, by omega, rfl⟩)
  intro i j he
  rcases Nat.lt_trichotomy i.1 j.1 with hlt | heq | hgt
  · exact absurd he (hne _ _ i.2 j.2 hlt)
  · exact Fin.ext heq
  · exact absurd he.symm (hne _ _ j.2 i.2 hgt)

theorem Placing.closed (h : Placing (Free R members) placed) {earlier later : String}
    (hm : later ∈ placed) (hr : R earlier later) : earlier ∈ placed := by
  obtain ⟨i, hi, rfl⟩ := List.getElem_of_mem hm
  exact List.mem_of_mem_take ((h i hi).2.2 earlier hr)

theorem Placing.length_le (h : Placing (Free R members) placed) :
    placed.length ≤ members.length :=
  (h.nodup.subperm fun _ hm => h.mem_members hm).length_le

private theorem mem_take_of_idxOf_lt {earlier : String} {i : Nat} (hlt : order.idxOf earlier < i)
    (hi : i ≤ order.length) : earlier ∈ order.take i := by
  have hl : order.idxOf earlier < order.length := by omega
  exact List.mem_take_iff_getElem.mpr ⟨order.idxOf earlier, by omega, List.getElem_idxOf hl⟩

theorem idxOf_lt_of_mem_take {earlier : String} {i : Nat} (hm : earlier ∈ order.take i) :
    order.idxOf earlier < i := by
  have hsplit : order.idxOf earlier = (order.take i).idxOf earlier := by
    conv_lhs => rw [← List.take_append_drop i order]
    exact List.idxOf_append_of_mem hm
  have hlt := List.idxOf_lt_length_of_mem hm
  rw [List.length_take] at hlt
  omega

theorem Arrangement.placing (h : Arrangement R members order) : Placing (Free R members) order := by
  intro i hi
  refine ⟨(h.mem_iff _).mp (List.getElem_mem hi), fun hm => ?_, fun earlier hr => ?_⟩
  · have hlt := idxOf_lt_of_mem_take hm
    rw [h.nodup.idxOf_getElem] at hlt
    exact absurd hlt (Nat.lt_irrefl i)
  · have hlt := h.before _ _ hr
    rw [h.nodup.idxOf_getElem] at hlt
    exact mem_take_of_idxOf_lt hlt (Nat.le_of_lt hi)

theorem Placing.arrangement (h : Placing (Free R members) placed)
    (hr : ∀ earlier later, R earlier later → later ∈ members)
    (hall : ∀ module ∈ members, module ∈ placed) : Arrangement R members placed := by
  refine ⟨h.nodup, fun module => ⟨h.mem_members, hall module⟩, fun earlier later he => ?_⟩
  obtain ⟨i, hi, rfl⟩ := List.getElem_of_mem (hall later (hr _ _ he))
  rw [h.nodup.idxOf_getElem]
  exact idxOf_lt_of_mem_take ((h i hi).2.2 earlier he)

-- Where the greedy list first differs from another arrangement, both modules are free.
theorem Greedy.take_eq_or_map_lt (h : Greedy rank R members placed)
    (ho : Placing (Free R members) order) (hlen : placed.length = order.length) (n : Nat) :
    placed.take n = order.take n ∨ placed.map rank < order.map rank := by
  induction n with
  | zero => exact Or.inl rfl
  | succ n ih =>
      rcases ih with heq | hlt
      · by_cases hn : n < placed.length
        · have hn' : n < order.length := hlen ▸ hn
          -- the same modules come before position n, so that both next ones are free there
          rcases (h n hn).2 order[n] (heq ▸ ho n hn') with hsame | hless
          · left
            rw [← List.take_append_getElem hn, ← List.take_append_getElem hn', heq, hsame]
          · right
            rw [← List.take_append_drop n placed, ← List.take_append_drop n order, heq,
              List.map_append, List.map_append]
            apply List.append_left_lt
            rw [List.drop_eq_getElem_cons hn, List.drop_eq_getElem_cons hn', List.map_cons,
              List.map_cons]
            exact List.cons_lt_cons_iff.mpr (Or.inl hless)
        · left
          rw [List.take_of_length_le (by omega), List.take_of_length_le (by omega)] at heq ⊢
          exact heq
      · exact Or.inr hlt

theorem Greedy.least (h : Greedy rank R members placed)
    (hall : ∀ module ∈ members, module ∈ placed) (ho : Arrangement R members order) :
    order = placed ∨ placed.map rank < order.map rank := by
  have hperm : placed.Perm order := (List.perm_ext_iff_of_nodup h.free.nodup ho.nodup).mpr
    fun module => ⟨fun hm => (ho.mem_iff module).mpr (h.free.mem_members hm),
      fun hm => hall module ((ho.mem_iff module).mp hm)⟩
  have hlen := hperm.length_eq
  rcases h.take_eq_or_map_lt ho.placing hlen placed.length with heq | hlt
  · left
    rwa [List.take_of_length_le (Nat.le_refl _), List.take_of_length_le (by omega), eq_comm] at heq
  · exact Or.inr hlt

end Placing

section Blocked

variable {R : String → String → Prop} {members placed : List String}

-- A module on a cycle, or after one, can never be placed.
def Blocked (R : String → String → Prop) (module : String) : Prop :=
  ∃ origin, Relation.TransGen R origin origin ∧ Relation.ReflTransGen R origin module

-- Nothing more can be placed.
def Stuck (R : String → String → Prop) (members placed : List String) : Prop :=
  ∀ module, ¬ Free R members placed module

theorem Blocked.mono {S : String → String → Prop} (h : ∀ a b, R a b → S a b) {module : String}
    (hb : Blocked R module) : Blocked S module := by
  obtain ⟨origin, hcycle, hreach⟩ := hb
  exact ⟨origin, Relation.TransGen.mono h _ _ hcycle, Relation.ReflTransGen.mono h _ _ hreach⟩

theorem Placing.acc (h : Placing (Free R members) placed) {module : String}
    (hm : module ∈ placed) : Acc R module := by
  obtain ⟨i, hi, rfl⟩ := List.getElem_of_mem hm
  induction i using Nat.strongRecOn with
  | _ i ih =>
      refine Acc.intro _ fun earlier hr => ?_
      obtain ⟨j, hj, rfl⟩ := List.mem_take_iff_getElem.mp ((h i hi).2.2 earlier hr)
      exact ih j (by omega) (by omega) (List.getElem_mem _)

theorem not_blocked_of_acc {module : String} (h : Acc R module) : ¬ Blocked R module := by
  rintro ⟨origin, hcycle, hreach⟩
  have hacc : Acc (Relation.TransGen R) origin := by
    rcases Relation.reflTransGen_iff_eq_or_transGen.mp hreach with rfl | hlater
    · exact h.transGen
    · exact h.transGen.inv hlater
  induction hacc with
  | intro origin _ ih => exact ih origin hcycle hcycle hreach

theorem Placing.not_blocked (h : Placing (Free R members) placed) {module : String}
    (hm : module ∈ placed) : ¬ Blocked R module :=
  not_blocked_of_acc (h.acc hm)

theorem Blocked.exists_before {module : String} (h : Blocked R module) :
    ∃ earlier, R earlier module ∧ Blocked R earlier := by
  obtain ⟨origin, hcycle, hreach⟩ := h
  rcases Relation.ReflTransGen.cases_tail hreach with rfl | ⟨earlier, hearlier, he⟩
  · obtain ⟨earlier, hearlier, he⟩ := Relation.TransGen.tail'_iff.mp hcycle
    exact ⟨earlier, he, _, hcycle, hearlier⟩
  · exact ⟨earlier, he, origin, hcycle, hearlier⟩

-- There are finitely many members. So going back from one either ends or comes to a cycle.
theorem acc_of_not_blocked (hr : ∀ earlier later, R earlier later → earlier ∈ members)
    {module : String} (hm : module ∈ members) (hn : ¬ Blocked R module) : Acc R module := by
  let Upstream : {m // m ∈ members} → {m // m ∈ members} → Prop :=
    fun a b => Relation.TransGen R a b ∧ Relation.ReflTransGen R b module
  have : Finite {m // m ∈ members} := members.finite_toSet
  have : IsTrans _ Upstream := ⟨fun _ _ _ hab hbc => ⟨hab.1.trans hbc.1, hbc.2⟩⟩
  have : Std.Irrefl Upstream := ⟨fun a ha => hn ⟨a, ha⟩⟩
  have hwf : WellFounded Upstream := Finite.wellFounded_of_trans_of_irrefl Upstream
  have hacc : ∀ a : {m // m ∈ members}, Relation.ReflTransGen R a module → Acc R a := by
    intro a
    induction a using hwf.induction with
    | _ a ih =>
        intro ha
        refine Acc.intro _ fun earlier he => ?_
        exact ih ⟨earlier, hr _ _ he⟩ ⟨Relation.TransGen.single he, ha⟩ (ha.head he)
  exact hacc ⟨module, hm⟩ Relation.ReflTransGen.refl

private theorem Stuck.exists_unplaced (h : Stuck R members placed) {module : String}
    (hm : module ∈ members) (hn : module ∉ placed) :
    ∃ earlier, R earlier module ∧ earlier ∉ placed := by
  by_contra hnone
  push Not at hnone
  exact h module ⟨hm, hn, hnone⟩

theorem Stuck.not_mem_iff_blocked (h : Stuck R members placed)
    (hp : Placing (Free R members) placed)
    (hr : ∀ earlier later, R earlier later → earlier ∈ members) {module : String}
    (hm : module ∈ members) : module ∉ placed ↔ Blocked R module := by
  constructor
  · intro hn
    by_contra hb
    have hacc := acc_of_not_blocked hr hm hb
    induction hacc with
    | intro module _ ih =>
        obtain ⟨earlier, he, hne⟩ := h.exists_unplaced hm hn
        exact ih earlier he (hr _ _ he) hne fun hb' => hb (hb'.imp fun _ ho => ⟨ho.1, ho.2.tail he⟩)
  · exact fun hb hm' => hp.not_blocked hm' hb

theorem First.unique {rank : String → Rank} {P : String → Prop} {a b : String}
    (ha : First rank P a) (hb : First rank P b) : a = b := by
  rcases ha.2 b hb.1 with rfl | hab
  · rfl
  · rcases hb.2 a ha.1 with rfl | hba
    · rfl
    · exact absurd hba (Rank.lt_asymm hab)

theorem Greedy.unique {rank : String → Rank} {placed other : List String}
    (h : Greedy rank R members placed) (ho : Greedy rank R members other)
    (hs : Stuck R members placed) (hso : Stuck R members other) : placed = other := by
  have htake : ∀ n, placed.take n = other.take n := by
    intro n
    induction n with
    | zero => rfl
    | succ n ih =>
        by_cases hn : n < placed.length <;> by_cases hn' : n < other.length
        · have hsame : placed[n] = other[n] := (h n hn).unique (ih ▸ ho n hn')
          rw [← List.take_append_getElem hn, ← List.take_append_getElem hn', ih, hsame]
        · rw [List.take_of_length_le (i := n) (l := other) (by omega)] at ih
          exact absurd (ih ▸ (h n hn).1) (hso _)
        · rw [List.take_of_length_le (i := n) (l := placed) (by omega)] at ih
          exact absurd (ih ▸ (ho n hn').1) (hs _)
        · rwa [List.take_of_length_le (by omega), List.take_of_length_le (by omega)] at ih ⊢
  have hall := htake (placed.length + other.length)
  rwa [List.take_of_length_le (by omega), List.take_of_length_le (by omega)] at hall

end Blocked

end Activation.Placement
