import Activation.Proofs.Order.Sort

namespace Activation

namespace Placement

variable {ρ : Type} [LT ρ] {rank : String → ρ} {R : String → String → Prop}
  {members placed : List String}

theorem exists_blocked_iff :
    (∃ module, Blocked R module) ↔ ∃ module, Relation.TransGen R module module :=
  ⟨fun ⟨_, origin, hcycle, _⟩ => ⟨origin, hcycle⟩,
    fun ⟨module, hcycle⟩ => ⟨module, module, hcycle, Relation.ReflTransGen.refl⟩⟩

theorem Greedy.pairwise (h : Greedy rank R members placed) (hr : ∀ a b, ¬ R a b) :
    placed.Pairwise fun a b => rank a < rank b := by
  rw [List.pairwise_iff_getElem]
  intro i j hi hj hij
  have hnodup := h.free.nodup
  have hfree : Free R members (placed.take i) placed[j] := by
    refine ⟨h.free.mem_members (List.getElem_mem hj), fun hm => ?_, fun a ha => absurd ha (hr a _)⟩
    have hlt := idxOf_lt_of_mem_take hm
    rw [hnodup.idxOf_getElem] at hlt
    omega
  rcases (h i hi).2 placed[j] hfree with he | hlt
  · have heq := hnodup.getElem_inj_iff.mp he
    omega
  · exact hlt

theorem greedy_of_pairwise {rank : String → Rank} (h : members.Pairwise fun a b => rank a < rank b)
    (hr : ∀ a b, ¬ R a b) : Greedy rank R members members := by
  intro i hi
  have hnodup := nodup_of_pairwise_rank h
  refine ⟨⟨List.getElem_mem hi, fun hm => ?_, fun a ha => absurd ha (hr a _)⟩, fun other ho => ?_⟩
  · have hlt := idxOf_lt_of_mem_take hm
    rw [hnodup.idxOf_getElem] at hlt
    exact absurd hlt (Nat.lt_irrefl i)
  · obtain ⟨j, hj, rfl⟩ := List.getElem_of_mem ho.1
    rcases Nat.lt_trichotomy i j with hlt | rfl | hgt
    · exact Or.inr (List.pairwise_iff_getElem.mp h i j hi hj hlt)
    · exact Or.inl rfl
    · exact absurd (List.mem_take_iff_getElem.mpr ⟨j, by omega, rfl⟩) ho.2.1

private theorem First.of_lt_iff {σ : Type} [LT σ] {key : String → σ}
    (hkey : ∀ a b, rank a < rank b ↔ key a < key b) {P : String → Prop} {module : String}
    (h : First rank P module) : First key P module :=
  h.of_lt fun a b _ _ => (hkey a b).mp

end Placement

namespace Precedence

open Placement Activation.Cycle

theorem rank_lt_iff_key_lt (precedence : Precedence) (a b : String) :
    precedence.rank a < precedence.rank b ↔ precedence.key a < precedence.key b :=
  Rank.lt_iff_key_lt _ _

private theorem greedy_key {precedence : Precedence} {modules sorted : List String}
    (h : precedence.sort modules = .ok sorted) :
    Greedy precedence.key (precedence.Before modules) modules sorted :=
  ((precedence.sort_ok_iff modules sorted).mp h).1.mono fun _ _ hfirst =>
    hfirst.of_lt_iff precedence.rank_lt_iff_key_lt

theorem arrangement_of_sort {precedence : Precedence} {modules sorted : List String}
    (h : precedence.sort modules = .ok sorted) :
    Arrangement (precedence.Before modules) modules sorted := by
  obtain ⟨hgreedy, hall⟩ := (precedence.sort_ok_iff modules sorted).mp h
  exact hgreedy.free.arrangement (fun _ _ hb => hb.2.1) hall

theorem sort_of_pairwise {precedence : Precedence} {modules : List String}
    (h : modules.Pairwise fun a b => precedence.rank a < precedence.rank b)
    (hfree : ∀ a b, ¬ precedence.Before modules a b) : precedence.sort modules = .ok modules :=
  (precedence.sort_ok_iff modules modules).mpr
    ⟨Placement.greedy_of_pairwise h hfree, fun _ hm => hm⟩

theorem sort_singleton_of_constrains {precedence : Precedence} {module : String}
    (h : precedence.Constrains module module) :
    precedence.sort [module] = .error (.orderingCycle [module]) := by
  have hr : precedence.Before [module] module module :=
    ⟨List.mem_singleton_self module, List.mem_singleton_self module, h⟩
  have hb : Blocked (precedence.Before [module]) module :=
    ⟨module, Relation.TransGen.single hr, Relation.ReflTransGen.refl⟩
  have honly : ∀ other, Blocked (precedence.Before [module]) other → other = module :=
    fun other ho => List.mem_singleton.mp (mem_of_blocked ho)
  have hdescent : Descent precedence.rank (precedence.Before [module]) fun _ => module :=
    ⟨⟨hb, fun other ho => Or.inl (honly other ho)⟩, fun _ =>
      ⟨⟨hb, hr⟩, fun other ho => Or.inl (honly other ho.1)⟩⟩
  have hloop : FirstLoop (fun _ => module) [module] :=
    ⟨0, 1, Nat.one_pos, fun i j hij hj => by omega, rfl, rfl⟩
  exact (precedence.sort_error_iff [module] _).mpr ⟨_, _, hdescent, hloop, rfl⟩

-- Sorting succeeds exactly where the constraints have no cycle, and then keeps to all of them.
theorem sort_succeeds_iff_acyclic (precedence : Precedence) (modules : List String) :
    ((∃ sorted, precedence.sort modules = .ok sorted) ↔
      ¬ ∃ module, Relation.TransGen (precedence.Before modules) module module) ∧
    ((∃ module, Relation.TransGen (precedence.Before modules) module module) →
      ∃ members, precedence.sort modules = .error (.orderingCycle members)) ∧
    ∀ sorted, precedence.sort modules = .ok sorted →
      Arrangement (precedence.Before modules) modules sorted := by
  rw [← exists_blocked_iff]
  refine ⟨⟨?_, ?_⟩, ?_, fun sorted h => arrangement_of_sort h⟩
  · rintro ⟨sorted, h⟩ hb
    rw [precedence.sort_of_blocked modules hb] at h
    cases h
  · exact fun hb => ⟨_, precedence.sort_of_not_blocked modules hb⟩
  · exact fun hb => ⟨_, precedence.sort_of_blocked modules hb⟩

-- The order that is chosen is the least of all that keep to the constraints, as every position
-- takes the least module that is free.
theorem sort_least (precedence : Precedence) (modules sorted : List String)
    (h : precedence.sort modules = .ok sorted) :
    (∀ i (hi : i < sorted.length),
      First precedence.key (Free (precedence.Before modules) modules (sorted.take i)) sorted[i]) ∧
    Arrangement (precedence.Before modules) modules sorted ∧
    (∀ order, Arrangement (precedence.Before modules) modules order →
      order = sorted ∨ sorted.map precedence.key < order.map precedence.key) ∧
    ((∀ earlier later, ¬ precedence.Before modules earlier later) →
      sorted.Pairwise fun a b => precedence.key a < precedence.key b) ∧
    (∀ metadata declared, precedence = ofDeclared metadata declared → ∀ module,
      precedence.key module = toLex (metadata.orderOf module,
        toLex (Rank.place (declared.idxOf? module), Text.bytes module))) ∧
    ∀ catalog point metadata, precedence = ofCatalog catalog point metadata → ∀ module,
      precedence.key module = toLex (metadata.orderOf module,
        toLex (Rank.place ((catalog.modules point).idxOf? module), Text.bytes module)) := by
  have hgreedy := greedy_key h
  have harranged := arrangement_of_sort h
  refine ⟨hgreedy, harranged, fun order horder => ?_, hgreedy.pairwise, ?_, ?_⟩
  · exact hgreedy.least (fun module hm => (harranged.mem_iff module).mpr hm) horder
  · rintro metadata declared rfl module
    rw [key, rank_ofDeclared]
    rfl
  · rintro catalog point metadata rfl module
    rw [key, rank_ofCatalog]
    rfl

-- "b" comes after "a", and "c" is put before both by its order.
def lateFirst : Precedence :=
  .ofDeclared ((Metadata.empty.insert "b" { after := ["a"] }).insert "c" { order := some (-1) })
    ["a", "b", "c"]

theorem sort_least_lateFirst :
    lateFirst.sort ["b", "a", "c", "a"] = .ok ["c", "a", "b"] ∧
      ∀ order, Arrangement (lateFirst.Before ["b", "a", "c", "a"]) ["b", "a", "c", "a"] order →
        order = ["c", "a", "b"] ∨
          ["c", "a", "b"].map lateFirst.key < order.map lateFirst.key := by
  have h : lateFirst.sort ["b", "a", "c", "a"] = .ok ["c", "a", "b"] := by decide
  exact ⟨h, (sort_least lateFirst _ _ h).2.2.1⟩

-- The modules of a reported cycle form one, and it is the one that the descent from the least
-- blocked module runs into. The walk through them never lacks a next module.
theorem sort_error_loop (precedence : Precedence) (modules : List String) (error : Error)
    (h : precedence.sort modules = .error error) :
    ∃ members, error = .orderingCycle members ∧
      Loop (precedence.Before modules) members ∧ (∀ module ∈ members, module ∈ modules) ∧
      (∃ trail, Descent precedence.key (precedence.Before modules) trail ∧
        FirstLoop trail members) ∧
      (∀ module, module ∈ (precedence.final modules).waiting ↔
        module ∈ modules ∧ Blocked (precedence.Before modules) module) ∧
      ∃ first rest, byRank precedence.rank (precedence.final modules).waiting = first :: rest ∧
        Closes (precedence.links (Name.distinct modules)).predecessors
          (precedence.final modules).waiting [first] first members := by
  have hb : ∃ module, Blocked (precedence.Before modules) module := by
    by_contra hn
    rw [precedence.sort_of_not_blocked modules hn] at h
    cases h
  rw [precedence.sort_of_blocked modules hb] at h
  obtain ⟨trail, hdescent, hloop⟩ := precedence.find_firstLoop modules hb
  have hmembers := hloop.isLoop fun n => (hdescent.next n).1.2
  refine ⟨_, (Except.error.inj h).symm, hmembers, hmembers.mem_of_rel fun _ _ hr => hr.2.1,
    ⟨trail, ⟨?_, fun n => ?_⟩, hloop⟩, fun module => ?_, precedence.find_closes modules hb⟩
  · exact hdescent.first.of_lt_iff precedence.rank_lt_iff_key_lt
  · exact (hdescent.next n).of_lt_iff precedence.rank_lt_iff_key_lt
  · rw [mem_waiting_iff_blocked]
    exact ⟨fun hm => ⟨mem_of_blocked hm, hm⟩, fun hm => hm.2⟩

-- "a" and "b" keep each other waiting, and "c", which is the first by rank, only waits for "b".
def mutualBefore : Precedence :=
  .ofDeclared ((Metadata.empty.insert "a" { before := ["b"] }).insert "b"
    { before := ["a", "c"] }) ["c", "a", "b"]

theorem sort_error_loop_mutualBefore :
    mutualBefore.sort ["a", "b", "c"] = .error (.orderingCycle ["b", "a"]) ∧
      ∃ members, Error.orderingCycle ["b", "a"] = .orderingCycle members ∧
        Loop (mutualBefore.Before ["a", "b", "c"]) members ∧
        ∃ trail, Descent mutualBefore.key (mutualBefore.Before ["a", "b", "c"]) trail ∧
          FirstLoop trail members := by
  let predecessors := (mutualBefore.links ["a", "b", "c"]).predecessors
  have hfind : Cycle.find ["c", "a", "b"] predecessors ["a", "b", "c"] = ["b", "a"] := by
    have hc : (predecessors "c").find? (· ∈ ["a", "b", "c"]) = some "b" := by decide
    have hb : (predecessors "b").find? (· ∈ ["a", "b", "c"]) = some "a" := by decide
    have ha : (predecessors "a").find? (· ∈ ["a", "b", "c"]) = some "b" := by decide
    rw [Cycle.find, walk_of_find hc, if_neg (by decide), walk_of_find hb, if_neg (by decide),
      walk_of_find ha, if_pos (by decide)]
    decide
  have h : mutualBefore.sort ["a", "b", "c"] = .error (.orderingCycle ["b", "a"]) := by
    have hsort : mutualBefore.sort ["a", "b", "c"] =
        .error (.orderingCycle (Cycle.find ["c", "a", "b"] predecessors ["a", "b", "c"])) := rfl
    rw [hsort, hfind]
  obtain ⟨members, he, hloop, _, htrail, _⟩ := sort_error_loop mutualBefore _ _ h
  exact ⟨h, members, he, hloop, htrail⟩

end Precedence

end Activation
