import Activation.Proofs.Order.Cycle
import Activation.Proofs.Order.Placement

namespace Activation

namespace Placement

variable {R : String → String → Prop} {xs ys placed : List String}

theorem free_congr (R : String → String → Prop) (h : ∀ module, module ∈ xs ↔ module ∈ ys) :
    Free R xs = Free R ys := by
  funext placed module
  rw [Free, Free, h]

theorem stuck_congr (R : String → String → Prop) (h : ∀ module, module ∈ xs ↔ module ∈ ys)
    (placed : List String) : Stuck R xs placed ↔ Stuck R ys placed := by
  rw [Stuck, Stuck, free_congr R h]

theorem greedy_congr {ρ : Type} [LT ρ] (rank : String → ρ) (R : String → String → Prop)
    (h : ∀ module, module ∈ xs ↔ module ∈ ys) (placed : List String) :
    Greedy rank R xs placed ↔ Greedy rank R ys placed := by
  rw [Greedy, Greedy, free_congr R h]

theorem stuck_of_all (h : ∀ module ∈ xs, module ∈ placed) : Stuck R xs placed :=
  fun module hfree => hfree.2.1 (h module hfree.1)

-- From the first blocked module to its first blocked predecessor, and on from there.
structure Descent {ρ : Type} [LT ρ] (rank : String → ρ) (R : String → String → Prop)
    (trail : Nat → String) : Prop where
  first : First rank (Blocked R) (trail 0)
  next : ∀ n,
    First rank (fun earlier => Blocked R earlier ∧ R earlier (trail n)) (trail (n + 1))

theorem Descent.of_lt {ρ σ : Type} [LT ρ] [LT σ] {rank : String → ρ} {key : String → σ}
    {R : String → String → Prop} {trail : Nat → String} (h : Descent rank R trail)
    (hkey : ∀ a b, Blocked R a → Blocked R b → rank a < rank b → key a < key b) :
    Descent key R trail :=
  ⟨h.first.of_lt hkey, fun n => (h.next n).of_lt fun a b ha hb => hkey a b ha.1 hb.1⟩

theorem Descent.unique {rank : String → Rank} {trail other : Nat → String}
    (h : Descent rank R trail) (ho : Descent rank R other) : trail = other := by
  funext n
  induction n with
  | zero => exact h.first.unique ho.first
  | succ n ih => exact (h.next n).unique (ih ▸ ho.next n)

variable {rank : String → Rank} {names : List String}

private theorem first_of_byRank {first : String} {rest : List String}
    (hrank : Function.Injective rank) (h : byRank rank names = first :: rest) :
    First rank (· ∈ names) first := by
  have hpairwise := pairwise_byRank hrank names
  rw [h, List.pairwise_cons] at hpairwise
  refine ⟨mem_byRank.mp (h ▸ List.mem_cons_self), fun other ho => ?_⟩
  rcases List.mem_cons.mp (h ▸ mem_byRank.mpr ho) with rfl | hm
  · exact Or.inl rfl
  · exact Or.inr (hpairwise.1 other hm)

private theorem first_of_find? {test : String → Bool} {module : String}
    (hpairwise : names.Pairwise fun a b => rank a < rank b)
    (h : names.find? test = some module) :
    First rank (fun name => name ∈ names ∧ test name = true) module := by
  obtain ⟨htest, before, after, rfl, hbefore⟩ := List.find?_eq_some_iff_append.mp h
  refine ⟨⟨by simp, htest⟩, fun other ⟨hm, ho⟩ => ?_⟩
  have hafter := (List.pairwise_cons.mp (List.pairwise_append.mp hpairwise).2.1).1
  rcases List.mem_append.mp hm with hm | hm
  · have hn := hbefore other hm
    rw [ho] at hn
    cases hn
  · rcases List.mem_cons.mp hm with rfl | hm
    · exact Or.inl rfl
    · exact Or.inr (hafter other hm)

end Placement

namespace Precedence

open Placement Activation.Cycle

variable (precedence : Precedence) (modules : List String)

def final : Placement :=
  Placement.ofLinks precedence.rank (precedence.links (Name.distinct modules))

theorem before_congr {xs ys : List String} (h : ∀ module, module ∈ xs ↔ module ∈ ys) :
    precedence.Before xs = precedence.Before ys := by
  funext earlier later
  rw [Before, Before, h, h]

theorem edge_eq_before :
    (precedence.links (Name.distinct modules)).Edge = precedence.Before modules := by
  funext earlier later
  rw [propext (precedence.edge_links _ earlier later),
    precedence.before_congr fun _ => Name.mem_distinct]

theorem ranked_distinct :
    (precedence.links (Name.distinct modules)).Ranked precedence.rank :=
  precedence.ranked_links (Name.nodup_distinct modules)

@[simp]
theorem length_links :
    (precedence.links (Name.distinct modules)).length = (Name.distinct modules).length := by
  rw [← congrArg List.length (precedence.members_links (Name.distinct modules)), Links.members,
    List.length_map]

theorem final_invariant :
    Placement.Invariant precedence.rank (precedence.links (Name.distinct modules))
      (precedence.final modules) ∧ (precedence.final modules).ready = [] :=
  ofLinks_invariant precedence.rank_injective (precedence.ranked_distinct modules)

theorem final_greedy :
    Greedy precedence.rank (precedence.Before modules) modules
      (precedence.final modules).placed := by
  have h := (precedence.final_invariant modules).1.greedy
  rw [edge_eq_before, members_links] at h
  exact (greedy_congr _ _ (fun _ => Name.mem_distinct) _).mp h

theorem final_stuck :
    Stuck (precedence.Before modules) modules (precedence.final modules).placed := by
  obtain ⟨h, hready⟩ := precedence.final_invariant modules
  have hstuck := h.stuck hready
  rw [edge_eq_before, members_links] at hstuck
  exact (stuck_congr _ (fun _ => Name.mem_distinct) _).mp hstuck

variable {precedence modules}

theorem mem_of_before {earlier later : String} (h : precedence.Before modules earlier later) :
    earlier ∈ modules := h.1

theorem mem_of_blocked {module : String} (h : Blocked (precedence.Before modules) module) :
    module ∈ modules := by
  obtain ⟨origin, hcycle, hreach⟩ := h
  rcases Relation.ReflTransGen.cases_tail hreach with rfl | ⟨earlier, -, he⟩
  · obtain ⟨later, he, -⟩ := Relation.TransGen.head'_iff.mp hcycle
    exact he.1
  · exact he.2.1

variable (precedence modules)

theorem notMem_placed_iff_blocked {module : String} (hm : module ∈ modules) :
    module ∉ (precedence.final modules).placed ↔ Blocked (precedence.Before modules) module :=
  (precedence.final_stuck modules).not_mem_iff_blocked (precedence.final_greedy modules).free
    (fun _ _ => mem_of_before) hm

theorem mem_waiting_iff_blocked (module : String) :
    module ∈ (precedence.final modules).waiting ↔
      Blocked (precedence.Before modules) module := by
  obtain ⟨h, hready⟩ := precedence.final_invariant modules
  rw [h.mem_waiting_iff (precedence.ranked_distinct modules) hready, members_links,
    Name.mem_distinct]
  constructor
  · rintro ⟨hm, hn⟩
    exact (precedence.notMem_placed_iff_blocked modules hm).mp hn
  · intro hb
    have hm := mem_of_blocked hb
    exact ⟨hm, (precedence.notMem_placed_iff_blocked modules hm).mpr hb⟩

theorem placed_length_lt_iff :
    (precedence.final modules).placed.length < (Name.distinct modules).length ↔
      ∃ module, Blocked (precedence.Before modules) module := by
  have hfree := (precedence.final_greedy modules).free
  have hsub : (precedence.final modules).placed ⊆ Name.distinct modules :=
    fun _ hm => Name.mem_distinct.mpr (hfree.mem_members hm)
  have hsubperm := hfree.nodup.subperm hsub
  constructor
  · intro hlt
    by_contra hnone
    have hall : Name.distinct modules ⊆ (precedence.final modules).placed := by
      intro module hm
      by_contra hn
      have hm' := Name.mem_distinct.mp hm
      exact hnone ⟨module, (precedence.notMem_placed_iff_blocked modules hm').mp hn⟩
    have hle := ((Name.nodup_distinct modules).subperm hall).length_le
    omega
  · rintro ⟨module, hb⟩
    have hm := mem_of_blocked hb
    by_contra hge
    have hperm := hsubperm.perm_of_length_le (Nat.le_of_not_lt hge)
    have hn := (precedence.notMem_placed_iff_blocked modules hm).mpr hb
    exact hn (hperm.mem_iff.mpr (Name.mem_distinct.mpr hm))

theorem sort_of_not_blocked (h : ¬ ∃ module, Blocked (precedence.Before modules) module) :
    precedence.sort modules = .ok (precedence.final modules).placed := by
  have hlength := mt (precedence.placed_length_lt_iff modules).mp h
  rw [final] at hlength ⊢
  rw [sort_eq, arrange]
  simp only [hlength, if_false]
  rfl

theorem sort_of_blocked (h : ∃ module, Blocked (precedence.Before modules) module) :
    precedence.sort modules = .error (.orderingCycle
      (Cycle.find (byRank precedence.rank (precedence.final modules).waiting)
        (precedence.links (Name.distinct modules)).predecessors
        (precedence.final modules).waiting)) := by
  have hlength := (precedence.placed_length_lt_iff modules).mpr h
  rw [final] at hlength ⊢
  rw [sort_eq, arrange]
  simp only [hlength, if_true]
  rfl

theorem exists_waiting_predecessor :
    ∀ module ∈ (precedence.final modules).waiting,
      ∃ earlier ∈ (precedence.links (Name.distinct modules)).predecessors module,
        earlier ∈ (precedence.final modules).waiting := by
  intro module hm
  obtain ⟨earlier, he, hb⟩ :=
    ((precedence.mem_waiting_iff_blocked modules module).mp hm).exists_before
  rw [← precedence.edge_eq_before] at he
  exact ⟨earlier, he, (precedence.mem_waiting_iff_blocked modules earlier).mpr hb⟩

theorem find_closes (h : ∃ module, Blocked (precedence.Before modules) module) :
    ∃ first rest, byRank precedence.rank (precedence.final modules).waiting = first :: rest ∧
      Closes (precedence.links (Name.distinct modules)).predecessors
        (precedence.final modules).waiting [first] first
        (Cycle.find (byRank precedence.rank (precedence.final modules).waiting)
          (precedence.links (Name.distinct modules)).predecessors
          (precedence.final modules).waiting) := by
  obtain ⟨module, hb⟩ := h
  have hm := (precedence.mem_waiting_iff_blocked modules module).mpr hb
  cases hrank : byRank precedence.rank (precedence.final modules).waiting with
  | nil =>
      rw [← mem_byRank, hrank] at hm
      exact absurd hm List.not_mem_nil
  | cons first rest =>
      have hfirst : first ∈ (precedence.final modules).waiting :=
        mem_byRank.mp (hrank ▸ List.mem_cons_self)
      exact ⟨first, rest, rfl,
        walk_closes (precedence.exists_waiting_predecessor modules) [first] first hfirst⟩

-- Every list of predecessors is in the order of ranks. So the first that waits is the first of all
-- that are blocked.
theorem descent_follow {first : String} {rest : List String}
    (h : byRank precedence.rank (precedence.final modules).waiting = first :: rest) :
    Descent precedence.rank (precedence.Before modules)
      (follow (precedence.links (Name.distinct modules)).predecessors
        (precedence.final modules).waiting first) := by
  have hfirst := first_of_byRank precedence.rank_injective h
  refine ⟨(First.congr (precedence.mem_waiting_iff_blocked modules) _).mp hfirst, fun n => ?_⟩
  have hfind := (find?_follow (precedence.exists_waiting_predecessor modules) hfirst.1 n).2
  have hnext := first_of_find? ((precedence.ranked_distinct modules).ranked _) hfind
  refine (First.congr (fun earlier => ?_) _).mp hnext
  rw [decide_eq_true_eq, mem_waiting_iff_blocked, ← edge_eq_before, and_comm]
  rfl

theorem find_firstLoop (h : ∃ module, Blocked (precedence.Before modules) module) :
    ∃ trail, Descent precedence.rank (precedence.Before modules) trail ∧
      FirstLoop trail (Cycle.find (byRank precedence.rank (precedence.final modules).waiting)
        (precedence.links (Name.distinct modules)).predecessors
        (precedence.final modules).waiting) := by
  obtain ⟨first, rest, hrank, -⟩ := precedence.find_closes modules h
  have hfirst := (first_of_byRank precedence.rank_injective hrank).1
  refine ⟨_, precedence.descent_follow modules hrank, ?_⟩
  rw [hrank]
  exact walk_firstLoop (precedence.exists_waiting_predecessor modules) hfirst

theorem sort_ok_iff (sorted : List String) :
    precedence.sort modules = .ok sorted ↔
      Greedy precedence.rank (precedence.Before modules) modules sorted ∧
        ∀ module ∈ modules, module ∈ sorted := by
  constructor
  · intro h
    by_cases hb : ∃ module, Blocked (precedence.Before modules) module
    · rw [precedence.sort_of_blocked modules hb] at h
      cases h
    · rw [precedence.sort_of_not_blocked modules hb] at h
      obtain rfl := Except.ok.inj h
      refine ⟨precedence.final_greedy modules, fun module hm => ?_⟩
      by_contra hn
      exact hb ⟨module, (precedence.notMem_placed_iff_blocked modules hm).mp hn⟩
  · rintro ⟨hgreedy, hall⟩
    have hnone : ¬ ∃ module, Blocked (precedence.Before modules) module := by
      rintro ⟨module, hb⟩
      exact hgreedy.free.not_blocked (hall module (mem_of_blocked hb)) hb
    rw [precedence.sort_of_not_blocked modules hnone, (precedence.final_greedy modules).unique
      hgreedy (precedence.final_stuck modules) (stuck_of_all hall)]

theorem sort_error_iff (error : Error) :
    precedence.sort modules = .error error ↔
      ∃ trail loop, Descent precedence.rank (precedence.Before modules) trail ∧
        FirstLoop trail loop ∧ error = .orderingCycle loop := by
  constructor
  · intro h
    by_cases hb : ∃ module, Blocked (precedence.Before modules) module
    · obtain ⟨trail, hdescent, hloop⟩ := precedence.find_firstLoop modules hb
      rw [precedence.sort_of_blocked modules hb] at h
      exact ⟨trail, _, hdescent, hloop, (Except.error.inj h).symm⟩
    · rw [precedence.sort_of_not_blocked modules hb] at h
      cases h
  · rintro ⟨trail, loop, hdescent, hloop, rfl⟩
    have hb : ∃ module, Blocked (precedence.Before modules) module := ⟨_, hdescent.first.1⟩
    obtain ⟨other, hother, hfind⟩ := precedence.find_firstLoop modules hb
    rw [precedence.sort_of_blocked modules hb]
    rw [hother.unique hdescent] at hfind
    rw [hfind.unique hloop]

-- Two precedences that decide alike between the modules of a list.
structure Agrees (precedence other : Precedence) (modules : List String) : Prop where
  rank : ∀ a ∈ modules, ∀ b ∈ modules,
    (precedence.rank a < precedence.rank b ↔ other.rank a < other.rank b)
  constrains : ∀ a ∈ modules, ∀ b ∈ modules,
    (precedence.Constrains a b ↔ other.Constrains a b)

variable {precedence} {other : Precedence} {xs ys : List String}

theorem Agrees.refl : precedence.Agrees precedence xs :=
  ⟨fun _ _ _ _ => Iff.rfl, fun _ _ _ _ => Iff.rfl⟩

theorem Agrees.before_eq (h : precedence.Agrees other xs)
    (hmem : ∀ module, module ∈ xs ↔ module ∈ ys) : precedence.Before xs = other.Before ys := by
  rw [← other.before_congr hmem]
  funext a b
  exact propext (and_congr_right fun ha => and_congr_right fun hb => h.constrains a ha b hb)

theorem Agrees.sort_eq (h : precedence.Agrees other xs)
    (hmem : ∀ module, module ∈ xs ↔ module ∈ ys) : precedence.sort xs = other.sort ys := by
  have hbefore := h.before_eq hmem
  cases hx : precedence.sort xs with
  | ok sorted =>
      obtain ⟨hgreedy, hall⟩ := (precedence.sort_ok_iff xs sorted).mp hx
      have hother := hgreedy.of_lt fun a ha b hb => (h.rank a ha b hb).mp
      rw [hbefore, greedy_congr _ _ hmem] at hother
      exact ((other.sort_ok_iff ys sorted).mpr
        ⟨hother, fun module hm => hall module ((hmem module).mpr hm)⟩).symm
  | error error =>
      obtain ⟨trail, loop, hdescent, hloop, rfl⟩ := (precedence.sort_error_iff xs error).mp hx
      have hother := hdescent.of_lt fun a b ha hb =>
        (h.rank a (mem_of_blocked ha) b (mem_of_blocked hb)).mp
      rw [hbefore] at hother
      exact ((other.sort_error_iff ys _).mpr ⟨trail, loop, hother, hloop, rfl⟩).symm

theorem sort_congr (precedence : Precedence) (h : ∀ module, module ∈ xs ↔ module ∈ ys) :
    precedence.sort xs = precedence.sort ys :=
  Agrees.refl.sort_eq h

end Precedence

end Activation
