import Activation.Proofs.Order.Greedy
import Activation.Proofs.Order.Links

namespace Activation.Placement

variable {rank : String → Rank} {links : Links} {placement : Placement}

-- The predecessors of a member that it still waits for.
def awaited (links : Links) (placed : List String) (member : String) : List String :=
  (links.predecessors member).filter fun earlier => decide (earlier ∉ placed)

structure Invariant (rank : String → Rank) (links : Links) (placement : Placement) : Prop where
  greedy : Greedy rank links.Edge links.members placement.placed
  keys : (placement.pending.map Prod.fst).Perm links.members
  pending : ∀ member ∈ links.members,
    placement.pendingOf member = (awaited links placement.placed member).length
  ranked : placement.ready.Pairwise fun a b => rank a < rank b
  ready : ∀ member,
    member ∈ placement.ready ↔ Free links.Edge links.members placement.placed member

theorem awaited_eq_nil_iff (placed : List String) (member : String) :
    awaited links placed member = [] ↔ ∀ earlier, links.Edge earlier member → earlier ∈ placed := by
  simp [awaited, List.filter_eq_nil_iff, Links.Edge]

theorem Invariant.free_iff (h : Invariant rank links placement) (member : String) :
    Free links.Edge links.members placement.placed member ↔
      member ∈ links.members ∧ member ∉ placement.placed ∧ placement.pendingOf member = 0 := by
  rw [Free, ← awaited_eq_nil_iff, ← List.length_eq_zero_iff]
  constructor
  · exact fun ⟨hm, hn, ha⟩ => ⟨hm, hn, (h.pending member hm).trans ha⟩
  · exact fun ⟨hm, hn, ha⟩ => ⟨hm, hn, (h.pending member hm).symm.trans ha⟩

theorem mem_filterMap_pending (hn : (placement.pending.map Prod.fst).Nodup) (P : Nat → Prop)
    [DecidablePred P] (member : String) :
    member ∈ placement.pending.filterMap
        (fun entry => if P entry.2 then some entry.1 else none) ↔
      member ∈ placement.pending.map Prod.fst ∧ P (placement.pendingOf member) := by
  rw [Name.mem_filterMap_value hn, pendingOf]
  constructor
  · rintro ⟨count, hl, hp⟩
    rw [hl]
    exact ⟨List.mem_map_of_mem (Name.mem_of_lookup hl), hp⟩
  · rintro ⟨hm, hp⟩
    obtain ⟨entry, he, rfl⟩ := List.mem_map.mp hm
    have hl : placement.pending.lookup entry.1 = some entry.2 := Name.lookup_of_mem hn he
    rw [hl] at hp
    exact ⟨entry.2, hl, hp⟩

def startFrom (rank : String → Rank) (pending : List (String × Nat)) : Placement :=
  ⟨[], pending,
    byRank rank (pending.filterMap fun entry => if entry.2 = 0 then some entry.1 else none)⟩

theorem start_eq_startFrom (rank : String → Rank) (links : Links) :
    start rank links = startFrom rank links.counts :=
  rfl

theorem startFrom_invariant (hrank : Function.Injective rank) (hlinks : links.Ranked rank)
    {pending : List (String × Nat)} (hpending : pending.Perm links.counts) :
    Invariant rank links (startFrom rank pending) := by
  have hkeys : (pending.map Prod.fst).Perm links.members := by
    rw [← Links.members_counts]
    exact hpending.map Prod.fst
  have hnodup : (pending.map Prod.fst).Nodup := hkeys.nodup_iff.mpr hlinks.nodup
  have hcount : ∀ member ∈ links.members,
      (startFrom rank pending).pendingOf member = (awaited links [] member).length := by
    intro member hm
    obtain ⟨link, hl, rfl⟩ := List.mem_map.mp hm
    have hlookup : links.lookup link.1 = some link.2 := Name.lookup_of_mem hlinks.nodup hl
    have hentry : (link.1, link.2.length) ∈ pending :=
      hpending.mem_iff.mpr (List.mem_map.mpr ⟨link, hl, rfl⟩)
    rw [pendingOf, startFrom, Name.lookup_of_mem hnodup hentry]
    simp [awaited, Links.predecessors, hlookup]
  refine ⟨placing_nil _, hkeys, hcount, pairwise_byRank hrank _, fun member => ?_⟩
  have hmem : member ∈ (startFrom rank pending).ready ↔
      member ∈ links.members ∧ (startFrom rank pending).pendingOf member = 0 := by
    rw [← hkeys.mem_iff]
    exact mem_byRank.trans (@mem_filterMap_pending (startFrom rank pending) hnodup (· = 0) _ member)
  rw [hmem, Free, ← awaited_eq_nil_iff, ← List.length_eq_zero_iff]
  constructor
  · rintro ⟨hm, ha⟩
    exact ⟨hm, List.not_mem_nil, (hcount member hm).symm.trans ha⟩
  · rintro ⟨hm, -, ha⟩
    exact ⟨hm, (hcount member hm).trans ha⟩

section Release

@[simp]
theorem pendingOf_release (member other : String) :
    (release rank placement member).pendingOf other =
      if other = member then placement.pendingOf other - 1 else placement.pendingOf other := by
  rw [pendingOf, release, Name.lookup_map_replace]
  by_cases he : other = member
  · subst he
    cases hl : placement.pending.lookup other <;> simp [pendingOf, hl]
  · simp [he, pendingOf]

@[simp]
theorem keys_release (member : String) :
    (release rank placement member).pending.map Prod.fst = placement.pending.map Prod.fst := by
  rw [release, List.map_map]
  apply List.map_congr_left
  intro entry _
  by_cases he : entry.1 = member <;> simp [he]

@[simp]
theorem mem_ready_release (member other : String) :
    other ∈ (release rank placement member).ready ↔
      other ∈ placement.ready ∨ other = member ∧ placement.pendingOf other - 1 = 0 := by
  simp only [release]
  split
  · rename_i hz
    rw [mem_placeByRank, or_comm]
    exact or_congr_right ⟨fun he => ⟨he, he ▸ hz⟩, fun he => he.1⟩
  · rename_i hz
    exact ⟨Or.inl, fun h => h.resolve_right fun he => hz (he.1 ▸ he.2)⟩

theorem ranked_release (hrank : Function.Injective rank) (member : String)
    (h : placement.ready.Pairwise fun a b => rank a < rank b) :
    (release rank placement member).ready.Pairwise fun a b => rank a < rank b := by
  simp only [release]
  split
  · exact pairwise_placeByRank hrank member h
  · exact h

variable {freed : List String}

theorem placed_foldl_release (freed : List String) (placement : Placement) :
    (freed.foldl (release rank) placement).placed = placement.placed := by
  induction freed generalizing placement with
  | nil => rfl
  | cons first rest ih => rw [List.foldl_cons, ih, release]

@[simp]
theorem keys_foldl_release (freed : List String) (placement : Placement) :
    (freed.foldl (release rank) placement).pending.map Prod.fst =
      placement.pending.map Prod.fst := by
  induction freed generalizing placement with
  | nil => rfl
  | cons first rest ih => simp [ih]

theorem pendingOf_foldl_release (hn : freed.Nodup) (placement : Placement) (member : String) :
    (freed.foldl (release rank) placement).pendingOf member =
      if member ∈ freed then placement.pendingOf member - 1 else placement.pendingOf member := by
  induction freed generalizing placement with
  | nil => simp
  | cons first rest ih =>
      obtain ⟨hfresh, hrest⟩ := List.nodup_cons.mp hn
      rw [List.foldl_cons, ih hrest]
      by_cases he : member = first
      · subst he
        simp [hfresh]
      · simp [he]

theorem mem_ready_foldl_release (hn : freed.Nodup) (placement : Placement) (member : String) :
    member ∈ (freed.foldl (release rank) placement).ready ↔
      member ∈ placement.ready ∨ member ∈ freed ∧ placement.pendingOf member - 1 = 0 := by
  induction freed generalizing placement with
  | nil => simp
  | cons first rest ih =>
      obtain ⟨hfresh, hrest⟩ := List.nodup_cons.mp hn
      rw [List.foldl_cons, ih hrest]
      by_cases he : member = first
      · subst he
        simp [hfresh]
      · simp [he]

theorem ranked_foldl_release (hrank : Function.Injective rank) (freed : List String)
    (placement : Placement) (h : placement.ready.Pairwise fun a b => rank a < rank b) :
    (freed.foldl (release rank) placement).ready.Pairwise fun a b => rank a < rank b := by
  induction freed generalizing placement with
  | nil => exact h
  | cons first rest ih => exact ih _ (ranked_release hrank first h)

end Release

section Step

variable {next : String} {others : List String}

-- Placing a module shortens the waiting of its successors by one and of no other member.
theorem length_awaited_append (hlinks : links.Ranked rank) {placed : List String}
    (hn : next ∉ placed) (member : String) :
    (awaited links (placed ++ [next]) member).length =
      if member ∈ links.successors next then (awaited links placed member).length - 1
      else (awaited links placed member).length := by
  have hnodup := nodup_of_pairwise_rank (hlinks.ranked member)
  have herase : awaited links (placed ++ [next]) member =
      (awaited links placed member).erase next := by
    rw [awaited, awaited, (hnodup.filter _).erase_eq_filter, List.filter_filter]
    apply List.filter_congr
    intro earlier _
    by_cases he : earlier = next <;> simp [he]
  have hmem : next ∈ awaited links placed member ↔ member ∈ links.successors next := by
    rw [Links.mem_successors hlinks.nodup, awaited, List.mem_filter, Links.Edge]
    simp [hn]
  rw [herase, List.length_erase]
  simp only [hmem]

theorem free_append_iff (member : String) (placed : List String) :
    Free links.Edge links.members (placed ++ [next]) member ↔
      member ∈ links.members ∧ member ∉ placed ∧ member ≠ next ∧
        awaited links (placed ++ [next]) member = [] := by
  rw [Free, ← awaited_eq_nil_iff]
  simp only [List.mem_append, List.mem_singleton, not_or, and_assoc]

theorem Invariant.first_of_ready (h : Invariant rank links placement)
    (hready : placement.ready = next :: others) :
    First rank (Free links.Edge links.members placement.placed) next := by
  refine ⟨(h.ready next).mp (by simp [hready]), fun other ho => ?_⟩
  have hm := (h.ready other).mpr ho
  have hranked := h.ranked
  rw [hready] at hm hranked
  rcases List.mem_cons.mp hm with rfl | hm
  · exact Or.inl rfl
  · exact Or.inr ((List.pairwise_cons.mp hranked).1 other hm)

-- Of a member and one that comes before it, the first is not placed while the second is free.
theorem Invariant.unplaced_of_edge (h : Invariant rank links placement)
    (hfree : Free links.Edge links.members placement.placed next) {member : String}
    (he : links.Edge next member) : member ∉ placement.placed ∧ member ≠ next :=
  ⟨fun hm => hfree.2.1 (h.greedy.free.closed hm he),
    fun heq => hfree.2.1 (hfree.2.2 next (heq ▸ he))⟩

theorem Invariant.length_placed_lt (h : Invariant rank links placement)
    (hready : placement.ready = next :: others) :
    placement.placed.length < links.members.length := by
  have hle := (h.greedy.free.append next (h.first_of_ready hready).1).length_le
  rw [List.length_append, List.length_singleton] at hle
  exact hle

theorem step_of_ready (hready : placement.ready = next :: others) :
    step rank links placement = (links.successors next).foldl (release rank)
      { placement with placed := placement.placed ++ [next], ready := others } := by
  rw [step, hready]

theorem placed_step (hready : placement.ready = next :: others) :
    (step rank links placement).placed = placement.placed ++ [next] := by
  rw [step_of_ready hready, placed_foldl_release]

theorem Invariant.pending_step (h : Invariant rank links placement) (hlinks : links.Ranked rank)
    (hready : placement.ready = next :: others) (member : String) (hm : member ∈ links.members) :
    (step rank links placement).pendingOf member =
      (awaited links (placement.placed ++ [next]) member).length := by
  have hfree := (h.first_of_ready hready).1
  rw [step_of_ready hready, pendingOf_foldl_release (hlinks.nodup_successors next),
    length_awaited_append hlinks hfree.2.1, ← h.pending member hm]
  rfl

theorem Invariant.ready_step (h : Invariant rank links placement) (hlinks : links.Ranked rank)
    (hready : placement.ready = next :: others) (member : String) :
    member ∈ (step rank links placement).ready ↔
      Free links.Edge links.members (placement.placed ++ [next]) member := by
  have hfree := (h.first_of_ready hready).1
  have hothers : member ∈ others ↔
      Free links.Edge links.members placement.placed member ∧ member ≠ next := by
    have hnodup := nodup_of_pairwise_rank h.ranked
    rw [← h.ready, hready, List.mem_cons]
    rw [hready, List.nodup_cons] at hnodup
    constructor
    · exact fun hm => ⟨Or.inr hm, fun he => hnodup.1 (he ▸ hm)⟩
    · exact fun hm => hm.1.resolve_left hm.2
  have hlength := length_awaited_append hlinks hfree.2.1 member
  rw [step_of_ready hready, mem_ready_foldl_release (hlinks.nodup_successors next),
    free_append_iff, ← List.length_eq_zero_iff, hlength, hothers, h.free_iff]
  -- a successor waited for one more, so that it cannot have been ready before
  by_cases hs : member ∈ links.successors next
  · have hedge := (Links.mem_successors hlinks.nodup next member).mp hs
    have hm := Links.mem_of_edge_right hedge
    obtain ⟨hn, hne⟩ := h.unplaced_of_edge hfree hedge
    have hp : placement.pendingOf member = (awaited links placement.placed member).length :=
      h.pending member hm
    simp only [hs, if_true, hm, hn, hne, not_false_eq_true, true_and, and_true, ne_eq, ← hp]
    exact ⟨fun h => h.elim (fun h => by omega) id, Or.inr⟩
  · have hp := h.pending member
    simp only [hs, if_false, false_and, or_false]
    constructor
    · exact fun ⟨⟨hm, hn, hz⟩, hne⟩ => ⟨hm, hn, hne, by rw [← hp hm, hz]⟩
    · exact fun ⟨hm, hn, hne, hz⟩ => ⟨⟨hm, hn, by rw [hp hm, hz]⟩, hne⟩

theorem Invariant.step (hrank : Function.Injective rank) (hlinks : links.Ranked rank)
    (h : Invariant rank links placement) (hready : placement.ready = next :: others) :
    Invariant rank links (step rank links placement) := by
  refine ⟨?_, ?_, ?_, ?_, ?_⟩
  · rw [placed_step hready]
    exact h.greedy.append next (h.first_of_ready hready)
  · rw [step_of_ready hready, keys_foldl_release]
    exact h.keys
  · rw [placed_step hready]
    exact h.pending_step hlinks hready
  · rw [step_of_ready hready]
    have hranked := h.ranked
    rw [hready] at hranked
    exact ranked_foldl_release hrank _ _ (List.pairwise_cons.mp hranked).2
  · rw [placed_step hready]
    exact h.ready_step hlinks hready

end Step

section Run

-- A run that may place as many modules as are left stops only when none is ready.
theorem run_invariant (hrank : Function.Injective rank) (hlinks : links.Ranked rank)
    (bound : Nat) (placement : Placement) (h : Invariant rank links placement)
    (hbound : links.length ≤ placement.placed.length + bound) :
    Invariant rank links (run rank links bound placement) ∧
      (run rank links bound placement).ready = [] := by
  induction bound generalizing placement with
  | zero =>
      refine ⟨h, ?_⟩
      cases hready : placement.ready with
      | nil => exact hready
      | cons next others =>
          have hlt := h.length_placed_lt hready
          rw [Links.members, List.length_map] at hlt
          omega
  | succ bound ih =>
      rw [run]
      cases hready : placement.ready with
      | nil => exact ⟨h, hready⟩
      | cons next others =>
          refine ih _ (h.step hrank hlinks hready) ?_
          rw [placed_step hready, List.length_append, List.length_singleton]
          omega

theorem run_startFrom_invariant (hrank : Function.Injective rank) (hlinks : links.Ranked rank)
    {pending : List (String × Nat)} (hpending : pending.Perm links.counts) :
    Invariant rank links (run rank links links.length (startFrom rank pending)) ∧
      (run rank links links.length (startFrom rank pending)).ready = [] :=
  run_invariant hrank hlinks _ _ (startFrom_invariant hrank hlinks hpending) (Nat.le_add_left _ _)

theorem ofLinks_invariant (hrank : Function.Injective rank) (hlinks : links.Ranked rank) :
    Invariant rank links (ofLinks rank links) ∧ (ofLinks rank links).ready = [] := by
  rw [ofLinks, start_eq_startFrom]
  exact run_startFrom_invariant hrank hlinks (List.Perm.refl _)

theorem Invariant.stuck (h : Invariant rank links placement) (hready : placement.ready = []) :
    Stuck links.Edge links.members placement.placed := by
  intro member hfree
  have hm := (h.ready member).mpr hfree
  rw [hready] at hm
  exact List.not_mem_nil hm

theorem Invariant.mem_waiting_iff (h : Invariant rank links placement)
    (hlinks : links.Ranked rank) (hready : placement.ready = []) (member : String) :
    member ∈ placement.waiting ↔ member ∈ links.members ∧ member ∉ placement.placed := by
  rw [waiting, mem_filterMap_pending (h.keys.nodup_iff.mpr hlinks.nodup) (0 < ·), h.keys.mem_iff]
  refine and_congr_right fun hm => ?_
  rw [h.pending member hm, List.length_pos_iff, ne_eq, awaited_eq_nil_iff, not_iff_not]
  constructor
  · intro hall
    by_contra hn
    exact h.stuck hready member ⟨hm, hn, hall⟩
  · exact fun hp earlier he => h.greedy.free.closed hp he

end Run

end Activation.Placement
