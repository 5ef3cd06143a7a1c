import Activation.Proofs.Order.Sort

namespace Activation

namespace Placement

variable {rank : String → Rank} {links : Links} {placement : Placement} {next member : String}
  {others members done rest : List String} {pending : List (String × Nat)}

def taking (placement : Placement) (next : String) (others : List String) : Placement :=
  { placement with placed := placement.placed ++ [next], ready := others }

def afterTurns (rank : String → Rank) (links : Links) (pending : List (String × Nat)) (n : Nat) :
    Placement :=
  run rank links n (startFrom rank pending)

def freed (rank : String → Rank) : List String → Placement → List String
  | [], _ => []
  | member :: rest, placement =>
    let others := freed rank rest (release rank placement member)
    if placement.pendingOf member - 1 = 0 then member :: others else others

def freedIn (rank : String → Rank) (links : Links) : Nat → Placement → List String
  | 0, _ => []
  | n + 1, placement =>
    match placement.ready with
    | [] => []
    | next :: others =>
      freed rank (links.successors next) (placement.taking next others) ++
        freedIn rank links n (step rank links placement)

-- The members that have ever been ready: those that wait for none at the start, and those that get
-- ready in some turns.
def entered (rank : String → Rank) (links : Links) (pending : List (String × Nat)) (n : Nat) :
    List String :=
  (pending.filterMap fun entry => if entry.2 = 0 then some entry.1 else none) ++
    freedIn rank links n (startFrom rank pending)

-- One predecessor less is counted for a member that has one left, and the member is a new one among
-- the ready ones if it gets there.
structure Releasable (rank : String → Rank) (placement : Placement) (member : String) : Prop where
  pos : 0 < placement.pendingOf member
  unplaced : member ∉ placement.placed
  apart : ∀ other ∈ placement.ready, rank other ≠ rank member
  length : (release rank placement member).ready.length =
    if placement.pendingOf member = 1 then placement.ready.length + 1 else placement.ready.length

private theorem ready_release_perm (rank : String → Rank) (hn : member ∉ placement.ready) :
    (release rank placement member).ready.Perm
      (if placement.pendingOf member - 1 = 0 then member :: placement.ready
        else placement.ready) := by
  simp only [release]
  split
  · exact placeByRank_perm hn
  · exact List.Perm.refl _

private theorem length_ready_release (hpos : 0 < placement.pendingOf member)
    (hn : member ∉ placement.ready) : (release rank placement member).ready.length =
      if placement.pendingOf member = 1 then placement.ready.length + 1
      else placement.ready.length := by
  rw [(ready_release_perm rank hn).length_eq]
  by_cases hone : placement.pendingOf member = 1
  · rw [if_pos (by omega), if_pos hone, List.length_cons]
  · rw [if_neg (by omega), if_neg hone]

private theorem ready_foldl_release_perm (rank : String → Rank) (hn : members.Nodup)
    (hfresh : ∀ member ∈ members, member ∉ placement.ready) :
    (members.foldl (release rank) placement).ready.Perm
      (freed rank members placement ++ placement.ready) := by
  induction members generalizing placement with
  | nil => exact List.Perm.refl _
  | cons first rest ih =>
      obtain ⟨hfirst, hrest⟩ := List.nodup_cons.mp hn
      obtain ⟨hready, hothers⟩ := List.forall_mem_cons.mp hfresh
      have hperm := ready_release_perm rank hready
      have hnew : ∀ member ∈ rest, member ∉ (release rank placement first).ready := by
        intro member hm hr
        rcases (mem_ready_release first member).mp hr with hr | ⟨rfl, -⟩
        · exact hothers member hm hr
        · exact hfirst hm
      have hnext := ih hrest hnew
      rw [List.foldl_cons, freed]
      by_cases hz : placement.pendingOf first - 1 = 0
      · rw [if_pos hz] at hperm ⊢
        exact hnext.trans ((hperm.append_left _).trans List.perm_middle)
      · rw [if_neg hz] at hperm ⊢
        exact hnext.trans (hperm.append_left _)

section Invariant

variable (h : Invariant rank links placement) (hready : placement.ready = next :: others)

include h hready

theorem Invariant.pos_of_successor (hlinks : links.Ranked rank)
    (hs : member ∈ links.successors next) : 0 < placement.pendingOf member := by
  have hedge := (Links.mem_successors hlinks.nodup next member).mp hs
  have hnext : next ∈ awaited links placement.placed member := by
    rw [awaited, List.mem_filter]
    exact ⟨hedge, by simpa using (h.first_of_ready hready).1.2.1⟩
  rw [h.pending member (Links.mem_of_edge_right hedge)]
  exact List.length_pos_of_mem hnext

theorem Invariant.notMem_ready_of_successor (hlinks : links.Ranked rank)
    (hs : member ∈ links.successors next) : member ∉ placement.ready := by
  intro hm
  have hzero := ((h.free_iff member).mp ((h.ready member).mp hm)).2.2
  have hpos := h.pos_of_successor hready hlinks hs
  omega

-- While the successors of a member are released one after the other, each still has its count when
-- its turn comes, as it is a successor once only.
theorem Invariant.releasable (hrank : Function.Injective rank) (hlinks : links.Ranked rank)
    (hsuccessors : links.successors next = done ++ member :: rest) :
    Releasable rank (done.foldl (release rank) (placement.taking next others)) member := by
  have hs : member ∈ links.successors next := by simp [hsuccessors]
  have hunready := h.notMem_ready_of_successor hready hlinks hs
  obtain ⟨hplaced, hne⟩ := h.unplaced_of_edge (h.first_of_ready hready).1
    ((Links.mem_successors hlinks.nodup next member).mp hs)
  obtain ⟨hnodup, hdone⟩ := hlinks.notMem_of_successors_eq hsuccessors
  have hcount : (done.foldl (release rank) (placement.taking next others)).pendingOf member =
      placement.pendingOf member := by
    rw [pendingOf_foldl_release hnodup, if_neg hdone]
    rfl
  have hfresh : member ∉ (done.foldl (release rank) (placement.taking next others)).ready := by
    rw [mem_ready_foldl_release hnodup]
    rintro (hm | ⟨hm, -⟩)
    · exact hunready (hready ▸ List.mem_cons_of_mem next hm)
    · exact hdone hm
  have hpos := h.pos_of_successor hready hlinks hs
  rw [← hcount] at hpos
  refine ⟨hpos, ?_, fun other ho he => hfresh (hrank he ▸ ho), length_ready_release hpos hfresh⟩
  rw [placed_foldl_release]
  simp [taking, hplaced, hne]

-- A turn moves one member from the ready ones to the placed ones, and adds those that get ready.
theorem Invariant.step_perm (hlinks : links.Ranked rank) :
    ((Placement.step rank links placement).placed ++
      (Placement.step rank links placement).ready).Perm
      (placement.placed ++ placement.ready ++
        freed rank (links.successors next) (placement.taking next others)) := by
  have hfresh : ∀ member ∈ links.successors next,
      member ∉ (placement.taking next others).ready := fun member hs hm =>
    h.notMem_ready_of_successor hready hlinks hs (hready ▸ List.mem_cons_of_mem next hm)
  have hperm := ready_foldl_release_perm rank (hlinks.nodup_successors next) hfresh
  rw [placed_step hready, step_of_ready hready, hready,
    List.append_cons placement.placed next others, List.append_assoc _ others]
  exact (hperm.trans List.perm_append_comm).append_left _

end Invariant

section Turns

variable (hrank : Function.Injective rank) (hlinks : links.Ranked rank)

include hrank hlinks

theorem Invariant.run (n : Nat) (h : Invariant rank links placement) :
    Invariant rank links (run rank links n placement) := by
  induction n generalizing placement with
  | zero => exact h
  | succ n ih =>
      rw [Placement.run]
      cases hready : placement.ready with
      | nil => exact h
      | cons next others => exact ih (h.step hrank hlinks hready)

theorem Invariant.freedIn_perm (n : Nat) (h : Invariant rank links placement) :
    ((Placement.run rank links n placement).placed ++
      (Placement.run rank links n placement).ready).Perm
        (placement.placed ++ placement.ready ++ freedIn rank links n placement) := by
  induction n generalizing placement with
  | zero => rw [Placement.run, freedIn, List.append_nil]
  | succ n ih =>
      rw [Placement.run, freedIn]
      cases hready : placement.ready with
      | nil => simp [hready]
      | cons next others =>
          have hnext := ih (h.step hrank hlinks hready)
          have hstep := h.step_perm hready hlinks
          rw [hready] at hstep
          rw [← List.append_assoc]
          exact hnext.trans (hstep.append_right _)

theorem Invariant.length_placed_run (n : Nat) (h : Invariant rank links placement)
    (hnext : (Placement.run rank links n placement).ready ≠ []) :
    (Placement.run rank links n placement).placed.length = placement.placed.length + n := by
  induction n generalizing placement with
  | zero => rfl
  | succ n ih =>
      rw [Placement.run] at hnext ⊢
      cases hready : placement.ready with
      | nil =>
          rw [hready] at hnext
          exact absurd hready hnext
      | cons next others =>
          rw [hready] at hnext
          have hlength := ih (h.step hrank hlinks hready) hnext
          rw [placed_step hready, List.length_append, List.length_singleton] at hlength
          simp only [List.isEmpty_cons, Bool.false_eq_true, if_false]
          omega

end Turns

theorem Invariant.nodup (h : Invariant rank links placement) :
    (placement.placed ++ placement.ready).Nodup := by
  rw [List.nodup_append]
  refine ⟨h.greedy.free.nodup, nodup_of_pairwise_rank h.ranked, ?_⟩
  rintro member hplaced _ hready rfl
  exact ((h.ready member).mp hready).2.1 hplaced

theorem afterTurns_invariant (hrank : Function.Injective rank) (hlinks : links.Ranked rank)
    (hpending : pending.Perm links.counts) (n : Nat) :
    Invariant rank links (afterTurns rank links pending n) :=
  (startFrom_invariant hrank hlinks hpending).run hrank hlinks n

theorem length_placed_afterTurns (hrank : Function.Injective rank) (hlinks : links.Ranked rank)
    (hpending : pending.Perm links.counts) {n : Nat}
    (hready : (afterTurns rank links pending n).ready = next :: others) :
    (afterTurns rank links pending n).placed.length = n := by
  have hlength := (startFrom_invariant hrank hlinks hpending).length_placed_run hrank hlinks n
    (by rw [← afterTurns, hready]; exact List.cons_ne_nil next others)
  rw [← afterTurns] at hlength
  exact hlength.trans (Nat.zero_add n)

theorem entered_perm (hrank : Function.Injective rank) (hlinks : links.Ranked rank)
    (hpending : pending.Perm links.counts) (n : Nat) :
    (entered rank links pending n).Perm ((afterTurns rank links pending n).placed ++
      (afterTurns rank links pending n).ready) := by
  have hstart := startFrom_invariant hrank hlinks hpending
  have hkeys : (pending.map Prod.fst).Nodup := hstart.keys.nodup_iff.mpr hlinks.nodup
  have hfree : (pending.filterMap fun entry =>
      if entry.2 = 0 then some entry.1 else none).Nodup :=
    Name.nodup_filterMap_value hkeys (· = 0)
  have hready := byRank_perm rank hfree
  exact ((hstart.freedIn_perm hrank hlinks n).trans (hready.append_right _)).symm

end Placement

namespace Precedence

open Placement

variable {precedence : Precedence} {modules : List String} {links : Links} {placement : Placement}

-- What the counts and the ready members are whenever the next one is to be placed.
structure Counted (precedence : Precedence) (modules : List String) (placement : Placement) :
    Prop where
  pending : ∀ member ∈ modules, placement.pendingOf member =
    (Name.distinct modules).countP fun earlier =>
      decide (precedence.Before modules earlier member ∧ earlier ∉ placement.placed)
  ready : ∀ member, member ∈ placement.ready ↔
    member ∈ modules ∧ member ∉ placement.placed ∧ placement.pendingOf member = 0
  apart : (placement.ready.map precedence.rank).Nodup

private theorem counted_of_invariant (hs : links.Perm (precedence.links (Name.distinct modules)))
    (h : Placement.Invariant precedence.rank links placement) :
    precedence.Counted modules placement := by
  have hranked := precedence.ranked_distinct modules
  have hedge : ∀ earlier later,
      earlier ∈ links.predecessors later ↔ precedence.Before modules earlier later := by
    intro earlier later
    rw [← edge_eq_before, ← Links.edge_perm hranked.nodup hs]
    exact Iff.rfl
  have hmem : ∀ member, member ∈ links.members ↔ member ∈ modules := by
    intro member
    rw [Links.mem_members_perm hs, members_links, Name.mem_distinct]
  refine ⟨fun member hm => ?_, fun member => ?_, ?_⟩
  · have hperm : (awaited links placement.placed member).Perm
        ((Name.distinct modules).filter fun earlier =>
          decide (precedence.Before modules earlier member ∧ earlier ∉ placement.placed)) := by
      have hnodup := nodup_of_pairwise_rank ((hranked.perm hs).ranked member)
      refine (List.perm_ext_iff_of_nodup (hnodup.filter _)
        ((Name.nodup_distinct modules).filter _)).mpr fun earlier => ?_
      rw [List.mem_filter, List.mem_filter, hedge, decide_eq_true_eq, decide_eq_true_eq,
        Name.mem_distinct]
      exact ⟨fun hb => ⟨hb.1.1, hb⟩, fun hb => hb.2⟩
    rw [h.pending member ((hmem member).mpr hm), List.countP_eq_length_filter, hperm.length_eq]
  · rw [h.ready, h.free_iff, hmem]
  · exact (nodup_of_pairwise_rank h.ranked).map precedence.rank_injective

-- Whatever the hints, the positions and the modules are, and in whatever order tables are gone
-- through: a count is that of the predecessors that are not placed yet, it is positive when it is
-- lowered, and those members are ready whose count has come to zero. Each gets there once, and
-- finds none of its rank there. So there are no more turns than members.
theorem placing_keeps_count (precedence : Precedence) (modules : List String) :
    Function.Injective precedence.rank ∧
    (∀ later ∈ modules, ∃ row,
      (precedence.gather (Name.distinct modules)).table.lookup later = some row ∧
      (precedence.links (Name.distinct modules)).predecessors later =
        (sortedByRank precedence.rank row).destutter (· ≠ ·)) ∧
    (∀ later, ((precedence.links (Name.distinct modules)).predecessors later).Nodup ∧
      ∀ earlier, earlier ∈ (precedence.links (Name.distinct modules)).predecessors later ↔
        precedence.Before modules earlier later) ∧
    precedence.final modules =
      afterTurns precedence.rank (precedence.links (Name.distinct modules))
        (precedence.links (Name.distinct modules)).counts (Name.distinct modules).length ∧
    ∀ (links : Links) (pending : List (String × Nat)),
      links.Perm (precedence.links (Name.distinct modules)) → pending.Perm links.counts →
        (∀ n, precedence.Counted modules (afterTurns precedence.rank links pending n) ∧
          (entered precedence.rank links pending n).Nodup ∧
          (entered precedence.rank links pending n).Perm
            ((afterTurns precedence.rank links pending n).placed ++
              (afterTurns precedence.rank links pending n).ready) ∧
          ∀ next others, (afterTurns precedence.rank links pending n).ready = next :: others →
            n < (Name.distinct modules).length ∧
            (afterTurns precedence.rank links pending n).placed.length = n ∧
            ∀ done member rest, links.successors next = done ++ member :: rest →
              Releasable precedence.rank
                (done.foldl (release precedence.rank)
                  ((afterTurns precedence.rank links pending n).taking next others)) member) ∧
        (afterTurns precedence.rank links pending (Name.distinct modules).length).ready = [] := by
  have hrank := precedence.rank_injective
  have hranked := precedence.ranked_distinct modules
  refine ⟨hrank, fun later hm => ?_, fun later => ⟨?_, fun earlier => ?_⟩, ?_,
    fun links pending hs hp => ⟨fun n => ?_, ?_⟩⟩
  · have hl := Name.mem_distinct.mpr hm
    refine ⟨_, (precedence.gathered_gather (Name.distinct modules)).rows later hl, ?_⟩
    rw [predecessors_links precedence hl, byRank_eq_destutter hrank]
  · exact nodup_of_pairwise_rank (hranked.ranked later)
  · rw [← edge_eq_before]
    exact Iff.rfl
  · rw [final, ofLinks, start_eq_startFrom, length_links]
    rfl
  · have hlinks := hranked.perm hs
    have h := afterTurns_invariant hrank hlinks hp n
    have hperm := entered_perm hrank hlinks hp n
    refine ⟨counted_of_invariant hs h, hperm.nodup_iff.mpr h.nodup, hperm,
      fun next others hready => ?_⟩
    have hplaced := length_placed_afterTurns hrank hlinks hp hready
    have hlt := h.length_placed_lt hready
    rw [hplaced, Links.members, List.length_map, hs.length_eq, length_links] at hlt
    exact ⟨hlt, hplaced, fun done member rest => h.releasable hready hrank hlinks⟩
  · have hfinal := (run_startFrom_invariant hrank (hranked.perm hs) hp).2
    rw [afterTurns, ← length_links, ← hs.length_eq]
    exact hfinal

-- "b" comes after "a" by the hints of either, and twice by those of "a"; "c" comes after both.
def statedTwice : Precedence :=
  .ofDeclared ((Metadata.empty.insert "a" { before := ["b", "c", "b"] }).insert "b"
    { after := ["a", "x"] } |>.insert "c" { after := ["b", "a"] }) ["c", "b"]

def statedTwiceLinks : Links := [("b", ["a"]), ("c", ["b", "a"]), ("a", [])]

theorem placing_keeps_count_statedTwice :
    statedTwiceLinks.Perm (statedTwice.links (Name.distinct ["c", "b", "a", "b"])) ∧
      [("a", 0), ("c", 2), ("b", 1)].Perm statedTwiceLinks.counts ∧
      (afterTurns statedTwice.rank statedTwiceLinks [("a", 0), ("c", 2), ("b", 1)] 0).ready =
        ["a"] ∧
      statedTwiceLinks.successors "a" = ["b"] ++ "c" :: [] ∧
      Releasable statedTwice.rank
        (["b"].foldl (release statedTwice.rank)
          ((afterTurns statedTwice.rank statedTwiceLinks
            [("a", 0), ("c", 2), ("b", 1)] 0).taking "a" [])) "c" ∧
      statedTwice.Counted ["c", "b", "a", "b"]
        (afterTurns statedTwice.rank statedTwiceLinks [("a", 0), ("c", 2), ("b", 1)] 1) ∧
      entered statedTwice.rank statedTwiceLinks [("a", 0), ("c", 2), ("b", 1)] 3 = ["a", "b", "c"] ∧
      (afterTurns statedTwice.rank statedTwiceLinks
        [("a", 0), ("c", 2), ("b", 1)] 3).ready = [] := by
  have hs : statedTwiceLinks.Perm (statedTwice.links (Name.distinct ["c", "b", "a", "b"])) := by
    decide
  have hp : [("a", 0), ("c", 2), ("b", 1)].Perm statedTwiceLinks.counts := by decide
  have hready : (afterTurns statedTwice.rank statedTwiceLinks
      [("a", 0), ("c", 2), ("b", 1)] 0).ready = ["a"] := by decide
  have hsuccessors : statedTwiceLinks.successors "a" = ["b"] ++ "c" :: [] := by decide
  obtain ⟨-, -, -, -, htables⟩ := placing_keeps_count statedTwice ["c", "b", "a", "b"]
  obtain ⟨hturns, hend⟩ := htables statedTwiceLinks _ hs hp
  exact ⟨hs, hp, hready, hsuccessors,
    ((hturns 0).2.2.2 "a" [] hready).2.2 ["b"] "c" [] hsuccessors, (hturns 1).1, by decide, hend⟩

end Precedence

end Activation
