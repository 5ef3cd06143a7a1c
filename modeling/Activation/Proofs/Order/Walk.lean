import Activation.Proofs.Order.Cycle
import Activation.Proofs.Order.Placement

namespace Activation.Cycle

-- How far a walk has come: it stands at the last module of its path, or it has ended.
inductive Stage where
  | onPath (path : List String) (current : String)
  | ended (members : List String)
deriving DecidableEq

-- One turn of a walk. It ends where no predecessor waits, and where it comes back to its path.
def turn (predecessors : String → List String) (waiting : List String) : Stage → Stage
  | .onPath path current =>
    match (predecessors current).find? fun name => decide (name ∈ waiting) with
    | none => .ended path
    | some next =>
      if next ∈ path then .ended (path.dropWhile fun name => decide (name ≠ next))
      else .onPath (path ++ [next]) next
  | .ended members => .ended members

-- A walk sets out from the first of the blocked modules.
def setOut : List String → Stage
  | [] => .ended []
  | first :: _ => .onPath [first] first

def turns (predecessors : String → List String) (waiting blocked : List String) : Nat → Stage
  | 0 => setOut blocked
  | n + 1 => turn predecessors waiting (turns predecessors waiting blocked n)

def outcome (predecessors : String → List String) (waiting : List String) : Stage → List String
  | .onPath path current => walk predecessors waiting path current
  | .ended members => members

variable {predecessors : String → List String} {waiting blocked path : List String}
  {first current : String}

theorem turn_cases (predecessors : String → List String) (waiting path : List String)
    (current : String) :
    ((predecessors current).find? (fun name => decide (name ∈ waiting)) = none ∧
      turn predecessors waiting (.onPath path current) = .ended path) ∨
    ∃ next, (predecessors current).find? (fun name => decide (name ∈ waiting)) = some next ∧
      ((next ∈ path ∧ turn predecessors waiting (.onPath path current) =
        .ended (path.dropWhile fun name => decide (name ≠ next))) ∨
      next ∉ path ∧
        turn predecessors waiting (.onPath path current) = .onPath (path ++ [next]) next) := by
  cases hfind : (predecessors current).find? fun name => decide (name ∈ waiting) with
  | none =>
      left
      exact ⟨rfl, by rw [turn, hfind]⟩
  | some next =>
      right
      refine ⟨next, rfl, ?_⟩
      by_cases hm : next ∈ path
      · left
        exact ⟨hm, by rw [turn, hfind]; exact if_pos hm⟩
      · right
        exact ⟨hm, by rw [turn, hfind]; exact if_neg hm⟩

theorem outcome_turn (stage : Stage) :
    outcome predecessors waiting (turn predecessors waiting stage) =
      outcome predecessors waiting stage := by
  cases stage with
  | ended members => rfl
  | onPath path current =>
      rcases turn_cases predecessors waiting path current with
        ⟨hfind, hturn⟩ | ⟨next, hfind, ⟨hm, hturn⟩ | ⟨hm, hturn⟩⟩
      · rw [hturn, outcome, outcome, walk_of_find_none hfind]
      · rw [hturn, outcome, outcome, walk_of_find hfind, if_pos hm]
      · rw [hturn, outcome, outcome, walk_of_find hfind, if_neg hm]

theorem outcome_turns (predecessors : String → List String) (waiting blocked : List String)
    (n : Nat) : outcome predecessors waiting (turns predecessors waiting blocked n) =
      find blocked predecessors waiting := by
  induction n with
  | zero => cases blocked <;> rfl
  | succ n ih => rw [turns, outcome_turn, ih]

-- The path of a walk leads from predecessor to predecessor. All on it but the first wait, and no
-- module is on it twice.
structure Leads (predecessors : String → List String) (waiting : List String) (first : String)
    (path : List String) (current : String) : Prop where
  head : path.head? = some first
  last : path.getLast? = some current
  nodup : path.Nodup
  waits : ∀ member ∈ path.tail, member ∈ waiting
  chain : path.IsChain fun later earlier => earlier ∈ predecessors later

private theorem leads_singleton (predecessors : String → List String) (waiting : List String)
    (first : String) : Leads predecessors waiting first [first] first :=
  ⟨rfl, rfl, List.nodup_singleton first, nofun, List.isChain_singleton first⟩

private theorem Leads.snoc {next : String} (h : Leads predecessors waiting first path current)
    (hnext : next ∈ predecessors current) (hwaits : next ∈ waiting) (hm : next ∉ path) :
    Leads predecessors waiting first (path ++ [next]) next := by
  obtain ⟨rest, rfl⟩ : ∃ rest, path = first :: rest := List.head?_eq_some_iff.mp h.head
  refine ⟨rfl, List.getLast?_concat, List.nodup_append_comm.mp (List.nodup_cons.mpr ⟨hm, h.nodup⟩),
    fun member hmember => ?_, ?_⟩
  · rcases List.mem_append.mp hmember with hrest | hlast
    · exact h.waits member hrest
    · exact List.mem_singleton.mp hlast ▸ hwaits
  · refine List.isChain_append.mpr
      ⟨h.chain, List.isChain_singleton next, fun later hl other ho => ?_⟩
    obtain rfl : next = other := Option.some.inj ho
    obtain rfl : current = later := Option.some.inj (h.last.symm.trans hl)
    exact hnext

-- A walk that goes on for one more turn has one more module on its path.
theorem Leads.turn {path' : List String} {current' : String}
    (h : Leads predecessors waiting first path current)
    (hturn : turn predecessors waiting (.onPath path current) = .onPath path' current') :
    Leads predecessors waiting first path' current' ∧ path'.length = path.length + 1 := by
  rcases turn_cases predecessors waiting path current with
    ⟨-, hended⟩ | ⟨next, hfind, ⟨-, hended⟩ | ⟨hm, honward⟩⟩
  · rw [hended] at hturn
    cases hturn
  · rw [hended] at hturn
    cases hturn
  · rw [honward] at hturn
    obtain ⟨rfl, rfl⟩ := Stage.onPath.inj hturn
    have hwaits : next ∈ waiting := by simpa using List.find?_some hfind
    exact ⟨h.snoc (List.mem_of_find?_eq_some hfind) hwaits hm, by simp⟩

theorem leads_turns {n : Nat} {path : List String} {current : String}
    (h : turns predecessors waiting blocked n = .onPath path current) :
    ∃ first rest, blocked = first :: rest ∧ Leads predecessors waiting first path current ∧
      path.length = n + 1 := by
  induction n generalizing path current with
  | zero =>
      cases blocked with
      | nil => cases h
      | cons first rest =>
          obtain ⟨rfl, rfl⟩ := Stage.onPath.inj h
          exact ⟨first, rest, rfl, leads_singleton predecessors waiting first, rfl⟩
  | succ n ih =>
      rw [turns] at h
      cases hstage : turns predecessors waiting blocked n with
      | ended members =>
          rw [hstage] at h
          cases h
      | onPath before previous =>
          obtain ⟨first, rest, hblocked, hleads, hlength⟩ := ih hstage
          rw [hstage] at h
          obtain ⟨hnext, hmore⟩ := hleads.turn h
          exact ⟨first, rest, hblocked, hnext, by omega⟩

-- A path without repeats has room for every module that waits, and for where it sets out.
theorem Leads.length_le (h : Leads predecessors waiting first path current) :
    path.length ≤ waiting.length + 1 := by
  have hle := (h.nodup.tail.subperm h.waits).length_le
  rw [List.length_tail] at hle
  omega

theorem turns_ended (predecessors : String → List String) (waiting blocked : List String) :
    turns predecessors waiting blocked (waiting.length + 1) =
      .ended (find blocked predecessors waiting) := by
  have houtcome := outcome_turns predecessors waiting blocked (waiting.length + 1)
  cases hstage : turns predecessors waiting blocked (waiting.length + 1) with
  | ended members =>
      rw [hstage] at houtcome
      exact congrArg Stage.ended houtcome
  | onPath path current =>
      obtain ⟨first, rest, -, hleads, hlength⟩ := leads_turns hstage
      have hle := hleads.length_le
      omega

-- What the walk comes back to leads round from predecessor to predecessor among the modules that
-- wait.
theorem isLoop_of_firstLoop {loop : List String} (hfirst : first ∈ waiting)
    (hall : ∀ name ∈ waiting, ∃ earlier ∈ predecessors name, earlier ∈ waiting)
    (h : FirstLoop (follow predecessors waiting first) loop) :
    Loop (fun earlier later => earlier ∈ predecessors later) loop ∧
      ∀ member ∈ loop, member ∈ waiting := by
  refine ⟨h.isLoop fun n => List.mem_of_find?_eq_some (find?_follow hall hfirst n).2, ?_⟩
  obtain ⟨start, length, -, -, -, rfl⟩ := h
  intro member hm
  obtain ⟨n, -, rfl⟩ := List.mem_map.mp hm
  exact (find?_follow hall hfirst n).1

end Activation.Cycle

namespace Activation.Placement

variable {placement : Placement}

-- Where every module has one count, the modules that wait are those with a positive count.
theorem mem_waiting_iff_pending (hn : (placement.pending.map Prod.fst).Nodup) (member : String) :
    member ∈ placement.waiting ↔ 0 < placement.pendingOf member := by
  rw [waiting, mem_filterMap_pending hn (0 < ·), and_iff_right_iff_imp]
  intro hpositive
  by_contra hm
  rw [pendingOf, Name.lookup_eq_none_of_notMem hm] at hpositive
  exact absurd hpositive (Nat.lt_irrefl 0)

theorem length_waiting (placement : Placement) :
    placement.waiting.length = placement.pending.countP fun entry => decide (0 < entry.2) := by
  rw [waiting, List.length_filterMap_eq_countP]
  apply List.countP_congr
  intro entry _
  by_cases hpositive : 0 < entry.2 <;> simp [hpositive]

end Activation.Placement

namespace Activation.Cycle

-- Whichever modules are blocked, come before others or have a count, be they made for one another
-- or not: the path of the walk has no repeats, and the walk has ended after at most one turn more
-- than there are modules that wait. Where the blocked modules are just these, and each comes after
-- one of them, it ends with a loop: the part of the path from the module that it has come back to.
theorem find_ends (blocked : List String) (predecessors : String → List String)
    (placement : Placement) (hn : (placement.pending.map Prod.fst).Nodup) :
    (∀ n path current,
      turns predecessors placement.waiting blocked n = .onPath path current →
        path.Nodup ∧ path.head? = blocked.head? ∧ path.length = n + 1 ∧
        (∀ member ∈ path.tail, 0 < placement.pendingOf member) ∧
        path.IsChain fun later earlier => earlier ∈ predecessors later) ∧
    turns predecessors placement.waiting blocked
      (placement.pending.countP (fun entry => decide (0 < entry.2)) + 1) =
        .ended (find blocked predecessors placement.waiting) ∧
    (blocked ≠ [] → (∀ member, member ∈ blocked ↔ 0 < placement.pendingOf member) →
      (∀ member ∈ blocked, ∃ earlier ∈ predecessors member, earlier ∈ blocked) →
        Loop (fun earlier later => earlier ∈ predecessors later)
          (find blocked predecessors placement.waiting) ∧
        (∀ member ∈ find blocked predecessors placement.waiting, member ∈ blocked) ∧
        ∃ first, blocked.head? = some first ∧
          FirstLoop (follow predecessors placement.waiting first)
            (find blocked predecessors placement.waiting)) := by
  refine ⟨fun n path current h => ?_, ?_, fun hne hpositive hall => ?_⟩
  · obtain ⟨first, rest, rfl, hleads, hlength⟩ := leads_turns h
    refine ⟨hleads.nodup, hleads.head, hlength, fun member hm => ?_, hleads.chain⟩
    exact (Placement.mem_waiting_iff_pending hn member).mp (hleads.waits member hm)
  · rw [← Placement.length_waiting]
    exact turns_ended predecessors placement.waiting blocked
  · obtain ⟨first, rest, rfl⟩ := List.exists_cons_of_ne_nil hne
    have hmem : ∀ member, member ∈ first :: rest ↔ member ∈ placement.waiting := fun member =>
      (hpositive member).trans (Placement.mem_waiting_iff_pending hn member).symm
    have hwaiting : ∀ name ∈ placement.waiting,
        ∃ earlier ∈ predecessors name, earlier ∈ placement.waiting := by
      intro name hm
      obtain ⟨earlier, he, hb⟩ := hall name ((hmem name).mpr hm)
      exact ⟨earlier, he, (hmem earlier).mp hb⟩
    have hfirst : first ∈ placement.waiting := (hmem first).mp List.mem_cons_self
    have hloop := walk_firstLoop hwaiting hfirst
    obtain ⟨hclosed, hwaits⟩ := isLoop_of_firstLoop hfirst hwaiting hloop
    exact ⟨hclosed, fun member hm => (hmem member).mpr (hwaits member hm), first, rfl, hloop⟩

-- "a" waits for "b", and "b" and "c" for each other. The counts are not those of any sorting, and
-- one of the modules that come before "a" does not wait.
def tailIntoLoop : Placement :=
  { placed := [], pending := [("a", 4), ("b", 1), ("c", 2), ("d", 0)], ready := [] }

def tailIntoLoopPredecessors : String → List String :=
  Links.predecessors [("a", ["d", "b"]), ("b", ["c"]), ("c", ["b", "a"])]

theorem find_ends_tailIntoLoop :
    (tailIntoLoop.pending.map Prod.fst).Nodup ∧
      turns tailIntoLoopPredecessors tailIntoLoop.waiting ["a", "b", "c"] 2 =
        .onPath ["a", "b", "c"] "c" ∧
      (∀ member ∈ ["b", "c"], 0 < tailIntoLoop.pendingOf member) ∧
      find ["a", "b", "c"] tailIntoLoopPredecessors tailIntoLoop.waiting = ["b", "c"] ∧
      Loop (fun earlier later => earlier ∈ tailIntoLoopPredecessors later) ["b", "c"] ∧
      find ["d"] tailIntoLoopPredecessors tailIntoLoop.waiting = ["d"] := by
  have hn : (tailIntoLoop.pending.map Prod.fst).Nodup := by decide
  have hturns : turns tailIntoLoopPredecessors tailIntoLoop.waiting ["a", "b", "c"] 2 =
      .onPath ["a", "b", "c"] "c" := by decide
  obtain ⟨hpath, hended, hloop⟩ :=
    find_ends ["a", "b", "c"] tailIntoLoopPredecessors tailIntoLoop hn
  obtain ⟨-, hother, -⟩ := find_ends ["d"] tailIntoLoopPredecessors tailIntoLoop hn
  have hfind : find ["a", "b", "c"] tailIntoLoopPredecessors tailIntoLoop.waiting = ["b", "c"] :=
    (Stage.ended.inj (hended.symm.trans (by decide)))
  have hpositive : ∀ member, member ∈ ["a", "b", "c"] ↔ 0 < tailIntoLoop.pendingOf member := by
    intro member
    rw [← Placement.mem_waiting_iff_pending hn]
    exact Iff.rfl
  have hclosed := (hloop (by decide) hpositive (by decide)).1
  rw [hfind] at hclosed
  exact ⟨hn, hturns, (hpath 2 _ _ hturns).2.2.2.1, hfind, hclosed,
    Stage.ended.inj (hother.symm.trans (by decide))⟩

end Activation.Cycle
