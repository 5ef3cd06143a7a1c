import Activation.Order.Rank

namespace Activation

-- Every member with the members that have to come before it.
abbrev Links : Type := List (String × List String)

namespace Links

def predecessors (links : Links) (member : String) : List String :=
  (links.lookup member).getD []

-- Once for every time that a member is named as a predecessor.
def successors (links : Links) (member : String) : List String :=
  links.flatMap fun link => List.replicate (link.2.count member) link.1

end Links

structure Placement where
  placed : List String
  -- For every member how many of its predecessors are not placed yet.
  pending : List (String × Nat)
  -- By rank, the members that may be placed next.
  ready : List String
deriving DecidableEq

namespace Placement

def start (rank : String → Rank) (links : Links) : Placement :=
  let pending := links.map fun link => (link.1, link.2.length)
  let free := pending.filterMap fun entry => if entry.2 = 0 then some entry.1 else none
  ⟨[], pending, byRank rank free⟩

def pendingOf (placement : Placement) (member : String) : Nat :=
  (placement.pending.lookup member).getD 0

def release (rank : String → Rank) (placement : Placement) (member : String) : Placement :=
  let left := placement.pendingOf member - 1
  { placement with
    pending := placement.pending.map fun entry =>
      if entry.1 = member then (member, left) else entry
    ready := if left = 0 then placeByRank rank member placement.ready else placement.ready }

def step (rank : String → Rank) (links : Links) (placement : Placement) : Placement :=
  match placement.ready with
  | [] => placement
  | next :: others =>
    (links.successors next).foldl (release rank)
      { placement with placed := placement.placed ++ [next], ready := others }

-- Place modules until none is ready, but no more than a number of them. Every step places a
-- module, so that the number of members is enough.
def run (rank : String → Rank) (links : Links) : Nat → Placement → Placement
  | 0, placement => placement
  | bound + 1, placement =>
    if placement.ready.isEmpty then placement
    else run rank links bound (step rank links placement)

def ofLinks (rank : String → Rank) (links : Links) : Placement :=
  run rank links links.length (start rank links)

def waiting (placement : Placement) : List String :=
  placement.pending.filterMap fun entry => if 0 < entry.2 then some entry.1 else none

end Placement

end Activation

namespace Activation.Cycle

-- The modules that wait and are not on the path become fewer with every step.
theorem fewer_off_path {waiting path : List String} {next : String} (waits : next ∈ waiting)
    (fresh : next ∉ path) :
    (waiting.filter fun name => decide (name ∉ path ++ [next])).length <
      (waiting.filter fun name => decide (name ∉ path)).length := by
  have split : (waiting.filter fun name => decide (name ∉ path ++ [next])) =
      (waiting.filter fun name => decide (name ∉ path)).filter fun name =>
        decide (name ≠ next) := by
    rw [List.filter_filter]
    refine List.filter_congr fun name _ => ?_
    by_cases inPath : name ∈ path <;> by_cases equal : name = next <;> simp [inPath, equal]
  rw [split]
  refine List.length_filter_lt_length_iff_exists.mpr ⟨next, ?_, by simp⟩
  exact List.mem_filter.mpr ⟨waits, by simpa using fresh⟩

-- Follow predecessors that wait, the first in each list, until one is on the path already; from
-- there on the path is the cycle. Where no predecessor waits, the path ends.
def walk (predecessors : String → List String) (waiting path : List String)
    (current : String) : List String :=
  match _found : (predecessors current).find? (fun name => decide (name ∈ waiting)) with
  | none => path
  | some next =>
    if next ∈ path then path.dropWhile fun name => decide (name ≠ next)
    else walk predecessors waiting (path ++ [next]) next
termination_by (waiting.filter fun name => decide (name ∉ path)).length
decreasing_by
  next fresh =>
    exact fewer_off_path (by simpa using List.find?_some _found) fresh

def find (blocked : List String) (predecessors : String → List String)
    (waiting : List String) : List String :=
  match blocked with
  | [] => []
  | first :: _ => walk predecessors waiting [first] first

end Activation.Cycle
