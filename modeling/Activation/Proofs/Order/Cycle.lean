import Activation.Order.Placement
import Mathlib.Data.List.Nodup
import Mathlib.Data.List.Range

namespace Activation.Cycle

section Walk

variable {predecessors : String → List String} {waiting path loop : List String}
  {current next : String}

-- A walk that ends because it comes back to its path, never for want of a predecessor.
inductive Closes (predecessors : String → List String) (waiting : List String) :
    List String → String → List String → Prop
  | close {path : List String} {current next : String}
      (hfind : (predecessors current).find? (fun name => decide (name ∈ waiting)) = some next)
      (hm : next ∈ path) :
      Closes predecessors waiting path current (path.dropWhile fun name => decide (name ≠ next))
  | extend {path loop : List String} {current next : String}
      (hfind : (predecessors current).find? (fun name => decide (name ∈ waiting)) = some next)
      (hm : next ∉ path) (h : Closes predecessors waiting (path ++ [next]) next loop) :
      Closes predecessors waiting path current loop

theorem walk_of_find_none (hfind : (predecessors current).find?
    (fun name => decide (name ∈ waiting)) = none) :
    walk predecessors waiting path current = path := by
  rw [walk]
  split
  · rfl
  · rename_i next hnext
    rw [hnext] at hfind
    cases hfind

theorem walk_of_find (hfind : (predecessors current).find?
    (fun name => decide (name ∈ waiting)) = some next) :
    walk predecessors waiting path current =
      if next ∈ path then path.dropWhile fun name => decide (name ≠ next)
      else walk predecessors waiting (path ++ [next]) next := by
  rw [walk]
  split
  · rename_i hnone
    rw [hnone] at hfind
    cases hfind
  · rename_i other hother
    obtain rfl : other = next := Option.some.inj (hother.symm.trans hfind)
    rfl

theorem walk_congr {other : List String} (h : ∀ name, name ∈ waiting ↔ name ∈ other)
    (path : List String) (current : String) :
    walk predecessors waiting path current = walk predecessors other path current := by
  have htest : (fun name => decide (name ∈ waiting)) = fun name => decide (name ∈ other) :=
    funext fun name => decide_eq_decide.mpr (h name)
  induction path, current using walk.induct predecessors waiting with
  | case1 path current hfind =>
      have hother := hfind
      rw [htest] at hother
      rw [walk_of_find_none hfind, walk_of_find_none hother]
  | case2 path current next hfind hm =>
      have hother := hfind
      rw [htest] at hother
      rw [walk_of_find hfind, if_pos hm, walk_of_find hother, if_pos hm]
  | case3 path current next hfind hm ih =>
      have hother := hfind
      rw [htest] at hother
      rw [walk_of_find hfind, if_neg hm, walk_of_find hother, if_neg hm, ih]

theorem find_congr {other : List String} (h : ∀ name, name ∈ waiting ↔ name ∈ other)
    (blocked : List String) :
    find blocked predecessors waiting = find blocked predecessors other := by
  cases blocked with
  | nil => rfl
  | cons first rest => exact walk_congr h [first] first

private theorem find?_waiting
    (hall : ∀ name ∈ waiting, ∃ earlier ∈ predecessors name, earlier ∈ waiting)
    {name : String} (hm : name ∈ waiting) : ∃ next ∈ waiting,
      (predecessors name).find? (fun name => decide (name ∈ waiting)) = some next := by
  obtain ⟨earlier, he, hw⟩ := hall name hm
  have hsome : ((predecessors name).find? fun name => decide (name ∈ waiting)).isSome :=
    List.find?_isSome.mpr ⟨earlier, he, by simpa using hw⟩
  obtain ⟨next, hfind⟩ := Option.isSome_iff_exists.mp hsome
  exact ⟨next, by simpa using List.find?_some hfind, hfind⟩

-- Where everything that waits has a predecessor that waits, the walk cannot run out of them.
theorem walk_closes
    (hall : ∀ name ∈ waiting, ∃ earlier ∈ predecessors name, earlier ∈ waiting)
    (path : List String) (current : String) (hc : current ∈ waiting) :
    Closes predecessors waiting path current (walk predecessors waiting path current) := by
  obtain ⟨next, hnext, hfind⟩ := find?_waiting hall hc
  rw [walk_of_find hfind]
  by_cases hm : next ∈ path
  · rw [if_pos hm]
    exact Closes.close hfind hm
  · rw [if_neg hm]
    exact Closes.extend hfind hm (walk_closes hall (path ++ [next]) next hnext)
termination_by (waiting.filter fun name => decide (name ∉ path)).length
decreasing_by exact fewer_off_path hnext hm

-- The walk without an end: from each name to its first predecessor that waits.
def follow (predecessors : String → List String) (waiting : List String) (start : String) :
    Nat → String
  | 0 => start
  | n + 1 =>
      let current := follow predecessors waiting start n
      ((predecessors current).find? fun name => decide (name ∈ waiting)).getD current

theorem find?_follow
    (hall : ∀ name ∈ waiting, ∃ earlier ∈ predecessors name, earlier ∈ waiting)
    (hc : current ∈ waiting) (n : Nat) :
    follow predecessors waiting current n ∈ waiting ∧
      (predecessors (follow predecessors waiting current n)).find?
        (fun name => decide (name ∈ waiting)) =
          some (follow predecessors waiting current (n + 1)) := by
  have hmem : follow predecessors waiting current n ∈ waiting := by
    induction n with
    | zero => exact hc
    | succ n ih =>
        obtain ⟨next, hnext, hfind⟩ := find?_waiting hall ih
        rw [follow, hfind]
        exact hnext
  obtain ⟨next, -, hfind⟩ := find?_waiting hall hmem
  refine ⟨hmem, ?_⟩
  rw [follow, hfind]
  rfl

end Walk

section Trail

variable {trail : Nat → String} {loop other : List String}

-- What an endless walk goes through from the module that it is the first to come back to.
def FirstLoop (trail : Nat → String) (loop : List String) : Prop :=
  ∃ start length, 0 < length ∧ (∀ i j, i < j → j < start + length → trail i ≠ trail j) ∧
    trail (start + length) = trail start ∧ loop = (List.range' start length).map trail

theorem FirstLoop.unique (h : FirstLoop trail loop) (ho : FirstLoop trail other) :
    loop = other := by
  obtain ⟨start, length, hl, hfresh, hback, rfl⟩ := h
  obtain ⟨start', length', hl', hfresh', hback', rfl⟩ := ho
  have hend : start + length = start' + length' := by
    by_contra hne
    rcases Nat.lt_or_gt_of_ne hne with hlt | hgt
    · exact hfresh' start (start + length) (by omega) hlt hback.symm
    · exact hfresh start' (start' + length') (by omega) hgt hback'.symm
  have hstart : start = start' := by
    by_contra hne
    have hsame : trail start = trail start' := by rw [← hback, hend, hback']
    rcases Nat.lt_or_gt_of_ne hne with hlt | hgt
    · exact hfresh start start' hlt (by omega) hsame
    · exact hfresh start' start hgt (by omega) hsame.symm
  subst hstart
  rw [show length = length' by omega]

-- Each name has to come after the next one, and the last after the first.
structure Loop (R : String → String → Prop) (members : List String) : Prop where
  ne_nil : members ≠ []
  nodup : members.Nodup
  chain : ∀ i (hi : i + 1 < members.length), R members[i + 1] members[i]
  closed : R (members.head ne_nil) (members.getLast ne_nil)

theorem FirstLoop.isLoop {R : String → String → Prop} (h : FirstLoop trail loop)
    (hr : ∀ n, R (trail (n + 1)) (trail n)) : Loop R loop := by
  obtain ⟨start, length, hl, hfresh, hback, rfl⟩ := h
  have hne : (List.range' start length).map trail ≠ [] := by
    simp only [ne_eq, List.map_eq_nil_iff, List.range'_eq_nil_iff]
    omega
  refine ⟨hne, ?_, ?_, ?_⟩
  · refine List.Nodup.map_on ?_ List.nodup_range'
    intro i hi j hj he
    rw [List.mem_range'_1] at hi hj
    rcases Nat.lt_trichotomy i j with hlt | rfl | hgt
    · exact absurd he (hfresh i j hlt hj.2)
    · rfl
    · exact absurd he.symm (hfresh j i hgt hi.2)
  · intro i hi
    simp only [List.getElem_map, List.getElem_range', Nat.one_mul]
    exact hr (start + i)
  · have hlast : ((List.range' start length).map trail).getLast hne =
        trail (start + (length - 1)) := by
      simp [List.getLast_eq_getElem]
    have hhead : ((List.range' start length).map trail).head hne = trail start := by
      simp [List.head_eq_getElem]
    rw [hlast, hhead, ← hback, show start + length = start + (length - 1) + 1 by omega]
    exact hr _

theorem Loop.mem_of_rel {R : String → String → Prop} {members modules : List String}
    (h : Loop R members) (hr : ∀ earlier later, R earlier later → later ∈ modules) :
    ∀ name ∈ members, name ∈ modules := by
  intro name hm
  obtain ⟨i, hi, rfl⟩ := List.getElem_of_mem hm
  by_cases hlast : i + 1 < members.length
  · exact hr _ _ (h.chain i hlast)
  · have hclosed := h.closed
    rw [List.getLast_eq_getElem] at hclosed
    have he : i = members.length - 1 := by omega
    subst he
    exact hr _ _ hclosed

private theorem dropWhile_map_range {n start : Nat} (hstart : start < n)
    (hfresh : ∀ i j, i < j → j < n → trail i ≠ trail j) :
    ((List.range n).map trail).dropWhile (fun name => decide (name ≠ trail start)) =
      (List.range' start (n - start)).map trail := by
  have hsplit : List.range n = List.range' 0 start ++ List.range' start (n - start) := by
    have happend : List.range' 0 start ++ List.range' (0 + start) (n - start) =
        List.range' 0 (start + (n - start)) := List.range'_append_1
    rw [List.range_eq_range', ← Nat.add_sub_of_le (Nat.le_of_lt hstart), ← happend, Nat.zero_add,
      Nat.add_sub_of_le (Nat.le_of_lt hstart)]
  have hfirst : n - start = n - start - 1 + 1 := by omega
  rw [hsplit, List.map_append, List.dropWhile_append_of_pos]
  · rw [hfirst, List.range'_succ, List.map_cons, List.dropWhile_cons_of_neg (by simp)]
  · intro name hm
    obtain ⟨i, hi, rfl⟩ := List.mem_map.mp hm
    rw [List.mem_range'_1] at hi
    simpa using hfresh i start (by omega) hstart

theorem Closes.firstLoop {predecessors : String → List String} {waiting path : List String}
    {current : String} (h : Closes predecessors waiting path current loop)
    (htrail : ∀ n, (predecessors (trail n)).find? (fun name => decide (name ∈ waiting)) =
      some (trail (n + 1)))
    (n : Nat) (hpath : path = (List.range (n + 1)).map trail) (hcurrent : current = trail n)
    (hfresh : ∀ i j, i < j → j < n + 1 → trail i ≠ trail j) : FirstLoop trail loop := by
  induction h generalizing n with
  | close hfind hm =>
      subst hpath hcurrent
      obtain rfl := Option.some.inj (hfind.symm.trans (htrail n))
      obtain ⟨start, hs, hback⟩ := List.mem_map.mp hm
      rw [List.mem_range] at hs
      refine ⟨start, n + 1 - start, by omega, ?_, ?_, ?_⟩
      · intro i j hij hj
        exact hfresh i j hij (by omega)
      · rw [show start + (n + 1 - start) = n + 1 by omega, hback]
      · rw [← hback, dropWhile_map_range hs hfresh]
  | extend hfind hm _ ih =>
      subst hpath hcurrent
      obtain rfl := Option.some.inj (hfind.symm.trans (htrail n))
      refine ih (n + 1) ?_ rfl ?_
      · rw [List.range_succ (n := n + 1), List.map_append, List.map_singleton]
      · intro i j hij hj
        by_cases hjn : j < n + 1
        · exact hfresh i j hij hjn
        · obtain rfl : j = n + 1 := by omega
          exact fun he => hm (he ▸ List.mem_map_of_mem (List.mem_range.mpr hij))

-- Where everything that waits has a predecessor that waits, the modules before the one that the
-- walk comes back to are dropped.
theorem walk_firstLoop {predecessors : String → List String} {waiting : List String}
    {first : String} (hall : ∀ name ∈ waiting, ∃ earlier ∈ predecessors name, earlier ∈ waiting)
    (hfirst : first ∈ waiting) :
    FirstLoop (follow predecessors waiting first) (walk predecessors waiting [first] first) := by
  refine (walk_closes hall [first] first hfirst).firstLoop
    (fun n => (find?_follow hall hfirst n).2) 0 rfl rfl ?_
  intro i j hij hj
  omega

end Trail

end Activation.Cycle
