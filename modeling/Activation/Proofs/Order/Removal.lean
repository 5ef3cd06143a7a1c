import Activation.Proofs.Order.Sort
import Mathlib.Data.List.Induction

namespace Activation

namespace Placement

variable {ρ : Type} [LT ρ] {rank : String → ρ} {R S : String → String → Prop}
  {members part placed : List String}

-- A part of the members for which nothing outside it has to come first.
structure Part (R S : String → String → Prop) (members part : List String) : Prop where
  mem : ∀ module ∈ part, module ∈ members
  rel_iff : ∀ earlier, ∀ later ∈ part, (S earlier later ↔ R earlier later ∧ earlier ∈ part)
  closed : ∀ earlier, ∀ later ∈ part, R earlier later → earlier ∈ part

theorem Part.free_iff (h : Part R S members part) (placed : List String) (module : String) :
    Free S part (placed.filter fun module => decide (module ∈ part)) module ↔
      Free R members placed module ∧ module ∈ part := by
  simp only [Free, List.mem_filter, decide_eq_true_eq]
  constructor
  · rintro ⟨hm, hn, hall⟩
    refine ⟨⟨h.mem module hm, fun hp => hn ⟨hp, hm⟩, fun earlier he => ?_⟩, hm⟩
    exact (hall earlier ((h.rel_iff earlier module hm).mpr ⟨he, h.closed earlier module hm he⟩)).1
  · rintro ⟨⟨-, hn, hall⟩, hm⟩
    refine ⟨hm, fun hp => hn hp.1, fun earlier he => ?_⟩
    obtain ⟨hr, hearlier⟩ := (h.rel_iff earlier module hm).mp he
    exact ⟨hall earlier hr, hearlier⟩

theorem Part.greedy (h : Part R S members part) (hgreedy : Greedy rank R members placed) :
    Greedy rank S part (placed.filter fun module => decide (module ∈ part)) := by
  induction placed using List.reverseRecOn with
  | nil => exact placing_nil _
  | append_singleton placed next ih =>
      obtain ⟨hplaced, hnext⟩ := Placing.of_append hgreedy
      rw [List.filter_append]
      by_cases hm : next ∈ part
      · rw [List.filter_cons_of_pos (by simpa using hm), List.filter_nil]
        refine (ih hplaced).append next ⟨(h.free_iff placed next).mpr ⟨hnext.1, hm⟩, ?_⟩
        exact fun other ho => hnext.2 other ((h.free_iff placed other).mp ho).1
      -- nothing in the part waits for a module outside it
      · rw [List.filter_cons_of_neg (by simpa using hm), List.filter_nil, List.append_nil]
        exact ih hplaced

end Placement

namespace Precedence

open Placement

variable {precedence : Precedence} {modules part sorted : List String}

theorem before_part_iff (hpart : ∀ module ∈ part, module ∈ modules) (earlier later : String) :
    precedence.Before part earlier later ↔
      precedence.Before modules earlier later ∧ earlier ∈ part ∧ later ∈ part := by
  constructor
  · exact fun ⟨he, hl, hc⟩ => ⟨⟨hpart earlier he, hpart later hl, hc⟩, he, hl⟩
  · exact fun ⟨⟨_, _, hc⟩, he, hl⟩ => ⟨he, hl, hc⟩

theorem not_blocked_of_sort (h : precedence.sort modules = .ok sorted) :
    ¬ ∃ module, Blocked (precedence.Before modules) module := by
  intro hb
  rw [precedence.sort_of_blocked modules hb] at h
  cases h

-- Taking modules away keeps those that are left in their order, as long as none of them has to wait
-- for one that is gone. And it never makes a cycle.
theorem sort_part (precedence : Precedence) (modules part sorted : List String)
    (hpart : ∀ module ∈ part, module ∈ modules) (h : precedence.sort modules = .ok sorted) :
    (∃ order, precedence.sort part = .ok order) ∧
    ((∀ earlier, ∀ later ∈ part, precedence.Before modules earlier later → earlier ∈ part) →
      precedence.sort part = .ok (sorted.filter fun module => decide (module ∈ part))) := by
  constructor
  · have hnone : ¬ ∃ module, Blocked (precedence.Before part) module := by
      rintro ⟨module, hb⟩
      exact not_blocked_of_sort h
        ⟨module, hb.mono fun a b hab => ((before_part_iff hpart a b).mp hab).1⟩
    exact ⟨_, precedence.sort_of_not_blocked part hnone⟩
  · intro hclosed
    have hp : Part (precedence.Before modules) (precedence.Before part) modules part := by
      refine ⟨hpart, fun earlier later hl => ?_, hclosed⟩
      rw [before_part_iff hpart]
      exact and_congr_right fun _ => and_iff_left hl
    obtain ⟨hgreedy, hall⟩ := (precedence.sort_ok_iff modules sorted).mp h
    refine (precedence.sort_ok_iff part _).mpr ⟨hp.greedy hgreedy, fun module hm => ?_⟩
    exact List.mem_filter.mpr ⟨hall module (hpart module hm), decide_eq_true hm⟩

-- "b" is the first by rank, but comes after "a", which is the last. Without "a" nothing keeps "b"
-- from the first place, so that only parts with "a" or without "b" keep their order.
def heldBack : Precedence :=
  .ofDeclared (Metadata.empty.insert "b" { after := ["a"] }) ["b", "c", "a"]

theorem sort_part_heldBack :
    heldBack.sort ["a", "b", "c"] = .ok ["c", "a", "b"] ∧
      heldBack.sort ["b", "a"] = .ok ["a", "b"] ∧
      (∃ order, heldBack.sort ["c", "b"] = .ok order) ∧
      heldBack.sort ["c", "b"] ≠ .ok (["c", "a", "b"].filter fun name => name ∈ ["c", "b"]) := by
  have h : heldBack.sort ["a", "b", "c"] = .ok ["c", "a", "b"] := by decide
  have hclosed : ∀ later ∈ ["b", "a"], ∀ earlier ∈ ["a", "b", "c"],
      heldBack.Constrains earlier later → earlier ∈ ["b", "a"] := by decide
  refine ⟨h, ?_, (sort_part heldBack _ ["c", "b"] _ (by decide) h).1, by decide⟩
  exact (sort_part heldBack _ ["b", "a"] _ (by decide) h).2 fun earlier later hl hb =>
    hclosed later hl earlier hb.1 hb.2.2

end Precedence

end Activation
