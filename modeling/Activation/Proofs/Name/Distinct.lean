import Activation.Name
import Mathlib.Data.List.Dedup

namespace Activation.Name

variable {α β : Type}

theorem findSome?_eq_of_agree {f : α → Option β} {xs ys : List α} (hmem : ∀ x, x ∈ xs ↔ x ∈ ys)
    (hf : ∀ x ∈ xs, ∀ y ∈ xs, ∀ a b, f x = some a → f y = some b → a = b) :
    xs.findSome? f = ys.findSome? f := by
  cases hx : xs.findSome? f with
  | none =>
      rw [eq_comm, List.findSome?_eq_none_iff]
      exact fun y hy => List.findSome?_eq_none_iff.mp hx y ((hmem y).mpr hy)
  | some a =>
      obtain ⟨x, hxs, ha⟩ := List.exists_of_findSome?_eq_some hx
      cases hy : ys.findSome? f with
      | none =>
          rw [List.findSome?_eq_none_iff.mp hy x ((hmem x).mp hxs)] at ha
          cases ha
      | some b =>
          obtain ⟨y, hys, hb⟩ := List.exists_of_findSome?_eq_some hy
          exact congrArg some (hf x hxs y ((hmem y).mpr hys) a b ha hb)

variable [DecidableEq α]

theorem findSome?_reverse_dedup (f : α → Option β) (xs : List α) :
    xs.dedup.reverse.findSome? f = xs.reverse.findSome? f := by
  induction xs with
  | nil => rfl
  | cons x rest ih =>
      by_cases hx : x ∈ rest
      · rw [List.dedup_cons_of_mem hx, ih, List.reverse_cons, List.findSome?_append]
        cases hrest : rest.reverse.findSome? f with
        | some value => rfl
        | none =>
            have hnone : f x = none :=
              List.findSome?_eq_none_iff.mp hrest x (List.mem_reverse.mpr hx)
            simp [hnone]
      · rw [List.dedup_cons_of_notMem hx, List.reverse_cons, List.reverse_cons,
          List.findSome?_append, List.findSome?_append, ih]

theorem filter_distinct (p : α → Bool) (xs : List α) :
    (distinct xs).filter p = distinct (xs.filter p) := by
  induction xs with
  | nil => rfl
  | cons x rest ih =>
      cases hp : p x with
      | true =>
          rw [List.filter_cons_of_pos hp, distinct, distinct, List.filter_cons_of_pos hp, ← ih,
            List.filter_filter, List.filter_filter]
          simp only [Bool.and_comm]
      | false =>
          have hdropped : ¬ p x = true := by simp [hp]
          rw [List.filter_cons_of_neg hdropped, distinct, List.filter_cons_of_neg hdropped, ← ih,
            List.filter_filter]
          refine List.filter_congr fun y _ => ?_
          by_cases hy : y = x
          · simp [hy, hp]
          · simp [hy]

theorem distinct_append (xs ys : List α) :
    distinct (xs ++ ys) = distinct xs ++ (distinct ys).filter fun y => decide (y ∉ xs) := by
  induction xs with
  | nil => simp [distinct]
  | cons x rest ih =>
      rw [List.cons_append, distinct, ih, List.filter_append, List.filter_filter, distinct,
        List.cons_append]
      congr 2
      refine List.filter_congr fun y _ => ?_
      by_cases hy : y = x <;> simp [hy]

theorem distinct_concat (xs : List α) (x : α) :
    distinct (xs ++ [x]) = if x ∈ xs then distinct xs else distinct xs ++ [x] := by
  rw [distinct_append]
  by_cases hx : x ∈ xs
  · simp [distinct, hx]
  · simp [distinct, hx]

private theorem flatMap_filter_ne {f : α → List β} {x : α} (hx : f x = []) (xs : List α) :
    (xs.filter fun y => decide (y ≠ x)).flatMap f = xs.flatMap f := by
  induction xs with
  | nil => rfl
  | cons y rest ih =>
      by_cases hy : y = x
      · rw [List.filter_cons_of_neg (by simpa using hy), ih, List.flatMap_cons, hy, hx,
          List.nil_append]
      · rw [List.filter_cons_of_pos (by simpa using hy), List.flatMap_cons, List.flatMap_cons, ih]

-- An element that comes again brings in nothing that was not brought in by its first occurrence.
theorem distinct_flatMap_distinct [DecidableEq β] (f : α → List β) (xs : List α) :
    distinct ((distinct xs).flatMap f) = distinct (xs.flatMap f) := by
  induction xs with
  | nil => rfl
  | cons x rest ih =>
      have hfresh : ((((distinct rest).filter fun y => decide (y ≠ x)).flatMap f).filter
          fun y => decide (y ∉ f x)) =
            ((distinct rest).flatMap f).filter fun y => decide (y ∉ f x) := by
        rw [List.filter_flatMap, List.filter_flatMap]
        apply flatMap_filter_ne
        simp
      rw [distinct, List.flatMap_cons, distinct_append, filter_distinct, hfresh, ← filter_distinct,
        ih, ← distinct_append, List.flatMap_cons]

def SameFirst (xs ys : List α) : Prop :=
  distinct xs = distinct ys

@[simp]
theorem distinct_eq_nil_iff {xs : List α} : distinct xs = [] ↔ xs = [] := by
  cases xs <;> simp [distinct]

theorem SameFirst.eq_nil_iff {xs ys : List α} (h : SameFirst xs ys) : xs = [] ↔ ys = [] := by
  rw [← distinct_eq_nil_iff, h, distinct_eq_nil_iff]

end Activation.Name
