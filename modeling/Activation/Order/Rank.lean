import Activation.Name

namespace Activation

structure Rank where
  order : Int
  -- Where the module was first declared; a module that never was ranks after those that were.
  position : Option Nat
  name : String
deriving DecidableEq

namespace Rank

-- The earlier position, none being the last.
def Earlier : Option Nat → Option Nat → Prop
  | some a, some b => a < b
  | some _, none => True
  | none, _ => False

instance : DecidableRel Earlier
  | some a, some b => inferInstanceAs (Decidable (a < b))
  | some _, none => inferInstanceAs (Decidable True)
  | none, _ => inferInstanceAs (Decidable False)

protected def Lt (a b : Rank) : Prop :=
  a.order < b.order ∨ (a.order = b.order ∧
    (Earlier a.position b.position ∨ (a.position = b.position ∧ a.name < b.name)))

instance : LT Rank := ⟨Rank.Lt⟩

instance (a b : Rank) : Decidable (a < b) :=
  inferInstanceAs (Decidable (_ ∨ (_ ∧ (_ ∨ (_ ∧ _)))))

theorem lt_def {a b : Rank} :
    a < b ↔ a.order < b.order ∨ (a.order = b.order ∧
      (Earlier a.position b.position ∨ (a.position = b.position ∧ a.name < b.name))) :=
  Iff.rfl

theorem Earlier.irrefl (a : Option Nat) : ¬ Earlier a a := by
  cases a with
  | none => exact id
  | some a => exact Nat.lt_irrefl a

theorem Earlier.trans {a b c : Option Nat} (hab : Earlier a b) (hbc : Earlier b c) :
    Earlier a c := by
  cases a with
  | none => exact hab
  | some a =>
    cases b with
    | none => exact False.elim hbc
    | some b =>
      cases c with
      | none => trivial
      | some c => exact Nat.lt_trans hab hbc

theorem Earlier.total (a b : Option Nat) : Earlier a b ∨ a = b ∨ Earlier b a := by
  cases a with
  | none =>
    cases b with
    | none => exact Or.inr (Or.inl rfl)
    | some b => exact Or.inr (Or.inr trivial)
  | some a =>
    cases b with
    | none => exact Or.inl trivial
    | some b =>
      rcases Nat.lt_trichotomy a b with lower | equal | higher
      · exact Or.inl lower
      · exact Or.inr (Or.inl (by rw [equal]))
      · exact Or.inr (Or.inr higher)

theorem lt_irrefl (a : Rank) : ¬ a < a := by
  rintro (order | ⟨-, position | ⟨-, name⟩⟩)
  · exact absurd order (Int.lt_irrefl _)
  · exact Earlier.irrefl _ position
  · exact String.lt_irrefl _ name

theorem lt_trans {a b c : Rank} (hab : a < b) (hbc : b < c) : a < c := by
  rcases hab with orderAb | ⟨orderAb, hab⟩
  · rcases hbc with orderBc | ⟨orderBc, -⟩
    · exact Or.inl (Int.lt_trans orderAb orderBc)
    · exact Or.inl (orderBc ▸ orderAb)
  · rcases hbc with orderBc | ⟨orderBc, hbc⟩
    · exact Or.inl (orderAb ▸ orderBc)
    · refine Or.inr ⟨orderAb.trans orderBc, ?_⟩
      rcases hab with positionAb | ⟨positionAb, nameAb⟩
      · rcases hbc with positionBc | ⟨positionBc, -⟩
        · exact Or.inl (positionAb.trans positionBc)
        · exact Or.inl (positionBc ▸ positionAb)
      · rcases hbc with positionBc | ⟨positionBc, nameBc⟩
        · exact Or.inl (positionAb ▸ positionBc)
        · exact Or.inr ⟨positionAb.trans positionBc, String.lt_trans nameAb nameBc⟩

theorem lt_or_eq_or_gt (a b : Rank) : a < b ∨ a = b ∨ b < a := by
  rcases Int.lt_trichotomy a.order b.order with lower | order | higher
  · exact Or.inl (Or.inl lower)
  · rcases Earlier.total a.position b.position with earlier | position | later
    · exact Or.inl (Or.inr ⟨order, Or.inl earlier⟩)
    · by_cases less : a.name < b.name
      · exact Or.inl (Or.inr ⟨order, Or.inr ⟨position, less⟩⟩)
      · by_cases more : b.name < a.name
        · exact Or.inr (Or.inr (Or.inr ⟨order.symm, Or.inr ⟨position.symm, more⟩⟩))
        · have name : a.name = b.name :=
            String.le_antisymm (String.not_lt.mp more) (String.not_lt.mp less)
          refine Or.inr (Or.inl ?_)
          cases a
          cases b
          cases order
          cases position
          cases name
          rfl
    · exact Or.inr (Or.inr (Or.inr ⟨order.symm, Or.inl later⟩))
  · exact Or.inr (Or.inr (Or.inl higher))

end Rank

-- A name goes before the first one of higher rank, and nowhere if it is there already.
def placeByRank (rank : String → Rank) : String → List String → List String :=
  Name.place (fun a b => rank a < rank b) id

def byRank (rank : String → Rank) (names : List String) : List String :=
  names.foldr (placeByRank rank) []

@[simp]
theorem mem_placeByRank {rank : String → Rank} {name other : String} {names : List String} :
    other ∈ placeByRank rank name names ↔ other = name ∨ other ∈ names := by
  rw [placeByRank]
  simpa using @Name.mem_keys_place _ _ _ (fun a b => rank a < rank b) _ id name names other

@[simp]
theorem mem_byRank {rank : String → Rank} {name : String} {names : List String} :
    name ∈ byRank rank names ↔ name ∈ names := by
  induction names with
  | nil => simp [byRank]
  | cons first rest ih =>
    rw [byRank, List.foldr_cons, mem_placeByRank, List.mem_cons]
    exact or_congr_right ih

end Activation
