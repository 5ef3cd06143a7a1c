namespace Activation

namespace Name

section Place

variable {α κ : Type} [DecidableEq κ] {lt : κ → κ → Prop} [DecidableRel lt] {key : α → κ}

-- In a list that is ordered by keys an item replaces the one with its key, and else goes before the
-- first with a greater one.
def place (lt : κ → κ → Prop) [DecidableRel lt] (key : α → κ) (item : α) : List α → List α
  | [] => [item]
  | first :: rest =>
    if lt (key item) (key first) then item :: first :: rest
    else if key item = key first then item :: rest
    else first :: place lt key item rest

theorem mem_keys_place {item : α} {items : List α} {other : κ} :
    other ∈ (place lt key item items).map key ↔ other = key item ∨ other ∈ items.map key := by
  induction items with
  | nil => simp [place]
  | cons first rest ih =>
    rw [place]
    split
    · simp
    · split
      · next equal => simp [equal]
      · rw [List.map_cons, List.mem_cons, ih, List.map_cons, List.mem_cons]
        exact or_left_comm

theorem place_perm {item : α} {items : List α} (fresh : key item ∉ items.map key) :
    (place lt key item items).Perm (item :: items) := by
  induction items with
  | nil => exact List.Perm.refl _
  | cons first rest ih =>
    obtain ⟨different, others⟩ := not_or.mp (mt List.mem_cons.mpr fresh)
    rw [place, if_neg different]
    split
    · exact List.Perm.refl _
    · exact ((ih others).cons first).trans (List.Perm.swap item first rest)

theorem pairwise_place (trans : ∀ a b c, lt a b → lt b c → lt a c)
    (total : ∀ a b, lt a b ∨ a = b ∨ lt b a) (item : α) {items : List α}
    (h : (items.map key).Pairwise lt) : ((place lt key item items).map key).Pairwise lt := by
  induction items with
  | nil => simp [place]
  | cons first rest ih =>
    have ⟨least, ordered⟩ := List.pairwise_cons.mp h
    rw [place]
    split
    · next smaller =>
      refine List.pairwise_cons.mpr ⟨?_, h⟩
      intro other member
      rcases List.mem_cons.mp member with rfl | inRest
      · exact smaller
      · exact trans _ _ _ smaller (least other inRest)
    · next notSmaller =>
      split
      · next equal =>
        rw [List.map_cons, equal]
        exact h
      · next different =>
        refine List.pairwise_cons.mpr ⟨?_, ih ordered⟩
        intro other member
        rcases mem_keys_place.mp member with rfl | inRest
        · rcases total (key first) (key item) with smaller | equal | greater
          · exact smaller
          · exact absurd equal.symm different
          · exact absurd greater notSmaller
        · exact least other inRest

end Place

theorem lt_total (a b : String) : a < b ∨ a = b ∨ b < a := by
  by_cases less : a < b
  · exact .inl less
  · by_cases more : b < a
    · exact .inr (.inr more)
    · exact .inr (.inl (String.le_antisymm (String.not_lt.mp more) (String.not_lt.mp less)))

theorem pairwise_place_names {α : Type} {key : α → String} (item : α) {items : List α}
    (h : (items.map key).Pairwise (· < ·)) :
    ((place (· < ·) key item items).map key).Pairwise (· < ·) :=
  @pairwise_place _ _ _ (fun a b => a < b) _ key (fun _ _ _ => String.lt_trans) lt_total item
    items h

@[simp]
theorem lookup_cons {α : Type} (entry : String × α) (entries : List (String × α)) (name : String) :
    (entry :: entries).lookup name =
      if name = entry.1 then some entry.2 else entries.lookup name := by
  rw [List.lookup_cons]
  by_cases equal : name = entry.1
  · simp [equal]
  · rw [beq_false_of_ne equal, if_neg equal]

theorem lookup_place {α : Type} (name : String) (value : α) (entries : List (String × α))
    (other : String) :
    (place (· < ·) Prod.fst (name, value) entries).lookup other =
      if other = name then some value else entries.lookup other := by
  induction entries with
  | nil => simp [place]
  | cons first rest ih =>
    rw [place]
    split
    · rw [lookup_cons]
    · split
      · next equal => by_cases same : other = name <;> simp_all
      · next different =>
        rw [lookup_cons, lookup_cons, ih]
        by_cases same : other = name
        · rw [if_neg fun equal => different (same.symm.trans equal), if_pos same, if_pos same]
        · rw [if_neg same, if_neg same]

section Distinct

variable {α : Type} [DecidableEq α]

-- First occurrences only.
def distinct : List α → List α
  | [] => []
  | x :: rest => x :: (distinct rest).filter fun y => decide (y ≠ x)

@[simp]
theorem mem_distinct {x : α} {xs : List α} : x ∈ distinct xs ↔ x ∈ xs := by
  induction xs with
  | nil => simp [distinct]
  | cons y rest ih =>
    by_cases h : x = y
    · simp [distinct, h]
    · simp [distinct, h, ih]

@[simp]
theorem nodup_distinct (xs : List α) : (distinct xs).Nodup := by
  induction xs with
  | nil => simp [distinct]
  | cons y rest ih =>
    rw [distinct, List.nodup_cons]
    exact ⟨by simp, ih.filter _⟩

end Distinct

end Name

-- Finite sets of names. They are kept in order, so that sets with the same members are equal.
structure NameSet where
  members : List String
  ascending : members.Pairwise (· < ·)
deriving DecidableEq

namespace NameSet

def empty : NameSet := ⟨[], List.Pairwise.nil⟩

instance : Inhabited NameSet := ⟨empty⟩

def insert (set : NameSet) (name : String) : NameSet :=
  ⟨Name.place (· < ·) id name set.members, by
    simpa using @Name.pairwise_place_names _ id name set.members (by simpa using set.ascending)⟩

def ofList (names : List String) : NameSet :=
  names.foldr (fun name set => set.insert name) empty

def contains (set : NameSet) (name : String) : Bool :=
  decide (name ∈ set.members)

def size (set : NameSet) : Nat :=
  set.members.length

instance : Membership String NameSet := ⟨fun set name => name ∈ set.members⟩

instance (name : String) (set : NameSet) : Decidable (name ∈ set) :=
  inferInstanceAs (Decidable (name ∈ set.members))

@[simp]
theorem mem_insert {set : NameSet} {name other : String} :
    other ∈ set.insert name ↔ other = name ∨ other ∈ set := by
  change other ∈ Name.place (· < ·) id name set.members ↔ other = name ∨ other ∈ set.members
  simpa using @Name.mem_keys_place _ _ _ (· < ·) _ id name set.members other

@[simp]
theorem mem_ofList {names : List String} {name : String} : name ∈ ofList names ↔ name ∈ names := by
  induction names with
  | nil => exact Iff.rfl
  | cons first rest ih =>
    rw [ofList, List.foldr_cons, mem_insert, List.mem_cons]
    exact or_congr_right ih

@[simp]
theorem contains_iff {set : NameSet} {name : String} : set.contains name = true ↔ name ∈ set := by
  simp only [contains, decide_eq_true_eq]
  exact Iff.rfl

end NameSet

-- Finite maps from names, kept in the order of the names, so that maps with the same look-ups are
-- equal.
structure NameMap (α : Type) where
  entries : List (String × α)
  ascending : (entries.map Prod.fst).Pairwise (· < ·)

namespace NameMap

variable {α : Type}

def empty : NameMap α := ⟨[], List.Pairwise.nil⟩

instance : Inhabited (NameMap α) := ⟨empty⟩

instance [DecidableEq α] : DecidableEq (NameMap α) := fun a b =>
  if h : a.entries = b.entries then
    isTrue (by cases a; cases b; cases h; rfl)
  else
    isFalse (fun equal => h (by rw [equal]))

def get? (map : NameMap α) (name : String) : Option α :=
  map.entries.lookup name

def contains (map : NameMap α) (name : String) : Bool :=
  (map.get? name).isSome

def insert (map : NameMap α) (name : String) (value : α) : NameMap α :=
  ⟨Name.place (· < ·) Prod.fst (name, value) map.entries,
    Name.pairwise_place_names (name, value) map.ascending⟩

-- Entries are added from left to right: of two with one name the later stays.
def insertAll (map : NameMap α) (entries : List (String × α)) : NameMap α :=
  entries.foldl (fun built entry => built.insert entry.1 entry.2) map

def ofList (entries : List (String × α)) : NameMap α :=
  empty.insertAll entries

def names (map : NameMap α) : List String :=
  map.entries.map Prod.fst

def size (map : NameMap α) : Nat :=
  map.entries.length

@[simp]
theorem get?_insert (map : NameMap α) (name : String) (value : α) (other : String) :
    (map.insert name value).get? other = if other = name then some value else map.get? other :=
  Name.lookup_place name value map.entries other

end NameMap

end Activation
