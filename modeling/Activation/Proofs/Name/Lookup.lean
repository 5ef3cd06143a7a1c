import Activation.Name
import Mathlib.Data.List.Basic

namespace Activation.Name

variable {α : Type}

theorem lookup_filter_ne (entries : List (String × α)) {name other : String}
    (hne : other ≠ name) :
    (entries.filter fun entry => decide (entry.1 ≠ name)).lookup other = entries.lookup other := by
  induction entries with
  | nil => rfl
  | cons entry entries ih =>
      by_cases he : entry.1 = name
      · rw [List.filter_cons_of_neg (by simpa using he), ih, lookup_cons, if_neg (he ▸ hne)]
      · rw [List.filter_cons_of_pos (by simpa using he), lookup_cons, lookup_cons, ih]

theorem lookup_eq_none_of_notMem {entries : List (String × α)} {name : String}
    (hn : name ∉ entries.map Prod.fst) : entries.lookup name = none := by
  rw [List.lookup_eq_none_iff]
  intro entry hm
  have hne : name ≠ entry.1 := fun h => hn (h ▸ List.mem_map_of_mem hm)
  simpa using hne

theorem lookup_of_mem {entries : List (String × α)} (hn : (entries.map Prod.fst).Nodup)
    {name : String} {value : α} (hm : (name, value) ∈ entries) :
    entries.lookup name = some value := by
  induction entries with
  | nil => cases hm
  | cons entry entries ih =>
      obtain ⟨hfresh, hrest⟩ := List.nodup_cons.mp hn
      rcases List.mem_cons.mp hm with rfl | hm
      · simp
      · have hne : name ≠ entry.1 := fun h => hfresh (h ▸ List.mem_map_of_mem hm)
        simp [hne, ih hrest hm]

theorem mem_of_lookup {entries : List (String × α)} {name : String} {value : α}
    (h : entries.lookup name = some value) : (name, value) ∈ entries := by
  induction entries with
  | nil => cases h
  | cons entry entries ih =>
      rw [lookup_cons] at h
      by_cases he : name = entry.1
      · rw [if_pos he] at h
        obtain rfl : entry.2 = value := Option.some.inj h
        subst he
        exact List.mem_cons_self
      · rw [if_neg he] at h
        exact List.mem_cons_of_mem _ (ih h)

theorem isSome_lookup_iff {entries : List (String × α)} {name : String} :
    (entries.lookup name).isSome = true ↔ name ∈ entries.map Prod.fst := by
  constructor
  · intro h
    obtain ⟨value, hvalue⟩ := Option.isSome_iff_exists.mp h
    exact List.mem_map_of_mem (mem_of_lookup hvalue)
  · intro h
    by_contra hn
    obtain ⟨entry, hm, rfl⟩ := List.mem_map.mp h
    have hnone := List.lookup_eq_none_iff.mp (Option.not_isSome_iff_eq_none.mp hn) entry hm
    simp at hnone

theorem lookup_perm {entries shuffled : List (String × α)} (hn : (entries.map Prod.fst).Nodup)
    (hs : shuffled.Perm entries) (name : String) : shuffled.lookup name = entries.lookup name := by
  have hshuffled : (shuffled.map Prod.fst).Nodup := (hs.map Prod.fst).nodup_iff.mpr hn
  apply Option.ext
  intro value
  constructor
  · exact fun h => lookup_of_mem hn (hs.mem_iff.mp (mem_of_lookup h))
  · exact fun h => lookup_of_mem hshuffled (hs.mem_iff.mpr (mem_of_lookup h))

theorem lookup_map_of_mem (f : String → α) {names : List String} {name : String}
    (hm : name ∈ names) : (names.map fun name => (name, f name)).lookup name = some (f name) := by
  induction names with
  | nil => cases hm
  | cons first rest ih =>
      by_cases he : name = first
      · simp [he]
      · simp [he, ih ((List.mem_cons.mp hm).resolve_left he)]

@[simp]
theorem lookup_map_value {β : Type} (f : α → β) (entries : List (String × α)) (name : String) :
    (entries.map fun entry => (entry.1, f entry.2)).lookup name = (entries.lookup name).map f := by
  induction entries with
  | nil => rfl
  | cons entry entries ih =>
      by_cases he : name = entry.1 <;> simp [he, ih]

theorem mem_filterMap_value {entries : List (String × α)} (hn : (entries.map Prod.fst).Nodup)
    (P : α → Prop) [DecidablePred P] (name : String) :
    name ∈ entries.filterMap (fun entry => if P entry.2 then some entry.1 else none) ↔
      ∃ value, entries.lookup name = some value ∧ P value := by
  rw [List.mem_filterMap]
  constructor
  · rintro ⟨entry, hm, he⟩
    split at he
    · rename_i hp
      obtain rfl := Option.some.inj he
      exact ⟨entry.2, lookup_of_mem hn hm, hp⟩
    · cases he
  · rintro ⟨value, hl, hp⟩
    exact ⟨(name, value), mem_of_lookup hl, if_pos hp⟩

private theorem filterMap_value_eq (entries : List (String × α)) (P : α → Prop) [DecidablePred P] :
    entries.filterMap (fun entry => if P entry.2 then some entry.1 else none) =
      (entries.filter fun entry => decide (P entry.2)).map Prod.fst := by
  induction entries with
  | nil => rfl
  | cons entry entries ih =>
      by_cases hp : P entry.2
      · rw [List.filterMap_cons, if_pos hp, List.filter_cons_of_pos (by simpa using hp),
          List.map_cons, ih]
      · rw [List.filterMap_cons, if_neg hp, List.filter_cons_of_neg (by simpa using hp), ih]

theorem nodup_filterMap_value {entries : List (String × α)} (hn : (entries.map Prod.fst).Nodup)
    (P : α → Prop) [DecidablePred P] :
    (entries.filterMap fun entry => if P entry.2 then some entry.1 else none).Nodup := by
  rw [filterMap_value_eq]
  exact hn.sublist (List.filter_sublist.map _)

theorem lookup_map_replace (entries : List (String × α)) (name : String) (value : α)
    (other : String) :
    (entries.map fun entry => if entry.1 = name then (name, value) else entry).lookup other =
      if other = name then (entries.lookup other).map fun _ => value else entries.lookup other := by
  induction entries with
  | nil => simp
  | cons entry entries ih =>
      rw [List.map_cons, lookup_cons, lookup_cons, ih]
      by_cases he : entry.1 = name <;> by_cases ho : other = name
      · simp [he, ho]
      · simp [he, ho]
      · simp [he, ho, Ne.symm he]
      · simp [he, ho]

theorem idxOf?_cons_add (first : String) (rest : List String) (name : String) (start : Nat) :
    ((first :: rest).idxOf? name).map (· + start) =
      if name = first then some start else (rest.idxOf? name).map (· + (start + 1)) := by
  rw [List.idxOf?_cons]
  by_cases he : name = first
  · simp [he]
  · rw [if_neg he, beq_false_of_ne (Ne.symm he), if_neg Bool.false_ne_true, Option.map_map]
    exact Option.map_congr fun position _ => by simp; omega

end Activation.Name

namespace Activation.NameMap

variable {α : Type}

private theorem get?_insertAll_eq_or (entries : List (String × α)) (map : NameMap α)
    (name : String) :
    (map.insertAll entries).get? name = (entries.reverse.lookup name).or (map.get? name) := by
  induction entries generalizing map with
  | nil => rfl
  | cons entry rest ih =>
      have hstep : map.insertAll (entry :: rest) =
          (map.insert entry.1 entry.2).insertAll rest := rfl
      rw [hstep, ih, get?_insert, List.reverse_cons, List.lookup_append, Option.or_assoc]
      congr 1
      by_cases he : name = entry.1 <;> simp [he]

@[simp]
theorem get?_ofList (entries : List (String × α)) (name : String) :
    (ofList entries).get? name = entries.reverse.lookup name := by
  have hempty : (empty : NameMap α).get? name = none := rfl
  rw [ofList, get?_insertAll_eq_or, hempty, Option.or_none]

theorem get?_insertAll (entries : List (String × α)) (hn : (entries.map Prod.fst).Nodup)
    (map : NameMap α) (name : String) :
    (map.insertAll entries).get? name = (entries.lookup name).or (map.get? name) := by
  rw [get?_insertAll_eq_or, Name.lookup_perm hn (List.reverse_perm entries)]

end Activation.NameMap
