import Activation.Text
import Mathlib.Order.Basic

namespace Activation.Text

def bytes (text : String) : List UInt8 :=
  text.toUTF8.data.toList

private theorem bytes_eq_flatMap (text : String) :
    bytes text = text.toList.flatMap String.utf8EncodeChar := by
  unfold bytes
  rw [String.toUTF8_eq_toByteArray, ← String.utf8Encode_toList, List.utf8Encode,
    List.toList_data_toByteArray]

-- Codes of different lengths differ in their first bytes already, and those of one length hold the
-- digits of the character from the highest on. So the order never depends on what follows.
private theorem utf8EncodeChar_append_lt (lower higher : Char) (h : lower < higher)
    (rest other : List UInt8) :
    String.utf8EncodeChar lower ++ rest < String.utf8EncodeChar higher ++ other := by
  have hv : lower.val.toNat < higher.val.toNat := h
  have hbound : higher.val.toNat < 0x110000 := by
    rcases higher.valid with hs | hs <;> omega
  unfold String.utf8EncodeChar
  simp only
  generalize lower.val.toNat = a at *
  generalize higher.val.toNat = b at *
  have hdigits : ∀ n : Nat, n / 4096 = n / 64 / 64 ∧ n / 262144 = n / 64 / 64 / 64 := fun n => by
    omega
  simp only [(hdigits a).1, (hdigits a).2, (hdigits b).1, (hdigits b).2]
  split_ifs <;>
    simp only [List.cons_append, List.nil_append, List.cons_lt_cons_iff, UInt8.lt_iff_toNat_lt,
      ← UInt8.toNat_inj, UInt8.toNat_ofNat'] <;> omega

private theorem flatMap_utf8EncodeChar_lt (a b : List Char) (h : a < b) :
    a.flatMap String.utf8EncodeChar < b.flatMap String.utf8EncodeChar := by
  induction a generalizing b with
  | nil =>
      cases b with
      | nil => exact absurd h (List.lt_irrefl _)
      | cons c b =>
          obtain ⟨byte, bytes, hc⟩ :=
            List.exists_cons_of_ne_nil (@String.utf8EncodeChar_ne_nil c)
          simp [hc]
  | cons c a ih =>
      cases b with
      | nil => exact absurd h (List.not_lt_nil _)
      | cons d b =>
          rw [List.flatMap_cons, List.flatMap_cons]
          rcases List.cons_lt_cons_iff.mp h with hlt | ⟨rfl, hlt⟩
          · exact utf8EncodeChar_append_lt c d hlt _ _
          · exact List.append_left_lt (ih b hlt)

theorem lt_iff_bytes_lt (a b : String) : a < b ↔ bytes a < bytes b := by
  have hmono : ∀ a b : String, a < b → bytes a < bytes b := by
    intro a b h
    rw [bytes_eq_flatMap, bytes_eq_flatMap]
    exact flatMap_utf8EncodeChar_lt _ _ h
  refine ⟨hmono a b, fun h => ?_⟩
  by_contra hn
  by_cases hlt : b < a
  · exact List.lt_asymm h (hmono b a hlt)
  · rw [String.le_antisymm (String.not_lt.mp hlt) (String.not_lt.mp hn)] at h
    exact List.lt_irrefl _ h

variable {item text : String} {fields items : List String}

theorem join_eq_intercalate (separator : String) (items : List String) :
    join separator items = separator.intercalate items := by
  induction items with
  | nil => simp [join]
  | cons item rest ih =>
      cases rest with
      | nil => simp [join]
      | cons next rest => rw [join, ih, String.intercalate_cons_cons]; simp

theorem join_cons (h : items ≠ []) (separator item : String) :
    join separator (item :: items) = item ++ separator ++ join separator items := by
  rw [join_eq_intercalate, join_eq_intercalate, String.intercalate_cons_of_ne_nil h]

private theorem pieces_eq_splitOn (separator : Char) (chars : List Char) :
    pieces separator chars = chars.splitOn separator := by
  induction chars with
  | nil => simp [pieces]
  | cons c rest ih =>
      rw [pieces, List.splitOn_eq_splitOnP, List.splitOnP_cons_eq_if_modifyHead,
        ← List.splitOn_eq_splitOnP, ← ih]
      by_cases hc : c = separator
      · simp [hc]
      · cases hp : pieces separator rest with
        | nil => exact absurd hp (pieces_ne_nil separator rest)
        | cons piece others => simp [hc]

theorem pieces_intercalate {mark : String} {separator : Char} (hmark : mark.toList = [separator])
    (h : ∀ item ∈ items, separator ∉ item.toList) (hne : items ≠ []) :
    pieces separator (mark.intercalate items).toList = items.map String.toList := by
  have hfree : ∀ chars ∈ items.map String.toList, separator ∉ chars := by
    intro chars hm
    obtain ⟨item, hi, rfl⟩ := List.mem_map.mp hm
    exact h item hi
  have hsplit := List.splitOn_intercalate separator hfree (by simpa using hne)
  rw [pieces_eq_splitOn, String.toList_intercalate, hmark, hsplit]

def IsBlank (text : String) : Prop := ∀ c ∈ text.toList, isBlank c = true

instance (text : String) : Decidable (IsBlank text) :=
  List.decidableBAll _ text.toList

-- A text that stands for itself in a list.
structure IsItem (item : String) : Prop where
  ne_empty : item ≠ ""
  comma_notMem : ',' ∉ item.toList
  head : ∀ c ∈ item.toList.head?, isBlank c = false
  last : ∀ c ∈ item.toList.getLast?, isBlank c = false

theorem isItem_iff : IsItem item ↔ item ≠ "" ∧ ',' ∉ item.toList ∧
    item.toList.head?.all (fun c => !isBlank c) = true ∧
    item.toList.getLast?.all (fun c => !isBlank c) = true := by
  simp only [Option.all_eq_true, Bool.not_eq_true']
  exact ⟨fun ⟨hne, hcomma, hhead, hlast⟩ => ⟨hne, hcomma, hhead, hlast⟩,
    fun ⟨hne, hcomma, hhead, hlast⟩ => ⟨hne, hcomma, hhead, hlast⟩⟩

instance (item : String) : Decidable (IsItem item) :=
  decidable_of_iff _ isItem_iff.symm

-- How a list may be written between commas: every item with any blanks around it, and any number of
-- blank fields.
inductive Spells : List String → List String → Prop where
  | nil : Spells [] []
  | blank {field : String} {fields items : List String} (blank : IsBlank field)
      (others : Spells fields items) : Spells (field :: fields) items
  | item {left item right : String} {fields items : List String} (left_blank : IsBlank left)
      (right_blank : IsBlank right) (others : Spells fields items) :
      Spells ((left ++ item ++ right) :: fields) (item :: items)

private theorem IsBlank.comma_notMem (h : IsBlank text) : ',' ∉ text.toList := fun hm =>
  absurd (h ',' hm) (by decide)

theorem dropWhile_of_head {p : Char → Bool} {chars : List Char}
    (h : ∀ c ∈ chars.head?, p c = false) : chars.dropWhile p = chars := by
  cases chars with
  | nil => rfl
  | cons c rest =>
      have hc : p c = false := h c rfl
      rw [List.dropWhile_cons_of_neg (by simp [hc])]

theorem dropWhile_append_of_head {p : Char → Bool} {left chars : List Char}
    (hleft : ∀ c ∈ left, p c = true) (h : ∀ c ∈ chars.head?, p c = false) :
    (left ++ chars).dropWhile p = chars := by
  rw [List.dropWhile_append_of_pos hleft, dropWhile_of_head h]

theorem trimChars_around {left right : String} (hl : IsBlank left) (hr : IsBlank right)
    (h : IsItem item) : trimChars (left ++ item ++ right).toList = item.toList := by
  obtain ⟨c, rest, hc⟩ : ∃ c rest, item.toList = c :: rest :=
    List.exists_cons_of_ne_nil fun hn => h.ne_empty (String.toList_eq_nil_iff.mp hn)
  have hhead : ∀ d ∈ (item.toList ++ right.toList).head?, isBlank d = false := by
    intro d hd
    apply h.head
    rw [hc] at hd ⊢
    exact hd
  have hlast : ∀ d ∈ item.toList.reverse.head?, isBlank d = false := by
    rw [List.head?_reverse]
    exact h.last
  have hright : ∀ d ∈ right.toList.reverse, isBlank d = true := fun d hd =>
    hr d (List.mem_reverse.mp hd)
  rw [trimChars, String.toList_append, String.toList_append, List.append_assoc,
    dropWhile_append_of_head hl hhead, List.reverse_append, dropWhile_append_of_head hright hlast,
    List.reverse_reverse]

theorem Spells.comma_notMem (h : Spells fields items) (hitems : ∀ item ∈ items, IsItem item) :
    ∀ field ∈ fields, ',' ∉ field.toList := by
  induction h with
  | nil => exact nofun
  | blank hb _ ih => exact List.forall_mem_cons.mpr ⟨hb.comma_notMem, ih hitems⟩
  | item hl hr _ ih =>
      obtain ⟨hitem, hrest⟩ := List.forall_mem_cons.mp hitems
      refine List.forall_mem_cons.mpr ⟨?_, ih hrest⟩
      simp [hl.comma_notMem, hr.comma_notMem, hitem.comma_notMem]

theorem Spells.filter_trimmed (h : Spells fields items) (hitems : ∀ item ∈ items, IsItem item) :
    (fields.map fun field => trimChars field.toList).filter (fun item => !item.isEmpty) =
      items.map String.toList := by
  induction h with
  | nil => rfl
  | blank hb _ ih =>
      rw [List.map_cons, trimChars_eq_nil hb]
      exact ih hitems
  | @item left item right fields items hl hr _ ih =>
      obtain ⟨hitem, hrest⟩ := List.forall_mem_cons.mp hitems
      have hne : item.toList ≠ [] := fun hn => hitem.ne_empty (String.toList_eq_nil_iff.mp hn)
      rw [List.map_cons, trimChars_around hl hr hitem, List.filter_cons_of_pos (by simpa using hne),
        ih hrest, List.map_cons]

-- However a list is written, the same items are read from it.
theorem items_join (h : Spells fields items) (hitems : ∀ item ∈ items, IsItem item) :
    Text.items (join "," fields) = items := by
  have hchars : itemsOfChars (join "," fields).toList = items.map String.toList := by
    by_cases hfields : fields = []
    · subst hfields
      cases h
      rfl
    · rw [itemsOfChars, join_eq_intercalate, pieces_intercalate rfl (h.comma_notMem hitems) hfields,
        List.map_map]
      exact h.filter_trimmed hitems
  rw [Text.items, hchars, List.map_map]
  simp [Function.comp_def]

end Activation.Text
