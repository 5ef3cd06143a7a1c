import Activation.Proofs.Override
import Mathlib.Data.List.DropRight

namespace Activation

namespace Text

variable {separator : Char} {chars piece : List Char} {item text : String} {list : List String}

@[simp]
theorem pieces_append (separator : Char) (left right : List Char) :
    pieces separator (left ++ separator :: right) =
      pieces separator left ++ pieces separator right := by
  induction left with
  | nil => exact pieces_cons_separator separator right
  | cons c rest ih =>
      rw [List.cons_append, pieces, pieces, ih]
      by_cases hc : c = separator
      · rw [if_pos hc, if_pos hc, List.cons_append]
      · rw [if_neg hc, if_neg hc]
        cases hp : pieces separator rest with
        | nil => exact absurd hp (pieces_ne_nil separator rest)
        | cons piece others => rfl

private theorem separator_notMem (h : piece ∈ pieces separator chars) : separator ∉ piece := by
  induction chars generalizing piece with
  | nil =>
      obtain rfl := List.mem_singleton.mp h
      exact List.not_mem_nil
  | cons c rest ih =>
      rw [pieces] at h
      by_cases hc : c = separator
      · rw [if_pos hc] at h
        rcases List.mem_cons.mp h with rfl | hm
        · exact List.not_mem_nil
        · exact ih hm
      · rw [if_neg hc] at h
        cases hp : pieces separator rest with
        | nil => exact absurd hp (pieces_ne_nil separator rest)
        | cons first others =>
            rw [hp] at h ih
            rcases List.mem_cons.mp h with rfl | hm
            · simp [Ne.symm hc, ih List.mem_cons_self]
            · exact ih (List.mem_cons_of_mem _ hm)

theorem trimChars_eq (chars : List Char) :
    trimChars chars = (chars.dropWhile isBlank).rdropWhile isBlank :=
  rfl

theorem trimChars_sublist (chars : List Char) : (trimChars chars).Sublist chars := by
  rw [trimChars_eq]
  exact (List.rdropWhile_prefix isBlank _).sublist.trans (List.dropWhile_sublist isBlank)

-- Neither end of a text is a blank.
def HasNoBlankEnd (chars : List Char) : Prop :=
  (∀ c ∈ chars.head?, isBlank c = false) ∧ ∀ c ∈ chars.getLast?, isBlank c = false

theorem hasNoBlankEnd_trimChars (chars : List Char) : HasNoBlankEnd (trimChars chars) := by
  rw [trimChars_eq]
  constructor
  · intro c hc
    have hhead : c ∈ (chars.dropWhile isBlank).head? := by
      obtain ⟨dropped, hd⟩ := List.rdropWhile_prefix isBlank (chars.dropWhile isBlank)
      rw [← hd, List.head?_append, hc]
      rfl
    have hnot := List.head?_dropWhile_not isBlank chars
    rw [hhead] at hnot
    exact hnot
  · intro c hc
    obtain ⟨hne, hlast⟩ := List.mem_getLast?_eq_getLast hc
    rw [hlast]
    simpa using List.rdropWhile_last_not isBlank (chars.dropWhile isBlank) hne

theorem trimChars_eq_self_iff : trimChars chars = chars ↔ HasNoBlankEnd chars := by
  constructor
  · intro h
    exact h ▸ hasNoBlankEnd_trimChars chars
  · rintro ⟨hhead, hlast⟩
    have hreverse : ∀ c ∈ chars.reverse.head?, isBlank c = false := by
      rw [List.head?_reverse]
      exact hlast
    rw [trimChars, dropWhile_of_head hhead, dropWhile_of_head hreverse, List.reverse_reverse]

theorem isItem_iff_trim : IsItem item ↔ item ≠ "" ∧ ',' ∉ item.toList ∧ trim item = item := by
  have htrim : trim item = item ↔ HasNoBlankEnd item.toList := by
    rw [← trimChars_eq_self_iff, trim, ← String.toList_inj, String.toList_ofList]
  rw [htrim]
  exact ⟨fun ⟨hne, hcomma, hhead, hlast⟩ => ⟨hne, hcomma, hhead, hlast⟩,
    fun ⟨hne, hcomma, hhead, hlast⟩ => ⟨hne, hcomma, hhead, hlast⟩⟩

theorem isItem_of_mem_items (h : item ∈ items text) : IsItem item := by
  rw [items, List.mem_map] at h
  obtain ⟨chars, hm, rfl⟩ := h
  rw [itemsOfChars, List.mem_filter, List.mem_map] at hm
  obtain ⟨⟨piece, hp, rfl⟩, hne⟩ := hm
  have hcomma : ',' ∉ trimChars piece :=
    fun hc => separator_notMem hp ((trimChars_sublist piece).subset hc)
  obtain ⟨hhead, hlast⟩ := hasNoBlankEnd_trimChars piece
  refine ⟨?_, ?_, ?_, ?_⟩
  · simpa using hne
  · rwa [String.toList_ofList]
  · rwa [String.toList_ofList]
  · rwa [String.toList_ofList]

@[simp]
theorem items_append (left right : String) :
    items (left ++ "," ++ right) = items left ++ items right := by
  have hchars : (left ++ "," ++ right).toList = left.toList ++ ',' :: right.toList := by
    simp
  simp [items, hchars, itemsOfChars]

theorem spells_self (list : List String) : Spells list list := by
  have hempty : IsBlank "" := by decide
  induction list with
  | nil => exact .nil
  | cons item rest ih =>
      have hspells : Spells (("" ++ item ++ "") :: rest) (item :: rest) := .item hempty hempty ih
      simpa using hspells

theorem items_join_eq_iff :
    items (join "," list) = list ↔ ∀ item ∈ list, IsItem item := by
  constructor
  · intro h item hm
    rw [← h] at hm
    exact isItem_of_mem_items hm
  · exact items_join (spells_self list)

end Text

namespace PropertySource

open Property Text

variable {entries : Toml.Entries} {key : String} {form : Toml.ArrayForm} {list : List String}

theorem get?_of_array (h : lookup entries key = some (.array form (list.map .text))) :
    get? key (.document entries) = some (join "," list) := by
  rw [get?, h, Option.bind_some, textOf, Exclusion.scalarTexts_texts]

-- What is cut out of a text is trimmed and has no comma in it; and a comma is a seam wherever it
-- stands. So a list is what its joined text is cut into if it has items only. For an array of texts
-- in a document, its text therefore says the same as its list in just these cases.
theorem joined_list_comes_back :
    (∀ text, ∀ item ∈ items text, item ≠ "" ∧ ',' ∉ item.toList ∧ trim item = item) ∧
    (∀ left right, items (left ++ "," ++ right) = items left ++ items right) ∧
    (∀ list, items (join "," list) = list ↔
      ∀ item ∈ list, item ≠ "" ∧ ',' ∉ item.toList ∧ trim item = item) ∧
    ∀ (entries : Toml.Entries) (key : String) (form : Toml.ArrayForm) (list : List String),
      lookup entries key = some (.array form (list.map .text)) →
        get? key (.document entries) = some (join "," list) ∧
        getList? key (.document entries) = some list ∧
        ((get? key (.document entries)).map items = getList? key (.document entries) ↔
          ∀ item ∈ list, item ≠ "" ∧ ',' ∉ item.toList ∧ trim item = item) := by
  simp only [← isItem_iff_trim]
  refine ⟨fun text item => isItem_of_mem_items, items_append, fun list => items_join_eq_iff,
    fun entries key form list h => ?_⟩
  have htext := get?_of_array h
  have hlist := Exclusion.getList?_of_array h
  refine ⟨htext, hlist, ?_⟩
  rw [htext, hlist, Option.map_some, Option.some_inj, items_join_eq_iff]

-- A blank inside of a text stays, and one at its end is lost on the way.
def blanksInItems : Toml.Entries :=
  [("a.b", .array .brackets [.text "x", .text "y\u2003z"]),
    ("c", .table .header [("d", .array .brackets [.text "x", .text "y\u2003"])])]

theorem joined_list_comes_back_blanksInItems :
    lookup blanksInItems "a.b" = some (.array .brackets (["x", "y\u2003z"].map .text)) ∧
      (get? "a.b" (.document blanksInItems)).map items = getList? "a.b" (.document blanksInItems) ∧
      lookup blanksInItems "c.d" = some (.array .brackets (["x", "y\u2003"].map .text)) ∧
      (get? "c.d" (.document blanksInItems)).map items ≠ getList? "c.d" (.document blanksInItems) ∧
      items "x,y\u2003" = items "x" ++ items "y\u2003" := by
  obtain ⟨-, happend, -, harray⟩ := joined_list_comes_back
  refine ⟨rfl, (harray blanksInItems "a.b" .brackets ["x", "y\u2003z"] rfl).2.2.mpr (by decide),
    rfl, ?_, happend "x" "y\u2003"⟩
  intro h
  have hall := (harray blanksInItems "c.d" .brackets ["x", "y\u2003"] rfl).2.2.mp h
  have htrim : trim "y\u2003" ≠ "y\u2003" := by decide
  exact htrim (hall "y\u2003" (by decide)).2.2

end PropertySource

end Activation
