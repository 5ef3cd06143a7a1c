import Activation.Proofs.Property.Layers
import Activation.Proofs.Text
import Activation.Site

namespace Activation

namespace Property

open Toml (Value Entries)

variable {entries : Entries} {key : String} {pieces others : List String} {value : Value}

-- A document with one entry only, under the pieces of its key.
inductive HoldsOnly : List String → Value → Entries → Prop where
  | last (piece : String) (value : Value) : HoldsOnly [piece] value [(piece, value)]
  | within {pieces : List String} {value : Value} {inner : Entries} (piece : String)
      (form : Toml.TableForm) (inside : HoldsOnly pieces value inner) :
      HoldsOnly (piece :: pieces) value [(piece, .table form inner)]

private theorem HoldsOnly.ne_nil (h : HoldsOnly pieces value entries) : pieces ≠ [] := by
  cases h <;> exact List.cons_ne_nil _ _

theorem HoldsOnly.reaches (h : HoldsOnly pieces value entries) :
    Reaches entries pieces value := by
  induction h with
  | last piece value => exact .last (by simp)
  | @within pieces value inner piece form _ ih =>
      have hfound : List.lookup piece [(piece, Value.table form inner)] =
          some (.table form inner) := by
        simp
      exact .within hfound ih

private theorem lookup_singleton_eq_some_iff {name piece : String} {found : Value} :
    List.lookup name [(piece, value)] = some found ↔ name = piece ∧ value = found := by
  by_cases hn : name = piece <;> simp [hn]

private theorem Cutting.ne_key {piece : String} (h : Cutting key (piece :: others))
    (hne : others ≠ []) : piece ≠ key := by
  intro heq
  have hkey := h.toList_eq hne
  rw [heq] at hkey
  have hlength := congrArg List.length hkey
  simp at hlength

theorem HoldsOnly.eq_of_reaches {found : Value} (h : HoldsOnly pieces value entries)
    (hcut : Cutting key pieces) (hother : Cutting key others)
    (hreach : Reaches entries others found) : others = pieces := by
  induction h generalizing key others with
  | last piece value =>
      obtain rfl := Cutting.singleton_iff.mp hcut
      obtain ⟨first, rest, rfl⟩ := List.exists_cons_of_ne_nil hother.ne_nil
      by_cases hrest : rest = []
      · subst hrest
        rw [Cutting.singleton_iff.mp hother]
      · obtain ⟨_, _, hfound, _⟩ := (reaches_cons_iff hrest).mp hreach
        exact absurd (lookup_singleton_eq_some_iff.mp hfound).1 (hother.ne_key hrest)
  | @within pieces value inner piece form inside ih =>
      have hpieces := inside.ne_nil
      obtain ⟨first, rest, rfl⟩ := List.exists_cons_of_ne_nil hother.ne_nil
      by_cases hrest : rest = []
      · subst hrest
        have hfound := reaches_singleton_iff.mp hreach
        have hfirst := (lookup_singleton_eq_some_iff.mp hfound).1
        rw [Cutting.singleton_iff.mp hother] at hfirst
        exact absurd hfirst.symm (hcut.ne_key hpieces)
      · obtain ⟨_, _, hfound, htail⟩ := (reaches_cons_iff hrest).mp hreach
        obtain ⟨rfl, htable⟩ := lookup_singleton_eq_some_iff.mp hfound
        obtain ⟨rfl, rfl⟩ := Value.table.inj htable
        have hjoin := (hother.eq_of_length_eq hcut hrest hpieces rfl).2
        rw [ih ⟨hpieces, rfl⟩ ⟨hrest, hjoin⟩ htail]

theorem lookup_of_holdsOnly (h : HoldsOnly pieces value entries) (hcut : Cutting key pieces) :
    lookup entries key = some value := by
  refine lookup_eq_some_iff.mpr ⟨pieces, hcut, h.reaches, fun other found hother hreach hne => ?_⟩
  exact absurd (h.eq_of_reaches hcut hother hreach) hne

end Property

namespace Exclusion

open Property PropertySource

variable {engine : Engine} {site : Site} {source : PropertySource} {names : List String}
  {entries : Toml.Entries} {text : String}

def Lists (text : String) (names : List String) : Prop :=
  ∃ fields, text = Text.join "," fields ∧ Text.Spells fields names

theorem Lists.items_eq (h : Lists text names) (hnames : ∀ name ∈ names, Text.IsItem name) :
    Text.items text = names := by
  obtain ⟨fields, rfl, hfields⟩ := h
  exact Text.items_join hfields hnames

theorem resolve_of_getList? (h : getList? engine.excludeProperty source = some names) :
    resolve engine site source = Name.distinct (site.exclude ++ site.excludeName ++ names) := by
  rw [resolve, ofProperty, h]
  rfl

theorem scalarTexts_texts (names : List String) :
    scalarTexts (names.map Toml.Value.text) = names := by
  rw [scalarTexts, List.filterMap_map]
  exact List.filterMap_some

theorem getList?_of_array {form : Toml.ArrayForm} {key : String}
    (h : lookup entries key = some (.array form (names.map .text))) :
    getList? key (.document entries) = some names := by
  rw [getList?, h, Option.bind_some, listOf, scalarTexts_texts]

theorem getList?_of_text {key : String} (h : lookup entries key = some (.text text))
    (hlists : Lists text names) (hnames : ∀ name ∈ names, Text.IsItem name) :
    getList? key (.document entries) = some names := by
  have hitems := hlists.items_eq hnames
  rw [getList?, h, Option.bind_some, ← hitems]
  rfl

theorem getList?_of_variable {settings : List (String × String)} {key : String}
    (h : settings.reverse.lookup (variableName key) = some text) (hlists : Lists text names)
    (hnames : ∀ name ∈ names, Text.IsItem name) :
    getList? key (ofVariables settings) = some names := by
  rw [ofVariables, getList?, NameMap.get?_ofList, h, Option.map_some, hlists.items_eq hnames]

-- How names can be given for the exclusion property: as an array or a text that is the only entry
-- of a document, under any pieces of the key, as a text that is found in any document, or as a text
-- that is the value of a variable.
inductive Gives (engine : Engine) (names : List String) : PropertySource → Prop where
  | array {pieces : List String} {form : Toml.ArrayForm} {entries : Toml.Entries}
      (cutting : Cutting engine.excludeProperty pieces)
      (only : HoldsOnly pieces (.array form (names.map .text)) entries) :
      Gives engine names (.document entries)
  | text {pieces : List String} {text : String} {entries : Toml.Entries}
      (cutting : Cutting engine.excludeProperty pieces)
      (only : HoldsOnly pieces (.text text) entries) (lists : Lists text names) :
      Gives engine names (.document entries)
  | found {text : String} {entries : Toml.Entries}
      (found : lookup entries engine.excludeProperty = some (.text text))
      (lists : Lists text names) : Gives engine names (.document entries)
  | setting {text : String} {settings : List (String × String)}
      (bound : settings.reverse.lookup (variableName engine.excludeProperty) = some text)
      (lists : Lists text names) : Gives engine names (ofVariables settings)

-- A site leaves out the same modules in the same order, whether the property is an array of names,
-- a text that lists them or a variable with such a text.
theorem override_forms_agree (engine : Engine) (site : Site) (names : List String)
    (source : PropertySource) (hnames : ∀ name ∈ names, Text.IsItem name)
    (h : Gives engine names source) :
    resolve engine site source = Name.distinct (site.exclude ++ site.excludeName ++ names) := by
  apply resolve_of_getList?
  cases h with
  | array cutting only => exact getList?_of_array (lookup_of_holdsOnly only cutting)
  | text cutting only lists =>
      exact getList?_of_text (lookup_of_holdsOnly only cutting) lists hnames
  | found found lists => exact getList?_of_text found lists hnames
  | setting bound lists => exact getList?_of_variable bound lists hnames

-- A namespace with a dot and a hyphen of its own.
def dottedNamespace : Engine := { namespaceName := "my-app.core" }

def excludingSite : Site := { origin := "main", exclude := ["x"], excludeName := ["b c"] }

theorem override_forms_agree_dottedNamespace :
    resolve dottedNamespace excludingSite (.document [("my-app", .table .header
        [("core.autoconfigure", .table .dotted
          [("exclude", .array .brackets [.text "demo.A", .text "b c", .text "demo.A"])])])]) =
          ["x", "b c", "demo.A"] ∧
      resolve dottedNamespace excludingSite (.document [("my-app.core.autoconfigure.exclude",
        .text "demo.A, ,\u2003b c\t,demo.A")]) = ["x", "b c", "demo.A"] ∧
      resolve dottedNamespace excludingSite (ofVariables
        [("MYAPP_CORE_AUTOCONFIGURE_EXCLUDE", "demo.A, ,\u2003b c\t,demo.A")]) =
          ["x", "b c", "demo.A"] := by
  have hitem : ∀ name ∈ ["demo.A", "b c", "demo.A"], Text.IsItem name := by
    have ha : Text.IsItem "demo.A" := by decide
    have hb : Text.IsItem "b c" := by decide
    simp [ha, hb]
  have hlists : Lists "demo.A, ,\u2003b c\t,demo.A" ["demo.A", "b c", "demo.A"] := by
    have hempty : Text.IsBlank "" := by decide
    refine ⟨["" ++ "demo.A" ++ "", " ", "\u2003" ++ "b c" ++ "\t", "" ++ "demo.A" ++ ""],
      by decide, ?_⟩
    exact .item hempty hempty (.blank (by decide) (.item (by decide) (by decide)
      (.item hempty hempty .nil)))
  have hdistinct : Name.distinct (excludingSite.exclude ++ excludingSite.excludeName ++
      ["demo.A", "b c", "demo.A"]) = ["x", "b c", "demo.A"] := by decide
  have hagree := fun source => override_forms_agree dottedNamespace excludingSite
    ["demo.A", "b c", "demo.A"] source hitem
  simp only [hdistinct] at hagree
  have hnested : Cutting dottedNamespace.excludeProperty
      ["my-app", "core.autoconfigure", "exclude"] := ⟨by decide, by decide⟩
  have hwhole : Cutting dottedNamespace.excludeProperty ["my-app.core.autoconfigure.exclude"] :=
    ⟨by decide, by decide⟩
  exact ⟨hagree _ (.array hnested (.within _ _ (.within _ _ (.last _ _)))),
    hagree _ (.text hwhole (.last _ _) hlists), hagree _ (.setting (by decide) hlists)⟩

end Exclusion

end Activation
