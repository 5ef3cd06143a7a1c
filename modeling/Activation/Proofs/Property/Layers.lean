import Activation.Proofs.Name.Lookup
import Activation.Proofs.Property.Cutting
import Activation.Session

namespace Activation

namespace PropertySource

variable {α : Type} {source other : PropertySource} {key : String} {text : String}

-- What sources are put together from.
inductive Leaf where
  | document (entries : Toml.Entries)
  | settings (values : NameMap String)
  | own (values : String → Option (String × List String))

def Leaf.toSource : Leaf → PropertySource
  | .document entries => .document entries
  | .settings values => .settings values
  | .own values => .own values

-- Whether a leaf has a value for a key: a document has one unless what the key finds is a table.
def Leaf.hasValue (key : String) : Leaf → Bool
  | .document entries => (Property.lookup entries key).any fun value => !Property.isTable value
  | .settings values => values.contains (variableName key)
  | .own values => (values key).isSome

mutual

def leaves : PropertySource → List Leaf
  | .document entries => [.document entries]
  | .settings values => [.settings values]
  | .layers sources => leavesOf sources
  | .own values => [.own values]

def leavesOf : List PropertySource → List Leaf
  | [] => []
  | source :: others => leaves source ++ leavesOf others

end

-- The leaf that answers for a key.
def answering (source : PropertySource) (key : String) : Option Leaf :=
  source.leaves.find? (Leaf.hasValue key)

structure SameAt (key : String) (source other : PropertySource) : Prop where
  text : get? key source = get? key other
  list : getList? key source = getList? key other
  flag : getBool? source key = getBool? other key

-- Layers inside of layers, at any depth, against their own layers in their place. A source without
-- layers disappears.
inductive Spliced : PropertySource → PropertySource → Prop where
  | here (before inner after : List PropertySource) :
      Spliced (.layers (before ++ .layers inner :: after)) (.layers (before ++ (inner ++ after)))
  | alone (source : PropertySource) : Spliced (.layers [source]) source
  | within {source other : PropertySource} (before after : List PropertySource)
      (spliced : Spliced source other) :
      Spliced (.layers (before ++ source :: after)) (.layers (before ++ other :: after))

private theorem leavesOf_eq (sources : List PropertySource) :
    leavesOf sources = sources.flatMap leaves := by
  induction sources with
  | nil => rfl
  | cons source others ih => rw [leavesOf, ih, List.flatMap_cons]

@[simp]
theorem leaves_layers (sources : List PropertySource) :
    leaves (.layers sources) = sources.flatMap leaves := by
  rw [leaves, leavesOf_eq]

@[simp]
theorem leaves_toSource (leaf : Leaf) : leaf.toSource.leaves = [leaf] := by
  cases leaf <;> rfl

theorem Spliced.leaves_eq (h : Spliced source other) : source.leaves = other.leaves := by
  induction h with
  | here before inner after => simp
  | alone source => simp
  | within before after _ ih => simp [ih]

private theorem first_eq_findSome? {ask : PropertySource → Option α}
    {first : List PropertySource → Option α} (hnil : first [] = none)
    (hcons : ∀ source others, first (source :: others) = (ask source).or (first others))
    (sources : List PropertySource) : first sources = sources.findSome? ask := by
  induction sources with
  | nil => exact hnil
  | cons source others ih =>
      rw [hcons, ih, List.findSome?_cons]
      cases ask source <;> rfl

mutual

-- Whatever is asked of layers one after the other is asked of their leaves one after the other.
theorem ask_eq_findSome? {ask : PropertySource → Option α}
    (hlayers : ∀ sources, ask (.layers sources) = sources.findSome? ask) :
    ∀ source : PropertySource, ask source = source.leaves.findSome? fun leaf => ask leaf.toSource
  | .document entries => by simp [leaves, Leaf.toSource]
  | .settings values => by simp [leaves, Leaf.toSource]
  | .layers sources => by
      rw [hlayers, leaves]
      exact asks_eq_findSome? hlayers sources
  | .own values => by simp [leaves, Leaf.toSource]

theorem asks_eq_findSome? {ask : PropertySource → Option α}
    (hlayers : ∀ sources, ask (.layers sources) = sources.findSome? ask) :
    ∀ sources : List PropertySource,
      sources.findSome? ask = (leavesOf sources).findSome? fun leaf => ask leaf.toSource
  | [] => rfl
  | source :: others => by
      rw [List.findSome?_cons, leavesOf, List.findSome?_append, ← ask_eq_findSome? hlayers source,
        ← asks_eq_findSome? hlayers others]
      cases ask source <;> rfl

end

private theorem findSome?_eq_bind_find? {β : Type} {f : β → Option α} {p : β → Bool} {xs : List β}
    (h : ∀ x, (f x).isSome = p x) : xs.findSome? f = (xs.find? p).bind f := by
  induction xs with
  | nil => rfl
  | cons x rest ih =>
      rw [List.findSome?_cons, List.find?_cons, ← h x, ih]
      cases hx : f x with
      | none => rfl
      | some value => simp [hx]

@[simp]
theorem isSome_get?_leaf (key : String) (leaf : Leaf) :
    (get? key leaf.toSource).isSome = leaf.hasValue key := by
  cases leaf with
  | document entries =>
      simp [Leaf.toSource, get?, Leaf.hasValue, Option.isSome_bind]
  | settings values => rfl
  | own values => rw [Leaf.toSource, get?, Leaf.hasValue, Option.isSome_map]

@[simp]
theorem isSome_getList?_leaf (key : String) (leaf : Leaf) :
    (getList? key leaf.toSource).isSome = leaf.hasValue key := by
  cases leaf with
  | document entries =>
      simp [Leaf.toSource, getList?, Leaf.hasValue, Option.isSome_bind]
  | settings values =>
      rw [Leaf.toSource, getList?, Option.isSome_map]
      rfl
  | own values => rw [Leaf.toSource, getList?, Leaf.hasValue, Option.isSome_map]

-- Texts and lists are both asked for like this, so that it is one and the same leaf that gives
-- them.
theorem ask_eq {key : String} {ask : PropertySource → Option α}
    {first : List PropertySource → Option α}
    (hlayers : ∀ sources, ask (.layers sources) = first sources) (hnil : first [] = none)
    (hcons : ∀ source others, first (source :: others) = (ask source).or (first others))
    (hleaf : ∀ leaf : Leaf, (ask leaf.toSource).isSome = leaf.hasValue key)
    (source : PropertySource) :
    ask source = (source.answering key).bind fun leaf => ask leaf.toSource := by
  rw [ask_eq_findSome? (fun sources => (hlayers sources).trans
    (first_eq_findSome? hnil hcons sources)) source, answering]
  exact findSome?_eq_bind_find? hleaf

theorem get?_eq (source : PropertySource) (key : String) :
    get? key source = (source.answering key).bind fun leaf => get? key leaf.toSource := by
  refine ask_eq (fun _ => by rw [get?]) rfl (fun source others => ?_) (isSome_get?_leaf key) source
  rw [getFirst?]
  cases get? key source <;> rfl

theorem getList?_eq (source : PropertySource) (key : String) :
    getList? key source = (source.answering key).bind fun leaf => getList? key leaf.toSource := by
  refine ask_eq (fun _ => by rw [getList?]) rfl (fun source others => ?_)
    (isSome_getList?_leaf key) source
  rw [getFirstList?]
  cases getList? key source <;> rfl

-- A truth value is told from the text alone.
theorem SameAt.of_text_list (htext : get? key source = get? key other)
    (hlist : getList? key source = getList? key other) : SameAt key source other :=
  ⟨htext, hlist, by rw [getBool?, getBool?, htext]⟩

theorem sameAt_of_answering (h : source.answering key = other.answering key) :
    SameAt key source other :=
  .of_text_list (by rw [get?_eq, get?_eq other, h]) (by rw [getList?_eq, getList?_eq other, h])

theorem sameAt_of_leaves (h : source.leaves = other.leaves) (key : String) :
    SameAt key source other :=
  sameAt_of_answering (by rw [answering, answering, h])

theorem sameAt_leaf {leaf : Leaf} (h : source.answering key = some leaf) :
    SameAt key source leaf.toSource := by
  have hvalue : leaf.hasValue key = true := List.find?_some h
  apply sameAt_of_answering
  rw [h]
  simp [answering, hvalue]

theorem leaves_flattened (source : PropertySource) :
    (layers (source.leaves.map Leaf.toSource)).leaves = source.leaves := by
  simp [List.flatMap_map]

-- What the variables do not bind is answered by the document.
theorem answering_sources (session : Session) (settings : List (String × String))
    (key : String) : (session.sources settings).answering key =
      ((ofVariables settings).answering key).or
        ((document session.properties).answering key) := by
  rw [answering, Session.sources, leaves_layers, List.flatMap_cons, List.flatMap_singleton,
    List.find?_append]
  rfl

theorem answering_ofVariables (settings : List (String × String)) (key : String) :
    (ofVariables settings).answering key =
      (settings.reverse.lookup (variableName key)).map
        fun _ => .settings (NameMap.ofList settings) := by
  rw [← NameMap.get?_ofList, answering, ofVariables, leaves, List.find?_singleton, Leaf.hasValue,
    NameMap.contains]
  cases (NameMap.ofList settings).get? (variableName key) <;> rfl

theorem sameAt_sources_of_bound {session : Session} {settings : List (String × String)}
    (h : settings.reverse.lookup (variableName key) = some text) :
    SameAt key (session.sources settings) (ofVariables settings) := by
  apply sameAt_of_answering
  rw [answering_sources, answering_ofVariables, h]
  rfl

theorem sameAt_sources_of_unbound {session : Session} {settings : List (String × String)}
    (h : settings.reverse.lookup (variableName key) = none) :
    SameAt key (session.sources settings) (document session.properties) := by
  apply sameAt_of_answering
  rw [answering_sources, answering_ofVariables, h]
  rfl

theorem get?_ofVariables (settings : List (String × String)) (key : String) :
    get? key (ofVariables settings) = settings.reverse.lookup (variableName key) := by
  rw [ofVariables, get?, NameMap.get?_ofList]

theorem getBool?_of_flag {flag : Bool} (htext : get? key source = some text)
    (hflag : flagOf? text = some flag) : getBool? source key = .ok (some flag) := by
  rw [getBool?, htext]
  simp only [hflag]

theorem getBool?_of_no_flag (htext : get? key source = some text) (hflag : flagOf? text = none) :
    getBool? source key = .error (.invalidProperty key text) := by
  rw [getBool?, htext]
  simp only [hflag]

-- The first leaf from the left that has a value answers for the whole, in all three ways of asking.
-- Its text alone decides about a truth value, so that no layer below mends an invalid one. Layers
-- in layers are therefore as good as their own layers, and a source without layers is as good as
-- none. In a session the variables answer for what they bind, and the document for the rest.
theorem first_leaf_answers :
    (∀ source key,
      ((get? key source).isSome ↔ (getList? key source).isSome) ∧
      (source.answering key = none →
        get? key source = none ∧ getList? key source = none ∧ getBool? source key = .ok none) ∧
      ∀ leaf, source.answering key = some leaf →
        SameAt key source leaf.toSource ∧ ∃ text, get? key source = some text ∧
          (∀ flag, flagOf? text = some flag → getBool? source key = .ok (some flag)) ∧
          (flagOf? text = none → getBool? source key = .error (.invalidProperty key text))) ∧
    (∀ source other, Spliced source other → ∀ key, SameAt key source other) ∧
    (∀ source key, SameAt key source (.layers (source.leaves.map Leaf.toSource))) ∧
    ∀ (session : Session) (settings : List (String × String)) (key : String),
      (∀ text, settings.reverse.lookup (variableName key) = some text →
        get? key (session.host settings).properties = some text ∧
        SameAt key (session.host settings).properties (ofVariables settings)) ∧
      (settings.reverse.lookup (variableName key) = none →
        SameAt key (session.host settings).properties (document session.properties)) := by
  refine ⟨fun source key => ⟨?_, fun h => ?_, fun leaf h => ⟨sameAt_leaf h, ?_⟩⟩,
    fun source other h => sameAt_of_leaves h.leaves_eq,
    fun source => sameAt_of_leaves (leaves_flattened source).symm,
    fun session settings key => ⟨fun text h => ⟨?_, sameAt_sources_of_bound h⟩,
      sameAt_sources_of_unbound⟩⟩
  · rw [get?_eq, getList?_eq, Option.isSome_bind, Option.isSome_bind]
    simp only [isSome_get?_leaf, isSome_getList?_leaf]
  · have htext : get? key source = none := by rw [get?_eq, h]; rfl
    refine ⟨htext, by rw [getList?_eq, h]; rfl, ?_⟩
    rw [getBool?, htext]
  · have hsome : (get? key leaf.toSource).isSome := by
      rw [isSome_get?_leaf]
      exact List.find?_some h
    obtain ⟨text, htext⟩ := Option.isSome_iff_exists.mp hsome
    rw [← (sameAt_leaf h).text] at htext
    exact ⟨text, htext, fun _ => getBool?_of_flag htext, getBool?_of_no_flag htext⟩
  · exact (sameAt_sources_of_bound h).text.trans ((get?_ofVariables settings key).trans h)

def ownList (key : String) : Option (String × List String) :=
  if key = "d" then some ("x, y", ["x", "y"]) else none

-- The document further up finds a table, and so has no value for "a". The variable has one that is
-- no truth value, and keeps the last document from answering.
def nestedLayers : PropertySource :=
  .layers [
    .layers [.document [("a", .table .header [])], ofVariables [("A", "no"), ("A", "maybe")]],
    .layers [], .document [("a", .boolean true), ("b.c", .array .brackets [])], .own ownList]

theorem first_leaf_answers_nestedLayers :
    SameAt "a" nestedLayers (ofVariables [("A", "no"), ("A", "maybe")]) ∧
      getBool? nestedLayers "a" = .error (.invalidProperty "a" "maybe") ∧
      getList? "b.c" nestedLayers = some [] ∧ get? "b.c" nestedLayers = some "" ∧
      SameAt "d" nestedLayers (.own ownList) ∧
      SameAt "b.c" nestedLayers (.layers (nestedLayers.leaves.map Leaf.toSource)) ∧
      get? "a" (Session.host { properties := [("a", .boolean true)] } [("A", "maybe")]).properties =
        some "maybe" := by
  obtain ⟨hanswer, -, hflat, hsession⟩ := first_leaf_answers
  have hleaf : nestedLayers.answering "a" =
      some (.settings (NameMap.ofList [("A", "no"), ("A", "maybe")])) := rfl
  have hdocument : nestedLayers.answering "b.c" =
      some (.document [("a", .boolean true), ("b.c", .array .brackets [])]) := rfl
  obtain ⟨hsame, text, htext, -, hinvalid⟩ := (hanswer nestedLayers "a").2.2 _ hleaf
  obtain ⟨hother, -⟩ := (hanswer nestedLayers "b.c").2.2 _ hdocument
  obtain rfl : "maybe" = text := Option.some.inj htext
  refine ⟨hsame, hinvalid (by decide), ?_, ?_,
    ((hanswer nestedLayers "d").2.2 (.own ownList) rfl).1, hflat nestedLayers "b.c", ?_⟩
  · rw [hother.list]
    rfl
  · rw [hother.text]
    rfl
  · exact ((hsession _ [("A", "maybe")] "a").1 "maybe" (by decide)).1

end PropertySource

end Activation
