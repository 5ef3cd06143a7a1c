import Activation.Proofs.Text
import Activation.Property
import Mathlib.Data.List.Basic

namespace Activation.Property

open Toml (Value Entries)

variable {entries inner : Entries} {key piece : String} {pieces others rest : List String}
  {value : Value} {left right chars : List Char}

-- A key, cut at some of its dots.
structure Cutting (key : String) (pieces : List String) : Prop where
  ne_nil : pieces ≠ []
  join_eq : Text.join "." pieces = key

-- The pieces but the last name tables, each in the one before, and the last names the value.
inductive Reaches : Entries → List String → Value → Prop where
  | last {entries : Entries} {piece : String} {value : Value}
      (found : entries.lookup piece = some value) : Reaches entries [piece] value
  | within {entries inner : Entries} {form : Toml.TableForm} {piece : String}
      {rest : List String} {value : Value}
      (found : entries.lookup piece = some (.table form inner))
      (reached : Reaches inner rest value) : Reaches entries (piece :: rest) value

-- Of two cuttings of one key the one that cuts no further goes first, else the one with the shorter
-- first piece, and where they agree in that, what follows decides.
inductive Preferred : List String → List String → Prop where
  | uncut {whole piece : String} {rest : List String} (cut : rest ≠ []) :
      Preferred [whole] (piece :: rest)
  | shorter {piece other : String} {rest others : List String} (cut : rest ≠ [])
      (cutOther : others ≠ []) (less : piece.length < other.length) :
      Preferred (piece :: rest) (other :: others)
  | later {piece : String} {rest others : List String} (preferred : Preferred rest others) :
      Preferred (piece :: rest) (piece :: others)

-- The first cutting of a key that reaches a value.
structure FirstCutting (entries : Entries) (key : String) (pieces : List String)
    (value : Value) : Prop where
  cutting : Cutting key pieces
  reaches : Reaches entries pieces value
  first : ∀ other found, Cutting key other → Reaches entries other found → other ≠ pieces →
    Preferred pieces other

theorem Cutting.singleton_iff : Cutting key [piece] ↔ piece = key :=
  ⟨fun h => h.join_eq, fun h => ⟨List.cons_ne_nil _ _, h⟩⟩

theorem Cutting.toList_eq (h : Cutting key (piece :: rest)) (hrest : rest ≠ []) :
    key.toList = piece.toList ++ '.' :: (Text.join "." rest).toList := by
  rw [← h.join_eq, Text.join_cons hrest]
  simp

theorem Cutting.eq_of_length_eq {other : String} (h : Cutting key (piece :: rest))
    (ho : Cutting key (other :: others)) (hrest : rest ≠ []) (hothers : others ≠ [])
    (hlength : piece.length = other.length) :
    piece = other ∧ Text.join "." rest = Text.join "." others := by
  have hsplit := (h.toList_eq hrest).symm.trans (ho.toList_eq hothers)
  obtain ⟨hpiece, htail⟩ := List.append_inj hsplit hlength
  exact ⟨String.toList_injective hpiece, String.toList_injective (List.cons.inj htail).2⟩

theorem Reaches.ne_nil (h : Reaches entries pieces value) : pieces ≠ [] := by
  cases h <;> exact List.cons_ne_nil _ _

theorem reaches_singleton_iff :
    Reaches entries [piece] value ↔ entries.lookup piece = some value := by
  refine ⟨fun h => ?_, .last⟩
  cases h with
  | last found => exact found
  | within _ reached => exact absurd rfl reached.ne_nil

theorem reaches_cons_iff (hrest : rest ≠ []) :
    Reaches entries (piece :: rest) value ↔ ∃ form inner,
      entries.lookup piece = some (.table form inner) ∧ Reaches inner rest value := by
  refine ⟨fun h => ?_, fun ⟨form, inner, found, reached⟩ => .within found reached⟩
  cases h with
  | last _ => exact absurd rfl hrest
  | within found reached => exact ⟨_, _, found, reached⟩

theorem Reaches.unique {found : Value} (h : Reaches entries pieces value)
    (hfound : Reaches entries pieces found) : value = found := by
  induction h with
  | last h =>
      rw [reaches_singleton_iff, h] at hfound
      exact Option.some.inj hfound
  | within h reached ih =>
      obtain ⟨_, _, hother, hrest⟩ := (reaches_cons_iff reached.ne_nil).mp hfound
      rw [h] at hother
      obtain ⟨rfl, rfl⟩ := Value.table.inj (Option.some.inj hother)
      exact ih hrest

private theorem Preferred.ne_nil (h : Preferred pieces others) : pieces ≠ [] ∧ others ≠ [] := by
  cases h <;> exact ⟨List.cons_ne_nil _ _, List.cons_ne_nil _ _⟩

theorem Preferred.asymm (h : Preferred pieces others) : ¬ Preferred others pieces := by
  induction h with
  | uncut cut =>
      intro h
      cases h with
      | uncut other => exact other rfl
      | shorter _ other _ => exact other rfl
      | later h => exact h.ne_nil.2 rfl
  | shorter cut cutOther less =>
      intro h
      cases h with
      | uncut _ => exact cutOther rfl
      | shorter _ _ more => omega
      | later _ => omega
  | later h ih =>
      intro other
      cases other with
      | uncut cut => exact h.ne_nil.2 rfl
      | shorter _ _ less => omega
      | later other => exact ih other

theorem Preferred.trans {last : List String} (h : Preferred pieces others)
    (hlast : Preferred others last) : Preferred pieces last := by
  induction h generalizing last with
  | uncut cut =>
      cases hlast with
      | uncut _ => exact absurd rfl cut
      | shorter _ cutLast _ => exact .uncut cutLast
      | later h => exact .uncut h.ne_nil.2
  | shorter cut cutOther less =>
      cases hlast with
      | uncut _ => exact absurd rfl cutOther
      | shorter _ cutLast lessLast => exact .shorter cut cutLast (Nat.lt_trans less lessLast)
      | later h => exact .shorter cut h.ne_nil.2 less
  | later h ih =>
      cases hlast with
      | uncut _ => exact absurd rfl h.ne_nil.2
      | shorter _ cutLast less => exact .shorter h.ne_nil.1 cutLast less
      | later hlast => exact .later (ih hlast)

theorem Cutting.eq_or_preferred (h : Cutting key pieces) (ho : Cutting key others) :
    pieces = others ∨ Preferred pieces others ∨ Preferred others pieces := by
  induction pieces generalizing key others with
  | nil => exact absurd rfl h.ne_nil
  | cons piece rest ih =>
      obtain ⟨other, left, rfl⟩ := List.exists_cons_of_ne_nil ho.ne_nil
      by_cases hrest : rest = []
      · subst hrest
        by_cases hleft : left = []
        · subst hleft
          rw [Cutting.singleton_iff] at h ho
          exact .inl (by rw [h, ho])
        · exact .inr (.inl (.uncut hleft))
      by_cases hleft : left = []
      · subst hleft
        exact .inr (.inr (.uncut hrest))
      rcases Nat.lt_trichotomy piece.length other.length with hlt | heq | hgt
      · exact .inr (.inl (.shorter hrest hleft hlt))
      · obtain ⟨rfl, hjoin⟩ := h.eq_of_length_eq ho hrest hleft heq
        rcases ih ⟨hrest, hjoin⟩ ⟨hleft, rfl⟩ with rfl | hp | hp
        · exact .inl rfl
        · exact .inr (.inl (.later hp))
        · exact .inr (.inr (.later hp))
      · exact .inr (.inr (.shorter hleft hrest hgt))

theorem FirstCutting.unique {found : Value} (h : FirstCutting entries key pieces value)
    (ho : FirstCutting entries key others found) : pieces = others ∧ value = found := by
  by_cases heq : pieces = others
  · subst heq
    exact ⟨rfl, h.reaches.unique ho.reaches⟩
  · have hp := h.first others found ho.cutting ho.reaches (Ne.symm heq)
    exact absurd (ho.first pieces value h.cutting h.reaches heq) hp.asymm

-- The ways to cut a key in two, the earliest dot first.
def cuts : List Char → List (List Char × List Char)
  | [] => []
  | c :: rest =>
    let later := (cuts rest).map fun cut => (c :: cut.1, cut.2)
    if c = '.' then ([], rest) :: later else later

@[simp]
theorem mem_cuts : (left, right) ∈ cuts chars ↔ chars = left ++ '.' :: right := by
  induction chars generalizing left with
  | nil => simp [cuts]
  | cons c rest ih =>
      have hlater : (left, right) ∈ (cuts rest).map (fun cut => (c :: cut.1, cut.2)) ↔
          ∃ before, left = c :: before ∧ rest = before ++ '.' :: right := by
        simp only [List.mem_map, Prod.exists, Prod.mk.injEq]
        constructor
        · rintro ⟨before, after, hm, rfl, rfl⟩
          exact ⟨before, rfl, ih.mp hm⟩
        · rintro ⟨before, rfl, hr⟩
          exact ⟨before, right, ih.mpr hr, rfl, rfl⟩
      rw [cuts]
      cases left with
      | nil => by_cases hc : c = '.' <;> simp [hc, eq_comm]
      | cons d before => by_cases hc : c = '.' <;> simp_all [eq_comm]

theorem pairwise_cuts (chars : List Char) :
    (cuts chars).Pairwise fun cut other => cut.1.length < other.1.length := by
  induction chars with
  | nil => exact List.Pairwise.nil
  | cons c rest ih =>
      have hlater : ((cuts rest).map fun cut => (c :: cut.1, cut.2)).Pairwise
          fun cut other => cut.1.length < other.1.length := by
        rw [List.pairwise_map]
        exact ih.imp fun h => by simpa using h
      rw [cuts]
      split
      · refine List.pairwise_cons.mpr ⟨fun cut hm => ?_, hlater⟩
        obtain ⟨other, _, rfl⟩ := List.mem_map.mp hm
        simp
      · exact hlater

-- What is found right of a dot in the table that is named left of it.
def enter (entries : Entries) (left right : List Char) : Option Value :=
  match entries.lookup (String.ofList left) with
  | some (.table _ inner) => lookup inner (String.ofList right)
  | _ => none

theorem enter_eq_some_iff : enter entries left right = some value ↔ ∃ form inner,
    entries.lookup (String.ofList left) = some (.table form inner) ∧
      lookup inner (String.ofList right) = some value := by
  unfold enter
  split
  · rename_i form inner found
    simp [found]
  · rename_i hn
    simp_all

private theorem enter_toList {form : Toml.TableForm} {tail : String}
    (hfound : entries.lookup piece = some (.table form inner))
    (htail : lookup inner tail = some value) :
    enter entries piece.toList tail.toList = some value := by
  rw [enter_eq_some_iff, String.ofList_toList, String.ofList_toList]
  exact ⟨form, inner, hfound, htail⟩

private theorem search_cons (entries : Entries) (left : List Char) (c : Char) (rest : List Char) :
    search entries left (c :: rest) =
      (if c = '.' then enter entries left rest else none).or
        (search entries (left ++ [c]) rest) := by
  rw [search, enter]
  by_cases hc : c = '.'
  · rw [if_pos hc, if_pos hc]
    cases entries.lookup (String.ofList left) with
    | none => rfl
    | some value =>
        cases value with
        | table form inner =>
            simp only [lookup, String.toList_ofList]
            cases inner.lookup (String.ofList rest) with
            | some found => rfl
            | none => cases search inner [] rest <;> rfl
        | _ => rfl
  · rw [if_neg hc, if_neg hc]
    rfl

theorem search_eq (entries : Entries) (left right : List Char) :
    search entries left right =
      (cuts right).findSome? fun cut => enter entries (left ++ cut.1) cut.2 := by
  induction right generalizing left with
  | nil => rfl
  | cons c rest ih =>
      have hlater : search entries (left ++ [c]) rest =
          ((cuts rest).map fun cut => (c :: cut.1, cut.2)).findSome?
            fun cut => enter entries (left ++ cut.1) cut.2 := by
        rw [ih, List.findSome?_map]
        congr 1
        funext cut
        simp
      rw [search_cons, cuts, hlater]
      by_cases hc : c = '.'
      · rw [if_pos hc, if_pos hc, List.findSome?_cons, List.append_nil]
        cases enter entries left rest <;> rfl
      · rw [if_neg hc, if_neg hc]
        exact Option.none_or

-- The uncut key before any cut, and the earlier cut before the later one.
theorem lookup_eq (entries : Entries) (key : String) :
    lookup entries key = (entries.lookup key).or
      ((cuts key.toList).findSome? fun cut => enter entries cut.1 cut.2) := by
  have hsearch := search_eq entries [] key.toList
  simp only [List.nil_append] at hsearch
  rw [lookup, hsearch]
  cases entries.lookup key <;> rfl

private theorem join_mem_cuts (hrest : rest ≠ []) :
    (piece.toList, (Text.join "." rest).toList) ∈ cuts (Text.join "." (piece :: rest)).toList :=
  mem_cuts.mpr (Cutting.toList_eq ⟨List.cons_ne_nil _ _, rfl⟩ hrest)

theorem Reaches.isSome_lookup (h : Reaches entries pieces value) :
    (lookup entries (Text.join "." pieces)).isSome := by
  induction h with
  | last found =>
      rw [lookup_eq, Text.join, found]
      rfl
  | @within entries inner form piece rest value found reached ih =>
      obtain ⟨other, hother⟩ := Option.isSome_iff_exists.mp ih
      have henter := enter_toList found hother
      have hsome : ((cuts (Text.join "." (piece :: rest)).toList).findSome?
          fun cut => enter entries cut.1 cut.2).isSome :=
        List.findSome?_isSome_iff.mpr ⟨_, join_mem_cuts reached.ne_nil, by rw [henter]; rfl⟩
      rw [lookup_eq, Option.isSome_or, hsome, Bool.or_true]

theorem firstCutting_uncut (h : entries.lookup key = some value) :
    FirstCutting entries key [key] value := by
  refine ⟨Cutting.singleton_iff.mpr rfl, .last h, fun other found hcut _ hne => ?_⟩
  obtain ⟨piece, rest, rfl⟩ := List.exists_cons_of_ne_nil hcut.ne_nil
  refine .uncut fun hrest => hne ?_
  subst hrest
  rw [Cutting.singleton_iff.mp hcut]

-- Where the uncut key finds nothing, the first cut whose tail finds something begins the first
-- cutting. No shorter piece can begin one, for the search of its tail came back empty.
theorem FirstCutting.within {form : Toml.TableForm} (huncut : entries.lookup key = none)
    (hkey : key.toList = piece.toList ++ '.' :: (Text.join "." rest).toList)
    (hfound : entries.lookup piece = some (.table form inner))
    (h : FirstCutting inner (Text.join "." rest) rest value)
    (hearlier : ∀ cut ∈ cuts key.toList, cut.1.length < piece.length →
      enter entries cut.1 cut.2 = none) :
    FirstCutting entries key (piece :: rest) value := by
  have hrest := h.cutting.ne_nil
  have hcutting : Cutting key (piece :: rest) := by
    refine ⟨List.cons_ne_nil _ _, String.toList_injective ?_⟩
    rw [hkey, Text.join_cons hrest]
    simp
  refine ⟨hcutting, .within hfound h.reaches, fun other found hcut hreach hne => ?_⟩
  obtain ⟨first, others, rfl⟩ := List.exists_cons_of_ne_nil hcut.ne_nil
  have hothers : others ≠ [] := by
    rintro rfl
    rw [Cutting.singleton_iff.mp hcut, reaches_singleton_iff, huncut] at hreach
    cases hreach
  obtain ⟨otherForm, otherInner, htable, htail⟩ := (reaches_cons_iff hothers).mp hreach
  rcases Nat.lt_trichotomy piece.length first.length with hlt | heq | hgt
  · exact .shorter hrest hothers hlt
  · obtain ⟨rfl, hjoin⟩ := hcutting.eq_of_length_eq hcut hrest hothers heq
    rw [hfound] at htable
    obtain ⟨rfl, rfl⟩ := Value.table.inj (Option.some.inj htable)
    exact .later (h.first others found ⟨hothers, hjoin.symm⟩ htail fun heq => hne (heq ▸ rfl))
  -- a cut further left that reaches something would have been taken
  · obtain ⟨value, hvalue⟩ := Option.isSome_iff_exists.mp htail.isSome_lookup
    have hmem := mem_cuts.mpr (hcut.toList_eq hothers)
    have hnone := hearlier _ hmem hgt
    rw [enter_toList htable hvalue] at hnone
    cases hnone

theorem exists_firstCutting (h : lookup entries key = some value) :
    ∃ pieces, FirstCutting entries key pieces value := by
  -- what is left of the key behind a cut is shorter
  induction hn : key.length using Nat.strongRecOn generalizing entries key with
  | ind n ih =>
      rw [lookup_eq] at h
      cases huncut : entries.lookup key with
      | some found =>
          rw [huncut] at h
          obtain rfl : found = value := Option.some.inj h
          exact ⟨[key], firstCutting_uncut huncut⟩
      | none =>
          rw [huncut, Option.none_or, List.findSome?_eq_some_iff] at h
          obtain ⟨before, ⟨left, right⟩, after, hcuts, henter, hbefore⟩ := h
          obtain ⟨form, inner, hfound, htail⟩ := enter_eq_some_iff.mp henter
          have hkey : key.toList = left ++ '.' :: right :=
            mem_cuts.mp (hcuts ▸ List.mem_append_right _ List.mem_cons_self)
          have hshorter : (String.ofList right).length < n := by
            rw [← hn, ← String.length_toList, ← String.length_toList, hkey]
            simp
            omega
          obtain ⟨rest, hrest⟩ := ih _ hshorter htail rfl
          have hjoin : Text.join "." rest = String.ofList right := hrest.cutting.join_eq
          refine ⟨String.ofList left :: rest, .within huncut ?_ hfound (hjoin ▸ hrest) ?_⟩
          · rw [hjoin, String.toList_ofList, String.toList_ofList, hkey]
          · intro cut hm hless
            have hsorted := pairwise_cuts key.toList
            rw [hcuts] at hm hsorted
            have hafter := List.pairwise_cons.mp (List.pairwise_append.mp hsorted).2.1
            rw [String.length_ofList] at hless
            rcases List.mem_append.mp hm with hm | hm
            · exact hbefore cut hm
            · rcases List.mem_cons.mp hm with rfl | hm
              · exact absurd hless (Nat.lt_irrefl _)
              · exact absurd hless (Nat.lt_asymm (hafter.1 cut hm))

theorem lookup_eq_some_iff :
    lookup entries key = some value ↔ ∃ pieces, FirstCutting entries key pieces value := by
  refine ⟨exists_firstCutting, fun ⟨pieces, h⟩ => ?_⟩
  have hsome := h.reaches.isSome_lookup
  rw [h.cutting.join_eq] at hsome
  obtain ⟨found, hfound⟩ := Option.isSome_iff_exists.mp hsome
  obtain ⟨_, hother⟩ := exists_firstCutting hfound
  rw [hfound, (h.unique hother).2]

theorem isSome_lookup_iff :
    (lookup entries key).isSome ↔ ∃ pieces value, Cutting key pieces ∧
      Reaches entries pieces value := by
  constructor
  · intro h
    obtain ⟨value, hvalue⟩ := Option.isSome_iff_exists.mp h
    obtain ⟨pieces, hfirst⟩ := exists_firstCutting hvalue
    exact ⟨pieces, value, hfirst.cutting, hfirst.reaches⟩
  · rintro ⟨pieces, value, hcut, hreach⟩
    exact hcut.join_eq ▸ hreach.isSome_lookup

open PropertySource

def isTable : Value → Bool
  | .table _ _ => true
  | _ => false

@[simp]
theorem isSome_textOf (value : Value) : (textOf value).isSome = !isTable value := by
  cases value <;> rfl

@[simp]
theorem isSome_listOf (value : Value) : (listOf value).isSome = !isTable value := by
  cases value <;> rfl

theorem length_lt_of_mem_cuts {cut : List Char × List Char} (h : cut ∈ cuts key.toList) :
    cut.2.length < key.length := by
  have hkey := mem_cuts.mp h
  rw [← String.length_toList, hkey]
  simp
  omega

-- The search goes on with shorter keys only, and comes to an end. Of all cuttings that reach a
-- value it takes the first, and it finds nothing only if none does. The text and the list of a
-- property both come from the value found: a table has neither, whatever the cuttings after it
-- reach.
theorem lookup_takes_first_cutting (entries : Entries) (key : String) :
    (lookup entries key = (entries.lookup key).or
        ((cuts key.toList).findSome? fun cut => enter entries cut.1 cut.2) ∧
      ∀ cut ∈ cuts key.toList, cut.2.length < key.length) ∧
    (∀ pieces others, Cutting key pieces → Cutting key others →
      (pieces = others ∨ Preferred pieces others ∨ Preferred others pieces) ∧
      ¬ (Preferred pieces others ∧ Preferred others pieces) ∧
      ∀ last, Preferred pieces others → Preferred others last → Preferred pieces last) ∧
    ((lookup entries key).isSome ↔
      ∃ pieces value, Cutting key pieces ∧ Reaches entries pieces value) ∧
    (∀ value, lookup entries key = some value ↔
      ∃ pieces, FirstCutting entries key pieces value) ∧
    (lookup entries key = none →
      get? key (.document entries) = none ∧ getList? key (.document entries) = none) ∧
    ∀ pieces value, FirstCutting entries key pieces value →
      get? key (.document entries) = textOf value ∧
      getList? key (.document entries) = listOf value ∧
      (get? key (.document entries) = none ↔ isTable value = true) ∧
      (getList? key (.document entries) = none ↔ isTable value = true) := by
  refine ⟨⟨lookup_eq entries key, fun _ => length_lt_of_mem_cuts⟩, fun pieces others h ho => ?_,
    isSome_lookup_iff, fun value => lookup_eq_some_iff, fun h => ?_, fun pieces value h => ?_⟩
  · exact ⟨h.eq_or_preferred ho, fun hp => hp.1.asymm hp.2, fun last hp hl => hp.trans hl⟩
  · rw [get?, getList?, h]
    exact ⟨rfl, rfl⟩
  · have hvalue := lookup_eq_some_iff.mpr ⟨pieces, h⟩
    have htext := isSome_textOf value
    have hlist := isSome_listOf value
    rw [get?, getList?, hvalue, Option.bind_some, Option.bind_some]
    refine ⟨rfl, rfl, ?_, ?_⟩
    · rw [← Option.not_isSome_iff_eq_none, htext]
      simp
    · rw [← Option.not_isSome_iff_eq_none, hlist]
      simp

-- The way by "a" and "b" ends, so that "a.b" is tried, and "a.b.c" would come after it. For "k.l" a
-- table stands in front of the text that the cut key reaches.
def deadEnds : Entries :=
  [("a", .table .header [("b", .table .braces [])]),
   ("a.b.c", .table .header [("d", .integer 7)]),
   ("a.b", .table .dotted [("c", .table .dotted [("d", .text "deep, far")])]),
   ("k", .table .header [("l", .text "hidden")]),
   ("k.l", .table .header [])]

theorem lookup_takes_first_cutting_deadEnds :
    (∃ pieces, FirstCutting deadEnds "a.b.c.d" pieces (.text "deep, far")) ∧
      get? "a.b.c.d" (.document deadEnds) = some "deep, far" ∧
      getList? "a.b.c.d" (.document deadEnds) = some ["deep", "far"] ∧
      (∃ pieces, FirstCutting deadEnds "k.l" pieces (.table .header [])) ∧
      Reaches deadEnds ["k", "l"] (.text "hidden") ∧
      get? "k.l" (.document deadEnds) = none := by
  obtain ⟨-, -, -, hdeep, -, hvalue⟩ := lookup_takes_first_cutting deadEnds "a.b.c.d"
  obtain ⟨-, -, -, htable, -, hnone⟩ := lookup_takes_first_cutting deadEnds "k.l"
  have hd : lookup deadEnds "a.b.c.d" = some (.text "deep, far") := rfl
  have ht : lookup deadEnds "k.l" = some (.table .header []) := rfl
  obtain ⟨pieces, hp⟩ := (hdeep _).mp hd
  obtain ⟨others, ho⟩ := (htable _).mp ht
  have hreach : Reaches deadEnds ["k", "l"] (.text "hidden") := .within rfl (.last rfl)
  refine ⟨⟨pieces, hp⟩, (hvalue _ _ hp).1, ?_, ⟨others, ho⟩, hreach, ?_⟩
  · rw [(hvalue _ _ hp).2.1]
    decide
  · exact (hnone _ _ ho).2.2.1.mpr rfl

end Activation.Property
