import Activation.Proofs.Name.Lookup
import Activation.Proofs.Toml.Plain
import Activation.Scaffold

namespace Activation.Scaffold

open Toml

variable {modules : List String} {lines : List (String × List String)}

private theorem toList_quotedNames_singleton (name : String) :
    (quotedNames [name]).toList = '"' :: (name.toList ++ ['"']) := by
  simp [quotedNames, Text.join]

private theorem toList_quotedNames_cons_cons (name next : String) (names : List String) :
    (quotedNames (name :: next :: names)).toList =
      '"' :: (name.toList ++ '"' :: ',' :: ' ' :: (quotedNames (next :: names)).toList) := by
  simp [quotedNames, Text.join]

private theorem length_le_quotedNames (names : List String) :
    names.length ≤ (quotedNames names).toList.length := by
  induction names with
  | nil => exact Nat.zero_le _
  | cons name names ih =>
      cases names with
      | nil => simp [toList_quotedNames_singleton]
      | cons next names =>
          rw [toList_quotedNames_cons_cons]
          simp only [List.length_cons, List.length_append] at ih ⊢
          omega

-- The bound of the reader is spent by one at every item.
theorem items_quotedNames (h : ∀ module ∈ modules, IsPlainText module) {bound : Nat}
    (hbound : modules.length < bound) (depth : Nat) (rest : List Char) :
    items (valueWithin depth) bound ((quotedNames modules).toList ++ ']' :: rest) =
      .ok (modules.map .text, rest) := by
  obtain ⟨left, rfl⟩ : ∃ left, bound = left + 1 := ⟨bound - 1, by omega⟩
  induction modules generalizing left with
  | nil => rfl
  | cons module others ih =>
      obtain ⟨hmodule, hothers⟩ := List.forall_mem_cons.mp h
      cases others with
      | nil =>
          have hchars : (quotedNames [module]).toList ++ ']' :: rest =
              '"' :: (module.toList ++ '"' :: ']' :: rest) := by
            simp [toList_quotedNames_singleton]
          rw [hchars]
          exact items_last (valueWithin_plain hmodule (by simp) depth) left
      | cons next others =>
          rw [List.length_cons, List.length_cons] at hbound
          have hchars : (quotedNames (module :: next :: others)).toList ++ ']' :: rest =
              '"' :: (module.toList ++ '"' :: ',' :: ' ' ::
                ((quotedNames (next :: others)).toList ++ ']' :: rest)) := by
            simp [toList_quotedNames_cons_cons]
          obtain ⟨less, rfl⟩ : ∃ less, left = less + 1 := ⟨left - 1, by omega⟩
          have hothers := ih hothers less (by rw [List.length_cons]; omega)
          rw [hchars, items_next (valueWithin_plain hmodule (by simp) depth),
            items_space _ (Nat.succ_pos less), hothers]
          rfl

-- An extension point and modules whose names stand for themselves between double quotes.
structure IsPlainLine (line : String × List String) : Prop where
  point : IsPlainText line.1
  modules : ∀ module ∈ line.2, IsPlainText module

instance (line : String × List String) : Decidable (IsPlainLine line) :=
  decidable_of_iff (IsPlainText line.1 ∧ ∀ module ∈ line.2, IsPlainText module)
    ⟨fun h => ⟨h.1, h.2⟩, fun h => ⟨h.1, h.2⟩⟩

def entryOf (line : String × List String) : String × Value :=
  (line.1, .array .brackets (line.2.map .text))

theorem value_quotedNames (h : ∀ module ∈ modules, IsPlainText module) (rest : List Char) :
    value ('[' :: ((quotedNames modules).toList ++ ']' :: rest)) =
      .ok (.array .brackets (modules.map .text), rest) := by
  have hbound : modules.length < ((quotedNames modules).toList ++ ']' :: rest).length + 1 := by
    have hlength := length_le_quotedNames modules
    rw [List.length_append]
    omega
  rw [value, depthLimit, valueWithin, items_quotedNames h hbound]
  rfl

theorem toList_catalogLine (point : String) (modules : List String) (rest : List Char) :
    (catalogLine point modules).toList ++ rest =
      '"' :: (point.toList ++ '"' :: ' ' :: '=' :: ' ' :: '[' ::
        ((quotedNames modules).toList ++ ']' :: '\n' :: rest)) := by
  simp [catalogLine]

private theorem add_entryOf {draft : Draft} {line : String × List String}
    (h : draft.current.lookup line.1 = none) :
    draft.add [line.1] (entryOf line).2 =
      .ok { draft with current := draft.current ++ [entryOf line] } := by
  have hnew : addNew line.1 (entryOf line).2 draft.current =
      .ok ((), draft.current ++ [entryOf line]) := by
    rw [addNew, h]
    rfl
  have hdotted : addDotted .dotted [] line.1 (entryOf line).2 draft.current =
      .ok (draft.current ++ [entryOf line]) := by
    change (addNew line.1 (entryOf line).2 draft.current).bind _ = _
    rw [hnew]
    rfl
  change (addDotted .dotted [] line.1 (entryOf line).2 draft.current).bind _ = _
  rw [hdotted]
  rfl

theorem statement_catalogLine {draft : Draft} {line : String × List String}
    (h : IsPlainLine line) (hnew : draft.current.lookup line.1 = none) (rest : List Char) :
    statement draft ((catalogLine line.1 line.2).toList ++ rest) =
      .ok ({ draft with current := draft.current ++ [entryOf line] }, rest) := by
  rw [toList_catalogLine]
  change assignment draft _ = _
  have hvalue := value_quotedNames h.modules ('\n' :: rest)
  rw [assignment, key_plain h.point]
  change (value ('[' :: ((quotedNames line.2).toList ++ ']' :: '\n' :: rest))).bind _ = _
  rw [hvalue]
  change (draft.add [line.1] (entryOf line).2).bind _ = _
  rw [add_entryOf hnew]
  rfl

def textOf (lines : List (String × List String)) : String :=
  lines.foldl (fun text line => text ++ catalogLine line.1 line.2) catalogHeader

theorem textOf_append (lines : List (String × List String)) (line : String × List String) :
    textOf (lines ++ [line]) = textOf lines ++ catalogLine line.1 line.2 := by
  rw [textOf, List.foldl_append]
  rfl

def charsOf (lines : List (String × List String)) : List Char :=
  lines.flatMap fun line => (catalogLine line.1 line.2).toList

theorem toList_textOf (lines : List (String × List String)) :
    (textOf lines).toList = catalogHeader.toList ++ charsOf lines := by
  have hfrom : ∀ text : String,
      (lines.foldl (fun text line => text ++ catalogLine line.1 line.2) text).toList =
        text.toList ++ charsOf lines := by
    induction lines with
    | nil => exact fun text => (List.append_nil _).symm
    | cons line lines ih =>
        intro text
        rw [List.foldl_cons, ih, String.toList_append, List.append_assoc]
        rfl
  exact hfrom catalogHeader

private theorem length_le_charsOf (lines : List (String × List String)) :
    lines.length ≤ (charsOf lines).length := by
  induction lines with
  | nil => exact Nat.zero_le _
  | cons line lines ih =>
      have hline := congrArg List.length (toList_catalogLine line.1 line.2 [])
      simp only [charsOf, List.flatMap_cons, List.length_append, List.length_cons] at hline ih ⊢
      omega

theorem statements_catalogLine {draft : Draft} {line : String × List String}
    (h : IsPlainLine line) (hnew : draft.current.lookup line.1 = none) (bound : Nat)
    (rest : List Char) :
    statements (bound + 1) draft ((catalogLine line.1 line.2).toList ++ rest) =
      statements bound { draft with current := draft.current ++ [entryOf line] } rest := by
  have hstatement := statement_catalogLine h hnew rest
  rw [toList_catalogLine] at hstatement ⊢
  change (statement draft _).bind _ = _
  rw [hstatement]
  rfl

theorem statements_charsOf {draft : Draft} {bound : Nat}
    (h : ∀ line ∈ lines, IsPlainLine line) (hnodup : (lines.map Prod.fst).Nodup)
    (hnew : ∀ line ∈ lines, draft.current.lookup line.1 = none) (hbound : lines.length < bound) :
    statements bound draft (charsOf lines) =
      .ok { draft with current := draft.current ++ lines.map entryOf } := by
  obtain ⟨left, rfl⟩ : ∃ left, bound = left + 1 := ⟨bound - 1, by omega⟩
  induction lines generalizing draft left with
  | nil => simp [charsOf, statements, skipGap]
  | cons line lines ih =>
      obtain ⟨hline, hlines⟩ := List.forall_mem_cons.mp h
      obtain ⟨hfirst, hnew⟩ := List.forall_mem_cons.mp hnew
      obtain ⟨hfresh, hnodup⟩ := List.nodup_cons.mp hnodup
      rw [List.length_cons] at hbound
      obtain ⟨less, rfl⟩ : ∃ less, left = less + 1 := ⟨left - 1, by omega⟩
      have hlater : ∀ later ∈ lines,
          (draft.current ++ [entryOf line]).lookup later.1 = none := by
        intro later hm
        have hne : later.1 ≠ line.1 := fun he => hfresh (he ▸ List.mem_map_of_mem hm)
        rw [List.lookup_append, hnew later hm, Name.lookup_cons, entryOf, if_neg hne]
        rfl
      have hchars : charsOf (line :: lines) =
          (catalogLine line.1 line.2).toList ++ charsOf lines := List.flatMap_cons
      rw [hchars, statements_catalogLine hline hfirst, ih hlines hnodup hlater less (by omega),
        List.map_cons, List.append_assoc]
      rfl

theorem document_textOf (h : ∀ line ∈ lines, IsPlainLine line)
    (hnodup : (lines.map Prod.fst).Nodup) :
    Toml.parse (textOf lines) =
      .ok [("extension_points", .table .header (lines.map entryOf))] := by
  have hlength := length_le_charsOf lines
  have hbound : lines.length < (textOf lines).toList.length := by
    rw [toList_textOf, List.length_append]
    have hheader : 0 < catalogHeader.toList.length := by decide
    omega
  have hlines : statements (textOf lines).toList.length ⟨[], [], ["extension_points"], false⟩
      (charsOf lines) = .ok ⟨[], lines.map entryOf, ["extension_points"], false⟩ :=
    statements_charsOf h hnodup (fun _ _ => rfl) hbound
  have hheader : statements ((textOf lines).toList.length + 1) .start
      (dropMark (textOf lines).toList) =
        statements (textOf lines).toList.length ⟨[], [], ["extension_points"], false⟩
          (charsOf lines) := by
    rw [toList_textOf]
    rfl
  rw [Toml.parse, ofChars, hheader, hlines]
  rfl

private theorem asList_texts (modules : List String) :
    asList asString (.array .brackets (modules.map .text)) = .ok modules := by
  rw [asList, List.mapM_map]
  exact List.mapM_pure.trans (congrArg Except.ok (List.map_id _))

theorem asTable_entryOf (lines : List (String × List String)) :
    asTable (asList asString) (.table .header (lines.map entryOf)) = .ok lines := by
  change (lines.map entryOf).mapM _ = _
  rw [List.mapM_map]
  have hline : ∀ line : String × List String,
      (do return (line.1, ← asList asString (entryOf line).2) : Except Fault _) = .ok line := by
    intro line
    rw [entryOf, asList_texts]
    rfl
  exact (congrArg (fun read => lines.mapM read) (funext hline)).trans
    (List.mapM_pure.trans (congrArg Except.ok (List.map_id _)))

theorem parse_textOf (h : ∀ line ∈ lines, IsPlainLine line)
    (hnodup : (lines.map Prod.fst).Nodup) :
    Catalog.parse (textOf lines) = .ok ⟨.ofList lines⟩ := by
  rw [Catalog.parse, document_textOf h hnodup]
  change (((asTable (asList asString)
    (.table .header (lines.map entryOf))).map some).map _).bind _ = _
  rw [asTable_entryOf]
  rfl

theorem modules_ofList (hnodup : (lines.map Prod.fst).Nodup) (point : String) :
    Catalog.modules ⟨.ofList lines⟩ point = (lines.lookup point).getD [] := by
  rw [Catalog.modules, NameMap.get?_ofList, Name.lookup_perm hnodup (List.reverse_perm lines)]

end Activation.Scaffold
