import Activation.Toml.Text
import Activation.Toml.Value

namespace Activation.Toml

-- Change the table that a path leads to, and give back what the change found. Tables missing on the
-- way are made in the given form. Through a dotted key no table with a header of its own is
-- entered; through an array of tables the way leads into its last table.
def alterAt {α : Type} (made : TableForm)
    (change : TableForm → Entries → Except Fault (α × Entries)) :
    TableForm → List String → Entries → Except Fault (α × Entries)
  | form, [], entries => change form entries
  | _, key :: path, entries =>
    match entries.lookup key with
    | none => do
      let (found, inner) ← alterAt made change made path []
      return (found, entries ++ [(key, .table made inner)])
    | some (.table form inner) =>
      if form = .braces ∨ (form = .dottedInBraces ∧ made ≠ .dottedInBraces) then
        .error (.closed key)
      else if form = .header ∧ made = .dotted then .error (.duplicate key)
      else do
        let (found, inner) ← alterAt made change form path inner
        return (found, Entries.replace key (.table form inner) entries)
    | some (.array .headers items) =>
      match items.getLast? with
      | some (.table form inner) => do
        let (found, inner) ← alterAt made change form path inner
        let items := items.dropLast ++ [.table form inner]
        return (found, Entries.replace key (.array .headers items) entries)
      | _ => .error (.closed key)
    | some _ => .error (.closed key)

def addNew (key : String) (value : Value) (entries : Entries) : Except Fault (Unit × Entries) :=
  if (entries.lookup key).isSome then .error (.duplicate key)
  else .ok ((), entries ++ [(key, value)])

-- Add the value of a dotted key to the entries of a table. All but the last part of the key lead
-- through tables that dotted keys made.
def addDotted (made : TableForm) (path : List String) (key : String) (value : Value)
    (entries : Entries) : Except Fault Entries := do
  let change (form : TableForm) (inner : Entries) : Except Fault (Unit × Entries) :=
    if !path.isEmpty ∧ form ≠ made then .error (.duplicate key)
    else addNew key value inner
  let ((), entries) ← alterAt made change .header path entries
  return entries

def bracedEntries (pairs : List (List String × Value)) : Except Fault Entries :=
  pairs.foldlM (fun entries (path, value) =>
    match path.getLast? with
    | some key => addDotted .dottedInBraces path.dropLast key value entries
    | none => .ok entries) []

-- A document that is being read. The table of the last header is kept apart from the others until
-- the next header or the end.
structure Draft where
  root : Entries
  current : Entries
  -- The header of the open table, empty before the first header.
  path : List String
  inArray : Bool

def Draft.start : Draft := ⟨[], [], [], false⟩

def Draft.close (draft : Draft) : Except Fault Entries :=
  match draft.path.getLast? with
  | none => .ok draft.current
  | some key => do
    let change (_ : TableForm) (entries : Entries) : Except Fault (Unit × Entries) :=
      let table := Value.table .header draft.current
      if draft.inArray then
        match entries.lookup key with
        | some (.array .headers items) =>
          .ok ((), Entries.replace key (.array .headers (items ++ [table])) entries)
        | none => .ok ((), entries ++ [(key, .array .headers [table])])
        | some _ => .error (.duplicate key)
      else addNew key table entries
    let ((), root) ← alterAt .implied change .header draft.path.dropLast draft.root
    return root

-- Open the table of a header. One that headers below it implied is taken up with its entries; any
-- other that is there already was defined before.
def Draft.openTable (draft : Draft) (path : List String) : Except Fault Draft := do
  let root ← draft.close
  let key := path.getLast?.getD ""
  let change (_ : TableForm) (entries : Entries) : Except Fault (Entries × Entries) :=
    match entries.lookup key with
    | none => .ok ([], entries)
    | some (.table .implied inner) => .ok (inner, Entries.remove key entries)
    | some _ => .error (.duplicate key)
  let (current, root) ← alterAt .implied change .header path.dropLast root
  return ⟨root, current, path, false⟩

def Draft.openElement (draft : Draft) (path : List String) : Except Fault Draft := do
  let root ← draft.close
  let key := path.getLast?.getD ""
  let change (_ : TableForm) (entries : Entries) : Except Fault (Unit × Entries) :=
    match entries.lookup key with
    | none => .ok ((), entries ++ [(key, .array .headers [])])
    | some (.array .headers _) => .ok ((), entries)
    | some _ => .error (.duplicate key)
  let ((), root) ← alterAt .implied change .header path.dropLast root
  return ⟨root, [], path, true⟩

def Draft.add (draft : Draft) (path : List String) (value : Value) : Except Fault Draft := do
  let current ← addDotted .dotted path.dropLast (path.getLast?.getD "") value draft.current
  return { draft with current }

end Activation.Toml
