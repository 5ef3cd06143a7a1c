import Activation.Toml.Expression
import Activation.Toml.Text
import Activation.Toml.Value

namespace Activation.Toml

def endOfLine (chars : List Char) : Except Fault (List Char) :=
  match skipComment (skipGap chars) with
  | [] => .ok []
  | '\n' :: rest => .ok rest
  | '\r' :: '\n' :: rest => .ok rest
  | rest => wanted "end of line" rest

def assignment (draft : Draft) (chars : List Char) : Except Fault (Draft × List Char) := do
  let (path, rest) ← key chars
  let rest ← expect '=' rest
  let (value, rest) ← value (skipGap rest)
  let rest ← endOfLine rest
  let draft ← draft.add path value
  return (draft, rest)

def tableHeader (draft : Draft) (chars : List Char) : Except Fault (Draft × List Char) := do
  let (path, rest) ← key chars
  let rest ← expect ']' rest
  let rest ← endOfLine rest
  let draft ← draft.openTable path
  return (draft, rest)

def elementHeader (draft : Draft) (chars : List Char) : Except Fault (Draft × List Char) := do
  let (path, rest) ← key chars
  let rest ← expect ']' rest
  let rest ← expect ']' rest
  let rest ← endOfLine rest
  let draft ← draft.openElement path
  return (draft, rest)

def statement (draft : Draft) (chars : List Char) : Except Fault (Draft × List Char) :=
  match chars with
  | '[' :: '[' :: rest => elementHeader draft rest
  | '[' :: rest => tableHeader draft rest
  | chars => assignment draft chars

-- All statements to the end of the document. Every line takes up characters, so their number bounds
-- the number of lines.
def statements : Nat → Draft → List Char → Except Fault Draft
  | 0, _, chars => wanted "end of document" chars
  | bound + 1, draft, chars =>
    match skipGap chars with
    | [] => .ok draft
    | '\n' :: rest => statements bound draft rest
    | '\r' :: '\n' :: rest => statements bound draft rest
    | '#' :: rest => do
      let rest ← endOfLine ('#' :: rest)
      statements bound draft rest
    | chars => do
      let (draft, rest) ← statement draft chars
      statements bound draft rest

def dropMark : List Char → List Char
  | '\ufeff' :: rest => rest
  | chars => chars

def ofChars (chars : List Char) : Except Fault Entries := do
  let draft ← statements (chars.length + 1) .start (dropMark chars)
  draft.close

def parse (content : String) : Except Fault Entries :=
  ofChars content.toList

abbrev Decoder (α : Type) : Type := Value → Except Fault α

def asString : Decoder String
  | .text value => .ok value
  | _ => .error (.mismatch "a string")

def asBool : Decoder Bool
  | .boolean value => .ok value
  | _ => .error (.mismatch "a boolean")

def asInt32 : Decoder Int
  | .integer value =>
    if Int32.minValue.toInt ≤ value && value ≤ Int32.maxValue.toInt then .ok value
    else .error (.outOfRange "32 bit integer")
  | _ => .error (.mismatch "an integer")

def asList {α : Type} (item : Decoder α) : Decoder (List α)
  | .array _ items => items.mapM item
  | _ => .error (.mismatch "an array")

-- The key under which a date or time is found when it is read as a table.
def momentKey : String := "$__toml_private_datetime"

-- The entries of a table. A date or time counts as a table of one text.
def asEntries : Decoder Entries
  | .table _ entries => .ok entries
  | .moment value => .ok [(momentKey, .text value.text)]
  | _ => .error (.mismatch "a table")

def asTable {α : Type} (item : Decoder α) : Decoder (List (String × α)) := fun value => do
  let entries ← asEntries value
  entries.mapM fun (key, value) => return (key, ← item value)

mutual

-- A value of any kind, with every date and time in it told apart from the tables: a table whose
-- first key is `momentKey` is the date or time in the text under that key, whatever else it holds.
def asAny : Decoder Value
  | .array form items => (anyItems items).map (.array form)
  | .table form [] => .ok (.table form [])
  | .table form ((key, value) :: others) =>
    if key = momentKey then do
      return .moment (← Moment.ofText (← asString value))
    else do
      let first ← asAny value
      let others ← anyEntries others
      return .table form ((key, first) :: others)
  | scalar => .ok scalar

def anyItems : List Value → Except Fault (List Value)
  | [] => .ok []
  | item :: items => do
    let first ← asAny item
    return first :: (← anyItems items)

def anyEntries : Entries → Except Fault Entries
  | [] => .ok []
  | (key, value) :: entries => do
    let first ← asAny value
    return (key, first) :: (← anyEntries entries)

end

-- Where the fields of a record are found: in a table by their names, or in an array by their
-- positions. Fields that the record does not have are passed over.
inductive Fields where
  | named (entries : Entries)
  | positional (items : List Value)

def asFields : Decoder Fields
  | .array _ items => .ok (.positional items)
  | value => (asEntries value).map .named

def Fields.find? (fields : Fields) (name : String) (position : Nat) : Option Value :=
  match fields with
  | .named entries => entries.lookup name
  | .positional items => items[position]?

def Fields.optional {α : Type} (fields : Fields) (name : String) (position : Nat)
    (decode : Decoder α) : Except Fault (Option α) :=
  match fields.find? name position with
  | some value => (decode value).map some
  | none => .ok none

def Fields.withDefault {α : Type} (fields : Fields) (name : String) (position : Nat)
    (decode : Decoder α) (default : α) : Except Fault α :=
  (fields.optional name position decode).map fun found => found.getD default

def Fields.required {α : Type} (fields : Fields) (name : String) (position : Nat)
    (decode : Decoder α) : Except Fault α := do
  match ← fields.optional name position decode with
  | some value => return value
  | none => .error (.missing name)

def Value.isEmptyContainer : Value → Bool
  | .array _ items => items.isEmpty
  | .table _ entries => entries.isEmpty
  | _ => false

-- One of several named cases, given by its name, or as a table whose only key is the name and whose
-- value there is empty.
def asCase {α : Type} (ofName : String → Option α) (what : String) : Decoder α := fun value =>
  let named (name : String) : Except Fault α :=
    match ofName name with
    | some found => .ok found
    | none => .error (.mismatch what)
  match value with
  | .text name => named name
  | .table _ [(name, content)] =>
    if content.isEmptyContainer then named name else .error (.mismatch what)
  | _ => .error (.mismatch what)

end Activation.Toml
