import Activation.Error
import Activation.Name
import Activation.Text
import Activation.Toml.Document
import Activation.Toml.Value

namespace Activation.Property

open Toml (Value Entries)

-- The value that a key reaches when its first cut comes no earlier than after the given head: at
-- every dot the head is tried as the name of a table, and in that table the tail, uncut first.
def search (entries : Entries) (head : List Char) : List Char → Option Value
  | [] => none
  | c :: tail =>
    let cut : Option Value :=
      if c = '.' then
        match entries.lookup (String.ofList head) with
        | some (.table _ inner) =>
          match inner.lookup (String.ofList tail) with
          | some value => some value
          | none => search inner [] tail
        | _ => none
      else none
    match cut with
    | some value => some value
    | none => search entries (head ++ [c]) tail

-- The value of a key: of the uncut key before any cut, and of a cut at an earlier dot before a cut
-- at a later one.
def lookup (entries : Entries) (key : String) : Option Value :=
  match entries.lookup key with
  | some value => some value
  | none => search entries [] key.toList

def scalarTexts (items : List Value) : List String :=
  items.filterMap Value.scalarText

end Activation.Property

namespace Activation

inductive PropertySource where
  | document (entries : Toml.Entries)
  | settings (values : NameMap String)
  | layers (sources : List PropertySource)
  -- A source of the host's own, which gives a text and a list under the keys it has a value for.
  | own (values : String → Option (String × List String))

instance : Inhabited PropertySource := ⟨.layers []⟩

namespace PropertySource

-- The variable that a key is bound to: hyphens are dropped, dots become underscores, and letters
-- of ASCII are upper case.
def variableName (key : String) : String :=
  String.ofList ((key.toList.filter (· ≠ '-')).map fun c => if c = '.' then '_' else c.toUpper)

-- The text of a value found in a document: items of an array are joined by commas, and a table has
-- no text.
def textOf : Toml.Value → Option String
  | .array _ items => some (Text.join "," (Property.scalarTexts items))
  | value => value.scalarText

-- The list of a value found in a document: the items of an array as they are, any other text cut
-- at its commas.
def listOf : Toml.Value → Option (List String)
  | .array _ items => some (Property.scalarTexts items)
  | value => value.scalarText.map Text.items

mutual

def get? (key : String) : PropertySource → Option String
  | .document entries => (Property.lookup entries key).bind textOf
  | .settings values => values.get? (variableName key)
  | .layers sources => getFirst? key sources
  | .own values => (values key).map Prod.fst

def getFirst? (key : String) : List PropertySource → Option String
  | [] => none
  | source :: others =>
    match get? key source with
    | some text => some text
    | none => getFirst? key others

end

mutual

def getList? (key : String) : PropertySource → Option (List String)
  | .document entries => (Property.lookup entries key).bind listOf
  | .settings values => (values.get? (variableName key)).map Text.items
  | .layers sources => getFirstList? key sources
  | .own values => (values key).map Prod.snd

def getFirstList? (key : String) : List PropertySource → Option (List String)
  | [] => none
  | source :: others =>
    match getList? key source with
    | some items => some items
    | none => getFirstList? key others

end

def flagOf? (text : String) : Option Bool :=
  match String.ofList ((Text.trimChars text.toList).map Char.toLower) with
  | "true" => some true
  | "false" => some false
  | _ => none

def getBool? (source : PropertySource) (key : String) : Except Error (Option Bool) :=
  match get? key source with
  | none => .ok none
  | some text =>
    match flagOf? text with
    | some flag => .ok (some flag)
    | none => .error (.invalidProperty key text)

def ofDocument (content : String) : Except Toml.Fault PropertySource := do
  return .document (← Toml.anyEntries (← Toml.parse content))

-- Of two variables with one name the later counts.
def ofVariables (values : List (String × String)) : PropertySource :=
  .settings (NameMap.ofList values)

inductive FileFault where
  | unreadable (fault : ReadFault)
  | invalid (fault : Toml.Fault)

def FileFault.message : FileFault → String
  | .unreadable fault => fault.message
  | .invalid fault => fault.message

def ofFile (files : Snapshot) (path : String) : Except FileFault PropertySource :=
  match (files path).read with
  | .error fault => .error (.unreadable fault)
  | .ok content =>
    match ofDocument content with
    | .error fault => .error (.invalid fault)
    | .ok source => .ok source

end PropertySource

end Activation
