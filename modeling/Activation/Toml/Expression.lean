import Activation.Toml.Draft
import Activation.Toml.Number
import Activation.Toml.Text

namespace Activation.Toml

def depthLimit : Nat := 79

def simpleKey : Step String
  | '"' :: rest => asText (basicChars .none rest)
  | '\'' :: rest => asText (literalChars rest)
  | chars =>
    let bare := chars.takeWhile isBareKey
    if bare.isEmpty then wanted "key" chars
    else .ok (String.ofList bare, chars.dropWhile isBareKey)

-- Keys joined by dots, with gaps around each; at most as many as the first argument says.
def dottedKey : Nat → Step (List String)
  | 0, _ => .error .tooDeep
  | depth + 1, chars => do
    let (key, rest) ← simpleKey (skipGap chars)
    match skipGap rest with
    | '.' :: rest =>
      let (keys, rest) ← dottedKey depth rest
      return (key :: keys, rest)
    | rest => return ([key], rest)

def key : Step (List String) := dottedKey depthLimit

def asValue {α : Type} (make : α → Value) (result : Except Fault (α × List Char)) :
    Except Fault (Value × List Char) :=
  result.map fun (value, rest) => (make value, rest)

def ofNumber : Number → Value
  | .integer value => .integer value
  | .float value => .float value

def numberOrMoment : Step Value := fun chars =>
  match moment? chars with
  | some result => asValue .moment result
  | none => asValue ofNumber (number chars)

def scalar : Step Value
  | 't' :: 'r' :: 'u' :: 'e' :: rest => .ok (.boolean true, rest)
  | 'f' :: 'a' :: 'l' :: 's' :: 'e' :: rest => .ok (.boolean false, rest)
  | c :: rest =>
    if c = '"' || c = '\'' then asValue .text (text (c :: rest))
    else if isDigit c || c = '+' || c = '-' || c = 'i' || c = 'n' then numberOrMoment (c :: rest)
    else wanted "value" (c :: rest)
  | [] => wanted "value" []

-- The items of an array up to its closing bracket, each read by the given reader. A comma may
-- follow the last. Every item takes up characters, so their number bounds the number of items.
def items (item : Step Value) : Nat → Step (List Value)
  | 0, chars => wanted "closing bracket" chars
  | bound + 1, chars =>
    match skipFilling false chars with
    | ']' :: rest => .ok ([], rest)
    | chars => do
      let (value, rest) ← item chars
      match skipFilling false rest with
      | ',' :: rest =>
        let (values, rest) ← items item bound rest
        return (value :: values, rest)
      | ']' :: rest => return ([value], rest)
      | rest => wanted "comma or closing bracket" rest

-- The keys and values of a table in braces up to its closing brace. No comma follows the last.
def pairs (item : Step Value) : Nat → Step (List (List String × Value))
  | 0, chars => wanted "closing brace" chars
  | bound + 1, chars => do
    let (path, rest) ← key chars
    let rest ← expect '=' rest
    let (value, rest) ← item (skipGap rest)
    match skipGap rest with
    | ',' :: rest =>
      let (others, rest) ← pairs item bound rest
      return ((path, value) :: others, rest)
    | '\x7d' :: rest => return ([(path, value)], rest)
    | rest => wanted "comma or closing brace" rest

def braced (item : Step Value) : Step Value := fun chars =>
  match skipGap chars with
  | '\x7d' :: rest => .ok (.table .braces [], rest)
  | chars => do
    let (pairs, rest) ← pairs item (chars.length + 1) chars
    let entries ← bracedEntries pairs
    return (.table .braces entries, rest)

def valueWithin : Nat → Step Value
  | 0, chars =>
    match chars with
    | '[' :: _ => .error .tooDeep
    | '\x7b' :: _ => .error .tooDeep
    | chars => scalar chars
  | depth + 1, chars =>
    match chars with
    | '[' :: rest =>
      asValue (.array .brackets) (items (valueWithin depth) (rest.length + 1) rest)
    | '\x7b' :: rest => braced (valueWithin depth) rest
    | chars => scalar chars

def value : Step Value := valueWithin depthLimit

end Activation.Toml
