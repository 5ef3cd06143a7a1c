namespace Activation.Toml

inductive Fault where
  -- Something else was wanted where only this many characters were left.
  | unexpected (wanted : String) (remaining : Nat)
  | duplicate (key : String)
  | closed (key : String)
  | tooDeep
  | outOfRange (wanted : String)
  | mismatch (wanted : String)
  | missing (field : String)
deriving DecidableEq

def Fault.message : Fault → String
  | .unexpected wanted remaining => s!"expected {wanted} with {remaining} characters left"
  | .duplicate key => s!"duplicate key '{key}'"
  | .closed key => s!"key '{key}' does not lead to a table that can be extended"
  | .tooDeep => "nested too deeply"
  | .outOfRange wanted => s!"{wanted} is out of range"
  | .mismatch wanted => s!"invalid type: expected {wanted}"
  | .missing field => s!"missing field '{field}'"

-- A reader of one construct gives what it read and the characters after it.
abbrev Step (α : Type) : Type := List Char → Except Fault (α × List Char)

def wanted {α : Type} (what : String) (rest : List Char) : Except Fault α :=
  .error (.unexpected what rest.length)

def isGap (c : Char) : Bool := c = ' ' || c = '\t'

-- What a comment or a text on one line may hold: everything but control characters, tab excepted.
def isPrintable (c : Char) : Bool := c = '\t' || (0x20 ≤ c.toNat && c.toNat ≠ 0x7F)

def isBareKey (c : Char) : Bool :=
  c.isAlphanum || c = '-' || c = '_'

def isDigit (c : Char) : Bool := '0' ≤ c && c ≤ '9'

def isOctal (c : Char) : Bool := '0' ≤ c && c ≤ '7'

def isBinary (c : Char) : Bool := c = '0' || c = '1'

def isHex (c : Char) : Bool := isDigit c || ('a' ≤ c && c ≤ 'f') || ('A' ≤ c && c ≤ 'F')

def digitValue (c : Char) : Nat :=
  if isDigit c then c.toNat - 0x30
  else if 'a' ≤ c && c ≤ 'f' then c.toNat - 0x61 + 10
  else c.toNat - 0x41 + 10

def numeral (base : Nat) (digits : List Char) : Nat :=
  digits.foldl (fun value digit => base * value + digitValue digit) 0

def skipGap (chars : List Char) : List Char := chars.dropWhile isGap

def skipComment : List Char → List Char
  | '#' :: rest => rest.dropWhile isPrintable
  | chars => chars

-- Gaps, line ends and comments, as they may stand between the items of an array. The flag tells
-- whether the reader is inside a comment.
def skipFilling (inComment : Bool) : List Char → List Char
  | [] => []
  | '\n' :: rest => skipFilling false rest
  | '\r' :: '\n' :: rest => skipFilling false rest
  | c :: rest =>
    if inComment then
      if isPrintable c then skipFilling true rest else c :: rest
    else if c = '#' then skipFilling true rest
    else if isGap c then skipFilling false rest
    else c :: rest

inductive Escape where
  | none
  | opened
  -- Inside the digits of a code point: how many are still to come and the value so far.
  | code (left value : Nat)
  -- After a backslash and a gap, which only the end of the line may close.
  | beforeLineEnd
  -- After a backslash at the end of a line: the white space that follows is dropped.
  | folding
deriving DecidableEq

def escapedChar : Char → Option Char
  | 'b' => some '\x08'
  | 't' => some '\t'
  | 'n' => some '\n'
  | 'f' => some '\x0c'
  | 'r' => some '\r'
  | '"' => some '"'
  | '\\' => some '\\'
  | _ => none

def codeLength : Char → Option Nat
  | 'u' => some 4
  | 'U' => some 8
  | _ => none

-- The character of a code point; surrogates and numbers beyond the last plane have none.
def charOfCode (code : Nat) : Option Char :=
  if code.isValidChar then some (Char.ofNat code) else none

def push (c : Char) (result : Except Fault (List Char × List Char)) :
    Except Fault (List Char × List Char) :=
  result.map fun (chars, rest) => (c :: chars, rest)

def basicChars : Escape → Step (List Char)
  | _, [] => wanted "closing quote" []
  | .opened, c :: rest =>
    match escapedChar c, codeLength c with
    | some meant, _ => push meant (basicChars .none rest)
    | none, some length => basicChars (.code length 0) rest
    | none, none => wanted "escape" (c :: rest)
  | .code left value, c :: rest =>
    if isHex c then
      let value := 16 * value + digitValue c
      if left ≤ 1 then
        match charOfCode value with
        | some meant => push meant (basicChars .none rest)
        | none => .error (.outOfRange "code point")
      else basicChars (.code (left - 1) value) rest
    else wanted "hexadecimal digit" (c :: rest)
  | _, c :: rest =>
    if c = '"' then .ok ([], rest)
    else if c = '\\' then basicChars .opened rest
    else if isPrintable c then push c (basicChars .none rest)
    else wanted "character" (c :: rest)

def literalChars : Step (List Char)
  | [] => wanted "closing quote" []
  | c :: rest =>
    if c = '\'' then .ok ([], rest)
    else if isPrintable c then push c (literalChars rest)
    else wanted "character" (c :: rest)

-- What closes a text of several lines when its first quote has been read: two more quotes. Up to
-- two quotes before the last three belong to the text.
def closing (quote : Char) (rest : List Char) : Option (List Char × List Char) :=
  match rest with
  | a :: b :: c :: d :: beyond =>
    if a = quote && b = quote then
      if c = quote then
        if d = quote then some ([quote, quote], beyond) else some ([quote], d :: beyond)
      else some ([], c :: d :: beyond)
    else none
  | [a, b, c] =>
    if a = quote && b = quote then
      if c = quote then some ([quote], []) else some ([], [c])
    else none
  | [a, b] => if a = quote && b = quote then some ([], []) else none
  | _ => none

-- A basic text of several lines, from after its opening quotes. Line ends are read as line feeds.
def basicLines : Escape → Step (List Char)
  | _, [] => wanted "closing quotes" []
  | .opened, c :: rest =>
    match escapedChar c, codeLength c with
    | some meant, _ => push meant (basicLines .none rest)
    | none, some length => basicLines (.code length 0) rest
    | none, none =>
      if c = '\n' then basicLines .folding rest
      else if c = '\r' && rest.head? = some '\n' then basicLines .folding rest
      else if isGap c then basicLines .beforeLineEnd rest
      else wanted "escape" (c :: rest)
  | .code left value, c :: rest =>
    if isHex c then
      let value := 16 * value + digitValue c
      if left ≤ 1 then
        match charOfCode value with
        | some meant => push meant (basicLines .none rest)
        | none => .error (.outOfRange "code point")
      else basicLines (.code (left - 1) value) rest
    else wanted "hexadecimal digit" (c :: rest)
  | .beforeLineEnd, c :: rest =>
    if c = '\n' then basicLines .folding rest
    else if c = '\r' && rest.head? = some '\n' then basicLines .folding rest
    else if isGap c then basicLines .beforeLineEnd rest
    else wanted "line end" (c :: rest)
  | escape, c :: rest =>
    if escape = .folding && (isGap c || c = '\n') then basicLines .folding rest
    else if c = '\r' then
      if rest.head? = some '\n' then basicLines escape rest else wanted "line feed" (c :: rest)
    else if c = '\n' then push '\n' (basicLines .none rest)
    else if c = '\\' then basicLines .opened rest
    else if c = '"' then
      match closing '"' rest with
      | some ended => .ok ended
      | none => push '"' (basicLines .none rest)
    else if isPrintable c then push c (basicLines .none rest)
    else wanted "character" (c :: rest)

def literalLines : Step (List Char)
  | [] => wanted "closing quotes" []
  | c :: rest =>
    if c = '\r' then
      if rest.head? = some '\n' then literalLines rest else wanted "line feed" (c :: rest)
    else if c = '\n' then push '\n' (literalLines rest)
    else if c = '\'' then
      match closing '\'' rest with
      | some ended => .ok ended
      | none => push '\'' (literalLines rest)
    else if isPrintable c then push c (literalLines rest)
    else wanted "character" (c :: rest)

-- The line end right after the opening quotes of several lines is no part of the text.
def dropFirstLineEnd : List Char → List Char
  | '\n' :: rest => rest
  | '\r' :: '\n' :: rest => rest
  | chars => chars

def asText (result : Except Fault (List Char × List Char)) : Except Fault (String × List Char) :=
  result.map fun (chars, rest) => (String.ofList chars, rest)

def text : Step String
  | '"' :: '"' :: '"' :: rest => asText (basicLines .none (dropFirstLineEnd rest))
  | '"' :: rest => asText (basicChars .none rest)
  | '\'' :: '\'' :: '\'' :: rest => asText (literalLines (dropFirstLineEnd rest))
  | '\'' :: rest => asText (literalChars rest)
  | chars => wanted "text" chars

end Activation.Toml
