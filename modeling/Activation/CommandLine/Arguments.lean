import Activation.Catalog

namespace Activation.CommandLine

inductive Command where
  | overview
  | resolve (session : String) (roots : List String) (json report : Bool)
  -- Without roots the current directory is the only one.
  | candidates (roots : List String) (point : String)
deriving DecidableEq

inductive Request where
  | run (command : Command)
  | version
  | help
deriving DecidableEq

inductive Misuse where
  | unknown (word : String)
  | repeated (switch : String)
  | noValue (switch : String)
  | needlessValue (switch : String)
  | missing (switch : String)
deriving DecidableEq

def Misuse.message : Misuse → String
  | .unknown word => s!"unexpected argument '{word}' found"
  | .repeated switch => s!"the argument '--{switch}' cannot be used multiple times"
  | .noValue switch => s!"a value is required for '--{switch}' but none was supplied"
  | .needlessValue switch => s!"unexpected value for '--{switch}' found; no more were expected"
  | .missing switch => s!"the required argument '--{switch}' was not provided"

inductive Arity where
  | flag
  | one
  | many
  -- Ends the reading with an answer of its own.
  | answer (request : Request)
deriving DecidableEq

structure Switch where
  long : String
  short : Option Char
  arity : Arity
  allowsEmpty : Bool := false
deriving DecidableEq

def verbose : Switch := ⟨"verbose", some 'v', .flag, false⟩
def help : Switch := ⟨"help", some 'h', .answer .help, false⟩
def version : Switch := ⟨"version", some 'V', .answer .version, false⟩
def session : Switch := ⟨"session", some 's', .one, false⟩
def root : Switch := ⟨"root", some 'r', .many, false⟩
def json : Switch := ⟨"json", none, .flag, false⟩
def report : Switch := ⟨"report", none, .flag, false⟩
def point : Switch := ⟨"extension-point", some 'e', .one, true⟩

def generalSwitches : List Switch := [verbose, help, version]
def resolveSwitches : List Switch := [verbose, help, session, root, json, report]
def candidatesSwitches : List Switch := [verbose, help, root, point]

inductive Stop where
  | misuse (misuse : Misuse)
  | answered (request : Request)
deriving DecidableEq

structure Given where
  values : List (String × String) := []
  -- A switch whose value is the next word.
  waiting : Option Switch := none
  -- Whether two hyphens have ended the switches.
  ended : Bool := false
deriving DecidableEq

namespace Given

def has (given : Given) (switch : Switch) : Bool :=
  (given.values.lookup switch.long).isSome

def value? (given : Given) (switch : Switch) : Option String :=
  given.values.lookup switch.long

def valuesOf (given : Given) (switch : Switch) : List String :=
  given.values.filterMap fun entry => if entry.1 = switch.long then some entry.2 else none

-- Record a switch. Only one that may be given many times may be given twice.
def record (given : Given) (switch : Switch) (value : String) : Except Stop Given :=
  if given.has switch && switch.arity ≠ .many then .error (.misuse (.repeated switch.long))
  else .ok { given with values := given.values ++ [(switch.long, value)], waiting := none }

def recordValue (given : Given) (switch : Switch) (value : String) : Except Stop Given :=
  if value.isEmpty && !switch.allowsEmpty then .error (.misuse (.noValue switch.long))
  else given.record switch value

-- Letters after one hyphen: flags, and last a switch whose value follows directly, after an equals
-- sign, or in the next word.
def readShort (switches : List Switch) (given : Given) : List Char → Except Stop Given
  | [] => .ok given
  | c :: rest =>
    match switches.find? fun switch => switch.short = some c with
    | none => .error (.misuse (.unknown (String.ofList ['-', c])))
    | some switch =>
      match switch.arity with
      | .answer request => .error (.answered request)
      | .flag => do readShort switches (← given.record switch "") rest
      | _ =>
        match rest with
        | [] => .ok { given with waiting := some switch }
        | '=' :: value => given.recordValue switch (String.ofList value)
        | value => given.recordValue switch (String.ofList value)

-- A word after two hyphens: a switch, with a value after an equals sign or in the next word.
def readLong (switches : List Switch) (given : Given) (chars : List Char) : Except Stop Given :=
  let long := String.ofList (chars.takeWhile (· ≠ '='))
  let attached : Option String :=
    match chars.dropWhile (· ≠ '=') with
    | [] => none
    | _ :: value => some (String.ofList value)
  match switches.find? fun switch => switch.long = long with
  | none => .error (.misuse (.unknown ("--" ++ long)))
  | some switch =>
    match switch.arity, attached with
    | .flag, none => given.record switch ""
    | .answer request, none => .error (.answered request)
    | .flag, some _ => .error (.misuse (.needlessValue long))
    | .answer _, some _ => .error (.misuse (.needlessValue long))
    | _, some value => given.recordValue switch value
    | _, none => .ok { given with waiting := some switch }

-- One word. No word but a switch or its value is expected, and no value starts with a hyphen,
-- unless it is the hyphen alone.
def readWord (switches : List Switch) (given : Given) (word : String) : Except Stop Given :=
  match given.waiting with
  | some switch =>
    match word.toList with
    | '-' :: _ :: _ => .error (.misuse (.noValue switch.long))
    | _ => given.recordValue switch word
  | none =>
    if given.ended then .error (.misuse (.unknown word))
    else
      match word.toList with
      | ['-', '-'] => .ok { given with ended := true }
      | '-' :: '-' :: chars => readLong switches given chars
      | '-' :: c :: chars => readShort switches given (c :: chars)
      | _ => .error (.misuse (.unknown word))

def readWords (switches : List Switch) (words : List String) : Except Stop Given := do
  let given ← words.foldlM (readWord switches) {}
  match given.waiting with
  | some switch => .error (.misuse (.noValue switch.long))
  | none => return given

end Given

def sessionVariable : String := "AUTOCONF_SESSION"

def resolveRequest (settings : List (String × String)) (words : List String) :
    Except Stop Request := do
  let given ← Given.readWords resolveSwitches words
  let given ←
    match given.has session, settings.lookup sessionVariable with
    | false, some path => given.recordValue session path
    | _, _ => .ok given
  match given.value? session with
  | some path =>
    return .run (.resolve path (given.valuesOf root) (given.has json) (given.has report))
  | none => .error (.misuse (.missing session.long))

def candidatesRequest (words : List String) : Except Stop Request := do
  let given ← Given.readWords candidatesSwitches words
  return .run (.candidates (given.valuesOf root) ((given.value? point).getD Catalog.defaultPoint))

def helpRequest : List String → Except Stop Request
  | [] => .ok .help
  | [word] =>
    if word = "resolve" || word = "candidates" || word = "help" then .ok .help
    else .error (.misuse (.unknown word))
  | _ :: word :: _ => .error (.misuse (.unknown word))

def readFrom (settings : List (String × String)) (given : Given) :
    List String → Except Stop Request
  | [] => .ok (.run .overview)
  | word :: rest =>
    if word = "resolve" && !given.ended then resolveRequest settings rest
    else if word = "candidates" && !given.ended then candidatesRequest rest
    else if word = "help" && !given.ended then helpRequest rest
    else do
      let given ← given.readWord generalSwitches word
      readFrom settings given rest

def read (settings : List (String × String)) (words : List String) : Except Misuse Request :=
  match readFrom settings {} words with
  | .ok request => .ok request
  | .error (.answered request) => .ok request
  | .error (.misuse misuse) => .error misuse

end Activation.CommandLine
