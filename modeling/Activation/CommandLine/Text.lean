import Activation.Session
import Activation.Text

namespace Activation

inductive Json where
  | text (value : String)
  | array (items : List Json)
  | object (fields : List (String × Json))

namespace Json

def escaped (c : Char) : List Char :=
  match c with
  | '"' => ['\\', '"']
  | '\\' => ['\\', '\\']
  | '\n' => ['\\', 'n']
  | '\r' => ['\\', 'r']
  | '\t' => ['\\', 't']
  | '\x08' => ['\\', 'b']
  | '\x0c' => ['\\', 'f']
  | _ =>
    if c.toNat < 0x20 then
      ['\\', 'u', '0', '0', Text.hexDigit (c.toNat / 16), Text.hexDigit (c.toNat % 16)]
    else [c]

def quotedText (value : String) : String :=
  String.ofList ('"' :: value.toList.flatMap escaped ++ ['"'])

def indent (level : Nat) : String :=
  String.ofList (List.replicate (2 * level) ' ')

-- Lines of one level between an opening and a closing mark; nothing between them stays on one line.
def block (opening closing : String) (level : Nat) (lines : List String) : String :=
  match lines with
  | [] => opening ++ closing
  | first :: others =>
    let body := others.foldl (fun body line => body ++ ",\n" ++ indent (level + 1) ++ line)
      (indent (level + 1) ++ first)
    opening ++ "\n" ++ body ++ "\n" ++ indent level ++ closing

mutual

def prettyAt (level : Nat) : Json → String
  | .text value => quotedText value
  | .array items => block "[" "]" level (prettyItems (level + 1) items)
  | .object fields => block "\x7b" "\x7d" level (prettyFields (level + 1) fields)

def prettyItems (level : Nat) : List Json → List String
  | [] => []
  | item :: others => prettyAt level item :: prettyItems level others

def prettyFields (level : Nat) : List (String × Json) → List String
  | [] => []
  | (name, value) :: others =>
    (quotedText name ++ ": " ++ prettyAt level value) :: prettyFields level others

end

def pretty (json : Json) : String := prettyAt 0 json

end Json

end Activation

namespace Activation.Terminal

inductive Style where
  | bold
  | dimmed
  | green
  | cyan
  | boldGreen
  | boldRed
deriving DecidableEq

def Style.codes : Style → String
  | .bold => "1"
  | .dimmed => "2"
  | .green => "32"
  | .cyan => "36"
  | .boldGreen => "1;32"
  | .boldRed => "1;31"

def Style.opening (style : Style) : String := "\x1b[" ++ style.codes ++ "m"

def reset : String := "\x1b[0m"

-- A style is taken up again after every reset inside the text.
def reopened (opening : List Char) : List Char → List Char
  | [] => []
  | c :: rest =>
    if reset.toList.isPrefixOf (c :: rest) then
      c :: reopenedAfter opening 3 rest
    else c :: reopened opening rest
where
  -- Copy the remaining characters of a reset, then open the style.
  reopenedAfter (opening : List Char) : Nat → List Char → List Char
    | _, [] => opening
    | 0, rest => opening ++ reopened opening rest
    | left + 1, c :: rest => c :: reopenedAfter opening left rest

def styled (inColour : Bool) (style : Style) (text : String) : String :=
  if inColour then
    style.opening ++ String.ofList (reopened style.opening.toList text.toList) ++ reset
  else text

-- A variable that says yes or no: everything but a zero says yes.
def switch? (settings : List (String × String)) (name : String) : Option Bool :=
  (settings.lookup name).map fun value => value ≠ "0"

-- Styles are used where they are forced; else not where they are refused; else on a terminal,
-- unless they are switched off.
def inColour (settings : List (String × String)) (isTerminal : Bool) : Bool :=
  if switch? settings "CLICOLOR_FORCE" = some true then true
  else if (switch? settings "NO_COLOR").isSome then false
  else isTerminal && (switch? settings "CLICOLOR").getD true

end Activation.Terminal

namespace Activation.CommandLine

open Terminal (Style styled)

def versionText : String := "autoconf 0.1.0\n"

def overviewText (inColour : Bool) : String :=
  styled inColour .boldGreen "autoconf" ++ " auto-configuration resolver\n\nRun " ++
    styled inColour .cyan "autoconf --help" ++ " for available commands.\n"

def helpText : String :=
  "Resolve which auto-configuration modules a bootstrap activates\n\n" ++
  "Usage: autoconf [OPTIONS] [COMMAND]\n\n" ++
  "Commands:\n" ++
  "  resolve     Resolve every site of a session into ordered modules\n" ++
  "                -s, --session <SESSION>  Session file [env: AUTOCONF_SESSION]\n" ++
  "                -r, --root <ROOT>        Catalog root (default: directory of the session)\n" ++
  "                    --json               Output as JSON\n" ++
  "                    --report             Also print every recorded import event\n" ++
  "  candidates  List the candidates registered for an extension point\n" ++
  "                -r, --root <ROOT>        Catalog root (default: current directory)\n" ++
  "                -e, --extension-point <KEY>\n" ++
  "  help        Print this message\n\n" ++
  "Options:\n" ++
  "  -v, --verbose  Enable verbose output\n" ++
  "  -h, --help     Print help\n" ++
  "  -V, --version  Print version\n"

def texts (items : List String) : Json := .array (items.map .text)

def importJson (activated : Import) : Json :=
  .object [("origin", .text activated.site.origin), ("module", .text activated.module)]

def eventJson (event : Event) : Json :=
  .object [("configurations", texts event.configurations),
    ("exclusions", texts event.exclusions.members)]

def importsJson (imports : List Import) : Json := .array (imports.map importJson)

def resolutionJson (withReport : Bool) (resolution : Session.Resolution) : String :=
  let json :=
    if withReport then
      .object [("imports", importsJson resolution.imports),
        ("events", .array (resolution.events.map eventJson))]
    else importsJson resolution.imports
  json.pretty ++ "\n"

def importLine (activated : Import) : String :=
  activated.site.origin ++ " -> " ++ activated.module ++ "\n"

def eventLines (inColour : Bool) (event : Event) (number : Nat) : String :=
  "  " ++ styled inColour .cyan ("#" ++ toString number) ++ " accepted: [" ++
    Text.join ", " event.configurations ++ "]\n" ++
    "     excluded: [" ++ Text.join ", " event.exclusions.members ++ "]\n"

def reportText (inColour : Bool) (events : List Event) : String :=
  "\n" ++ styled inColour .bold "Import Events" ++ ":\n" ++
    Text.join "" ((events.zipIdx 1).map fun (event, number) => eventLines inColour event number)

def resolutionText (inColour withReport : Bool) (resolution : Session.Resolution) : String :=
  let imports :=
    if resolution.imports.isEmpty then styled inColour .dimmed "No modules activated" ++ "\n"
    else Text.join "" (resolution.imports.map importLine)
  if withReport then imports ++ reportText inColour resolution.events else imports

def candidatesText (inColour : Bool) (point : String) (candidates : List String) : String :=
  styled inColour .bold "Candidates for" ++ " " ++ styled inColour .cyan point ++ "\n\n" ++
    Text.join "" (candidates.map fun module =>
      "  " ++ styled inColour .green "+" ++ " " ++ module ++ "\n") ++
    "\n" ++ toString candidates.length ++ " candidates\n"

end Activation.CommandLine
