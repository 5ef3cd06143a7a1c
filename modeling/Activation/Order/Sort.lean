import Activation.Catalog
import Activation.Error
import Activation.Metadata
import Activation.Order.Placement
import Activation.Order.Rank

namespace Activation

inductive Level where
  | debug
  | warn
deriving DecidableEq

def Level.text : Level → String
  | .debug => "debug"
  | .warn => "warn"

-- A constraint of a module on another one that is not among the modules in question.
structure Note where
  level : Level
  module : String
  other : String
deriving DecidableEq

structure Precedence where
  metadata : Metadata
  positions : NameMap Nat
deriving DecidableEq

namespace Precedence

-- Declarations in the order of a list. Of two positions of one module the first is kept, as it is
-- recorded last.
def ofDeclared (metadata : Metadata) (declared : List String) : Precedence :=
  ⟨metadata, declared.zipIdx.foldr (fun entry built => built.insert entry.1 entry.2) .empty⟩

def ofCatalog (catalog : Catalog) (point : String) (metadata : Metadata) : Precedence :=
  ⟨metadata, NameMap.ofList (catalog.declared point)⟩

def rank (precedence : Precedence) (module : String) : Rank :=
  ⟨precedence.metadata.orderOf module, precedence.positions.get? module, module⟩

def noteOn (precedence : Precedence) (module other : String) : Note :=
  if precedence.positions.contains other || precedence.metadata.knows other then
    ⟨.debug, module, other⟩
  else ⟨.warn, module, other⟩

end Precedence

structure Gathering where
  -- For every member those that have to come before it, as often as the hints say so.
  table : Links
  notes : List Note
deriving DecidableEq

namespace Gathering

def start (members : List String) : Gathering :=
  ⟨members.map fun member => (member, []), []⟩

def enter (later earlier : String) : Links → Links
  | [] => [(later, [earlier])]
  | row :: rows =>
    if row.1 = later then (later, row.2 ++ [earlier]) :: rows
    else row :: enter later earlier rows

def constrain (gathering : Gathering) (earlier later : String) : Gathering :=
  { gathering with table := enter later earlier gathering.table }

def note (gathering : Gathering) (note : Note) : Gathering :=
  { gathering with notes := gathering.notes ++ [note] }

end Gathering

namespace Precedence

def ranks (precedence : Precedence) (members : List String) : NameMap Rank :=
  .ofList (members.map fun member => (member, precedence.rank member))

-- A module that a member comes after. If it has a rank, it is a member as well.
def gatherAfter (precedence : Precedence) (ranks : NameMap Rank) (module : String)
    (gathering : Gathering) (earlier : String) : Gathering :=
  if ranks.contains earlier then gathering.constrain earlier module
  else gathering.note (precedence.noteOn module earlier)

-- A module that a member comes before. If it has a row in the table, it is a member as well.
def gatherBefore (precedence : Precedence) (module : String) (gathering : Gathering)
    (later : String) : Gathering :=
  if (gathering.table.lookup later).isSome then gathering.constrain module later
  else gathering.note (precedence.noteOn module later)

def gatherOf (precedence : Precedence) (ranks : NameMap Rank) (gathering : Gathering)
    (module : String) : Gathering :=
  (precedence.metadata.before module).foldl (precedence.gatherBefore module)
    ((precedence.metadata.after module).foldl (precedence.gatherAfter ranks module) gathering)

def gather (precedence : Precedence) (members : List String) : Gathering :=
  members.foldl (precedence.gatherOf (precedence.ranks members)) (.start members)

end Precedence

-- Every member with those that have to come before it, by rank and each once.
def Gathering.links (gathering : Gathering) (rank : String → Rank) : Links :=
  gathering.table.map fun row => (row.1, byRank rank row.2)

namespace Precedence

def links (precedence : Precedence) (members : List String) : Links :=
  (precedence.gather members).links precedence.rank

def arrange (precedence : Precedence) (members : List String) (links : Links) :
    Except (List String) (List String) :=
  let final := Placement.ofLinks precedence.rank links
  if final.placed.length < members.length then
    let waiting := final.waiting
    .error (Cycle.find (byRank precedence.rank waiting) links.predecessors waiting)
  else .ok final.placed

-- Sort the modules of a list, each once. What is noted on the way is noted whether there is an
-- order or not.
def sortNoting (precedence : Precedence) (modules : List String) :
    Except Error (List String) × List Note :=
  let members := Name.distinct modules
  let gathering := precedence.gather members
  ((precedence.arrange members (gathering.links precedence.rank)).mapError .orderingCycle,
    gathering.notes)

def sort (precedence : Precedence) (modules : List String) : Except Error (List String) :=
  (precedence.sortNoting modules).1

def notes (precedence : Precedence) (modules : List String) : List Note :=
  (precedence.sortNoting modules).2

theorem sort_eq (precedence : Precedence) (modules : List String) :
    precedence.sort modules = (precedence.arrange (Name.distinct modules)
      (precedence.links (Name.distinct modules))).mapError .orderingCycle :=
  rfl

theorem notes_eq (precedence : Precedence) (modules : List String) :
    precedence.notes modules = (precedence.gather (Name.distinct modules)).notes :=
  rfl

end Precedence

end Activation
