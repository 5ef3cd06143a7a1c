import Activation.Name
import Activation.Toml.Document

namespace Activation

structure Catalog where
  points : NameMap (List String)
deriving DecidableEq, Inhabited

namespace Catalog

def fileName : String := "autoconf.catalog.toml"

def defaultPoint : String := "autoconf.EnableAutoConfiguration"

def empty : Catalog := ⟨.empty⟩

-- The modules of an extension point in the order of declaration, repeats included.
def modules (catalog : Catalog) (point : String) : List String :=
  (catalog.points.get? point).getD []

-- Modules go after those that are there, and make the extension point known even if they are none.
def append (catalog : Catalog) (point : String) (added : List String) : Catalog :=
  ⟨catalog.points.insert point (catalog.modules point ++ added)⟩

def register (catalog : Catalog) (point module : String) : Catalog :=
  catalog.append point [module]

def merge (catalog other : Catalog) : Catalog :=
  other.points.entries.foldl (fun merged entry => merged.append entry.1 entry.2) catalog

def size (catalog : Catalog) : Nat :=
  (catalog.points.entries.flatMap Prod.snd).length

end Catalog

-- Every name of a list with the position of its first occurrence, in the order of these positions.
def firstPositionsFrom (start : Nat) : List String → List (String × Nat)
  | [] => []
  | name :: rest =>
    (name, start) ::
      (firstPositionsFrom (start + 1) rest).filter fun entry => decide (entry.1 ≠ name)

def firstPositions (names : List String) : List (String × Nat) :=
  firstPositionsFrom 0 names

namespace Catalog

def declared (catalog : Catalog) (point : String) : List (String × Nat) :=
  firstPositions (catalog.modules point)

open Toml in
def ofEntries (entries : Entries) : Except Fault Catalog := do
  let points ←
    (Fields.named entries).withDefault "extension_points" 0 (asTable (asList asString)) []
  return ⟨.ofList points⟩

def parse (content : String) : Except Toml.Fault Catalog := do
  ofEntries (← Toml.parse content)

@[simp]
theorem points_append (catalog : Catalog) (point : String) (added : List String) :
    (catalog.append point added).points =
      catalog.points.insert point (catalog.modules point ++ added) := rfl

@[simp]
theorem modules_append (catalog : Catalog) (point : String) (added : List String)
    (other : String) :
    (catalog.append point added).modules other =
      if other = point then catalog.modules point ++ added else catalog.modules other := by
  by_cases ho : other = point <;> simp [modules, ho]

@[simp]
theorem modules_empty (point : String) : empty.modules point = [] := rfl

end Catalog

end Activation
