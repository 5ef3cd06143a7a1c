import Activation.Catalog
import Activation.Files
import Activation.Metadata

namespace Activation

structure Scaffold where
  files : Tree
  -- The directories of the libraries in the order in which they were first named.
  roots : List String

namespace Scaffold

-- The directory of the libraries. There is nothing outside it.
def home : List String := ["libraries"]

def empty : Scaffold := ⟨.put .empty home .empty, []⟩

def snapshot (scaffold : Scaffold) : Snapshot := scaffold.files.snapshot home

def quotedNames (names : List String) : String :=
  Text.join ", " (names.map fun name => "\"" ++ name ++ "\"")

def catalogLine (point : String) (modules : List String) : String :=
  "\"" ++ point ++ "\" = [" ++ quotedNames modules ++ "]\n"

def catalogHeader : String := "[extension_points]\n"

def sameDirectory (a b : String) : Bool :=
  Path.steps a = Path.steps b

-- Register modules of a library for an extension point, in a line at the end of its catalog.
def library (scaffold : Scaffold) (name point : String) (modules : List String) : Scaffold :=
  let path := Path.join name Catalog.fileName
  let content :=
    match scaffold.snapshot path with
    | .file (.ok content) => content
    | _ => catalogHeader
  { files := scaffold.files.addText home path (content ++ catalogLine point modules)
    roots :=
      if scaffold.roots.any (sameDirectory name) then scaffold.roots
      else scaffold.roots ++ [name] }

def write (scaffold : Scaffold) (path content : String) : Scaffold :=
  { scaffold with files := scaffold.files.addText home path content }

def metadata (scaffold : Scaffold) (name content : String) : Scaffold :=
  scaffold.write (Path.join name Metadata.fileName) content

def sessionPath : String := "session.toml"

def holds (scaffold : Scaffold) (path : String) : Bool :=
  path.isEmpty || match scaffold.snapshot path with
    | .file _ => true
    | .nothing fault => fault = .isDirectory

end Scaffold

end Activation
