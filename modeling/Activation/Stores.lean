import Activation.Catalog
import Activation.Error
import Activation.Files
import Activation.Metadata

namespace Activation

def readStore {α : Type} (parse : String → Except Toml.Fault α) (files : Snapshot)
    (path : String) : Except StoreFault α :=
  match (files path).read with
  | .error fault => .error (.unreadable path fault)
  | .ok content =>
    match parse content with
    | .error fault => .error (.invalid path fault)
    | .ok store => .ok store

-- Read the file of one name from every root that has it, and merge what they hold in the order of
-- the roots.
def readRoots {α : Type} (parse : String → Except Toml.Fault α) (merge : α → α → α)
    (fileName : String) (files : Snapshot) (start : α) (roots : List String) :
    Except StoreFault α :=
  roots.foldlM (fun merged root =>
    let path := Path.join root fileName
    if (files path).isFile then (readStore parse files path).map (merge merged)
    else .ok merged) start

namespace Catalog

def read (files : Snapshot) (path : String) : Except StoreFault Catalog :=
  readStore parse files path

-- The catalog of some roots, however the text of one is understood.
def ofRootsBy (parse : String → Except Toml.Fault Catalog) (files : Snapshot)
    (roots : List String) : Except StoreFault Catalog :=
  readRoots parse merge fileName files empty roots

def ofRoots (files : Snapshot) (roots : List String) : Except StoreFault Catalog :=
  ofRootsBy parse files roots

def isIn (files : Snapshot) (root : String) : Bool :=
  (files (Path.join root fileName)).isFile

end Catalog

namespace Metadata

def read (files : Snapshot) (path : String) : Except StoreFault Metadata :=
  readStore parse files path

def ofRootsBy (parse : String → Except Toml.Fault Metadata) (files : Snapshot)
    (roots : List String) : Except StoreFault Metadata :=
  readRoots parse merge fileName files empty roots

def ofRoots (files : Snapshot) (roots : List String) : Except StoreFault Metadata :=
  ofRootsBy parse files roots

end Metadata

-- What is read from files when it is first asked for, and kept from then on.
namespace Latch

variable {α : Type}

-- A failed reading keeps nothing, so that the next one looks at the files again.
def ask (read : Snapshot → Except StoreFault α) (files : Snapshot) :
    Option α → Except StoreFault α × Option α
  | some value => (.ok value, some value)
  | none =>
    match read files with
    | .ok value => (.ok value, some value)
    | .error fault => (.error fault, none)

end Latch

structure Stores where
  roots : List String
  catalog : Option Catalog
  metadata : Option Metadata

namespace Stores

def ofRoots (roots : List String) : Stores := ⟨roots, none, none⟩

def ofLoaded (catalog : Catalog) (metadata : Metadata) : Stores :=
  ⟨[], some catalog, some metadata⟩

def isLoaded (stores : Stores) : Bool :=
  stores.catalog.isSome

def loadCatalog (files : Snapshot) (stores : Stores) : Except StoreFault Catalog × Stores :=
  let asked := Latch.ask (Catalog.ofRoots · stores.roots) files stores.catalog
  (asked.1, { stores with catalog := asked.2 })

def loadMetadata (files : Snapshot) (stores : Stores) : Except StoreFault Metadata × Stores :=
  let asked := Latch.ask (Metadata.ofRoots · stores.roots) files stores.metadata
  (asked.1, { stores with metadata := asked.2 })

def candidatesIn (catalog : Catalog) (point : String) : Except StoreFault (List String) :=
  match catalog.modules point with
  | [] => .error (.noCandidates point)
  | modules => .ok modules

-- The candidates of an extension point, repeats included. The catalog is kept even when it has
-- none.
def loadCandidates (files : Snapshot) (point : String) (stores : Stores) :
    Except StoreFault (List String) × Stores :=
  let (loaded, stores) := stores.loadCatalog files
  (loaded.bind fun catalog => candidatesIn catalog point, stores)

end Stores

end Activation
