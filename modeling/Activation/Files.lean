import Activation.Text

namespace Activation

inductive ReadFault where
  | notFound
  | isDirectory
  | notDirectory
  | notText
  | other (reason : String)
deriving DecidableEq

def ReadFault.message : ReadFault → String
  | .notFound => "No such file or directory (os error 2)"
  | .isDirectory => "Is a directory (os error 21)"
  | .notDirectory => "Not a directory (os error 20)"
  | .notText => "stream did not contain valid UTF-8"
  | .other reason => reason

inductive Found where
  | file (content : Except ReadFault String)
  | nothing (fault : ReadFault)

abbrev Snapshot : Type := String → Found

def Found.isFile : Found → Bool
  | .file _ => true
  | .nothing _ => false

def Found.read : Found → Except ReadFault String
  | .file content => content
  | .nothing fault => .error fault

end Activation

namespace Activation.Path

def components (path : String) : List String :=
  (Text.pieces '/' path.toList).map String.ofList

def isAbsolute (path : String) : Bool :=
  path.toList.head? = some '/'

-- A file below a directory; the empty path is the current directory.
def join (directory file : String) : String :=
  if isAbsolute file || directory.isEmpty then file
  else if directory.toList.getLast? = some '/' then directory ++ file
  else directory ++ "/" ++ file

-- Without the slashes and single dots at the end that do not change what a path means. A slash at
-- the start stays, and so does a dot that is the whole path.
def dropTail (reversed : List Char) : List Char :=
  match reversed with
  | '/' :: rest => if rest.isEmpty then ['/'] else dropTail rest
  | '.' :: '/' :: rest => if rest.isEmpty then ['/'] else dropTail ('/' :: rest)
  | chars => chars
termination_by reversed.length

-- What is above the last part of a path: nothing for a path of one part, and no path at all for the
-- empty path and the root.
def parent? (path : String) : Option String :=
  let reversed := dropTail path.toList.reverse
  if reversed.isEmpty || reversed = ['/'] then none
  else
    let above := reversed.dropWhile (· ≠ '/')
    some (String.ofList (dropTail above).reverse)

def directoryOf (path : String) : String :=
  match parent? path with
  | some above => if above.isEmpty then "." else above
  | none => "."

-- Whether a part of a path leads on by its name. An empty part and a single dot lead nowhere, and
-- two dots lead back.
def isName (part : String) : Bool :=
  part ≠ "" && part ≠ "." && part ≠ ".."

def steps (path : String) : List String :=
  (components path).filter fun part => part ≠ "" && part ≠ "."

def relative (path : String) : String :=
  let reversed := dropTail path.toList.reverse
  let chars := reversed.reverse
  String.ofList (dropHead chars)
where
  dropHead : List Char → List Char
    | '/' :: rest => dropHead rest
    | '.' :: '/' :: rest => dropHead rest
    | ['.'] => []
    | chars => chars

end Activation.Path

namespace Activation

inductive Tree where
  | file (bytes : ByteArray)
  | directory (entries : List (String × Tree))

namespace Tree

def empty : Tree := .directory []

instance : Inhabited Tree := ⟨empty⟩

def entries : Tree → List (String × Tree)
  | .file _ => []
  | .directory entries => entries

def setEntry (name : String) (node : Tree) (entries : List (String × Tree)) :
    List (String × Tree) :=
  (entries.filter fun entry => decide (entry.1 ≠ name)) ++ [(name, node)]

theorem lookup_setEntry (name : String) (node : Tree) (entries : List (String × Tree)) :
    (setEntry name node entries).lookup name = some node := by
  induction entries with
  | nil => simp [setEntry]
  | cons entry rest ih =>
    obtain ⟨key, child⟩ := entry
    by_cases same : key = name
    · simpa [setEntry, same] using ih
    · have other : (name == key) = false := by simpa using fun equal => same equal.symm
      simpa [setEntry, same, List.lookup_cons, other] using ih

-- Put something where a list of names leads, with the directories on the way.
def put (node : Tree) : List String → Tree → Tree
  | [], _ => node
  | name :: names, tree =>
    let child := (tree.entries.lookup name).getD empty
    .directory (setEntry name (put node names child) tree.entries)

def erase : List String → Tree → Tree
  | [], _ => empty
  | [name], tree => .directory (tree.entries.filter fun entry => decide (entry.1 ≠ name))
  | name :: names, tree =>
    match tree.entries.lookup name with
    | some child => .directory (setEntry name (erase names child) tree.entries)
    | none => tree

def get? : List String → Tree → Option Tree
  | [], tree => some tree
  | name :: names, tree =>
    match tree.entries.lookup name with
    | some child => get? names child
    | none => none

theorem get?_put (node : Tree) (names : List String) (tree : Tree) :
    (put node names tree).get? names = some node := by
  induction names generalizing tree with
  | nil => rfl
  | cons name names ih => simp [put, get?, entries, lookup_setEntry, ih]

def step (place : List String) (part : String) : List String :=
  if Path.isName part then place ++ [part] else if part = ".." then place.dropLast else place

-- Where the parts of a path lead from a place. Even an empty part asks for a directory to stand in.
def follow (tree : Tree) (place : List String) : List String → Except ReadFault (List String)
  | [] => .ok place
  | part :: parts =>
    match tree.get? place with
    | some (.directory _) => follow tree (step place part) parts
    | some (.file _) => .error .notDirectory
    | none => .error .notFound

def start (current : List String) (path : String) : List String :=
  if Path.isAbsolute path then [] else current

def find (tree : Tree) (current : List String) (path : String) : Except ReadFault Tree :=
  if path.isEmpty then .error .notFound
  else
    match tree.follow (start current path) (Path.components path) with
    | .error fault => .error fault
    | .ok place => (tree.get? place).elim (.error .notFound) .ok

def snapshot (tree : Tree) (current : List String) : Snapshot := fun path =>
  match tree.find current path with
  | .ok (.file bytes) =>
    match String.fromUTF8? bytes with
    | some content => .file (.ok content)
    | none => .file (.error .notText)
  | .ok (.directory _) => .nothing .isDirectory
  | .error fault => .nothing fault

-- Make the directories that the parts of a path lead through, up to a part that is a file already;
-- and the place where the path ends, if no part is a file.
def makeWay (tree : Tree) (place : List String) : List String → Tree × Option (List String)
  | [] => (tree, some place)
  | part :: parts =>
    let next := step place part
    match tree.get? next with
    | some (.directory _) => makeWay tree next parts
    | some (.file _) => (tree, none)
    | none => makeWay (put empty next tree) next parts

-- The name that a path has for a file or directory. Only the name of a directory may have slashes
-- after it.
def nameFor (path : String) : Tree → Option String
  | .file _ => (Path.components path).getLast?.filter Path.isName
  | .directory _ => ((Path.components path).filter (· ≠ "")).getLast?.filter Path.isName

-- Put a file or an empty directory under a path, with the directories that the path leads through.
-- A file may take the place of a file. Whatever else is in the way stays, and then nothing is put.
def add (tree : Tree) (current : List String) (path : String) (node : Tree) : Tree :=
  match Path.parent? path with
  | none => tree
  | some above =>
    let (tree, place?) := tree.makeWay (start current path) (Path.components above)
    match place?, node.nameFor path with
    | some place, some name =>
      match tree.get? (place ++ [name]), node with
      | none, _ => put node (place ++ [name]) tree
      | some (.file _), .file _ => put node (place ++ [name]) tree
      | _, _ => tree
    | _, _ => tree

def addText (tree : Tree) (current : List String) (path content : String) : Tree :=
  tree.add current path (.file content.toUTF8)

-- Take away the file under a path. A directory stays.
def remove (tree : Tree) (current : List String) (path : String) : Tree :=
  match tree.follow (start current path) (Path.components path) with
  | .error _ => tree
  | .ok place =>
    match tree.get? place with
    | some (.file _) => erase place tree
    | _ => tree

end Tree

end Activation
