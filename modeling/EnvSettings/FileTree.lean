import EnvSettings.Text.Split

namespace EnvSettings

/-- Why a file operation fails. -/
inductive IoFault where
  | notFound
  | isADirectory
  | notADirectory
  | invalidData
  | alreadyExists
  deriving DecidableEq, Repr, Inhabited

namespace IoFault

/-- The kind of the failure in one word. -/
def kind : IoFault → String
  | notFound => "NotFound"
  | isADirectory => "IsADirectory"
  | notADirectory => "NotADirectory"
  | invalidData => "InvalidData"
  | alreadyExists => "AlreadyExists"

/-- The system's sentence for the failure. -/
def message : IoFault → String
  | notFound => "No such file or directory (os error 2)"
  | isADirectory => "Is a directory (os error 21)"
  | notADirectory => "Not a directory (os error 20)"
  | invalidData => "stream did not contain valid UTF-8"
  | alreadyExists => "File exists (os error 17)"

end IoFault

/-- What stands at a place of the tree. -/
inductive FileNode where
  | directory
  | file (content : ByteArray)

/-- Files and directories by place. A place is the list of names that leads to it from the working
directory, without empty names and without `.`. -/
structure FileTree where
  nodes : List (List String × FileNode) := []

namespace FileTree

/-- The names that lead to a place from the working directory. -/
abbrev Place := List String

/-- What stands at a place. The working directory and the directories above it always exist. -/
def node? (t : FileTree) (place : Place) : Option FileNode :=
  if place.all (· == "..") then some .directory else t.nodes.lookup place

/-- The place one step away from a directory. -/
def step (t : FileTree) (place : Place) (name : String) : Except IoFault Place :=
  match t.node? place with
  | none => .error .notFound
  | some (.file _) => .error .notADirectory
  | some .directory =>
    if name = "" ∨ name = "." then .ok place
    else if name = ".." ∧ place.getLast?.all (· != "..") ∧ place ≠ [] then .ok place.dropLast
    else .ok (place ++ [name])

/-- The names of a path in order; an absolute path starts at the name `/`. -/
def names (path : String) : List String :=
  match Text.splitAtChar '/' path.toList with
  | [] :: rest@(_ :: _) => "/" :: rest.map String.ofList
  | parts => parts.map String.ofList

/-- The place that a path leads to. All but the last step have to exist. -/
def place (t : FileTree) (path : String) : Except IoFault Place :=
  if path = "" then .error .notFound else (names path).foldlM t.step []

/-- What a path leads to. -/
def find (t : FileTree) (path : String) : Except IoFault FileNode := do
  match t.node? (← t.place path) with
  | some node => .ok node
  | none => .error .notFound

/-- Whether a path leads anywhere. -/
def pathExists (t : FileTree) (path : String) : Bool :=
  (t.find path).isOk

/-- The content of the file that a path leads to. -/
def read (t : FileTree) (path : String) : Except IoFault ByteArray := do
  match ← t.find path with
  | .file content => .ok content
  | .directory => .error .isADirectory

/-- The content of a file as text. -/
def readText (t : FileTree) (path : String) : Except IoFault String := do
  match String.fromUTF8? (← t.read path) with
  | some text => .ok text
  | none => .error .invalidData

/-- Puts a node at a place. -/
def put (t : FileTree) (place : Place) (node : FileNode) : FileTree :=
  ⟨(place, node) :: t.nodes⟩

/-- Creates the directory that a path leads to; its parent has to exist. -/
def createDirectory (t : FileTree) (path : String) : Except IoFault FileTree := do
  let place ← t.place path
  match t.node? place with
  | some _ => .error .alreadyExists
  | none => .ok (t.put place .directory)

/-- Whether a path leads to a directory. -/
def isDirectory (t : FileTree) (path : String) : Bool :=
  match t.find path with
  | .ok .directory => true
  | _ => false

/-- Whether a name in a path leads nowhere new. -/
def isIdle (name : List Char) : Bool :=
  name == [] || name == ['.']

/-- The path without its last name; `none` when it has no name to lose. Idle names at the end do not
count, except at the very beginning of the path. -/
def parent? (path : String) : Option String :=
  match Text.splitAtChar '/' path.toList with
  | [] => none
  | first :: rest =>
    let rest := rest.reverse.dropWhile isIdle
    match rest with
    | [] => if first.isEmpty then none else some ""
    | _ :: kept =>
      let kept := first :: (kept.dropWhile isIdle).reverse
      some (if kept = [[]] then "/" else String.ofList (['/'].intercalate kept))

/-- Creates a directory and the parents it lacks, at most `depth` levels up. A directory that is
there already is no failure. -/
def createDirectoriesWithin (t : FileTree) : Nat → String → Except IoFault FileTree
  | 0, _ => .error .notFound
  | depth + 1, path =>
    if path = "" then .ok t
    else match t.createDirectory path with
      | .ok t => .ok t
      | .error .notFound => do
        let some parent := parent? path | .error .notFound
        let t ← t.createDirectoriesWithin depth parent
        match t.createDirectory path with
        | .ok t => .ok t
        | .error fault => if t.isDirectory path then .ok t else .error fault
      | .error fault => if t.isDirectory path then .ok t else .error fault

/-- Creates a directory and the parents it lacks. -/
def createDirectories (t : FileTree) (path : String) : Except IoFault FileTree :=
  t.createDirectoriesWithin (path.length + 1) path

/-- The path without separators at its end. -/
def bare (path : String) : String :=
  String.ofList (path.toList.reverse.dropWhile (· == '/')).reverse

/-- Writes a file whose directory exists. A path that ends in a separator means a directory. -/
def write (t : FileTree) (path : String) (content : ByteArray) : Except IoFault FileTree := do
  let place ← t.place (bare path)
  if bare path ≠ path then .error .isADirectory
  else match t.node? place with
    | some .directory => .error .isADirectory
    | _ => .ok (t.put place (.file content))

/-- Adds a node and the directories above it, whatever stood there before. -/
def plant (t : FileTree) (place : Place) (node : FileNode) : FileTree :=
  let parents := (List.range place.length).map fun n => place.take n
  (parents.foldl (fun t p => if (t.node? p).isSome then t else t.put p .directory) t).put place node

end FileTree

end EnvSettings
