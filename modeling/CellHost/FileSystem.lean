import CellHost.FileError

/-!
# Files

A file reader gives the contents of the file with a name, or says why there are none. A file system
is a reader that can be changed: a tree of files and directories with a current directory.

A name is made of parts with slashes between them. A slash in front starts at the root of the tree,
any other name at the current directory; empty parts and `.` stay where they are, and `..` goes up.
All parts but the last have to lead to directories. A slash at the end says that a directory is
meant, so a name that ends in one can neither be read nor written as a file.

## Main definitions

* `FileSystem.locate` : what a name means, apart from whether there is anything of its last part.
* `FileSystem.read`, `FileSystem.write` : the contents of a file, and a file system with a new one.
-/

namespace CellHost

/-- The contents of the file with a name. -/
abbrev FileReader := String → Except FileError (List UInt8)

/-- What a name can stand for. -/
inductive Node where
  | file (contents : List UInt8)
  | directory
  deriving DecidableEq, Repr, Inhabited

/-- The parts that lead to a node from the root; the root itself has none. -/
abbrev NodePath := List String

/-- A tree of files and directories. -/
structure FileSystem where
  /-- The nodes below the root. -/
  nodes : List (NodePath × Node) := []
  /-- The directory at which names start. -/
  current : NodePath := []
  deriving Repr, Inhabited

/-- Where a name leads. -/
inductive Location where
  /-- A directory that is there, reached by going up, by staying or by the root. -/
  | directory (path : NodePath)
  /-- The last part of the name, in a directory that is there; `slash` says whether the name ends in
  a slash. -/
  | entry (parent : NodePath) (part : String) (slash : Bool)
  deriving DecidableEq, Repr, Inhabited

namespace FileSystem

/-- The longest part of a name, in bytes. -/
def maxPart : Nat := 255

/-- The longest name, in bytes. -/
def maxName : Nat := 4095

/-- The node at a path. -/
def node? (fs : FileSystem) : NodePath → Option Node
  | [] => some .directory
  | path => fs.nodes.lookup path

/-- The node of a part of a name in a directory. -/
def child? (fs : FileSystem) (parent : NodePath) (part : String) :
    Except FileError (Option Node) :=
  if maxPart < part.utf8ByteSize then .error .nameTooLong else .ok (fs.node? (parent ++ [part]))

/-- The directory of a part of a name in a directory. -/
def enter (fs : FileSystem) (parent : NodePath) (part : String) : Except FileError NodePath :=
  if part = "." then .ok parent
  else if part = ".." then .ok parent.dropLast
  else
    match fs.child? parent part with
    | .error e => .error e
    | .ok none => .error .notFound
    | .ok (some (.file _)) => .error .notDirectory
    | .ok (some .directory) => .ok (parent ++ [part])

/-- Where the parts of a name lead from a directory. -/
def walk (fs : FileSystem) (slash : Bool) : NodePath → List String → Except FileError Location
  | path, [] => .ok (.directory path)
  | path, [part] =>
    if part = "." ∨ part = ".." then (fs.enter path part).map .directory
    else .ok (.entry path part slash)
  | path, part :: rest =>
    match fs.enter path part with
    | .error e => .error e
    | .ok path => fs.walk slash path rest

/-- Where a name leads. -/
def locate (fs : FileSystem) (name : String) : Except FileError Location :=
  if name.contains '\x00' then .error .nulInName
  else if name = "" then .error .notFound
  else if maxName < name.utf8ByteSize then .error .nameTooLong
  else
    let start := if name.startsWith "/" then [] else fs.current
    fs.walk (name.endsWith "/") start ((name.splitOn "/").filter (· ≠ ""))

/-- The contents of a file. -/
def read (fs : FileSystem) : FileReader := fun name =>
  match fs.locate name with
  | .error e => .error e
  | .ok (.directory _) => .error .isDirectory
  | .ok (.entry parent part slash) =>
    match fs.child? parent part with
    | .error e => .error e
    | .ok none => .error .notFound
    | .ok (some .directory) => .error .isDirectory
    | .ok (some (.file contents)) => if slash then .error .notDirectory else .ok contents

/-- The file system with a node at a path, in place of what was there. -/
def put (fs : FileSystem) (path : NodePath) (node : Node) : FileSystem :=
  { fs with nodes := (path, node) :: fs.nodes.filter fun entry => entry.1 != path }

/-- The file system with a file of the given contents, made or written over. -/
def write (fs : FileSystem) (name : String) (contents : List UInt8) :
    Except FileError FileSystem :=
  match fs.locate name with
  | .error e => .error e
  | .ok (.directory _) => .error .isDirectory
  | .ok (.entry parent part slash) =>
    if slash then .error .isDirectory
    else
      match fs.child? parent part with
      | .error e => .error e
      | .ok (some .directory) => .error .isDirectory
      | .ok _ => .ok (fs.put (parent ++ [part]) (.file contents))

/-- The file system with a new directory. -/
def makeDirectory (fs : FileSystem) (name : String) : Except FileError FileSystem :=
  match fs.locate name with
  | .error e => .error e
  | .ok (.directory _) => .error .alreadyExists
  | .ok (.entry parent part _) =>
    match fs.child? parent part with
    | .error e => .error e
    | .ok (some _) => .error .alreadyExists
    | .ok none => .ok (fs.put (parent ++ [part]) .directory)

/-- The file system without a file. -/
def removeFile (fs : FileSystem) (name : String) : Except FileError FileSystem :=
  match fs.locate name with
  | .error e => .error e
  | .ok (.directory _) => .error .isDirectory
  | .ok (.entry parent part slash) =>
    match fs.child? parent part with
    | .error e => .error e
    | .ok none => .error .notFound
    | .ok (some .directory) => .error .isDirectory
    | .ok (some (.file _)) =>
      if slash then .error .notDirectory
      else
        .ok { fs with nodes := fs.nodes.filter fun entry => entry.1 != parent ++ [part] }

end FileSystem

end CellHost
