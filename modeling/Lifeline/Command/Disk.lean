import Lifeline.Command.Outcome
/-!
# A disk in memory

Files and folders by the names that lead to them from the root, which is its own
parent, and the folder in which a command works. A path that begins with a slash is
followed from the root, any other from that folder.

Names and paths have limits, in bytes of their encoding. The length of a path is
looked at before any part of it is followed, that of a name when it is looked up.
-/

namespace Lifeline.Command

/-- The names that lead to a file or folder. -/
abbrev Place := List String

/-- Files with their texts, and folders. The root is always there. The files at the
places in `full` have no space for any text. -/
structure Disk where
  files : List (Place × String) := []
  folders : List Place := []
  full : List Place := []
  here : Place := []
  deriving DecidableEq, Repr

/-- The parts of a path between its slashes. -/
def pathParts (path : String) : List String :=
  (path.toList.splitOnP (· == '/')).map String.ofList

/-- The most bytes of a name. -/
def maxNameSize : Nat := 255

/-- The most bytes of a path. -/
def maxPathSize : Nat := 4095

namespace Disk

/-- The text of the file at a place. -/
def textAt? (d : Disk) (place : Place) : Option String :=
  (d.files.find? fun (p, _) => p == place).map Prod.snd

/-- Whether there is a folder at a place. -/
def isFolder (d : Disk) (place : Place) : Bool := place.isEmpty || d.folders.contains place

/-- Where a path begins. -/
def start (d : Disk) (path : String) : Place := if path.toList.head? == some '/' then [] else d.here

/-! ## Following a path -/

/-- Follows the parts of a path from a place. Only in a folder can a part be
followed. -/
def walk (d : Disk) (place : Place) : List String → Except FileError Place
  | [] => .ok place
  | part :: parts =>
    if !d.isFolder place then .error .notFolder
    else if part == "" || part == "." then d.walk place parts
    else if part == ".." then d.walk place.dropLast parts
    else if maxNameSize < part.utf8ByteSize then .error .nameTooLong
    else
      let next := place ++ [part]
      if d.isFolder next || (d.textAt? next).isSome then d.walk next parts
      else .error .absent

/-- Refuses a path that leads nowhere or is too long. -/
def checkPath (path : String) : Except FileError Unit :=
  if path == "" then .error .absent
  else if maxPathSize < path.utf8ByteSize then .error .nameTooLong
  else .ok ()

/-- The place that a path leads to. -/
def place? (d : Disk) (path : String) : Except FileError Place :=
  match checkPath path with
  | .error e => .error e
  | .ok _ => d.walk (d.start path) (pathParts path)

/-! ## Reading and writing -/

/-- What is written in the file at a path. -/
def read (d : Disk) (path : String) : Except FileError String :=
  match d.place? path with
  | .error e => .error e
  | .ok place =>
    match d.textAt? place with
    | some text => .ok text
    | none => .error .isFolder

/-- The disk with a text at a place. -/
def put (d : Disk) (place : Place) (text : String) : Disk :=
  if (d.textAt? place).isSome then
    { d with files := d.files.map fun (p, old) => (p, if p == place then text else old) }
  else { d with files := d.files ++ [(place, text)] }

/-- Where a file of a given name in a folder is written. A name that can only be that
of a folder, or is, is refused; `slash` says whether a slash follows the name. -/
def slot (d : Disk) (folder : Place) (name : String) (slash : Bool) : Except FileError Place :=
  if !d.isFolder folder then .error .notFolder
  else if slash || name == "." || name == ".." then .error .isFolder
  else if maxNameSize < name.utf8ByteSize then .error .nameTooLong
  else if d.isFolder (folder ++ [name]) then .error .isFolder
  else .ok (folder ++ [name])

/-- Writes the file at a path anew. Its folder must be there, and the path must end in
the name of a file. -/
def write (d : Disk) (path text : String) : Except FileError Disk :=
  let parts := pathParts path
  let named := (parts.reverse.dropWhile (· == "")).reverse
  match checkPath path, named.getLast? with
  | .error e, _ => .error e
  | .ok _, none => .error .isFolder
  | .ok _, some name =>
    match d.walk (d.start path) named.dropLast with
    | .error e => .error e
    | .ok folder =>
      match d.slot folder name (parts.getLast? == some "") with
      | .error e => .error e
      | .ok place =>
        if d.full.contains place && text != "" then .error .noSpace else .ok (d.put place text)

/-! ## Filling a disk -/

/-- The place that parts lead to from a place when every name is there. -/
def descend (place : Place) : List String → Place
  | [] => place
  | part :: parts =>
    if part == "" || part == "." then descend place parts
    else if part == ".." then descend place.dropLast parts
    else descend (place ++ [part]) parts

/-- The disk with a folder at a place, and every folder on the way to it. -/
def makeFolder (d : Disk) (place : Place) : Disk :=
  { d with folders := d.folders ++ (List.range (place.length + 1)).map place.take }

/-- The disk with a folder at a path. -/
def withFolder (d : Disk) (path : String) : Disk :=
  d.makeFolder (descend (d.start path) (pathParts path))

/-- The disk with a file at a path, in a folder made for it. -/
def withFile (d : Disk) (path text : String) : Disk :=
  let place := descend (d.start path) (pathParts path)
  (d.makeFolder place.dropLast).put place text

/-- A disk with the usual folders and devices, and an empty folder to work in. -/
def bare : Disk :=
  let folders := ["/bin", "/dev", "/etc", "/home", "/lib", "/opt", "/proc", "/root", "/sbin", "/sys",
    "/tmp/work", "/usr/bin", "/usr/lib", "/usr/local", "/var/tmp"]
  let devices := ["/dev/null", "/dev/full"]
  { devices.foldl (fun disk path => disk.withFile path "") (folders.foldl withFolder {}) with
    full := [["dev", "full"]]
    here := ["tmp", "work"] }

/-- The files that lie in the folder of the command, by their names. -/
def filesHere (d : Disk) : List (String × String) :=
  d.files.filterMap fun (place, text) =>
    match place.getLast? with
    | some name => if place == d.here ++ [name] then some (name, text) else none
    | none => none

/-! ## Running a command -/

/-- The three operations on a disk that is carried along. -/
def access : FileAccess (StateM Disk) where
  present path := return ((← get).place? path).isOk
  read path := return (← get).read path
  write path text := do
    match (← get).write path text with
    | .error e => return .error e
    | .ok d =>
      set d
      return .ok ()

/-- Runs a command on a disk: what it comes to, and the disk afterwards. -/
def runIn (d : Disk) (input : String) (words : List String) : Except Failure Outcome × Disk :=
  (run access (pure input) words).run d

end Disk

end Lifeline.Command
