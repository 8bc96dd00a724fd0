import TruthTables.CommandLine.Files
import TruthTables.Text.Utf8

/-!
# Machines in memory

The files of a machine as a value. The program works in a directory of its own, which is a temporary
one. Around it are the directories, devices and links that every machine has.
-/

namespace TruthTables.CommandLine

/-- The names on the way from the root to a file. -/
abbrev Path := List String

/-- Devices. All of them read as empty; those that never end are not made to be read here. -/
inductive Device where
  /-- Keeps nothing of what is written. -/
  | null
  /-- Has no room for anything. -/
  | full
  | stdout
  | stderr
deriving DecidableEq, Repr

structure Machine where
  files : List (Path × List UInt8) := []
  /-- What was written to the device of this name. -/
  stdout : String := ""
  /-- What was written to the device of this name. -/
  stderr : String := ""
deriving DecidableEq

/-! ### What every machine has -/

/-- The working directory. Its own name is not known; no part of a path is the slash that stands
for it. -/
def workingDirectory : Path := ["tmp", "/"]

/-- The directories that the working directory is not below. -/
def systemDirectories : List Path :=
  ["bin", "boot", "dev", "etc", "home", "lib", "media", "mnt", "opt", "proc", "root", "run", "sbin",
    "srv", "sys", "usr", "var"].map ([·]) ++
  [["proc", "self"], ["proc", "self", "fd"], ["usr", "bin"], ["usr", "lib"], ["var", "tmp"]]

/-- The devices. There is nothing at the standard input, and what is written to a source of bytes is
not kept. -/
def devices : List (Path × Device) :=
  [(["dev", "null"], .null),
   (["dev", "zero"], .null),
   (["dev", "random"], .null),
   (["dev", "urandom"], .null),
   (["dev", "full"], .full),
   (["proc", "self", "fd", "0"], .null),
   (["proc", "self", "fd", "1"], .stdout),
   (["proc", "self", "fd", "2"], .stderr)]

/-- The links, and where they lead. -/
def links : List (Path × Path) :=
  [(["dev", "fd"], ["proc", "self", "fd"]),
   (["dev", "stdin"], ["proc", "self", "fd", "0"]),
   (["dev", "stdout"], ["proc", "self", "fd", "1"]),
   (["dev", "stderr"], ["proc", "self", "fd", "2"]),
   (["proc", "self", "cwd"], workingDirectory),
   (["proc", "self", "root"], [])]

/-! ### Paths -/

/-- The parts of a path between its slashes. The first continues `part`, given backwards. -/
def partsFrom (part : List Char) : List Char → List String
  | [] => [String.ofList part.reverse]
  | c :: path =>
    if c = '/' then String.ofList part.reverse :: partsFrom [] path
    else partsFrom (c :: part) path

/-- The parts of a path between its slashes. -/
def parts (path : String) : List String :=
  partsFrom [] path.toList

/-- What a path leads to, as far as its text tells. -/
structure Place where
  /-- The way from the root, the last step of which need not be there. -/
  path : Path
  /-- Whether the text asks for a directory, which a slash behind the last name does. -/
  directory : Bool
deriving DecidableEq, Repr

namespace Machine

/-- The machine with these files in the working directory. -/
def ofFiles (files : List (String × List UInt8)) : Machine where
  files := files.map fun (name, bytes) =>
    (workingDirectory ++ (parts name).filter (fun part => part ≠ "" && part ≠ "."), bytes)

/-- Whether there is a directory at this path. A directory is there when a file is below it. -/
def isDirectory (machine : Machine) (path : Path) : Bool :=
  path.isPrefixOf workingDirectory || systemDirectories.contains path ||
    machine.files.any fun file => path.isPrefixOf file.1 && path.length < file.1.length

/-- The bytes at this path, if there is a device or a file. -/
def bytes? (machine : Machine) (path : Path) : Option (List UInt8) :=
  if (devices.lookup path).isSome then some [] else machine.files.lookup path

/-- Follows the parts of a path from the directory `here`. The root is above itself. -/
def walk (machine : Machine) (here : Path) : List String → Except FileFault Place
  | [] => .ok ⟨here, true⟩
  | name :: rest =>
    if name = "" ∨ name = "." then
      machine.walk here rest
    else if name = ".." then
      machine.walk here.dropLast rest
    else if 255 < name.utf8ByteSize then
      .error .nameTooLong
    else
      let there := (links.lookup (here ++ [name])).getD (here ++ [name])
      if rest.all (· = "") then .ok ⟨there, !rest.isEmpty⟩
      else if machine.isDirectory there then machine.walk there rest
      else if (machine.bytes? there).isSome then .error .notDirectory
      else .error .notFound

def place (machine : Machine) (path : String) : Except FileFault Place :=
  if path.toList.contains '\x00' then .error .nulInName
  else if path = "" then .error .notFound
  else if 4096 ≤ path.utf8ByteSize then .error .nameTooLong
  else machine.walk (if path.toList.head? = some '/' then [] else workingDirectory) (parts path)

/-! ### Access -/

def read (machine : Machine) (path : String) : Reading :=
  match machine.place path with
  | .error fault => .unopened fault
  | .ok place =>
    if machine.isDirectory place.path then .unread .isDirectory
    else match machine.bytes? place.path with
      | some bytes => if place.directory then .unopened .notDirectory else .content bytes
      | none => .unopened .notFound

/-- The machine with this content at a path where a file is or can be. -/
def put (machine : Machine) (path : Path) (bytes : List UInt8) : Machine :=
  { machine with files := (path, bytes) :: machine.files.filter fun file => file.1 ≠ path }

/-- Makes a file empty, or makes an empty file, and finds out where it is. -/
def create (machine : Machine) (path : String) : Except FileFault (Path × Machine) := do
  let place ← machine.place path
  if place.directory || machine.isDirectory place.path then throw .isDirectory
  else if (devices.lookup place.path).isSome then return (place.path, machine)
  else return (place.path, machine.put place.path [])

/-- Puts a text behind what there is in a file, or hands it to a device. -/
def append (machine : Machine) (path : Path) (text : String) : Except FileFault Machine :=
  match devices.lookup path with
  | none =>
    .ok (machine.put path ((machine.files.lookup path).getD [] ++ Text.encode text.toList))
  | some .null => .ok machine
  | some .full => if text = "" then .ok machine else .error .noSpace
  | some .stdout => .ok { machine with stdout := machine.stdout ++ text }
  | some .stderr => .ok { machine with stderr := machine.stderr ++ text }

/-- What is put behind the content of a machine that is the state of a computation. -/
def sink (path : Path) : Sink (StateM Machine) := fun text => do
  match (← get).append path text with
  | .ok machine =>
    set machine
    return .ok ()
  | .error fault => return .error fault

/-- Access to the files of a machine that is the state of a computation. -/
def access : Files (StateM Machine) where
  read path := do return (← get).read path
  create path := do
    match (← get).create path with
    | .ok (place, machine) =>
      set machine
      return .ok (sink place)
    | .error fault => return .error fault
  stdout text := do
    modify fun machine => { machine with stdout := machine.stdout ++ text }
    return .ok ()

end Machine

end TruthTables.CommandLine
