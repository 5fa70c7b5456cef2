/-
  ScriptTree/Command/Disk.lean
  ============================
  **A file system.**  Files and devices lie at places, which are the names on the way to them from the
  root.  A directory is there when something lies below it; the working directory always is.  A path
  starts at the root if it begins with a slash, and at the working directory otherwise.

  Opening a directory works and reading it fails; creating a file needs its directory and never makes
  one.  Names and paths have a greatest length.

  Files may hold any bytes.  A disk says in what form it has them (`Contents`): as bytes, or as texts if
  it has nothing else.
-/
import ScriptTree.Command.System

namespace ScriptTree.Command

/-- The parts of a path between its slashes; `part` holds the characters of the first one so far,
    last first. -/
def partsFrom (part : List Char) : List Char → List String
  | [] => [String.ofList part.reverse]
  | '/' :: rest => String.ofList part.reverse :: partsFrom [] rest
  | c :: rest => partsFrom (c :: part) rest

/-- The parts of a path between its slashes. -/
def parts (path : String) : List String := partsFrom [] path.toList

/-- A form in which files are held: it has bytes, and there is one for every text. -/
class Contents (γ : Type) where
  bytes : γ → ByteArray
  ofText : String → γ
  bytes_ofText (text : String) : bytes (ofText text) = text.toUTF8

instance : Contents ByteArray := ⟨id, String.toUTF8, fun _ => rfl⟩

instance : Contents String := ⟨String.toUTF8, id, fun _ => rfl⟩

/-- Files with what they hold, devices, and the working directory. -/
structure Disk (γ : Type) where
  files : List (List String × γ)
  devices : List (List String)
  home : List String

/-- What a path leads to, with its place. -/
inductive Target where
  | file (place : List String)
  | device (place : List String)
  | directory (place : List String)
  | absent (place : List String)
  deriving DecidableEq, Repr

namespace Disk

variable {γ : Type}

/-- What the file at a place holds. -/
def contentsAt? (d : Disk γ) (place : List String) : Option γ :=
  (d.files.find? fun f => f.1 = place).map Prod.snd

/-- Whether something lies at a place or below it. -/
def isDirectory (d : Disk γ) (place : List String) : Bool :=
  (d.home :: d.devices ++ d.files.map Prod.fst).any place.isPrefixOf

/-- What stands directly below a directory under a name. -/
def child (d : Disk γ) (place : List String) (name : String) : Target :=
  let place := place ++ [name]
  if d.devices.contains place then .device place
  else if (d.contentsAt? place).isSome then .file place
  else if d.isDirectory place then .directory place
  else .absent place

/-- The most bytes that a name may take. -/
def maxName : Nat := 255

/-- The most bytes that a path may take. -/
def maxPath : Nat := 4095

/-- One part further on a path.  Empty parts and single dots stay, double dots go back, and only a
    directory has something below it.  Above the root is the root. -/
def step (d : Disk γ) (target : Target) (name : String) : Except FileFault Target :=
  match target with
  | .file _ | .device _ => .error .notADirectory
  | .absent _ => .error .notFound
  | .directory place =>
    if name = "" || name = "." then .ok (.directory place)
    else if name = ".." then .ok (.directory place.dropLast)
    else if maxName < name.utf8ByteSize then .error .nameTooLong
    else .ok (d.child place name)

/-- Goes on along the parts of a path. -/
def walk (d : Disk γ) (target : Target) (names : List String) : Except FileFault Target :=
  names.foldlM d.step target

/-- Where a path starts. -/
def origin (d : Disk γ) (path : String) : Target :=
  .directory (if path.toList.head? = some '/' then [] else d.home)

/-- What a path leads to. -/
def resolve (d : Disk γ) (path : String) : Except FileFault Target :=
  if maxPath < path.utf8ByteSize then .error .nameTooLong else d.walk (d.origin path) (parts path)

/-- The disk after something was stored at a place. -/
def put (d : Disk γ) (place : List String) (contents : γ) : Disk γ :=
  if d.files.any fun f => f.1 = place then
    { d with files := d.files.map fun f => if f.1 = place then (place, contents) else f }
  else
    { d with files := d.files ++ [(place, contents)] }

/-- Opens what a path leads to, be it a directory. -/
def openFile (d : Disk γ) (path : String) : Except FileFault Target :=
  match d.resolve path with
  | .error fault => .error fault
  | .ok (.absent _) => .error .notFound
  | .ok target => .ok target

/-- A path without the slashes at its end. -/
def withoutSlashes (path : String) : String :=
  String.ofList (path.toList.reverse.dropWhile (· == '/')).reverse

/-- Refuses to create what can only be a directory; what is wrong with the directory around it
    comes first. -/
def refuseDirectory (d : Disk γ) (path : String) : FileFault :=
  if maxPath < path.utf8ByteSize then .nameTooLong
  else
    match d.walk (d.origin path) ((parts (withoutSlashes path)).dropLast ++ ["."]) with
    | .error fault => fault
    | .ok _ => .isADirectory

variable [Contents γ]

/-- Reads what was opened.  A device gives nothing. -/
def readFile (d : Disk γ) : Target → Except FileFault ByteArray
  | .file place =>
    match d.contentsAt? place with
    | none => .error .notFound
    | some contents => .ok (Contents.bytes contents)
  | .device _ => .ok .empty
  | .directory _ => .error .isADirectory
  | .absent _ => .error .notFound

/-- Creates a file, or empties the one that is there.  A path that ends with a slash can only name a
    directory. -/
def createFile (d : Disk γ) (path : String) : Except FileFault (Target × Disk γ) :=
  if withoutSlashes path ≠ path then .error (d.refuseDirectory path)
  else
    match d.resolve path with
    | .error fault => .error fault
    | .ok (.directory _) => .error .isADirectory
    | .ok (.device place) => .ok (.device place, d)
    | .ok (.file place) | .ok (.absent place) => .ok (.file place, d.put place (Contents.ofText ""))

/-- Writes a text to a file, of which it is then all.  A device keeps nothing. -/
def writeFile (d : Disk γ) (target : Target) (text : String) : Except FileFault (Disk γ) :=
  match target with
  | .file place =>
    if (d.contentsAt? place).isSome then .ok (d.put place (Contents.ofText text))
    else .error .notFound
  | .device _ => .ok d
  | .directory _ => .error .isADirectory
  | .absent _ => .error .notFound

instance : FileSystem (Disk γ) where
  Key := Target
  openFile := openFile
  readFile := readFile
  createFile := createFile
  writeFile := writeFile
  isDevice
    | .device _ => true
    | _ => false

end Disk

/-! ### Folders -/

/-- Files by their names, with what they hold. -/
structure Folder (γ : Type) where
  files : List (String × γ)
  deriving DecidableEq, Repr

variable {γ : Type}

/-- A disk on which the working directory holds the files of a folder.  There is a device to which
    anything can be written, and nothing else. -/
def Folder.disk (folder : Folder γ) : Disk γ where
  files := folder.files.map fun (name, contents) =>
    ("work" :: (parts name).filter fun part => part ≠ "" && part ≠ ".", contents)
  devices := [["dev", "null"]]
  home := ["work"]

/-- The files of the working directory, by their names from there. -/
def Disk.folder (d : Disk γ) : Folder γ where
  files := d.files.filterMap fun (place, contents) =>
    if d.home.isPrefixOf place then some ("/".intercalate (place.drop d.home.length), contents)
    else none

end ScriptTree.Command
