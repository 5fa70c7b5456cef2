/-
  ScriptTree/Command/System.lean
  ==============================
  **The system around the command.**  The command reads standard input or a file, writes to standard
  output or to a file that it creates, and reports what goes wrong.  It is written against these
  operations alone (`System`): the program performs them, and a model of it runs them on a `World`.

  What paths look like, which files there are and who may use them is left open (`FileSystem`).  Each
  operation may fail for any reason.  What a program can rely on where they succeed is gathered in
  `LawfulFileSystem`.
-/
import ScriptTree.Render.Action

namespace ScriptTree.Command

/-- Why something cannot be read or written. -/
inductive FileFault where
  | notFound
  | notADirectory
  | isADirectory
  | nameTooLong
  /-- Something else, in the words of the system. -/
  | other (reason : String)
  deriving DecidableEq, Repr

/-- The wording of a fault. -/
def FileFault.message : FileFault → String
  | .notFound => "No such file or directory (os error 2)"
  | .notADirectory => "Not a directory (os error 20)"
  | .isADirectory => "Is a directory (os error 21)"
  | .nameTooLong => "File name too long (os error 36)"
  | .other reason => reason

/-- What the command asks of the system around it. -/
class System (m : Type → Type) where
  /-- An open file. -/
  Handle : Type
  /-- Reads standard input to its end. -/
  readStdin : m (Except FileFault ByteArray)
  /-- Opens the file that a path leads to. -/
  openFile : String → m (Except FileFault Handle)
  /-- Reads an open file to its end. -/
  readFile : Handle → m (Except FileFault ByteArray)
  /-- Creates the file that a path names, or empties the one that is there. -/
  createFile : String → m (Except FileFault Handle)
  /-- Writes a text to a file that was created. -/
  writeFile : Handle → String → m (Except FileFault Unit)
  /-- Writes a text to standard output. -/
  print : String → m (Except FileFault Unit)
  /-- Shows events to the user. -/
  trace : List Event → m Unit
  /-- Tells the user what has gone wrong. -/
  report : String → m Unit

/-! ### Files -/

/-- Files as a program meets them: by the paths that lead to them. -/
class FileSystem (σ : Type) where
  /-- What a file is known by, whichever path led to it. -/
  Key : Type
  openFile : σ → String → Except FileFault Key
  readFile : σ → Key → Except FileFault ByteArray
  createFile : σ → String → Except FileFault (Key × σ)
  writeFile : σ → Key → String → Except FileFault σ
  /-- Whether a file takes what is written to it without keeping it. -/
  isDevice : Key → Bool

open FileSystem in
/-- What the operations on files do where they succeed.  Each changes the file that it is for and no
    other one, and no path gets lost. -/
class LawfulFileSystem (σ : Type) [FileSystem σ] : Prop where
  /-- Where it can be opened, the path under which a file was created leads to that file. -/
  openFile_created {s s' : σ} {path : String} {k k' : Key σ} :
    createFile s path = .ok (k, s') → openFile s' path = .ok k' → k' = k
  openFile_create {s s' : σ} {path other : String} {k k' : Key σ} :
    createFile s path = .ok (k, s') → openFile s other = .ok k' → openFile s' other = .ok k'
  /-- No other file comes to be. -/
  openFile_of_create {s s' : σ} {path other : String} {k k' : Key σ} :
    createFile s path = .ok (k, s') → openFile s' other = .ok k' → k' = k ∨ openFile s other = .ok k'
  readFile_create {s s' : σ} {path : String} {k k' : Key σ} :
    createFile s path = .ok (k, s') → k' ≠ k → readFile s' k' = readFile s k'
  /-- A file that was created can be written. -/
  exists_writeFile {s s' : σ} {path : String} {k : Key σ} (text : String) :
    createFile s path = .ok (k, s') → ∃ s'', writeFile s' k text = .ok s''
  readFile_written {s s' s'' : σ} {path text : String} {k : Key σ} :
    createFile s path = .ok (k, s') → writeFile s' k text = .ok s'' → isDevice k = false →
      readFile s'' k = .ok text.toUTF8
  openFile_write {s s' : σ} {text : String} {k : Key σ} (path : String) :
    writeFile s k text = .ok s' → openFile s' path = openFile s path
  readFile_write {s s' : σ} {text : String} {k k' : Key σ} :
    writeFile s k text = .ok s' → k' ≠ k → readFile s' k' = readFile s k'

/-! ### Worlds -/

/-- A system without time: what standard input holds, if it can be read, the files, and what was
    written and shown so far. -/
structure World (σ : Type) where
  stdin : Except FileFault ByteArray
  files : σ
  output : String
  report : String
  trace : List Event

/-- Operations on files change the files of the world; writing to standard output succeeds. -/
instance {σ : Type} [FileSystem σ] : System (StateM (World σ)) where
  Handle := FileSystem.Key σ
  readStdin := fun w => (w.stdin, w)
  openFile path := fun w => (FileSystem.openFile w.files path, w)
  readFile key := fun w => (FileSystem.readFile w.files key, w)
  createFile path := fun w =>
    match FileSystem.createFile w.files path with
    | .error fault => (.error fault, w)
    | .ok (key, files) => (.ok key, { w with files })
  writeFile key text := fun w =>
    match FileSystem.writeFile w.files key text with
    | .error fault => (.error fault, w)
    | .ok files => (.ok (), { w with files })
  print text := fun w => (.ok (), { w with output := w.output ++ text })
  trace events := fun w => ((), { w with trace := w.trace ++ events })
  report text := fun w => ((), { w with report := w.report ++ text })

end ScriptTree.Command
