/-
  ScriptTree/Command/Run.lean
  ===========================
  **The command**: reads a tree, renders it with the bindings asked for, and writes the text.
  Nothing is written unless all steps before succeed, and a failure is reported under the name of the
  input, or of the output when that could not be written.

  The command runs on any system.  `runIn` runs it on a world, and `run` on one of which a folder is all
  there is.
-/
import ScriptTree.Command.Disk
import ScriptTree.Command.Options
import ScriptTree.Script.Basic
import ScriptTree.Tree.Load

namespace ScriptTree.Command

/-- Why a run failed. -/
inductive Failure where
  | openInput (fault : FileFault)
  | readInput (fault : FileFault)
  | notText
  | load (error : LoadError)
  | render (error : RenderError)
  | writeOutput (fault : FileFault)
  deriving DecidableEq

/-- The wording of a failure. -/
def Failure.message : Failure → String
  | .openInput fault => "failed to open: " ++ fault.message
  | .readInput fault => "failed to read input: " ++ fault.message
  | .notText => "failed to read input: stream did not contain valid UTF-8"
  | .load error => error.message
  | .render error => error.message
  | .writeOutput fault => "failed to write output: " ++ fault.message

/-- The name of the input in messages. -/
def Options.inputName (o : Options) : String := o.input.getD "<stdin>"

/-- The name of the output in messages. -/
def Options.outputName (o : Options) : String := o.output.getD "<stdout>"

/-- The name that a failure is reported under. -/
def Failure.subject (o : Options) : Failure → String
  | .writeOutput _ => o.outputName
  | _ => o.inputName

/-- What is reported for a failure. -/
def Failure.report (o : Options) (f : Failure) : String :=
  f.subject o ++ ": " ++ f.message ++ "\n"

/-- The text to write for an input that was read, and the events on the way. -/
def scriptText (o : Options) (input : Except Failure ByteArray) :
    Except Failure String × List Event :=
  match input with
  | .error f => (.error f, [])
  | .ok bytes =>
    match String.fromUTF8? bytes with
    | none => (.error .notText, [])
    | some source =>
      match Module.load source with
      | .error e => (.error (.load e), [])
      | .ok m =>
        let t := Script.run m o.bindings
        (t.result.mapError .render, t.events)

/-- What the command answers when asked for help. -/
def helpText : String :=
  "Render a JSON syntax tree as JavaScript\n\n" ++
  "Options:\n" ++
  "  -i, --input <INPUT>     JSON syntax tree to render; omit for stdin\n" ++
  "  -o, --output <OUTPUT>   Output destination; omit for stdout\n" ++
  "      --bind <NAME=JSON>  Initial binding declared before the body, as NAME=JSON. " ++
  "May be repeated\n" ++
  "      --trace             Report render events on stderr\n" ++
  "  -h, --help              Print help\n"

/-! ### On any system -/

section System

variable {m : Type → Type} [Monad m] [System m]

/-- Reads the input that the options ask for. -/
def readInput (o : Options) : m (Except Failure ByteArray) := do
  match o.input with
  | none => return (← System.readStdin).mapError .readInput
  | some path =>
    match ← System.openFile path with
    | .error fault => return .error (.openInput fault)
    | .ok handle => return (← System.readFile handle).mapError .readInput

/-- Writes a text where the options ask for. -/
def writeOutput (o : Options) (text : String) : m (Except Failure Unit) := do
  match o.output with
  | none => return (← System.print text).mapError .writeOutput
  | some path =>
    match ← System.createFile path with
    | .error fault => return .error (.writeOutput fault)
    | .ok handle => return (← System.writeFile handle text).mapError .writeOutput

/-- Reports a failure and ends. -/
def fail (o : Options) (f : Failure) : m UInt32 := do
  System.report (f.report o)
  return 1

/-- Writes a text, or reports why there is none. -/
def deliver (o : Options) : Except Failure String → m UInt32
  | .error f => fail o f
  | .ok text => do
    match ← writeOutput o text with
    | .error f => fail o f
    | .ok _ => return 0

/-- A run with the given options. -/
def perform (o : Options) : m UInt32 := do
  let (text, events) := scriptText o (← readInput o)
  if o.trace then
    System.trace events
  deliver o text

/-- The whole command, with its arguments. -/
def command (args : List String) : m UInt32 := do
  match parseArguments args with
  | .error e =>
    System.report e.report
    return 2
  | .ok .help =>
    let _ ← System.print helpText
    return 0
  | .ok (.run o) => perform o

end System

/-! ### On worlds -/

/-- What the command leaves behind. -/
structure Result (σ : Type) where
  exitCode : UInt32
  output : String
  report : String
  trace : List Event
  folder : σ

/-- What an exit code and the world at the end come to. -/
def Result.of {σ : Type} (ending : UInt32 × World σ) : Result σ :=
  ⟨ending.1, ending.2.output, ending.2.report, ending.2.trace, ending.2.files⟩

/-- The command with its arguments, what standard input gives, and the files around it. -/
def runIn {σ : Type} [FileSystem σ] (args : List String) (stdin : Except FileFault ByteArray)
    (files : σ) : Result σ :=
  .of ((command args : StateM (World σ) UInt32) ⟨stdin, files, "", "", []⟩)

/-- The command in a folder of files, with these bytes on standard input. -/
def run {γ : Type} [Contents γ] (args : List String) (stdin : ByteArray) (folder : Folder γ) :
    Result (Folder γ) :=
  let r := runIn args (.ok stdin) folder.disk
  { r with folder := r.folder.folder }

end ScriptTree.Command
