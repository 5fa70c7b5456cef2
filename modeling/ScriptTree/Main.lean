/-
  ScriptTree/Main.lean
  ====================
  **The program.**  The command, on the system that the program runs on.
-/
import ScriptTree.Command.Run

namespace ScriptTree.Command

/-- An event in one line. -/
def eventLine : Event → String
  | .assignment name declared =>
    "assignment name=" ++ name ++ " declared=" ++ (if declared then "true" else "false")
  | .enteredScope depth => "entered scope depth=" ++ Nat.repr depth
  | .exitedScope depth => "exited scope depth=" ++ Nat.repr depth
  | .body statements => "render body statements=" ++ Nat.repr statements
  | .enter => "enter"
  | .rendered stats =>
    "rendered body computed=" ++ Nat.repr stats.computed ++ " hits=" ++ Nat.repr stats.hits
  | .exit => "exit"

/-- The fault behind an error of the system. -/
def faultOf : IO.Error → FileFault
  | .noFileOrDirectory _ _ _ => .notFound
  | .inappropriateType _ code _ => if code = 20 then .notADirectory else .isADirectory
  | .invalidArgument _ 36 _ => .nameTooLong
  | e => .other (toString e)

/-- The result of an action, or the fault behind its error. -/
def attempt {α : Type} (action : IO α) : IO (Except FileFault α) := do
  try
    let result ← action
    return .ok result
  catch e =>
    return .error (faultOf e)

instance : System IO where
  Handle := IO.FS.Handle
  readStdin := attempt do (← IO.getStdin).readBinToEnd
  openFile path := attempt (IO.FS.Handle.mk path .read)
  readFile handle := attempt handle.readBinToEnd
  createFile path := attempt (IO.FS.Handle.mk path .write)
  writeFile handle text := attempt do
    handle.putStr text
    handle.flush
  print text := attempt do
    let stdout ← IO.getStdout
    stdout.putStr text
    stdout.flush
  trace events := events.forM fun e => IO.eprintln (eventLine e)
  report text := IO.eprint text

end ScriptTree.Command

def main (args : List String) : IO UInt32 := ScriptTree.Command.command args
