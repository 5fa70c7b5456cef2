/-
  ScriptTree/Command/Options.lean
  ===============================
  **The arguments of the command.**  Options are taken in order.  The value of an option that is an
  argument of its own is checked when the next known option or the end is reached, so an argument
  that is not known at all is refused before the value in front of it.
-/
import ScriptTree.Script.Binding
import ScriptTree.Text.Terminal

namespace ScriptTree.Command

open Text.Terminal (Style)

/-- What the command is asked to do. -/
structure Options where
  input : Option String
  output : Option String
  bindings : List Binding
  trace : Bool

/-- Nothing asked yet. -/
def Options.none : Options := ⟨Option.none, Option.none, [], false⟩

/-- The options that take a value. -/
inductive ValueOption where
  | input
  | output
  | bind
  deriving DecidableEq, Repr

/-- An option with its value as messages show it. -/
def ValueOption.display : ValueOption → String
  | .input => "--input <INPUT>"
  | .output => "--output <OUTPUT>"
  | .bind => "--bind <NAME=JSON>"

/-- The options that take no value. -/
inductive Flag where
  | trace
  | help
  deriving DecidableEq, Repr

/-- A flag as messages show it. -/
def Flag.display : Flag → String
  | .trace => "--trace"
  | .help => "--help"

/-- What is wrong with the arguments. -/
inductive UsageError where
  | unexpected (argument : String)
  | valueRequired (option : ValueOption)
  | repeatedOption (option : ValueOption)
  | repeatedFlag (flag : Flag)
  | unwantedValue (flag : Flag) (value : String)
  | invalidBinding (text : String) (error : BindingError)
  deriving DecidableEq, Repr

/-- The wording of a usage error, for a terminal. -/
def UsageError.message : UsageError → String
  | .unexpected argument => "unexpected argument '" ++ Style.invalid.apply argument ++ "' found"
  | .valueRequired option =>
    "a value is required for '" ++ Style.invalid.apply option.display ++ "' but none was supplied"
  | .repeatedOption option => repeated option.display
  | .repeatedFlag flag => repeated flag.display
  | .unwantedValue flag value =>
    "unexpected value '" ++ Style.invalid.apply value ++ "' for '"
      ++ Style.literal.apply flag.display ++ "' found; no more were expected"
  | .invalidBinding text error =>
    "invalid value '" ++ Style.invalid.apply text ++ "' for '"
      ++ Style.literal.apply ValueOption.bind.display ++ "': " ++ error.message
where
  /-- Something was given more than once. -/
  repeated (display : String) : String :=
    "the argument '" ++ Style.invalid.apply display ++ "' cannot be used multiple times"

/-- What is reported for arguments that are not understood.  Nothing in it is meant for a terminal
    any more, be it from the report or from the arguments. -/
def UsageError.report (e : UsageError) : String :=
  Text.Terminal.plain (Style.heading.apply "error:" ++ " " ++ e.message
    ++ "\n\nFor more information, try '" ++ Style.literal.apply Flag.help.display ++ "'.\n")

/-- What the arguments ask for. -/
inductive Request where
  | run (options : Options)
  | help

/-- Gives an option its value. -/
def Options.set (o : Options) (option : ValueOption) (value : String) :
    Except UsageError Options :=
  match option with
  | .input =>
    if o.input.isSome then .error (.repeatedOption .input)
    else if value.isEmpty then .error (.valueRequired .input)
    else .ok { o with input := some value }
  | .output =>
    if o.output.isSome then .error (.repeatedOption .output)
    else if value.isEmpty then .error (.valueRequired .output)
    else .ok { o with output := some value }
  | .bind =>
    match Binding.parse value with
    | .ok b => .ok { o with bindings := o.bindings ++ [b] }
    | .error e => .error (.invalidBinding value e)

/-- An option whose value is an argument of its own and not yet checked. -/
structure Pending where
  option : ValueOption
  value : Option String

/-- Gives the pending option its value. -/
def settle (o : Options) : Option Pending → Except UsageError Options
  | Option.none => .ok o
  | some ⟨option, some value⟩ => o.set option value
  | some ⟨option, Option.none⟩ => .error (.valueRequired option)

/-- One argument. -/
inductive Argument where
  /-- The mark behind which there are no more options. -/
  | endMark
  /-- `--name` or `--name=value`. -/
  | long (name : String) (value : Option String)
  /-- A dash, a letter, and what follows. -/
  | short (letter : Char) (tail : List Char)
  | plain (text : String)
  deriving DecidableEq, Repr

/-- What an argument is by its look. -/
def Argument.ofText (text : String) : Argument :=
  match text.toList with
  | ['-', '-'] => .endMark
  | '-' :: '-' :: body =>
    let (name, tail) := body.span (· != '=')
    .long (String.ofList name) (if tail.isEmpty then Option.none else some (String.ofList tail.tail))
  | '-' :: letter :: tail => .short letter tail
  | _ => .plain text

/-- The value attached to a letter, if there is one; an equals sign in front is dropped. -/
def attached? : List Char → Option String
  | [] => Option.none
  | '=' :: value => some (String.ofList value)
  | value => some (String.ofList value)

/-- The option of a long name. -/
def longOption? (name : String) : Option ValueOption :=
  if name = "input" then some .input
  else if name = "output" then some .output
  else if name = "bind" then some .bind
  else Option.none

/-- The option of a letter. -/
def shortOption? (letter : Char) : Option ValueOption :=
  if letter = 'i' then some .input
  else if letter = 'o' then some .output
  else Option.none

/-- The flag of a long name. -/
def longFlag? (name : String) : Option Flag :=
  if name = "trace" then some .trace
  else if name = "help" then some .help
  else Option.none

/-- Takes an option with or without a value attached. -/
def takeOption (o : Options) (pending : Option Pending) (option : ValueOption)
    (value : Option String) : Except UsageError (Options × Option Pending) := do
  let o ← settle o pending
  match value with
  | some value =>
    let o ← o.set option value
    return (o, Option.none)
  | Option.none => return (o, some ⟨option, Option.none⟩)

/-- Takes the arguments in order. -/
def takeArguments (o : Options) (pending : Option Pending) :
    List String → Except UsageError Request
  | [] => do
    let o ← settle o pending
    return .run o
  | text :: rest =>
    match Argument.ofText text with
    | .endMark =>
      match rest with
      | [] => do
        let o ← settle o pending
        return .run o
      | argument :: _ => .error (.unexpected argument)
    | .long name value =>
      match longOption? name with
      | some option => do
        let (o, pending) ← takeOption o pending option value
        takeArguments o pending rest
      | Option.none =>
        match longFlag? name, value with
        | Option.none, _ => .error (.unexpected ("--" ++ name))
        | some flag, some value => .error (.unwantedValue flag value)
        | some .trace, Option.none => do
          let o ← settle o pending
          if o.trace then throw (.repeatedFlag .trace)
          takeArguments { o with trace := true } Option.none rest
        | some .help, Option.none => do
          let _ ← settle o pending
          return .help
    | .short letter tail =>
      match shortOption? letter with
      | some option => do
        let (o, pending) ← takeOption o pending option (attached? tail)
        takeArguments o pending rest
      | Option.none =>
        if letter = 'h' then do
          let _ ← settle o pending
          return .help
        else .error (.unexpected ("-" ++ String.singleton letter))
    | .plain text =>
      match pending with
      | some ⟨option, Option.none⟩ => takeArguments o (some ⟨option, some text⟩) rest
      | _ => .error (.unexpected text)

/-- What the arguments ask for. -/
def parseArguments (args : List String) : Except UsageError Request :=
  takeArguments Options.none Option.none args

end ScriptTree.Command
