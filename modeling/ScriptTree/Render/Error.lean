/-
  ScriptTree/Render/Error.lean
  ============================
  **Why a tree has no rendering**, and where: the first location known, from the offending node
  outwards.
-/
import ScriptTree.Render.Field

namespace ScriptTree

/-- What has no rendering. -/
inductive Construct where
  | node (kind : NodeKind)
  | decorators
  | forElse
  | whileElse
  | loopTarget (kind : ExprKind)
  | raiseFrom
  | keywordArguments
  | keywordOnlyParams
  | keywordRest
  | binaryOperator (op : BinaryOperator)
  | cmpOperator (op : CmpOperator)
  /-- Something else, by its description. -/
  | other (description : String)
  deriving DecidableEq, Repr

/-- The wording of a construct. -/
def Construct.message : Construct → String
  | .node kind => kind.name
  | .decorators => "decorators"
  | .forElse => "for-else clause"
  | .whileElse => "while-else clause"
  | .loopTarget kind => Variant.name kind ++ " as loop target"
  | .raiseFrom => "raise ... from"
  | .keywordArguments => "keyword arguments"
  | .keywordOnlyParams => "keyword-only parameters"
  | .keywordRest => "**kwargs parameter"
  | .binaryOperator op => Variant.name op ++ " operator"
  | .cmpOperator op => Variant.name op ++ " operator"
  | .other description => description

/-- What is wrong with a tree to be rendered. -/
inductive RenderFault where
  | unsupported (what : Construct)
  | missingField (node : NodeKind) (field : Field)
  | rawUnavailable (node : NodeKind) (field : Field)
  deriving DecidableEq, Repr

/-- The wording of a fault. -/
def RenderFault.message : RenderFault → String
  | .unsupported what => "unsupported operation in JS: " ++ what.message
  | .missingField node field => node.name ++ " node has no field `" ++ Variant.name field ++ "`"
  | .rawUnavailable node field =>
    "field `" ++ Variant.name field ++ "` of " ++ node.name ++ " node has no raw value"

/-- A fault and its location, if one is known. -/
structure RenderError where
  fault : RenderFault
  loc : Option Loc
  deriving DecidableEq, Repr

namespace RenderError

/-- Something without rendering, at no known place. -/
def unsupported (what : Construct) : RenderError := ⟨.unsupported what, none⟩

/-- The error with the location of a node around it, unless one is known already or the node has
    none. -/
def around (e : RenderError) (l : Loc) : RenderError :=
  match e.loc with
  | some _ => e
  | none => if l.isSynthetic then e else { e with loc := some l }

/-- Whether the error is about something that has no rendering. -/
def isUnsupported (e : RenderError) : Bool :=
  match e.fault with
  | .unsupported _ => true
  | _ => false

/-- The wording of the error. -/
def message (e : RenderError) : String :=
  e.fault.message ++ match e.loc with
    | some l => " at " ++ l.text
    | none => ""

end RenderError

end ScriptTree
