/-
  ScriptTree/Json/Basic.lean
  ==========================
  **JSON values.**  An object keeps its members in the order written, repeated keys included; how a
  repetition is read is decided by whoever reads the object.  Numbers keep the difference between
  integers and floating point numbers.
-/
namespace ScriptTree

/-- A JSON value. -/
inductive Json where
  | null
  | bool (b : Bool)
  | int (n : Int)
  | float (x : Float)
  | str (s : String)
  | arr (items : List Json)
  | obj (members : List (String × Json))

namespace Json

mutual

/-- How deep arrays and objects are nested in a value. -/
def depth : Json → Nat
  | .arr items => depthItems items + 1
  | .obj members => depthMembers members + 1
  | _ => 0

/-- The greatest depth among the items of an array. -/
def depthItems : List Json → Nat
  | [] => 0
  | j :: rest => max j.depth (depthItems rest)

/-- The greatest depth among the members of an object. -/
def depthMembers : List (String × Json) → Nat
  | [] => 0
  | (_, j) :: rest => max j.depth (depthMembers rest)

end

/-- Puts a member into an object without repeated keys: a known key keeps its place and takes the
    new value, a new key goes last. -/
def put (key : String) (value : Json) : List (String × Json) → List (String × Json)
  | [] => [(key, value)]
  | (k, v) :: rest => if k = key then (k, value) :: rest else (k, v) :: put key value rest

/-- The members of an object with each key once, at its first place and with its last value. -/
def merge (members : List (String × Json)) : List (String × Json) :=
  members.foldl (fun kept m => put m.1 m.2 kept) []

mutual

/-- The value with every repeated key merged, at every depth. -/
def merged : Json → Json
  | .arr items => .arr (mergedItems items)
  | .obj members => .obj (merge (mergedMembers members))
  | j => j

/-- The items of an array, merged. -/
def mergedItems : List Json → List Json
  | [] => []
  | j :: rest => j.merged :: mergedItems rest

/-- The members of an object, each value merged. -/
def mergedMembers : List (String × Json) → List (String × Json)
  | [] => []
  | (k, j) :: rest => (k, j.merged) :: mergedMembers rest

end

end Json

end ScriptTree
