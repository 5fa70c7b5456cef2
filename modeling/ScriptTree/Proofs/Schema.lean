/-
  ScriptTree/Proofs/Schema.lean
  =============================
  **What belongs to a tree in JSON and what does not.**  A `Shape` says what a value is read as, and
  the schema of a shape which fields its objects have: what each is read as in turn and the value it
  has when it is left out.  The schema of an expression or a statement depends on the tag in the
  object.

  An `Edit` changes a value without changing its content.  It reorders the members of some object,
  adds a member that is no field of the node it is in, or adds a field that was left out, with its
  default.  This is said without any reader of trees; that no reader notices is shown elsewhere.  What
  an edit does to the fields of an object is `fieldsStep_of_edit`.
-/
import ScriptTree.Proofs.RecordFields
import ScriptTree.Proofs.TreeCodec
import Mathlib.Logic.Relation

namespace ScriptTree

open Decoder

/-! ### Shapes -/

/-- What a value is read as. -/
inductive Shape where
  /-- Something without nodes in it: a string, a constant, an operator, a tag, a location. -/
  | atom
  | list (item : Shape)
  | module
  | params
  | param
  | keyword
  | comprehension
  | handler
  | alias
  | withItem
  | expr
  | stmt

/-- A field of an object: what it is read as, and its value when it is left out. -/
structure FieldSpec where
  shape : Shape
  default : Option Json

namespace FieldSpec

def required (s : Shape) : FieldSpec := ⟨s, none⟩

/-- A list that is empty when left out. -/
def list (s : Shape) : FieldSpec := ⟨.list s, some (.arr [])⟩

/-- A value that is null when left out. -/
def optional (s : Shape) : FieldSpec := ⟨s, some .null⟩

end FieldSpec

abbrev Schema := List (String × FieldSpec)

def ExprKind.schema : ExprKind → Schema
  | .boolOp => [("op", .required .atom), ("values", .required (.list .expr))]
  | .binOp => [("left", .required .expr), ("op", .required .atom), ("right", .required .expr)]
  | .unaryOp => [("op", .required .atom), ("operand", .required .expr)]
  | .lambda => [("args", .required .params), ("body", .required .expr)]
  | .ifExp => [("test", .required .expr), ("body", .required .expr), ("orelse", .required .expr)]
  | .dict => [("keys", .required (.list .expr)), ("values", .required (.list .expr))]
  | .compare => [("left", .required .expr), ("ops", .required (.list .atom)),
      ("comparators", .required (.list .expr))]
  | .call => [("func", .required .expr), ("args", .list .expr), ("keywords", .list .keyword)]
  | .constant => [("value", .required .atom)]
  | .attribute => [("value", .required .expr), ("attr", .required .atom)]
  | .subscript => [("value", .required .expr), ("slice", .required .expr)]
  | .name => [("id", .required .atom)]
  | .list | .tuple | .set => [("elts", .required (.list .expr))]
  | .starred | .await => [("value", .required .expr)]
  | .listComp | .generatorExp =>
    [("elt", .required .expr), ("generators", .required (.list .comprehension))]
  | .dictComp => [("key", .required .expr), ("value", .required .expr),
      ("generators", .required (.list .comprehension))]
  | .yield => [("value", .optional .expr)]
  | .namedExpr => [("target", .required .expr), ("value", .required .expr)]
  | .slice => [("lower", .optional .expr), ("upper", .optional .expr), ("step", .optional .expr)]
  | .joinedStr => [("values", .required (.list .expr))]

def StmtKind.schema : StmtKind → Schema
  | .functionDef => [("name", .required .atom), ("args", .required .params),
      ("body", .required (.list .stmt)), ("decorator_list", .list .expr)]
  | .ret => [("value", .optional .expr)]
  | .delete => [("targets", .required (.list .expr))]
  | .assign => [("targets", .required (.list .expr)), ("value", .required .expr)]
  | .augAssign => [("target", .required .expr), ("op", .required .atom), ("value", .required .expr)]
  | .forLoop => [("target", .required .expr), ("iter", .required .expr),
      ("body", .required (.list .stmt)), ("orelse", .list .stmt)]
  | .whileLoop | .cond =>
    [("test", .required .expr), ("body", .required (.list .stmt)), ("orelse", .list .stmt)]
  | .raise => [("exc", .optional .expr), ("cause", .optional .expr)]
  | .expr => [("value", .required .expr)]
  | .pass | .breakLoop | .continueLoop => []
  | .classDef => [("name", .required .atom), ("bases", .list .expr),
      ("body", .required (.list .stmt)), ("decorator_list", .list .expr)]
  | .tryStmt => [("body", .required (.list .stmt)), ("handlers", .list .handler),
      ("orelse", .list .stmt), ("finalbody", .list .stmt)]
  | .withStmt => [("items", .required (.list .withItem)), ("body", .required (.list .stmt))]
  | .assert => [("test", .required .expr), ("msg", .optional .expr)]
  | .importStmt => [("names", .required (.list .alias))]
  | .globalStmt | .nonlocalStmt => [("names", .required (.list .atom))]

/-- A node has a location besides its fields. -/
def Schema.node (fields : Schema) : Schema :=
  ("loc", ⟨.atom, some (.arr [.int 0, .int 0])⟩) :: fields

/-- A node with a choice of kinds has a tag too. -/
def Schema.tagged (fields : Schema) : Schema := Schema.node ((tagKey, .required .atom) :: fields)

/-- The kind that an object tells. -/
def kindIn (κ : Type) [Variant κ] (ms : List (String × Json)) : Option κ :=
  (ms.lookup tagKey).bind fun j => (tag κ j).toOption

namespace Shape

/-- The fields of an object of a shape, if it is read as a record. -/
def schema? : Shape → List (String × Json) → Option Schema
  | .atom, _ | .list _, _ => none
  | .module, _ => some (.node [("body", .required (.list .stmt))])
  | .params, _ => some (.node [("posonlyargs", .list .param), ("args", .list .param),
      ("vararg", .optional .param), ("kwonlyargs", .list .param), ("kwarg", .optional .param),
      ("defaults", .list .expr)])
  | .param, _ => some (.node [("arg", .required .atom)])
  | .keyword, _ => some (.node [("arg", .optional .atom), ("value", .required .expr)])
  | .comprehension, _ => some (.node [("target", .required .expr), ("iter", .required .expr),
      ("ifs", .list .expr)])
  | .handler, _ => some (.node [("type", .optional .expr), ("name", .optional .atom),
      ("body", .required (.list .stmt))])
  | .alias, _ => some [("name", .required .atom), ("asname", .optional .atom)]
  | .withItem, _ => some [("context_expr", .required .expr), ("optional_vars", .optional .expr)]
  | .expr, ms => some (.tagged ((kindIn ExprKind ms).elim [] ExprKind.schema))
  | .stmt, ms => some (.tagged ((kindIn StmtKind ms).elim [] StmtKind.schema))

/-- What a member of an object is read as. -/
def member (s : Shape) (ms : List (String × Json)) (key : String) : Shape :=
  ((s.schema? ms).bind fun schema => schema.lookup key).elim .atom FieldSpec.shape

/-- What the items of an array are read as. -/
def item : Shape → Shape
  | .list s => s
  | .withItem => .expr
  | _ => .atom

end Shape

/-! ### Edits -/

/-- A change of a value that is read as the given shape, somewhere in it. -/
inductive Edit : Shape → Json → Json → Prop
  | permute {s : Shape} {ms ms' : List (String × Json)} :
      ms.Perm ms' → Edit s (.obj ms) (.obj ms')
  /-- A member that is no field is added. -/
  | addUnknown {s : Shape} {ms : List (String × Json)} {schema : Schema} {key : String} {j : Json} :
      s.schema? ms = some schema → schema.lookup key = none →
      Edit s (.obj ms) (.obj ((key, j) :: ms))
  /-- A field that was left out is added with its default. -/
  | addDefault {s : Shape} {ms : List (String × Json)} {schema : Schema} {key : String}
      {spec : FieldSpec} {j : Json} :
      s.schema? ms = some schema → schema.lookup key = some spec → spec.default = some j →
      key ∉ ms.map Prod.fst → Edit s (.obj ms) (.obj ((key, j) :: ms))
  | inMember {s : Shape} {ms : List (String × Json)} {key : String} {j j' : Json} :
      Edit (s.member ((key, j) :: ms) key) j j' →
      Edit s (.obj ((key, j) :: ms)) (.obj ((key, j') :: ms))
  | inItem {s : Shape} {front back : List Json} {j j' : Json} :
      Edit s.item j j' → Edit s (.arr (front ++ j :: back)) (.arr (front ++ j' :: back))

/-- The values come from each other by edits and their inverses. -/
def SameContent (s : Shape) : Json → Json → Prop := Relation.EqvGen (Edit s)

/-- The values are equal or the second comes from the first by one edit. -/
abbrev EditOrSame (s : Shape) : Json → Json → Prop := Relation.ReflGen (Edit s)

/-- An edit keeps the kind of a value.  Of two arrays, the items are edited or stay. -/
theorem EditOrSame.cases {s : Shape} {j j' : Json} (h : EditOrSame s j j') :
    (j = j' ∧ j.depth = 0) ∨
    (∃ js js', j = .arr js ∧ j' = .arr js' ∧ List.Forall₂ (EditOrSame s.item) js js') ∨
    ∃ ms ms', j = .obj ms ∧ j' = .obj ms' := by
  rcases h with - | h
  · cases j with
    | arr js => exact Or.inr (Or.inl ⟨js, js, rfl, rfl, List.forall₂_same.mpr fun _ _ => .refl⟩)
    | obj ms => exact Or.inr (Or.inr ⟨ms, ms, rfl, rfl⟩)
    | _ => exact Or.inl ⟨rfl, by simp [Json.depth]⟩
  · cases h with
    | @inItem _ front back k k' hk =>
      have hsame : ∀ js : List Json, List.Forall₂ (EditOrSame s.item) js js :=
        fun js => List.forall₂_same.mpr fun _ _ => .refl
      refine Or.inr (Or.inl ⟨_, _, rfl, rfl, ?_⟩)
      exact List.rel_append (hsame front) (.cons (.single hk) (hsame back))
    | permute hperm => exact Or.inr (Or.inr ⟨_, _, rfl, rfl⟩)
    | addUnknown hschema hkey => exact Or.inr (Or.inr ⟨_, _, rfl, rfl⟩)
    | addDefault hschema hkey hdefault hnew => exact Or.inr (Or.inr ⟨_, _, rfl, rfl⟩)
    | inMember hj => exact Or.inr (Or.inr ⟨_, _, rfl, rfl⟩)

theorem EditOrSame.eq_of_depth {s : Shape} {j j' : Json} (h : EditOrSame s j j')
    (hdepth : j.depth = 0 ∨ j'.depth = 0) : j = j' := by
  rcases h.cases with ⟨rfl, -⟩ | ⟨js, js', rfl, rfl, -⟩ | ⟨ms, ms', rfl, rfl⟩
  · rfl
  · simp [Json.depth] at hdepth
  · simp [Json.depth] at hdepth

/-! ### What an edit does to a field -/

/-- The values of a field before and after an edit of the object, nested no deeper than given. -/
inductive FieldStep (n n' : Nat) (spec : FieldSpec) : List Json → List Json → Prop
  | absent : FieldStep n n' spec [] []
  | one {j j' : Json} : EditOrSame spec.shape j j' → j.depth ≤ n → j'.depth ≤ n' →
      FieldStep n n' spec [j] [j']
  /-- The field is repeated both times, which is refused. -/
  | repeated {js js' : List Json} : 2 ≤ js.length → 2 ≤ js'.length → FieldStep n n' spec js js'
  | added {j : Json} : spec.default = some j → FieldStep n n' spec [] [j]

/-- Each field of the schema makes a step. -/
def FieldsStep (n n' : Nat) (schema : Schema) (ms ms' : List (String × Json)) : Prop :=
  ∀ name spec, schema.lookup name = some spec →
    FieldStep n n' spec (valuesAt name ms) (valuesAt name ms')

variable {n n' : Nat} {ms ms' : List (String × Json)} {schema : Schema}

theorem FieldStep.of_perm {spec : FieldSpec} {js js' : List Json} (h : js.Perm js')
    (hn : ∀ j ∈ js, j.depth ≤ n) (hn' : ∀ j ∈ js', j.depth ≤ n') : FieldStep n n' spec js js' := by
  rcases js with - | ⟨j, - | ⟨k, rest⟩⟩
  · obtain rfl : js' = [] := h.symm.eq_nil
    exact .absent
  · obtain rfl : js' = [j] := (List.singleton_perm.mp h).symm
    exact .one .refl (hn j List.mem_cons_self) (hn' j List.mem_cons_self)
  · refine .repeated (by simp) ?_
    rw [← h.length_eq]
    simp

theorem fieldsStep_of_edit {s : Shape} (h : EditOrSame s (.obj ms) (.obj ms'))
    (hschema : s.schema? ms = some schema) (hn : (Json.obj ms).depth ≤ n + 1)
    (hn' : (Json.obj ms').depth ≤ n' + 1) : FieldsStep n n' schema ms ms' := by
  intro name spec hspec
  have hvalues : ∀ j ∈ valuesAt name ms, j.depth ≤ n := fun j hj =>
    Nat.le_of_lt_succ (Nat.lt_of_lt_of_le (Json.depth_lt_obj (mem_of_mem_valuesAt hj)) hn)
  have hvalues' : ∀ j ∈ valuesAt name ms', j.depth ≤ n' := fun j hj =>
    Nat.le_of_lt_succ (Nat.lt_of_lt_of_le (Json.depth_lt_obj (mem_of_mem_valuesAt hj)) hn')
  have hsame : valuesAt name ms' = valuesAt name ms →
      FieldStep n n' spec (valuesAt name ms) (valuesAt name ms') :=
    fun heq => .of_perm (by rw [heq]) hvalues hvalues'
  rcases h with - | h
  · exact hsame rfl
  · cases h with
    | permute hperm => exact .of_perm (valuesAt_perm hperm) hvalues hvalues'
    | @addUnknown _ _ schema' key j hschema' hkey =>
      obtain rfl : schema' = schema := Option.some.inj (hschema'.symm.trans hschema)
      have hne : key ≠ name := by
        rintro rfl
        cases hkey.symm.trans hspec
      exact hsame (valuesAt_cons_of_ne hne j ms)
    | @addDefault _ _ schema' key spec' j hschema' hkey hdefault hnew =>
      obtain rfl : schema' = schema := Option.some.inj (hschema'.symm.trans hschema)
      by_cases hne : key = name
      · subst hne
        obtain rfl : spec' = spec := Option.some.inj (hkey.symm.trans hspec)
        rw [valuesAt_cons_self, valuesAt_eq_nil hnew]
        exact .added hdefault
      · exact hsame (valuesAt_cons_of_ne hne j ms)
    | @inMember _ rest key j j' hj =>
      by_cases hne : key = name
      · subst hne
        have hshape : s.member ((key, j) :: rest) key = spec.shape := by
          rw [Shape.member, hschema]
          simp [hspec]
        rw [hshape] at hj
        rw [valuesAt_cons_self] at hvalues ⊢
        rw [valuesAt_cons_self] at hvalues' ⊢
        cases valuesAt key rest with
        | nil =>
          exact .one (.single hj) (hvalues j List.mem_cons_self) (hvalues' j' List.mem_cons_self)
        | cons k more => exact .repeated (by simp) (by simp)
      · apply hsame
        rw [valuesAt_cons_of_ne hne, valuesAt_cons_of_ne hne]

theorem FieldsStep.besides {key : String} (h : FieldsStep n n' schema ms ms')
    (hkey : schema.lookup key = none) : FieldsStep n n' schema (others key ms) (others key ms') := by
  intro name spec hspec
  have hne : name ≠ key := by
    rintro rfl
    cases hkey.symm.trans hspec
  rw [valuesAt_others hne, valuesAt_others hne]
  exact h name spec hspec

/-- The first field of a schema is one thing, the others another. -/
theorem FieldsStep.cons {key : String} {spec : FieldSpec}
    (h : FieldsStep n n' ((key, spec) :: schema) ms ms') (hkey : schema.lookup key = none) :
    FieldStep n n' spec (valuesAt key ms) (valuesAt key ms') ∧
      FieldsStep n n' schema (others key ms) (others key ms') := by
  have hrest : FieldsStep n n' schema ms ms' := by
    intro name spec' hspec'
    have hne : (name == key) = false := by
      refine beq_false_of_ne ?_
      rintro rfl
      cases hkey.symm.trans hspec'
    refine h name spec' ?_
    rw [List.lookup_cons, hne]
    exact hspec'
  exact ⟨h key spec (by simp), hrest.besides hkey⟩

end ScriptTree
