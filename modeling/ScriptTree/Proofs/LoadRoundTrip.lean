/-
  ScriptTree/Proofs/LoadRoundTrip.lean
  ====================================
  **A module is loaded back from the text written for it** (`Module.load_text`).  The text is read back
  as the value written (`Json.readValue_chars`), the value is read back as the module
  (`Module.ofJson_toJson`), and loading is both in a row (`Module.load_eq_ok_iff`).  What remains is that
  the value is legible: its integers are locations and 64-bit constants, so all depends on the floating
  point numbers of the module.
-/
import ScriptTree.Proofs.Loading
import ScriptTree.Proofs.Subtrees
import ScriptTree.Proofs.TreeCodec

namespace ScriptTree

/-! ### The floating point numbers of a tree -/

/-- The floating point number of a constant. -/
def ExprForm.float? {ε : Type} : ExprForm ε → Option Float
  | .constant (.float x) => some x
  | _ => none

/-- The floating point numbers in an expression. -/
def Expr.floats : Expr → List Float :=
  Expr.fold fun _ form => form.float?.toList ++ form.children.flatten

/-- The floating point numbers in a statement. -/
def Stmt.floats : Stmt → List Float :=
  Stmt.fold fun _ form => form.exprs.flatMap Expr.floats ++ form.children.flatten

/-- The floating point numbers in a module. -/
def Module.floats (m : Module) : List Float := m.body.flatMap Stmt.floats

theorem ExprForm.float?_map {ε φ : Type} (f : ε → φ) (form : ExprForm ε) :
    (form.map f).float? = form.float? := by
  cases form with
  | constant value => cases value <;> rfl
  | _ => rfl

theorem Expr.floats_mk (l : Loc) (form : ExprForm Expr) :
    (Expr.mk l form).floats = form.float?.toList ++ form.children.flatMap Expr.floats := by
  rw [floats, fold_mk, ExprForm.float?_map, ExprForm.children_map, ← floats, ← List.flatMap_def]

theorem Stmt.floats_mk (l : Loc) (form : StmtForm Stmt Expr) :
    (Stmt.mk l form).floats =
      form.exprs.flatMap Expr.floats ++ form.children.flatMap Stmt.floats := by
  rw [floats, fold_mk, StmtForm.exprs_map, StmtForm.children_map, ← floats, ← List.flatMap_def]

/-! ### What is written is legible -/

namespace Json

theorem legible_arr_iff {items : List Json} : (arr items).Legible ↔ ∀ j ∈ items, j.Legible := by
  constructor
  · rintro ⟨⟩
    assumption
  · exact Legible.arr

theorem legible_obj_iff {members : List (String × Json)} :
    (obj members).Legible ↔ ∀ m ∈ members, m.2.Legible := by
  constructor
  · rintro ⟨⟩
    assumption
  · exact Legible.obj

theorem legible_list_iff {α : Type} {f : α → Json} {as : List α} :
    (Encoder.list f as).Legible ↔ ∀ a ∈ as, (f a).Legible := by
  rw [Encoder.list, legible_arr_iff, List.forall_mem_map]

theorem legible_option_iff {α : Type} {f : α → Json} {o : Option α} :
    (Encoder.option f o).Legible ↔ ∀ a ∈ o, (f a).Legible := by
  cases o with
  | none => simp [Encoder.option, Legible.null]
  | some a => simp [Encoder.option]

theorem fitsInteger_toNat (n : UInt32) : FitsInteger n.toNat := by
  have hbound : n.toNat ≤ maxSignificand :=
    Nat.le_trans (Nat.le_of_lt n.toNat_lt) (by decide)
  exact ⟨by omega, by omega⟩

theorem legible_loc (l : Loc) : l.toJson.Legible := by
  rw [Loc.toJson, legible_arr_iff]
  simp [Legible.int (fitsInteger_toNat l.line), Legible.int (fitsInteger_toNat l.column)]

theorem legible_node_iff {l : Loc} {members : List (String × Json)} :
    (Encoder.node l members).Legible ↔ ∀ m ∈ members, m.2.Legible := by
  rw [Encoder.node, legible_obj_iff, List.forall_mem_cons]
  exact and_iff_right (legible_loc l)

theorem legible_constant {c : Constant} (h : ∀ x, c = .float x → ReadsBack x) : c.toJson.Legible := by
  cases c with
  | null => exact .null
  | bool b => exact .bool b
  | int n =>
    have hleast : -(Nat.pow 2 63 : Nat) ≤ n.toInt := n.minValue_le_toInt
    have hgreatest : n.toInt ≤ (Nat.pow 2 63 : Nat) := Int.le_of_lt n.toInt_lt
    have hpow : Nat.pow 2 63 ≤ maxSignificand := by decide
    exact .int ⟨hleast, by omega⟩
  | float x => exact .float (h x rfl)
  | str s => exact .str s

end Json

open Json

section Legible

variable {ε : Type} {encode : ε → Json}

theorem Param.legible_toJson (p : Param) : p.toJson.Legible :=
  legible_node_iff.mpr (List.forall_mem_singleton.mpr (.str p.name))

theorem Params.legible_toJson {params : Params ε} (h : ∀ c ∈ params.defaults, (encode c).Legible) :
    (params.map encode).toJson.Legible := by
  have hparams : ∀ ps : List Param, (Encoder.list Param.toJson ps).Legible :=
    fun ps => legible_list_iff.mpr fun p _ => p.legible_toJson
  have hoption : ∀ o : Option Param, (Encoder.option Param.toJson o).Legible :=
    fun o => legible_option_iff.mpr fun p _ => p.legible_toJson
  rw [toJson, legible_node_iff]
  simp [hparams, hoption, Params.map, legible_arr_iff]
  exact h

theorem Keyword.legible_toJson {k : Keyword ε} (h : (encode k.value).Legible) :
    (k.map encode).toJson.Legible := by
  have harg : (Encoder.option .str k.arg).Legible := legible_option_iff.mpr fun s _ => .str s
  rw [toJson, legible_node_iff]
  simp [map, harg, h]

theorem Comprehension.legible_toJson {g : Comprehension ε}
    (h : ∀ c ∈ g.children, (encode c).Legible) : (g.map encode).toJson.Legible := by
  rw [toJson, legible_node_iff]
  simp_all [map, children, legible_arr_iff]

/-- A node is legible if its children are, and its floating point number if it is a constant. -/
theorem ExprForm.legible_toNode {form : ExprForm ε} {l : Loc}
    (hfloat : ∀ x ∈ form.float?, ReadsBack x) (h : ∀ c ∈ form.children, (encode c).Legible) :
    ((form.map encode).toNode l).Legible := by
  have hgenerators : ∀ gs : List (Comprehension ε),
      (∀ g ∈ gs, ∀ c ∈ g.children, c ∈ form.children) →
      (Encoder.list Comprehension.toJson (gs.map (Comprehension.map encode))).Legible := by
    intro gs hgs
    rw [legible_list_iff, List.forall_mem_map]
    exact fun g hg => Comprehension.legible_toJson fun c hc => h c (hgs g hg c hc)
  rw [toNode, legible_node_iff, List.forall_mem_cons]
  refine ⟨.str _, ?_⟩
  cases form with
  | constant value =>
    refine List.forall_mem_singleton.mpr (legible_constant ?_)
    rintro x rfl
    exact hfloat x rfl
  | lambda params body =>
    have hparams := Params.legible_toJson fun c hc => h c (List.mem_append_left _ hc)
    simp [map, toMembers, hparams, h body (by simp [children])]
  | dict keys values =>
    have hkeys : (Encoder.list (Encoder.option id) (keys.map (Option.map encode))).Legible := by
      rw [legible_list_iff, List.forall_mem_map]
      intro o ho
      rw [Decoder.option_id_map, legible_option_iff]
      exact fun c hc => h c (List.mem_append_left _ (List.mem_flatMap.mpr ⟨o, ho, by simpa using hc⟩))
    simp [map, toMembers, hkeys, legible_arr_iff]
    exact fun c hc => h c (List.mem_append_right _ hc)
  | call func args keywords =>
    have hkeywords : (Encoder.list Keyword.toJson (keywords.map (Keyword.map encode))).Legible := by
      rw [legible_list_iff, List.forall_mem_map]
      exact fun k hk => Keyword.legible_toJson
        (h k.value (List.mem_append_right _ (List.mem_map_of_mem hk)))
    simp_all [map, toMembers, children, legible_arr_iff]
  | listComp elt generators =>
    have hgenerators := hgenerators generators fun g hg c hc => by
      simp only [children, List.mem_cons, List.mem_flatMap]
      exact Or.inr ⟨g, hg, hc⟩
    simp_all [map, toMembers, children]
  | dictComp key value generators =>
    have hgenerators := hgenerators generators fun g hg c hc => by
      simp only [children, List.mem_cons, List.mem_flatMap]
      exact Or.inr (Or.inr ⟨g, hg, hc⟩)
    simp_all [map, toMembers, children]
  | generatorExp elt generators =>
    have hgenerators := hgenerators generators fun g hg c hc => by
      simp only [children, List.mem_cons, List.mem_flatMap]
      exact Or.inr ⟨g, hg, hc⟩
    simp_all [map, toMembers, children]
  | _ =>
    simp_all [map, toMembers, children, legible_arr_iff, legible_list_iff, legible_option_iff,
      Encoder.variant, Legible.str]

end Legible

theorem Expr.legible_toJson (e : Expr) (h : ∀ x ∈ e.floats, ReadsBack x) : e.toJson.Legible := by
  induction e using Expr.ind with
  | mk l form ih =>
    rw [floats_mk, List.forall_mem_append] at h
    rw [toJson_mk]
    refine ExprForm.legible_toNode (fun x hx => h.1 x (Option.mem_toList.mpr hx)) fun c hc => ?_
    exact ih c hc fun x hx => h.2 x (List.mem_flatMap.mpr ⟨c, hc, hx⟩)

section LegibleStmt

variable {σ : Type} {encode : σ → Json}

theorem Handler.legible_toJson {g : Handler σ Expr} (htype : ∀ e ∈ g.type, e.toJson.Legible)
    (hbody : ∀ s ∈ g.body, (encode s).Legible) : (g.map encode).toJson.Legible := by
  have hname : (Encoder.option .str g.name).Legible := legible_option_iff.mpr fun s _ => .str s
  rw [toJson, legible_node_iff]
  simp_all [map, legible_arr_iff, legible_option_iff]

theorem StmtForm.legible_toNode {form : StmtForm σ Expr} {l : Loc}
    (hexprs : ∀ e ∈ form.exprs, e.toJson.Legible) (h : ∀ s ∈ form.children, (encode s).Legible) :
    ((form.map encode).toNode l).Legible := by
  rw [toNode, legible_node_iff, List.forall_mem_cons]
  refine ⟨.str _, ?_⟩
  cases form with
  | functionDef name params body decorators =>
    have hparams : params.exprToJson.Legible :=
      Params.legible_toJson fun e he => hexprs e (List.mem_append_left _ he)
    simp_all [map, toMembers, children, exprs, legible_arr_iff, legible_list_iff, Legible.str]
  | tryStmt body handlers orelse final =>
    have hhandlers : (Encoder.list Handler.toJson (handlers.map (Handler.map encode))).Legible := by
      rw [legible_list_iff, List.forall_mem_map]
      intro g hg
      refine Handler.legible_toJson (fun e he => hexprs e ?_) fun s hs => h s ?_
      · exact List.mem_flatMap.mpr ⟨g, hg, Option.mem_toList.mpr he⟩
      · have hbody : s ∈ handlers.flatMap Handler.body := List.mem_flatMap.mpr ⟨g, hg, hs⟩
        simp [children, hbody]
    simp_all [map, toMembers, children, legible_arr_iff]
  | withStmt items body =>
    have hitems : (Encoder.list WithItem.toJson items).Legible := by
      rw [legible_list_iff]
      intro w hw
      have hcontext := hexprs w.context (List.mem_flatMap.mpr ⟨w, hw, List.mem_cons_self⟩)
      have hvars : (Encoder.option Expr.toJson w.vars).Legible :=
        legible_option_iff.mpr fun e he => hexprs e
          (List.mem_flatMap.mpr ⟨w, hw, List.mem_cons_of_mem _ (Option.mem_toList.mpr he)⟩)
      simp [WithItem.toJson, legible_obj_iff, hcontext, hvars]
    simp_all [map, toMembers, children, legible_arr_iff]
  | importStmt names =>
    have hnames : (Encoder.list Alias.toJson names).Legible := by
      rw [legible_list_iff]
      intro a _
      have hasName : (Encoder.option .str a.asName).Legible :=
        legible_option_iff.mpr fun s _ => .str s
      simp [Alias.toJson, legible_obj_iff, Legible.str, hasName]
    simp [map, toMembers, hnames]
  | _ =>
    simp_all [map, toMembers, children, exprs, legible_arr_iff, legible_list_iff, legible_option_iff,
      Encoder.variant, Legible.str]

end LegibleStmt

theorem Stmt.legible_toJson (s : Stmt) (h : ∀ x ∈ s.floats, ReadsBack x) : s.toJson.Legible := by
  induction s using Stmt.ind with
  | mk l form ih =>
    rw [floats_mk, List.forall_mem_append] at h
    rw [toJson_mk]
    refine StmtForm.legible_toNode (fun e he => ?_) fun c hc => ?_
    · exact e.legible_toJson fun x hx => h.1 x (List.mem_flatMap.mpr ⟨e, he, hx⟩)
    · exact ih c hc fun x hx => h.2 x (List.mem_flatMap.mpr ⟨c, hc, hx⟩)

/-! ### Modules -/

theorem Module.legible_toJson (m : Module) (h : ∀ x ∈ m.floats, ReadsBack x) : m.toJson.Legible := by
  refine legible_node_iff.mpr (List.forall_mem_singleton.mpr (legible_list_iff.mpr fun s hs => ?_))
  exact s.legible_toJson fun x hx => h x (List.mem_flatMap.mpr ⟨s, hs, hx⟩)

theorem Module.ofJson_toJson (m : Module) : Module.ofJson m.toJson = .ok m := by
  have hbody : Decoder.listOf Stmt.ofJson (Encoder.list Stmt.toJson m.body) = .ok m.body :=
    Decoder.listOf_list fun s _ => s.ofJson_toJson
  exact Decoder.node_node ((RecordReader.reads_required hbody).map _) (by simp)

theorem readText_chars {j : Json} (hj : j.Legible) (hdepth : j.depth ≤ nestingLimit) :
    readText j.chars = .ok j := by
  have hread := readValue_chars hj hdepth (Nat.le_succ _) endsNumber_nil
  rw [List.append_nil] at hread
  exact bind_ok hread _

/-- **A module is loaded back from its text**, with every location, if the spelling of each of its
    floating point numbers is read back and the text is not nested too deep.  (The first excludes
    numbers that are not finite: they are spelled as null.) -/
theorem Module.load_text (m : Module) (hfloats : ∀ x ∈ m.floats, ReadsBack x)
    (hdepth : m.toJson.depth ≤ nestingLimit) : Module.load m.toJson.text = .ok m := by
  refine Module.load_eq_ok_iff.mpr ⟨m.toJson, ?_, m.ofJson_toJson⟩
  rw [text, String.toList_ofList]
  exact readText_chars (m.legible_toJson hfloats) hdepth

/-- A module with a key that is left out, a string that needs escapes and numbers of both kinds. -/
def sampleModule : Module :=
  ⟨⟨1, 0⟩, [⟨⟨1, 4⟩, .assign [⟨⟨1, 4⟩, .name "x"⟩] ⟨⟨1, 8⟩, .dict
    [none, some ⟨⟨2, 0⟩, .constant (.str "a\n\"é")⟩]
    [⟨⟨1, 9⟩, .constant (.float 1.5)⟩, ⟨⟨2, 5⟩, .constant (.int (-7))⟩]⟩⟩]⟩

theorem readsBack_three_halves : ReadsBack 1.5 := by
  have htext : floatLayout.text 1.5 = "1.5" := by decide +kernel
  have hvalue : (Scaled.mk 15 (-1)).toFloat? = some 1.5 := by decide +kernel
  have hread : readScalar "1.5".toList = finishFloat false ⟨15, -1⟩ [] := rfl
  rw [ReadsBack, htext, hread, finishFloat, hvalue]
  rfl

theorem Module.load_text_sample :
    (∀ x ∈ sampleModule.floats, ReadsBack x) ∧ sampleModule.toJson.depth ≤ nestingLimit ∧
      Module.load sampleModule.toJson.text = .ok sampleModule := by
  have hfloats : ∀ x ∈ sampleModule.floats, ReadsBack x :=
    List.forall_mem_singleton.mpr readsBack_three_halves
  have hdepth : sampleModule.toJson.depth ≤ nestingLimit := by decide +kernel
  exact ⟨hfloats, hdepth, Module.load_text sampleModule hfloats hdepth⟩

end ScriptTree
