/-
  ScriptTree/Proofs/TreeCodec.lean
  ================================
  **A tree is read back from the JSON value written for it** (`Expr.ofJson_toJson`,
  `Stmt.ofJson_toJson`).  What is proved about a kind of node is about one layer of syntax, with what is
  known of its children as a hypothesis: its fields are read back (`ExprForm.reads_toMembers`,
  `StmtForm.reads_toMembers`) and its children are nested less deep than the node is.  Induction over
  the tree does the rest.
-/
import ScriptTree.Proofs.JsonText
import ScriptTree.Proofs.RecordFields
import ScriptTree.Proofs.RecordLaws
import ScriptTree.Tree.Encode

namespace ScriptTree

open Decoder RecordReader

/-! ### Scalars, lists and alternatives -/

namespace Decoder

variable {α : Type} {decode : Decoder α} {encode : α → Json}

theorem items_map {as : List α} (h : ∀ a ∈ as, decode (encode a) = .ok a) :
    items decode (as.map encode) = .ok as := by
  induction as with
  | nil => rfl
  | cons a as ih =>
    rw [List.map_cons, items, h a List.mem_cons_self, ih fun b hb => h b (List.mem_cons_of_mem a hb)]
    rfl

theorem listOf_list {as : List α} (h : ∀ a ∈ as, decode (encode a) = .ok a) :
    listOf decode (Encoder.list encode as) = .ok as :=
  items_map h

/-- The same where the items are changed before they are written. -/
theorem listOf_list_map {β : Type} {f : α → β} {write : β → Json} {as : List α}
    (h : ∀ a ∈ as, decode (write (f a)) = .ok a) :
    listOf decode (Encoder.list write (as.map f)) = .ok as := by
  rw [Encoder.list, List.map_map]
  exact items_map h

theorem option_id_map (encode : α → Json) (o : Option α) :
    Encoder.option id (o.map encode) = Encoder.option encode o := by
  cases o <;> rfl

theorem optionOf_of_ne_null {j : Json} {a : α} (hnull : j ≠ .null) (h : decode j = .ok a) :
    optionOf decode j = .ok (some a) := by
  cases j with
  | null => exact absurd rfl hnull
  | _ => simp [optionOf, h, Except.map]

theorem optionOf_option {o : Option α} (h : ∀ a ∈ o, decode (encode a) = .ok a ∧ encode a ≠ .null) :
    optionOf decode (Encoder.option encode o) = .ok o := by
  cases o with
  | none => rfl
  | some a => exact optionOf_of_ne_null (h a rfl).2 (h a rfl).1

theorem unsigned_int (n : UInt32) : unsigned (.int n.toNat) = .ok n := by
  have hbound : (n.toNat : Int) < (UInt32.size : Int) := Int.ofNat_lt.mpr n.toNat_lt
  rw [unsigned, if_pos ⟨Int.natCast_nonneg _, hbound⟩, Int.toNat_natCast, UInt32.ofNat_toNat]

theorem loc_toJson (l : Loc) : loc l.toJson = .ok l := by
  change (unsigned (.int l.line.toNat) >>= fun line => unsigned (.int l.column.toNat) >>= _) = _
  rw [unsigned_int, unsigned_int]
  rfl

theorem scalar_toJson (c : Constant) : scalar c.toJson = .ok c := by
  cases c with
  | int n =>
    have hfits : Constant.fitsInt64 n.toInt = true := by
      have hleast := n.minValue_le_toInt
      have hgreatest := n.toInt_le
      rw [Constant.fitsInt64, Bool.and_eq_true, decide_eq_true_eq, decide_eq_true_eq]
      exact ⟨hleast, hgreatest⟩
    rw [scalar, Constant.toJson, Constant.ofJson?_int, Constant.ofInt, if_pos hfits,
      Int64.ofInt_toInt]
  | _ => rfl

theorem string_str (s : String) : string (.str s) = .ok s := rfl

theorem optionOf_str (o : Option String) : optionOf string (Encoder.option .str o) = .ok o :=
  optionOf_option fun s _ => ⟨string_str s, Json.noConfusion⟩

theorem variant_variant {κ : Type} [Variant κ] (k : κ) : variant κ (Encoder.variant k) = .ok k := by
  rw [Encoder.variant, variant, variantOfName, Variant.ofName?_name]

theorem tag_variant {κ : Type} [Variant κ] (k : κ) : tag κ (Encoder.variant k) = .ok k := by
  rw [Encoder.variant, tag, variantOfName, Variant.ofName?_name]

/-! ### Nodes -/

theorem takeField_others {α : Type} {name : String} {decode : Decoder α} {found : Option α}
    {members : List (String × Json)} (h : ∀ m ∈ members, m.1 ≠ name) :
    takeField name decode found members = .ok (found, members) := by
  induction members with
  | nil => rfl
  | cons m members ih =>
    obtain ⟨key, j⟩ := m
    rw [takeField_of_ne (h (key, j) List.mem_cons_self),
      ih fun k hk => h k (List.mem_cons_of_mem _ hk)]
    rfl

/-- A field that stands in front of the other members is taken out. -/
theorem takeField_first {α : Type} {name : String} {decode : Decoder α} {j : Json} {a : α}
    {members : List (String × Json)} (hdecode : decode j = .ok a)
    (h : ∀ m ∈ members, m.1 ≠ name) :
    takeField name decode none ((name, j) :: members) = .ok (some a, members) := by
  rw [takeField_none]
  exact (bind_ok hdecode _).trans (takeField_others h)

theorem splitLoc_node (l : Loc) {members : List (String × Json)} (h : ∀ m ∈ members, m.1 ≠ "loc") :
    splitLoc (("loc", l.toJson) :: members) = .ok (l, members) :=
  bind_ok (takeField_first (loc_toJson l) h) _

theorem members_node (l : Loc) (ms : List (String × Json)) :
    members (Encoder.node l ms) = .ok (("loc", l.toJson) :: ms) := rfl

/-- A node without a choice of kinds is read back if its fields are. -/
theorem node_node {α : Type} {fields : Loc → RecordReader α} {l : Loc}
    {members : List (String × Json)} {a : α} (hfields : (fields l).Reads members a)
    (h : ∀ m ∈ members, m.1 ≠ "loc") : node fields (Encoder.node l members) = .ok a := by
  have hmembers := members_node l members
  have hsplit := splitLoc_node l h
  exact (bind_ok hmembers _).trans ((bind_ok hsplit _).trans hfields.read)

theorem splitLoc_tagged {κ : Type} [Variant κ] (l : Loc) (k : κ) {members : List (String × Json)}
    (h : ∀ m ∈ members, m.1 ≠ "loc") :
    splitLoc (("loc", l.toJson) :: (tagKey, Encoder.variant k) :: members) =
      .ok (l, (tagKey, Encoder.variant k) :: members) :=
  splitLoc_node l (List.forall_mem_cons.mpr ⟨by simp [tagKey], h⟩)

theorem splitTag_node {κ : Type} [Variant κ] (k : κ) {members : List (String × Json)}
    (h : ∀ m ∈ members, m.1 ≠ tagKey) :
    splitTag κ ((tagKey, Encoder.variant k) :: members) = .ok (k, members) :=
  bind_ok (takeField_first (tag_variant k) h) _

end Decoder

/-! ### Expressions -/

theorem Param.reads (p : Param) : (Param.fields p.loc).Reads [("arg", .str p.name)] p :=
  (reads_required (string_str p.name)).map _

theorem Param.node_toJson (p : Param) : node Param.fields p.toJson = .ok p :=
  node_node p.reads (by simp)

theorem Param.toJson_ne_null (p : Param) : p.toJson ≠ .null := by
  intro h
  cases h

/-- What is known of a child: it is read back, and what is written for it is not the mark of a child
    that is left out. -/
def Decoder.Inverts {ε : Type} (decode : Decoder ε) (encode : ε → Json) (c : ε) : Prop :=
  decode (encode c) = .ok c ∧ encode c ≠ .null

section Children

variable {ε : Type} {child : Decoder ε} {encode : ε → Json}

theorem Params.node_toJson (params : Params ε) (h : ∀ c ∈ params.defaults, child.Inverts encode c) :
    node (Params.fields child) (params.map encode).toJson = .ok params := by
  have hparams : ∀ ps : List Param, listOf (node Param.fields) (Encoder.list Param.toJson ps) = .ok ps :=
    fun ps => listOf_list fun p _ => p.node_toJson
  have hoption : ∀ o : Option Param,
      optionOf (node Param.fields) (Encoder.option Param.toJson o) = .ok o :=
    fun o => optionOf_option fun p _ => ⟨p.node_toJson, p.toJson_ne_null⟩
  have hdefaults : listOf child (.arr (params.defaults.map encode)) = .ok params.defaults :=
    listOf_list fun c hc => (h c hc).1
  refine node_node ?_ (by simp)
  refine (((((((reads_withDefault (hparams params.posOnly)).map _).seq
    (reads_withDefault (hparams params.args)) ?_).seq
    (reads_withDefault (hoption params.rest)) ?_).seq
    (reads_withDefault (hparams params.kwOnly)) ?_).seq
    (reads_withDefault (hoption params.kwRest)) ?_).seq
    (reads_withDefault hdefaults) ?_)
  all_goals simp

theorem Keyword.node_toJson {k : Keyword ε} (h : child.Inverts encode k.value) :
    node (Keyword.fields child) (k.map encode).toJson = .ok k := by
  refine node_node ?_ (by simp)
  refine ((reads_withDefault (optionOf_str k.arg)).map _).seq (reads_required h.1) ?_
  simp

theorem Comprehension.node_toJson {g : Comprehension ε}
    (h : ∀ c ∈ g.children, child.Inverts encode c) :
    node (Comprehension.fields child) (g.map encode).toJson = .ok g := by
  have hifs : listOf child (.arr (g.ifs.map encode)) = .ok g.ifs :=
    listOf_list fun c hc => (h c (by simp [children, hc])).1
  refine node_node ?_ (by simp)
  refine (((reads_required (h g.target (by simp [children])).1).map _).seq
    (reads_required (h g.iter (by simp [children])).1) ?_).seq (reads_withDefault hifs) ?_
  all_goals simp

/-- **The fields of an expression are read back**, if its children are. -/
theorem ExprForm.reads_toMembers {form : ExprForm ε} (h : ∀ c ∈ form.children, child.Inverts encode c) :
    (ExprForm.fields child form.kind).Reads (form.map encode).toMembers form := by
  have hone : ∀ c ∈ form.children, child (encode c) = .ok c := fun c hc => (h c hc).1
  have hlist : ∀ cs : List ε, (∀ c ∈ cs, c ∈ form.children) →
      listOf child (.arr (cs.map encode)) = .ok cs :=
    fun cs hcs => listOf_list fun c hc => hone c (hcs c hc)
  have hoption : ∀ o : Option ε, (∀ c ∈ o, c ∈ form.children) →
      optionOf child (Encoder.option id (o.map encode)) = .ok o := by
    intro o ho
    rw [option_id_map]
    exact optionOf_option fun c hc => h c (ho c hc)
  have hgenerators : ∀ gs : List (Comprehension ε),
      (∀ g ∈ gs, ∀ c ∈ g.children, c ∈ form.children) →
      listOf (node (Comprehension.fields child))
        (Encoder.list Comprehension.toJson (gs.map (Comprehension.map encode))) = .ok gs :=
    fun gs hgs => listOf_list_map fun g hg => Comprehension.node_toJson fun c hc =>
      h c (hgs g hg c hc)
  cases form with
  | boolOp op values =>
    refine ((reads_required (variant_variant op)).map _).seq
      (reads_required (hlist values fun c hc => hc)) ?_
    simp
  | binOp left op right =>
    refine (((reads_required (hone left (by simp [children]))).map _).seq
      (reads_required (variant_variant op)) ?_).seq
      (reads_required (hone right (by simp [children]))) ?_
    all_goals simp
  | unaryOp op operand =>
    refine ((reads_required (variant_variant op)).map _).seq
      (reads_required (hone operand (by simp [children]))) ?_
    simp
  | lambda params body =>
    have hparams := Params.node_toJson params fun c hc => h c (by simp [children, hc])
    refine ((reads_required hparams).map _).seq (reads_required (hone body (by simp [children]))) ?_
    simp
  | ifExp test body orelse =>
    refine (((reads_required (hone test (by simp [children]))).map _).seq
      (reads_required (hone body (by simp [children]))) ?_).seq
      (reads_required (hone orelse (by simp [children]))) ?_
    all_goals simp
  | dict keys values =>
    have hkeys : listOf (optionOf child)
        (Encoder.list (Encoder.option id) (keys.map (Option.map encode))) = .ok keys :=
      listOf_list_map fun o ho => hoption o fun c hc =>
        List.mem_append_left _ (List.mem_flatMap.mpr ⟨o, ho, by simpa using hc⟩)
    refine ((reads_required hkeys).map _).seq
      (reads_required (hlist values fun c hc => List.mem_append_right _ hc)) ?_
    simp
  | compare left ops comparators =>
    have hops : listOf (variant CmpOperator) (Encoder.list Encoder.variant ops) = .ok ops :=
      listOf_list fun op _ => variant_variant op
    refine (((reads_required (hone left (by simp [children]))).map _).seq
      (reads_required hops) ?_).seq
      (reads_required (hlist comparators fun c hc => List.mem_cons_of_mem _ hc)) ?_
    all_goals simp
  | call func args keywords =>
    have hkeywords : listOf (node (Keyword.fields child))
        (Encoder.list Keyword.toJson (keywords.map (Keyword.map encode))) = .ok keywords :=
      listOf_list_map fun k hk => Keyword.node_toJson
        (h k.value (List.mem_append_right _ (List.mem_map_of_mem hk)))
    refine (((reads_required (hone func (by simp [children]))).map _).seq
      (reads_withDefault (hlist args fun c hc => by simp [children, hc])) ?_).seq
      (reads_withDefault hkeywords) ?_
    all_goals simp
  | constant value => exact (reads_required (scalar_toJson value)).map _
  | «attribute» value attr =>
    refine ((reads_required (hone value (by simp [children]))).map _).seq
      (reads_required (string_str attr)) ?_
    simp
  | subscript value index =>
    refine ((reads_required (hone value (by simp [children]))).map _).seq
      (reads_required (hone index (by simp [children]))) ?_
    simp
  | name id => exact (reads_required (string_str id)).map _
  | list elts => exact (reads_required (hlist elts fun c hc => hc)).map _
  | starred value => exact (reads_required (hone value (by simp [children]))).map _
  | tuple elts => exact (reads_required (hlist elts fun c hc => hc)).map _
  | set elts => exact (reads_required (hlist elts fun c hc => hc)).map _
  | listComp elt generators =>
    refine ((reads_required (hone elt (by simp [children]))).map _).seq
      (reads_required (hgenerators generators fun g hg c hc =>
        List.mem_cons_of_mem _ (List.mem_flatMap.mpr ⟨g, hg, hc⟩))) ?_
    simp
  | dictComp key value generators =>
    refine (((reads_required (hone key (by simp [children]))).map _).seq
      (reads_required (hone value (by simp [children]))) ?_).seq
      (reads_required (hgenerators generators fun g hg c hc =>
        List.mem_cons_of_mem _ (List.mem_cons_of_mem _ (List.mem_flatMap.mpr ⟨g, hg, hc⟩)))) ?_
    all_goals simp
  | generatorExp elt generators =>
    refine ((reads_required (hone elt (by simp [children]))).map _).seq
      (reads_required (hgenerators generators fun g hg c hc =>
        List.mem_cons_of_mem _ (List.mem_flatMap.mpr ⟨g, hg, hc⟩))) ?_
    simp
  | await value => exact (reads_required (hone value (by simp [children]))).map _
  | yield value =>
    exact (reads_withDefault (hoption value fun c hc => by simpa [children] using hc)).map _
  | namedExpr target value =>
    refine ((reads_required (hone target (by simp [children]))).map _).seq
      (reads_required (hone value (by simp [children]))) ?_
    simp
  | slice lower upper step =>
    refine (((reads_withDefault (hoption lower fun c hc => ?_)).map _).seq
      (reads_withDefault (hoption upper fun c hc => ?_)) ?_).seq
      (reads_withDefault (hoption step fun c hc => ?_)) ?_
    all_goals simp_all [children]
  | joinedStr values => exact (reads_required (hlist values fun c hc => hc)).map _

end Children

/-! ### Depths -/

namespace Json

theorem depth_lt_arr {items : List Json} {j : Json} (h : j ∈ items) : j.depth < (arr items).depth :=
  Nat.lt_succ_of_le (depthItems_le_iff.mp (Nat.le_refl _) j h)

theorem depth_lt_obj {members : List (String × Json)} {m : String × Json} (h : m ∈ members) :
    m.2.depth < (obj members).depth :=
  Nat.lt_succ_of_le (depthMembers_le_iff.mp (Nat.le_refl _) m h)

end Json

section Depth

variable {ε : Type} {encode : ε → Json} {n : Nat}

theorem depth_list {cs : List ε} (h : (Json.arr (cs.map encode)).depth < n) :
    ∀ c ∈ cs, (encode c).depth < n :=
  fun _ hc => Nat.lt_trans (Json.depth_lt_arr (List.mem_map_of_mem hc)) h

theorem depth_option {o : Option ε} (h : (Encoder.option id (o.map encode)).depth < n) :
    ∀ c ∈ o, (encode c).depth < n := by
  rintro c rfl
  exact h

theorem depth_params {params : Params ε} (h : (params.map encode).toJson.depth < n) :
    ∀ c ∈ params.defaults, (encode c).depth < n :=
  depth_list (Nat.lt_trans (Json.depth_lt_obj (m := ("defaults", _)) (by simp [Params.map])) h)

theorem depth_generators {gs : List (Comprehension ε)}
    (h : (Encoder.list Comprehension.toJson (gs.map (Comprehension.map encode))).depth < n) :
    ∀ g ∈ gs, ∀ c ∈ g.children, (encode c).depth < n := by
  intro g hg c hc
  have hg := Nat.lt_trans
    (Json.depth_lt_arr (List.mem_map_of_mem (List.mem_map_of_mem (f := Comprehension.map encode) hg))) h
  rcases List.mem_cons.mp hc with rfl | hc
  · exact Nat.lt_trans (Json.depth_lt_obj (m := ("target", _)) (by simp [Comprehension.map])) hg
  rcases List.mem_cons.mp hc with rfl | hc
  · exact Nat.lt_trans (Json.depth_lt_obj (m := ("iter", _)) (by simp [Comprehension.map])) hg
  · exact depth_list
      (Nat.lt_trans (Json.depth_lt_obj (m := ("ifs", _)) (by simp [Comprehension.map])) hg) c hc

/-- The children of a node are nested less deep than the node. -/
theorem ExprForm.depth_child_lt {form : ExprForm ε} {l : Loc} :
    ∀ c ∈ form.children, (encode c).depth < ((form.map encode).toNode l).depth := by
  have hmember : ∀ m ∈ (form.map encode).toMembers,
      m.2.depth < ((form.map encode).toNode l).depth :=
    fun m hm => Json.depth_lt_obj (List.mem_cons_of_mem _ (List.mem_cons_of_mem _ hm))
  generalize ((form.map encode).toNode l).depth = n at hmember ⊢
  cases form <;> simp only [map, toMembers, List.forall_mem_cons] at hmember
  case boolOp => exact depth_list hmember.2.1
  case lambda =>
    intro c hc
    rcases List.mem_append.mp hc with hc | hc
    · exact depth_params hmember.1 c hc
    · rw [List.mem_singleton.mp hc]
      exact hmember.2.1
  case dict keys values =>
    intro c hc
    rcases List.mem_append.mp hc with hc | hc
    · obtain ⟨o, ho, hc⟩ := List.mem_flatMap.mp hc
      have hkey := Nat.lt_trans (Json.depth_lt_arr (List.mem_map_of_mem
        (List.mem_map_of_mem (f := Option.map encode) ho))) hmember.1
      exact depth_option hkey c (Option.mem_toList.mp hc)
    · exact depth_list hmember.2.1 c hc
  case compare =>
    intro c hc
    rcases List.mem_cons.mp hc with rfl | hc
    · exact hmember.1
    · exact depth_list hmember.2.2.1 c hc
  case call func args keywords =>
    intro c hc
    rcases List.mem_append.mp hc with hc | hc
    · rcases List.mem_cons.mp hc with rfl | hc
      · exact hmember.1
      · exact depth_list hmember.2.1 c hc
    · obtain ⟨k, hk, rfl⟩ := List.mem_map.mp hc
      have hkeyword := Nat.lt_trans (Json.depth_lt_arr (List.mem_map_of_mem
        (List.mem_map_of_mem (f := Keyword.map encode) hk))) hmember.2.2.1
      exact Nat.lt_trans (Json.depth_lt_obj (m := ("value", _)) (by simp [Keyword.map])) hkeyword
  case list => exact depth_list hmember.1
  case tuple => exact depth_list hmember.1
  case set => exact depth_list hmember.1
  case joinedStr => exact depth_list hmember.1
  case listComp =>
    intro c hc
    rcases List.mem_cons.mp hc with rfl | hc
    · exact hmember.1
    · obtain ⟨g, hg, hc⟩ := List.mem_flatMap.mp hc
      exact depth_generators hmember.2.1 g hg c hc
  case dictComp =>
    intro c hc
    rcases List.mem_cons.mp hc with rfl | hc
    · exact hmember.1
    rcases List.mem_cons.mp hc with rfl | hc
    · exact hmember.2.1
    · obtain ⟨g, hg, hc⟩ := List.mem_flatMap.mp hc
      exact depth_generators hmember.2.2.1 g hg c hc
  case generatorExp =>
    intro c hc
    rcases List.mem_cons.mp hc with rfl | hc
    · exact hmember.1
    · obtain ⟨g, hg, hc⟩ := List.mem_flatMap.mp hc
      exact depth_generators hmember.2.1 g hg c hc
  case yield => exact fun c hc => depth_option hmember.1 c (Option.mem_toList.mp hc)
  case slice =>
    intro c hc
    rcases List.mem_append.mp hc with hc | hc
    · rcases List.mem_append.mp hc with hc | hc
      · exact depth_option hmember.1 c (Option.mem_toList.mp hc)
      · exact depth_option hmember.2.1 c (Option.mem_toList.mp hc)
    · exact depth_option hmember.2.2.1 c (Option.mem_toList.mp hc)
  all_goals simp_all [children]

end Depth

/-! ### Trees of expressions -/

theorem ExprForm.keys_toMembers (form : ExprForm Json) :
    (∀ m ∈ form.toMembers, m.1 ≠ "loc") ∧ ∀ m ∈ form.toMembers, m.1 ≠ tagKey := by
  cases form <;> simp [toMembers, tagKey]

theorem ExprForm.kind_map {ε φ : Type} (f : ε → φ) (form : ExprForm ε) :
    (form.map f).kind = form.kind := by
  cases form <;> rfl

theorem Expr.toJson_mk (l : Loc) (form : ExprForm Expr) :
    (Expr.mk l form).toJson = (form.map Expr.toJson).toNode l := Expr.fold_mk _ l form

theorem Expr.toJson_ne_null (e : Expr) : e.toJson ≠ .null := by
  obtain ⟨l, form⟩ := e
  rw [Expr.toJson_mk]
  exact Json.noConfusion

/-- The members of a node behind its location are read back, if its children are. -/
theorem Expr.ofMembers_toMembers {child : Decoder Expr} {l : Loc} {form : ExprForm Expr}
    (h : ∀ c ∈ form.children, child c.toJson = .ok c) :
    Expr.ofMembers child l ((tagKey, Encoder.variant form.kind) :: (form.map Expr.toJson).toMembers) =
      .ok ⟨l, form⟩ := by
  have htag := splitTag_node form.kind (form.map Expr.toJson).keys_toMembers.2
  have hfields := (ExprForm.reads_toMembers fun c hc => ⟨h c hc, c.toJson_ne_null⟩).read
  exact (bind_ok htag _).trans (bind_ok hfields _)

theorem Expr.decode_toJson (e : Expr) {n : Nat} (hn : e.toJson.depth ≤ n) :
    Expr.decode n e.toJson = .ok e := by
  induction e using Expr.ind generalizing n with
  | mk l form ih =>
    rw [Expr.toJson_mk] at hn ⊢
    cases n with
    | zero => exact absurd hn (Nat.not_succ_le_zero _)
    | succ n =>
      have hchildren : ∀ c ∈ form.children, Expr.decode n c.toJson = .ok c := fun c hc =>
        ih c hc (Nat.le_of_lt_succ (Nat.lt_of_lt_of_le (ExprForm.depth_child_lt c hc) hn))
      have hsplit := splitLoc_tagged l form.kind (form.map Expr.toJson).keys_toMembers.1
      rw [ExprForm.toNode, ExprForm.kind_map]
      exact (bind_ok (members_node l _) _).trans
        ((bind_ok hsplit _).trans (Expr.ofMembers_toMembers hchildren))

/-- **An expression is read back from its JSON value.** -/
theorem Expr.ofJson_toJson (e : Expr) : Expr.ofJson e.toJson = .ok e :=
  e.decode_toJson (Nat.le_refl _)

/-! ### Statements -/

theorem Decoder.pair_obj {α β γ : Type} {make : α → Option β → γ} {first : Decoder α}
    {second : Decoder β} {names : String × String} (whole two : Expected) {j k : Json} {a : α}
    {b : Option β} (hnames : names.1 ≠ names.2) (hfirst : first j = .ok a)
    (hsecond : optionOf second k = .ok b) :
    Decoder.pair make first second names whole two (.obj [(names.1, j), (names.2, k)]) =
      .ok (make a b) := by
  refine Reads.read (((reads_required hfirst).map make).seq (reads_withDefault hsecond) ?_)
  simpa using hnames

theorem Alias.decode_toJson (a : Alias) : Alias.decode a.toJson = .ok a :=
  Decoder.pair_obj _ _ (by decide) (string_str a.name) (optionOf_str a.asName)

theorem Expr.listOf_toJson (es : List Expr) :
    listOf Expr.ofJson (Encoder.list Expr.toJson es) = .ok es :=
  listOf_list fun e _ => e.ofJson_toJson

theorem Expr.optionOf_toJson (o : Option Expr) :
    optionOf Expr.ofJson (Encoder.option Expr.toJson o) = .ok o :=
  optionOf_option fun e _ => ⟨e.ofJson_toJson, e.toJson_ne_null⟩

theorem Params.node_exprToJson (params : Params Expr) :
    node (Params.fields Expr.ofJson) params.exprToJson = .ok params :=
  params.node_toJson fun e _ => ⟨e.ofJson_toJson, e.toJson_ne_null⟩

theorem WithItem.decode_toJson (w : WithItem Expr) : WithItem.decode Expr.ofJson w.toJson = .ok w :=
  Decoder.pair_obj _ _ (by decide) w.context.ofJson_toJson (Expr.optionOf_toJson w.vars)

section Statements

variable {σ : Type} {stmt : Decoder σ} {encode : σ → Json}

theorem Handler.node_toJson {h : Handler σ Expr} (hbody : ∀ s ∈ h.body, stmt (encode s) = .ok s) :
    node (Handler.fields stmt Expr.ofJson) (h.map encode).toJson = .ok h := by
  have hstmts : listOf stmt (.arr (h.body.map encode)) = .ok h.body := listOf_list hbody
  refine node_node ?_ (by simp)
  refine (((reads_withDefault (Expr.optionOf_toJson h.type)).map _).seq
    (reads_withDefault (optionOf_str h.name)) ?_).seq (reads_required hstmts) ?_
  all_goals simp

/-- **The fields of a statement are read back**, if the statements below it are. -/
theorem StmtForm.reads_toMembers {form : StmtForm σ Expr}
    (h : ∀ s ∈ form.children, stmt (encode s) = .ok s) :
    (StmtForm.fields stmt Expr.ofJson form.kind).Reads (form.map encode).toMembers form := by
  have hblock : ∀ ss : List σ, (∀ s ∈ ss, s ∈ form.children) →
      listOf stmt (.arr (ss.map encode)) = .ok ss :=
    fun ss hss => listOf_list fun s hs => h s (hss s hs)
  have hstrings : ∀ names : List String,
      listOf string (Encoder.list .str names) = .ok names :=
    fun names => listOf_list fun s _ => string_str s
  cases form with
  | functionDef name params body decorators =>
    refine ((((reads_required (string_str name)).map _).seq
      (reads_required params.node_exprToJson) ?_).seq
      (reads_required (hblock body fun s hs => hs)) ?_).seq
      (reads_withDefault (Expr.listOf_toJson decorators)) ?_
    all_goals simp
  | ret value => exact (reads_withDefault (Expr.optionOf_toJson value)).map _
  | delete targets => exact (reads_required (Expr.listOf_toJson targets)).map _
  | assign targets value =>
    refine ((reads_required (Expr.listOf_toJson targets)).map _).seq
      (reads_required value.ofJson_toJson) ?_
    simp
  | augAssign target op value =>
    refine (((reads_required target.ofJson_toJson).map _).seq
      (reads_required (variant_variant op)) ?_).seq
      (reads_required value.ofJson_toJson) ?_
    all_goals simp
  | forLoop target iter body orelse =>
    refine ((((reads_required target.ofJson_toJson).map _).seq
      (reads_required iter.ofJson_toJson) ?_).seq
      (reads_required (hblock body fun s hs => List.mem_append_left _ hs)) ?_).seq
      (reads_withDefault (hblock orelse fun s hs => List.mem_append_right _ hs)) ?_
    all_goals simp
  | whileLoop test body orelse =>
    refine (((reads_required test.ofJson_toJson).map _).seq
      (reads_required (hblock body fun s hs => List.mem_append_left _ hs)) ?_).seq
      (reads_withDefault (hblock orelse fun s hs => List.mem_append_right _ hs)) ?_
    all_goals simp
  | cond test body orelse =>
    refine (((reads_required test.ofJson_toJson).map _).seq
      (reads_required (hblock body fun s hs => List.mem_append_left _ hs)) ?_).seq
      (reads_withDefault (hblock orelse fun s hs => List.mem_append_right _ hs)) ?_
    all_goals simp
  | raise exc cause =>
    refine ((reads_withDefault (Expr.optionOf_toJson exc)).map _).seq
      (reads_withDefault (Expr.optionOf_toJson cause)) ?_
    simp
  | expr value => exact (reads_required value.ofJson_toJson).map _
  | pass => exact reads_pure _
  | breakLoop => exact reads_pure _
  | continueLoop => exact reads_pure _
  | classDef name bases body decorators =>
    refine ((((reads_required (string_str name)).map _).seq
      (reads_withDefault (Expr.listOf_toJson bases)) ?_).seq
      (reads_required (hblock body fun s hs => hs)) ?_).seq
      (reads_withDefault (Expr.listOf_toJson decorators)) ?_
    all_goals simp
  | tryStmt body handlers orelse final =>
    have hhandlers : listOf (node (Handler.fields stmt Expr.ofJson))
        (Encoder.list Handler.toJson (handlers.map (Handler.map encode))) = .ok handlers := by
      refine listOf_list_map fun g hg => Handler.node_toJson fun s hs => h s ?_
      have hbody : s ∈ handlers.flatMap Handler.body := List.mem_flatMap.mpr ⟨g, hg, hs⟩
      simp [children, hbody]
    refine ((((reads_required (hblock body fun s hs => by simp [children, hs])).map _).seq
      (reads_withDefault hhandlers) ?_).seq
      (reads_withDefault (hblock orelse fun s hs => by simp [children, hs])) ?_).seq
      (reads_withDefault (hblock final fun s hs => by simp [children, hs])) ?_
    all_goals simp
  | withStmt items body =>
    have hitems : listOf (WithItem.decode Expr.ofJson) (Encoder.list WithItem.toJson items) = .ok items :=
      listOf_list fun w _ => w.decode_toJson
    refine ((reads_required hitems).map _).seq (reads_required (hblock body fun s hs => hs)) ?_
    simp
  | assert test msg =>
    refine ((reads_required test.ofJson_toJson).map _).seq
      (reads_withDefault (Expr.optionOf_toJson msg)) ?_
    simp
  | importStmt names =>
    have hnames : listOf Alias.decode (Encoder.list Alias.toJson names) = .ok names :=
      listOf_list fun a _ => a.decode_toJson
    exact (reads_required hnames).map _
  | globalStmt names => exact (reads_required (hstrings names)).map _
  | nonlocalStmt names => exact (reads_required (hstrings names)).map _

/-- The statements below a node are nested less deep than the node. -/
theorem StmtForm.depth_child_lt {form : StmtForm σ Expr} {l : Loc} :
    ∀ s ∈ form.children, (encode s).depth < ((form.map encode).toNode l).depth := by
  have hmember : ∀ m ∈ (form.map encode).toMembers,
      m.2.depth < ((form.map encode).toNode l).depth :=
    fun m hm => Json.depth_lt_obj (List.mem_cons_of_mem _ (List.mem_cons_of_mem _ hm))
  generalize ((form.map encode).toNode l).depth = n at hmember ⊢
  cases form <;> simp only [map, toMembers, List.forall_mem_cons] at hmember
  case functionDef => exact depth_list hmember.2.2.1
  case classDef => exact depth_list hmember.2.2.1
  case withStmt => exact depth_list hmember.2.1
  case forLoop =>
    exact List.forall_mem_append.mpr ⟨depth_list hmember.2.2.1, depth_list hmember.2.2.2.1⟩
  case whileLoop =>
    exact List.forall_mem_append.mpr ⟨depth_list hmember.2.1, depth_list hmember.2.2.1⟩
  case cond =>
    exact List.forall_mem_append.mpr ⟨depth_list hmember.2.1, depth_list hmember.2.2.1⟩
  case tryStmt body handlers orelse final =>
    have hhandlers : ∀ s ∈ handlers.flatMap Handler.body, (encode s).depth < n := by
      intro s hs
      obtain ⟨g, hg, hs⟩ := List.mem_flatMap.mp hs
      have hhandler := Nat.lt_trans (Json.depth_lt_arr (List.mem_map_of_mem
        (List.mem_map_of_mem (f := Handler.map encode) hg))) hmember.2.1
      exact depth_list
        (Nat.lt_trans (Json.depth_lt_obj (m := ("body", _)) (by simp [Handler.map])) hhandler) s hs
    exact List.forall_mem_append.mpr ⟨List.forall_mem_append.mpr ⟨List.forall_mem_append.mpr
      ⟨depth_list hmember.1, hhandlers⟩, depth_list hmember.2.2.1⟩, depth_list hmember.2.2.2.1⟩
  all_goals simp [children]

end Statements

/-! ### Trees of statements -/

theorem StmtForm.keys_toMembers (form : StmtForm Json Expr) :
    (∀ m ∈ form.toMembers, m.1 ≠ "loc") ∧ ∀ m ∈ form.toMembers, m.1 ≠ tagKey := by
  cases form <;> simp [toMembers, tagKey]

theorem StmtForm.kind_map {σ τ ε : Type} (f : σ → τ) (form : StmtForm σ ε) :
    (form.map f).kind = form.kind := by
  cases form <;> rfl

theorem Stmt.toJson_mk (l : Loc) (form : StmtForm Stmt Expr) :
    (Stmt.mk l form).toJson = (form.map Stmt.toJson).toNode l := Stmt.fold_mk _ l form

theorem Stmt.ofMembers_toMembers {stmt : Decoder Stmt} {l : Loc} {form : StmtForm Stmt Expr}
    (h : ∀ s ∈ form.children, stmt s.toJson = .ok s) :
    Stmt.ofMembers stmt Expr.ofJson l
      ((tagKey, Encoder.variant form.kind) :: (form.map Stmt.toJson).toMembers) = .ok ⟨l, form⟩ := by
  have htag := splitTag_node form.kind (form.map Stmt.toJson).keys_toMembers.2
  exact (bind_ok htag _).trans (bind_ok (StmtForm.reads_toMembers h).read _)

theorem Stmt.decode_toJson (s : Stmt) {n : Nat} (hn : s.toJson.depth ≤ n) :
    Stmt.decode n s.toJson = .ok s := by
  induction s using Stmt.ind generalizing n with
  | mk l form ih =>
    rw [Stmt.toJson_mk] at hn ⊢
    cases n with
    | zero => exact absurd hn (Nat.not_succ_le_zero _)
    | succ n =>
      have hchildren : ∀ c ∈ form.children, Stmt.decode n c.toJson = .ok c := fun c hc =>
        ih c hc (Nat.le_of_lt_succ (Nat.lt_of_lt_of_le (StmtForm.depth_child_lt c hc) hn))
      have hsplit := splitLoc_tagged l form.kind (form.map Stmt.toJson).keys_toMembers.1
      rw [StmtForm.toNode, StmtForm.kind_map]
      exact (bind_ok (members_node l _) _).trans
        ((bind_ok hsplit _).trans (Stmt.ofMembers_toMembers hchildren))

/-- **A statement is read back from its JSON value.** -/
theorem Stmt.ofJson_toJson (s : Stmt) : Stmt.ofJson s.toJson = .ok s :=
  s.decode_toJson (Nat.le_refl _)

end ScriptTree
