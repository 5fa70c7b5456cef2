/-
  ScriptTree/Proofs/SameContent.lean
  ==================================
  **Loading depends on the content of a tree only** (`Module.ofJson_iff_of_sameContent` for values,
  `Module.load_iff_of_sameContent` for texts).  Two readers are alike on a shape if they come to the
  same on values that differ by at most one edit (`AlikeOn`).  This is shown for the readers of
  scalars, lists and options, then for records from their fields, and by induction for expressions
  and statements.

  Readers of trees recurse over the depth of a value, and an edit may change the depth.  Being alike
  is therefore a relation between two readers, each good for values up to its own depth.
-/
import ScriptTree.Proofs.Loading
import ScriptTree.Proofs.Schema

namespace ScriptTree

open Decoder RecordReader

/-- The readers come to the same on values of a shape that are equal or differ by one edit, if these
    are nested no deeper than given. -/
def AlikeOn {α : Type} (n n' : Nat) (s : Shape) (d d' : Decoder α) : Prop :=
  ∀ j j', EditOrSame s j j' → j.depth ≤ n → j'.depth ≤ n' → (d j).toOption = (d' j').toOption

variable {n n' : Nat} {α β : Type} {s : Shape} {d d' : Decoder α}

theorem alikeOn_of_cases (hscalar : ∀ j, j.depth = 0 → (d j).toOption = (d' j).toOption)
    (harr : ∀ js js', List.Forall₂ (EditOrSame s.item) js js' → (∀ j ∈ js, j.depth ≤ n) →
      (∀ j ∈ js', j.depth ≤ n') → (d (.arr js)).toOption = (d' (.arr js')).toOption)
    (hobj : ∀ ms ms', EditOrSame s (.obj ms) (.obj ms') → (Json.obj ms).depth ≤ n →
      (Json.obj ms').depth ≤ n' → (d (.obj ms)).toOption = (d' (.obj ms')).toOption) :
    AlikeOn n n' s d d' := by
  intro j j' h hn hn'
  rcases h.cases with ⟨rfl, hdepth⟩ | ⟨js, js', rfl, rfl, hitems⟩ | ⟨ms, ms', rfl, rfl⟩
  · exact hscalar j hdepth
  · refine harr js js' hitems (fun k hk => ?_) fun k hk => ?_
    · exact Nat.le_trans (Nat.le_of_lt (Json.depth_lt_arr hk)) hn
    · exact Nat.le_trans (Nat.le_of_lt (Json.depth_lt_arr hk)) hn'
  · exact hobj ms ms' h hn hn'

/-! ### Atoms -/

/-- A value that no edit changes where it is taken as a whole. -/
def Frozen (j : Json) : Prop := ∀ j', Edit .atom j j' ∨ Edit .atom j' j → j' = j

theorem alikeOn_of_frozen (h : ∀ j a, d j = .ok a → Frozen j) : AlikeOn n n' .atom d d := by
  intro j j' hedit _ _
  rcases hedit with - | hedit
  · rfl
  · cases hj : d j with
    | ok a => rw [h j a hj j' (Or.inl hedit), hj]
    | error e =>
      cases hj' : d j' with
      | error e' => rfl
      | ok a =>
        rw [h j' a hj' j (Or.inr hedit), hj'] at hj
        cases hj

theorem frozen_of_depth {j : Json} (h : j.depth = 0) : Frozen j := by
  rintro j' (hedit | hedit)
  · exact (EditOrSame.eq_of_depth (.single hedit) (Or.inl h)).symm
  · exact EditOrSame.eq_of_depth (.single hedit) (Or.inr h)

theorem frozen_arr {js : List Json} (h : ∀ j ∈ js, Frozen j) : Frozen (.arr js) := by
  generalize hv : Json.arr js = v
  rintro j' (hedit | hedit)
  · cases hedit with
    | @inItem _ front back k k' hk =>
      cases hv
      have hsame : k' = k := h k (by simp) k' (Or.inl hk)
      rw [hsame]
    | _ => cases hv
  · cases hedit with
    | @inItem _ front back k k' hk =>
      cases hv
      have hsame : k = k' := h k' (by simp) k (Or.inr hk)
      rw [hsame]
    | _ => cases hv

theorem frozen_obj_nil : Frozen (.obj []) := by
  generalize hv : Json.obj [] = v
  rintro j' (hedit | hedit)
  · cases hedit with
    | permute hperm =>
      cases hv
      rw [hperm.symm.eq_nil]
    | addUnknown hschema _ => cases hschema
    | addDefault hschema _ _ _ => cases hschema
    | _ => cases hv
  · cases hedit with
    | permute hperm =>
      cases hv
      rw [hperm.eq_nil]
    | _ => cases hv

theorem frozen_obj_one {key : String} {j : Json} (h : Frozen j) : Frozen (.obj [(key, j)]) := by
  generalize hv : Json.obj [(key, j)] = v
  rintro j' (hedit | hedit)
  · cases hedit with
    | permute hperm =>
      cases hv
      rw [List.singleton_perm.mp hperm]
    | addUnknown hschema _ => cases hschema
    | addDefault hschema _ _ _ => cases hschema
    | @inMember _ rest _ _ k hk =>
      cases hv
      have hsame : k = j := h k (Or.inl hk)
      rw [hsame]
    | inItem _ => cases hv
  · cases hedit with
    | permute hperm =>
      cases hv
      rw [List.perm_singleton.mp hperm]
    | addUnknown hschema _ => cases hschema
    | addDefault hschema _ _ _ => cases hschema
    | @inMember _ rest _ k _ hk =>
      cases hv
      have hsame : k = j := h k (Or.inr hk)
      rw [hsame]
    | inItem _ => cases hv

theorem alikeOn_string : AlikeOn n n' .atom string string := by
  apply alikeOn_of_frozen
  intro j a hj
  cases j with
  | str t => exact frozen_of_depth rfl
  | _ => cases hj

theorem alikeOn_scalar : AlikeOn n n' .atom scalar scalar := by
  apply alikeOn_of_frozen
  intro j a hj
  cases j with
  | arr js => cases hj
  | obj ms => cases hj
  | _ => exact frozen_of_depth rfl

theorem alikeOn_tag (κ : Type) [Variant κ] : AlikeOn n n' .atom (tag κ) (tag κ) := by
  apply alikeOn_of_frozen
  intro j a hj
  cases j with
  | arr js => cases hj
  | obj ms => cases hj
  | _ => exact frozen_of_depth rfl

theorem frozen_of_unit {j : Json} {a : Unit} (h : Decoder.unit j = .ok a) : Frozen j := by
  unfold Decoder.unit at h
  split at h
  · exact frozen_of_depth rfl
  · exact frozen_obj_nil
  · cases h

theorem alikeOn_variant (κ : Type) [Variant κ] : AlikeOn n n' .atom (variant κ) (variant κ) := by
  apply alikeOn_of_frozen
  intro j a hj
  unfold variant at hj
  split at hj
  · exact frozen_of_depth rfl
  · obtain ⟨k, -, hj⟩ := bind_eq_ok_iff.mp hj
    obtain ⟨u, hunit, -⟩ := bind_eq_ok_iff.mp hj
    exact frozen_obj_one (frozen_of_unit hunit)
  · cases hj
  · cases hj

theorem frozen_of_unsigned {j : Json} {k : UInt32} (h : unsigned j = .ok k) : Frozen j := by
  cases j with
  | int i => exact frozen_of_depth rfl
  | _ => cases h

theorem alikeOn_loc : AlikeOn n n' .atom loc loc := by
  apply alikeOn_of_frozen
  intro j a hj
  unfold loc at hj
  split at hj
  · cases hj
  · obtain ⟨line, -, hj⟩ := bind_eq_ok_iff.mp hj
    cases hj
  · obtain ⟨line, hline, hj⟩ := bind_eq_ok_iff.mp hj
    obtain ⟨column, hcolumn, hj⟩ := bind_eq_ok_iff.mp hj
    split at hj
    · rename_i hmore
      rw [List.isEmpty_iff.mp hmore]
      apply frozen_arr
      simp [frozen_of_unsigned hline, frozen_of_unsigned hcolumn]
    · cases hj
  · cases hj

/-! ### Lists and options -/

theorem items_toOption_eq {js js' : List Json} (hd : AlikeOn n n' s d d')
    (h : List.Forall₂ (EditOrSame s) js js') (hn : ∀ j ∈ js, j.depth ≤ n)
    (hn' : ∀ j ∈ js', j.depth ≤ n') : (items d js).toOption = (items d' js').toOption := by
  induction h with
  | nil => rfl
  | cons hj _ ih =>
    rw [List.forall_mem_cons] at hn hn'
    have hfirst := hd _ _ hj hn.1 hn'.1
    have hrest := ih hn.2 hn'.2
    rw [items, items, toOption_bind, toOption_bind, hfirst]
    congr 1
    funext a
    rw [toOption_bind, toOption_bind, hrest]

theorem AlikeOn.listOf (hd : AlikeOn n n' s d d') :
    AlikeOn n n' (.list s) (Decoder.listOf d) (Decoder.listOf d') := by
  apply alikeOn_of_cases
  · intro j hj
    cases j with
    | arr js => simp [Json.depth] at hj
    | _ => rfl
  · intro js js' hitems hn hn'
    exact items_toOption_eq hd hitems hn hn'
  · intro ms ms' _ _ _
    rfl

theorem AlikeOn.optionOf (hd : AlikeOn n n' s d d') :
    AlikeOn n n' s (Decoder.optionOf d) (Decoder.optionOf d') := by
  have hother : ∀ (e : Decoder α) (j : Json), j ≠ .null →
      (Decoder.optionOf e j).toOption = (e j).toOption.map some := by
    intro e j hj
    rw [← toOption_map]
    cases j with
    | null => exact absurd rfl hj
    | _ => rfl
  intro j j' h hn hn'
  -- no edit makes a null or takes one away
  by_cases hnull : j = .null
  · subst hnull
    obtain rfl : .null = j' := h.eq_of_depth (Or.inl rfl)
    rfl
  · have hnull' : j' ≠ .null := by
      rintro rfl
      exact hnull (h.eq_of_depth (Or.inr rfl))
    rw [hother d j hnull, hother d' j' hnull', hd j j' h hn hn']

/-! ### Records -/

/-- Of one or no value a field is made alike, unless it was left out at first and then added. -/
theorem FieldStep.sole_eq {spec : FieldSpec} {js js' : List Json}
    (hd : AlikeOn n n' spec.shape d d') (h : FieldStep n n' spec js js') :
    sole d none js = sole d' none js' ∨
      ∃ j, spec.default = some j ∧ sole d none js = some none ∧
        sole d' none js' = (d' j).toOption.map some := by
  cases h with
  | absent => exact Or.inl rfl
  | one hj hn hn' =>
    left
    rw [sole_one, sole_one, hd _ _ hj hn hn']
  | repeated hjs hjs' =>
    left
    rw [sole_many d hjs, sole_many d' hjs']
  | added hdefault => exact Or.inr ⟨_, hdefault, sole_nil d, sole_one d' _⟩

theorem FieldStep.required {js js' : List Json} (hd : AlikeOn n n' s d d')
    (h : FieldStep n n' (.required s) js js') : sole d none js = sole d' none js' := by
  rcases h.sole_eq hd with heq | ⟨j, hdefault, -⟩
  · exact heq
  · cases hdefault

theorem FieldStep.withDefault {js js' : List Json} {j : Json} {a : α} (hd : AlikeOn n n' s d d')
    (hj : d' j = .ok a) (h : FieldStep n n' ⟨s, some j⟩ js js') :
    (sole d none js).map (fun o => o.getD a) = (sole d' none js').map fun o => o.getD a := by
  rcases h.sole_eq hd with heq | ⟨k, hdefault, hbefore, hafter⟩
  · rw [heq]
  · cases hdefault
    rw [hbefore, hafter, hj]
    rfl

/-- Readers of fields that come to the same on two lists of members. -/
structure AlikeFields (ms ms' : List (String × Json)) (keys : List String)
    (r r' : RecordReader α) : Prop where
  knows : r.Knows keys
  knows' : r'.Knows keys
  read : (r.read ms).toOption = (r'.read ms').toOption

section Fields

variable {ms ms' : List (String × Json)} {schema : Schema} {keys keys' : List String}

theorem FieldsStep.alike_required (h : FieldsStep n n' schema ms ms') (name : String)
    (hname : schema.lookup name = some (.required s)) (hd : AlikeOn n n' s d d') :
    AlikeFields ms ms' [name] (required name d) (required name d') := by
  refine ⟨knows_required name d, knows_required name d', ?_⟩
  rw [read_required, read_required, (h name _ hname).required hd]

theorem FieldsStep.alike_withDefault {j : Json} {a : α} (h : FieldsStep n n' schema ms ms')
    (name : String) (hname : schema.lookup name = some ⟨s, some j⟩) (hd : AlikeOn n n' s d d')
    (hj : d' j = .ok a) :
    AlikeFields ms ms' [name] (withDefault name d a) (withDefault name d' a) := by
  refine ⟨knows_withDefault name d a, knows_withDefault name d' a, ?_⟩
  rw [read_withDefault, read_withDefault, (h name _ hname).withDefault hd hj]

theorem FieldsStep.alike_list (h : FieldsStep n n' schema ms ms') (name : String)
    (hname : schema.lookup name = some (.list s)) (hd : AlikeOn n n' s d d') :
    AlikeFields ms ms' [name] (withDefault name (listOf d) []) (withDefault name (listOf d') []) :=
  h.alike_withDefault name hname hd.listOf rfl

theorem FieldsStep.alike_optional (h : FieldsStep n n' schema ms ms') (name : String)
    (hname : schema.lookup name = some (.optional s)) (hd : AlikeOn n n' s d d') :
    AlikeFields ms ms' [name] (withDefault name (optionOf d) none)
      (withDefault name (optionOf d') none) :=
  h.alike_withDefault name hname hd.optionOf rfl

theorem AlikeFields.map {r r' : RecordReader α} (h : AlikeFields ms ms' keys r r') (f : α → β) :
    AlikeFields ms ms' keys (f <$> r) (f <$> r') := by
  refine ⟨h.knows, h.knows', ?_⟩
  rw [read_map, read_map, h.read]

theorem AlikeFields.seq {r r' : RecordReader (α → β)} {q q' : RecordReader α}
    (hr : AlikeFields ms ms' keys r r') (hq : AlikeFields ms ms' keys' q q')
    (hapart : ∀ key ∈ keys, key ∉ keys') :
    AlikeFields ms ms' (keys ++ keys') (r <*> q) (r' <*> q') := by
  refine ⟨knows_seq hr.knows hq.knows, knows_seq hr.knows' hq.knows', ?_⟩
  rw [read_seq hr.knows hq.knows hapart, read_seq hr.knows' hq.knows' hapart, hr.read, hq.read]

end Fields

/-! ### Nodes -/

theorem alikeOn_of_members {f f' : List (String × Json) → Except Mismatch α}
    (hobj : ∀ ms ms', EditOrSame s (.obj ms) (.obj ms') → (Json.obj ms).depth ≤ n →
      (Json.obj ms').depth ≤ n' → (f ms).toOption = (f' ms').toOption) :
    AlikeOn n n' s (fun j => members j >>= f) fun j => members j >>= f' := by
  apply alikeOn_of_cases
  · intro j hj
    cases j with
    | obj ms => simp [Json.depth] at hj
    | _ => rfl
  · intro js js' _ _ _
    rfl
  · exact hobj

theorem node_obj_toOption (fields : Loc → RecordReader α) (ms : List (String × Json)) :
    (node fields (.obj ms)).toOption =
      ((sole loc none (valuesAt "loc" ms)).map fun l => l.getD Loc.synthetic).bind fun l =>
        ((fields l).read (others "loc" ms)).toOption := by
  have hnode : node fields (.obj ms) =
      (splitLoc ms >>= fun p => (fields p.1).read p.2) := rfl
  rw [hnode, toOption_bind, splitLoc_toOption]
  cases sole loc none (valuesAt "loc" ms) with
  | none => rfl
  | some l => rfl

theorem alikeOn_node {schema : Schema} {fields fields' : Loc → RecordReader α}
    (hschema : ∀ ms, s.schema? ms = some (.node schema)) (hloc : schema.lookup "loc" = none)
    (hfields : ∀ l ms ms', FieldsStep n n' schema ms ms' →
      ((fields l).read ms).toOption = ((fields' l).read ms').toOption) :
    AlikeOn n n' s (node fields) (node fields') := by
  refine alikeOn_of_members fun ms ms' hedit hn hn' => ?_
  change (node fields (.obj ms)).toOption = (node fields' (.obj ms')).toOption
  have hstep := fieldsStep_of_edit hedit (hschema ms) (Nat.le_succ_of_le hn) (Nat.le_succ_of_le hn')
  obtain ⟨hlocStep, hrest⟩ := hstep.cons hloc
  rw [node_obj_toOption, node_obj_toOption,
    hlocStep.withDefault (a := Loc.synthetic) alikeOn_loc rfl]
  congr 1
  funext l
  exact hfields l _ _ hrest

/-- A node with a choice of kinds: its location, its kind and the record of the fields of its kind. -/
def taggedNode (κ : Type) [Variant κ] (fields : κ → RecordReader β) (make : Loc → β → α) :
    Decoder α := fun j => do
  let ms ← members j
  let (l, ms) ← splitLoc ms
  let (kind, ms) ← splitTag κ ms
  let form ← (fields kind).read ms
  return make l form

theorem Expr.decode_succ (depth : Nat) : Expr.decode (depth + 1) =
    taggedNode ExprKind (ExprForm.fields (Expr.decode depth)) Expr.mk := rfl

theorem Stmt.decode_succ (depth : Nat) : Stmt.decode (depth + 1) =
    taggedNode StmtKind (StmtForm.fields (Stmt.decode depth) Expr.ofJson) Stmt.mk := rfl

section Tagged

variable {κ : Type} [Variant κ] {fields fields' : κ → RecordReader β} {make : Loc → β → α}

theorem taggedNode_obj_toOption (fields : κ → RecordReader β) (make : Loc → β → α)
    (ms : List (String × Json)) :
    (taggedNode κ fields make (.obj ms)).toOption =
      ((sole loc none (valuesAt "loc" ms)).map fun l => l.getD Loc.synthetic).bind fun l =>
        ((sole (tag κ) none (valuesAt tagKey (others "loc" ms))).bind id).bind fun kind =>
          ((fields kind).read (others tagKey (others "loc" ms))).toOption.map (make l) := by
  have hnode : taggedNode κ fields make (.obj ms) =
      (splitLoc ms >>= fun p => splitTag κ p.2 >>= fun q =>
        (fields q.1).read q.2 >>= fun form => pure (make p.1 form)) := rfl
  rw [hnode, toOption_bind, splitLoc_toOption]
  cases sole loc none (valuesAt "loc" ms) with
  | none => rfl
  | some l =>
    simp only [Option.map_some, Option.bind_some]
    rw [toOption_bind, splitTag_toOption]
    cases (sole (tag κ) none (valuesAt tagKey (others "loc" ms))).bind id with
    | none => rfl
    | some kind =>
      simp only [Option.map_some, Option.bind_some]
      rw [toOption_bind]
      cases ((fields kind).read (others tagKey (others "loc" ms))).toOption with
      | none => rfl
      | some form => rfl

/-- The tag that is read is the one that the schema went by. -/
theorem kindIn_of_sole {ms : List (String × Json)} {kind : κ}
    (h : (sole (tag κ) none (valuesAt tagKey (others "loc" ms))).bind id = some kind) :
    kindIn κ ms = some kind := by
  rw [valuesAt_others (by decide)] at h
  rw [kindIn, lookup_eq_head?_valuesAt]
  generalize valuesAt tagKey ms = js at h ⊢
  rcases js with - | ⟨j, - | ⟨k, rest⟩⟩
  · cases h
  · rw [sole_one, Option.bind_map, Function.id_comp] at h
    simpa using h
  · rw [sole_many _ (by simp)] at h
    cases h

theorem alikeOn_tagged {schema : κ → Schema}
    (hschema : ∀ ms, s.schema? ms = some (.tagged ((kindIn κ ms).elim [] schema)))
    (hloc : ∀ kind, (schema kind).lookup "loc" = none)
    (htag : ∀ kind, (schema kind).lookup tagKey = none)
    (hfields : ∀ kind ms ms', FieldsStep n n' (schema kind) ms ms' →
      ((fields kind).read ms).toOption = ((fields' kind).read ms').toOption) :
    AlikeOn (n + 1) (n' + 1) s (taggedNode κ fields make) (taggedNode κ fields' make) := by
  refine alikeOn_of_members fun ms ms' hedit hn hn' => ?_
  change (taggedNode κ fields make (.obj ms)).toOption =
    (taggedNode κ fields' make (.obj ms')).toOption
  have hstep := fieldsStep_of_edit hedit (hschema ms) hn hn'
  have hnotLoc : ((kindIn κ ms).elim [] schema).lookup "loc" = none := by
    cases kindIn κ ms with
    | none => rfl
    | some kind => exact hloc kind
  have hnotTag : ((kindIn κ ms).elim [] schema).lookup tagKey = none := by
    cases kindIn κ ms with
    | none => rfl
    | some kind => exact htag kind
  obtain ⟨hlocStep, hbeside⟩ := hstep.cons hnotLoc
  obtain ⟨htagStep, hrest⟩ := hbeside.cons hnotTag
  rw [taggedNode_obj_toOption, taggedNode_obj_toOption,
    hlocStep.withDefault (a := Loc.synthetic) alikeOn_loc rfl]
  congr 1
  funext l
  rw [← htagStep.required (alikeOn_tag κ)]
  cases hkind : (sole (tag κ) none (valuesAt tagKey (others "loc" ms))).bind id with
  | none => rfl
  | some kind =>
    -- the schema went by the first tag, and a node with a second one is refused
    rw [kindIn_of_sole hkind] at hrest
    simp only [Option.bind_some]
    rw [hfields kind _ _ hrest]

end Tagged

/-- A record that may be written as the list of its two fields. -/
theorem alikeOn_pair {γ : Type} {make : α → Option β → γ} {e e' : Decoder β}
    {names : String × String} {whole two : Expected}
    (hschema : ∀ ms, s.schema? ms =
      some [(names.1, .required s.item), (names.2, .optional s.item)])
    (hnames : names.1 ≠ names.2) (hd : AlikeOn n n' s.item d d') (he : AlikeOn n n' s.item e e') :
    AlikeOn n n' s (Decoder.pair make d e names whole two)
      (Decoder.pair make d' e' names whole two) := by
  apply alikeOn_of_cases
  · intro j hj
    cases j with
    | arr js => simp [Json.depth] at hj
    | obj ms => simp [Json.depth] at hj
    | _ => rfl
  · intro js js' hitems hn hn'
    cases hitems with
    | nil => rfl
    | cons hj hrest =>
      rw [List.forall_mem_cons] at hn hn'
      have hfirst := hd _ _ hj hn.1 hn'.1
      cases hrest with
      | nil =>
        rw [Decoder.pair, Decoder.pair, toOption_bind, toOption_bind, hfirst]
      | cons hk hmore =>
        rw [List.forall_mem_cons] at hn hn'
        have hsecond := he.optionOf _ _ hk hn.2.1 hn'.2.1
        rw [Decoder.pair, Decoder.pair, toOption_bind, toOption_bind, hfirst]
        congr 1
        funext a
        rw [toOption_bind, toOption_bind, hsecond]
        cases hmore with
        | nil => rfl
        | cons _ _ => rfl
  · intro ms ms' hedit hn hn'
    have hstep := fieldsStep_of_edit hedit (hschema ms) (Nat.le_succ_of_le hn) (Nat.le_succ_of_le hn')
    have hfirst : AlikeFields ms ms' [names.1] _ _ := hstep.alike_required _ (by simp) hd
    have hsecond : AlikeFields ms ms' [names.2] _ _ :=
      hstep.alike_optional _ (by simp [List.lookup_cons, beq_false_of_ne hnames.symm]) he
    exact ((hfirst.map make).seq hsecond (by simpa using hnames)).read

/-! ### Expressions -/

theorem alikeOn_param : AlikeOn n n' .param (node Param.fields) (node Param.fields) := by
  refine alikeOn_node (fun _ => rfl) rfl fun l ms ms' h => ?_
  exact ((h.alike_required "arg" rfl alikeOn_string).map (Param.mk l)).read

section Child

variable {ε : Type} {child child' : Decoder ε}

theorem alikeOn_params (hchild : AlikeOn n n' .expr child child') :
    AlikeOn n n' .params (node (Params.fields child)) (node (Params.fields child')) := by
  refine alikeOn_node (fun _ => rfl) rfl fun l ms ms' h => ?_
  have hpositional := ((h.alike_list "posonlyargs" rfl alikeOn_param).map (@Params.mk ε l)).seq
    (h.alike_list "args" rfl alikeOn_param) (by simp)
  have hstarred := (hpositional.seq (h.alike_optional "vararg" rfl alikeOn_param) (by simp)).seq
    (h.alike_list "kwonlyargs" rfl alikeOn_param) (by simp)
  have hnamed := hstarred.seq (h.alike_optional "kwarg" rfl alikeOn_param) (by simp)
  exact (hnamed.seq (h.alike_list "defaults" rfl hchild) (by simp)).read

theorem alikeOn_keyword (hchild : AlikeOn n n' .expr child child') :
    AlikeOn n n' .keyword (node (Keyword.fields child)) (node (Keyword.fields child')) := by
  refine alikeOn_node (fun _ => rfl) rfl fun l ms ms' h => ?_
  exact (((h.alike_optional "arg" rfl alikeOn_string).map (Keyword.mk l)).seq
    (h.alike_required "value" rfl hchild) (by simp)).read

theorem alikeOn_comprehension (hchild : AlikeOn n n' .expr child child') :
    AlikeOn n n' .comprehension (node (Comprehension.fields child))
      (node (Comprehension.fields child')) := by
  refine alikeOn_node (fun _ => rfl) rfl fun l ms ms' h => ?_
  have hloop := ((h.alike_required "target" rfl hchild).map (Comprehension.mk l)).seq
    (h.alike_required "iter" rfl hchild) (by simp)
  exact (hloop.seq (h.alike_list "ifs" rfl hchild) (by simp)).read

theorem ExprForm.fields_alike (hchild : AlikeOn n n' .expr child child') (kind : ExprKind)
    {ms ms' : List (String × Json)} (h : FieldsStep n n' kind.schema ms ms') :
    ((ExprForm.fields child kind).read ms).toOption =
      ((ExprForm.fields child' kind).read ms').toOption := by
  cases kind with
  | boolOp =>
    exact (((h.alike_required "op" rfl (alikeOn_variant BoolOperator)).map ExprForm.boolOp).seq
      (h.alike_required "values" rfl hchild.listOf) (by simp)).read
  | binOp =>
    have hleft := ((h.alike_required "left" rfl hchild).map ExprForm.binOp).seq
      (h.alike_required "op" rfl (alikeOn_variant BinaryOperator)) (by simp)
    exact (hleft.seq (h.alike_required "right" rfl hchild) (by simp)).read
  | unaryOp =>
    exact (((h.alike_required "op" rfl (alikeOn_variant UnaryOperator)).map ExprForm.unaryOp).seq
      (h.alike_required "operand" rfl hchild) (by simp)).read
  | lambda =>
    exact (((h.alike_required "args" rfl (alikeOn_params hchild)).map ExprForm.lambda).seq
      (h.alike_required "body" rfl hchild) (by simp)).read
  | ifExp =>
    have hbranch := ((h.alike_required "test" rfl hchild).map ExprForm.ifExp).seq
      (h.alike_required "body" rfl hchild) (by simp)
    exact (hbranch.seq (h.alike_required "orelse" rfl hchild) (by simp)).read
  | dict =>
    exact (((h.alike_required "keys" rfl hchild.optionOf.listOf).map ExprForm.dict).seq
      (h.alike_required "values" rfl hchild.listOf) (by simp)).read
  | compare =>
    have hops := ((h.alike_required "left" rfl hchild).map ExprForm.compare).seq
      (h.alike_required "ops" rfl (alikeOn_variant CmpOperator).listOf) (by simp)
    exact (hops.seq (h.alike_required "comparators" rfl hchild.listOf) (by simp)).read
  | call =>
    have hargs := ((h.alike_required "func" rfl hchild).map ExprForm.call).seq
      (h.alike_list "args" rfl hchild) (by simp)
    exact (hargs.seq (h.alike_list "keywords" rfl (alikeOn_keyword hchild)) (by simp)).read
  | constant => exact ((h.alike_required "value" rfl alikeOn_scalar).map ExprForm.constant).read
  | «attribute» =>
    exact (((h.alike_required "value" rfl hchild).map ExprForm.attribute).seq
      (h.alike_required "attr" rfl alikeOn_string) (by simp)).read
  | subscript =>
    exact (((h.alike_required "value" rfl hchild).map ExprForm.subscript).seq
      (h.alike_required "slice" rfl hchild) (by simp)).read
  | name => exact ((h.alike_required "id" rfl alikeOn_string).map ExprForm.name).read
  | list => exact ((h.alike_required "elts" rfl hchild.listOf).map ExprForm.list).read
  | starred => exact ((h.alike_required "value" rfl hchild).map ExprForm.starred).read
  | tuple => exact ((h.alike_required "elts" rfl hchild.listOf).map ExprForm.tuple).read
  | set => exact ((h.alike_required "elts" rfl hchild.listOf).map ExprForm.set).read
  | listComp =>
    exact (((h.alike_required "elt" rfl hchild).map ExprForm.listComp).seq
      (h.alike_required "generators" rfl (alikeOn_comprehension hchild).listOf) (by simp)).read
  | dictComp =>
    have hentry := ((h.alike_required "key" rfl hchild).map ExprForm.dictComp).seq
      (h.alike_required "value" rfl hchild) (by simp)
    exact (hentry.seq
      (h.alike_required "generators" rfl (alikeOn_comprehension hchild).listOf) (by simp)).read
  | generatorExp =>
    exact (((h.alike_required "elt" rfl hchild).map ExprForm.generatorExp).seq
      (h.alike_required "generators" rfl (alikeOn_comprehension hchild).listOf) (by simp)).read
  | await => exact ((h.alike_required "value" rfl hchild).map ExprForm.await).read
  | yield => exact ((h.alike_optional "value" rfl hchild).map ExprForm.yield).read
  | namedExpr =>
    exact (((h.alike_required "target" rfl hchild).map ExprForm.namedExpr).seq
      (h.alike_required "value" rfl hchild) (by simp)).read
  | slice =>
    have hbounds := ((h.alike_optional "lower" rfl hchild).map ExprForm.slice).seq
      (h.alike_optional "upper" rfl hchild) (by simp)
    exact (hbounds.seq (h.alike_optional "step" rfl hchild) (by simp)).read
  | joinedStr => exact ((h.alike_required "values" rfl hchild.listOf).map ExprForm.joinedStr).read

end Child

/-- Readers that go one layer deeper at a time are alike, if a layer keeps them so. -/
theorem alikeOn_of_layers {read : Nat → Decoder α}
    (hscalar : ∀ n j, j.depth = 0 → (read n j).toOption = none)
    (hlayer : ∀ n n', AlikeOn n n' s (read n) (read n') →
      AlikeOn (n + 1) (n' + 1) s (read (n + 1)) (read (n' + 1))) (n n' : Nat) :
    AlikeOn n n' s (read n) (read n') := by
  -- an edit can change the depth, so the two bounds go down side by side and one may end first
  induction n generalizing n' with
  | zero =>
    intro j j' h hn _
    have hdepth : j.depth = 0 := Nat.le_zero.mp hn
    obtain rfl : j = j' := h.eq_of_depth (Or.inl hdepth)
    rw [hscalar 0 j hdepth, hscalar n' j hdepth]
  | succ n ih =>
    cases n' with
    | zero =>
      intro j j' h _ hn'
      have hdepth : j'.depth = 0 := Nat.le_zero.mp hn'
      obtain rfl : j = j' := h.eq_of_depth (Or.inr hdepth)
      rw [hscalar (n + 1) j hdepth, hscalar 0 j hdepth]
    | succ n' => exact hlayer n n' (ih n')

theorem taggedNode_scalar {κ : Type} [Variant κ] (fields : κ → RecordReader β) (make : Loc → β → α)
    {j : Json} (hj : j.depth = 0) : (taggedNode κ fields make j).toOption = none := by
  cases j with
  | obj ms => simp [Json.depth] at hj
  | _ => rfl

theorem Expr.alikeOn_decode (n n' : Nat) : AlikeOn n n' .expr (Expr.decode n) (Expr.decode n') := by
  apply alikeOn_of_layers
  · intro n j hj
    cases n with
    | zero => rfl
    | succ n => exact taggedNode_scalar _ _ hj
  · intro n n' ih
    rw [Expr.decode_succ, Expr.decode_succ]
    refine alikeOn_tagged (fun _ => rfl) (fun kind => ?_) (fun kind => ?_) fun kind ms ms' h => ?_
    · cases kind <;> rfl
    · cases kind <;> rfl
    · exact ExprForm.fields_alike ih kind h

theorem Expr.alikeOn_ofJson (n n' : Nat) : AlikeOn n n' .expr Expr.ofJson Expr.ofJson :=
  fun j j' h _ _ => Expr.alikeOn_decode j.depth j'.depth j j' h (Nat.le_refl _) (Nat.le_refl _)

/-! ### Statements -/

theorem alikeOn_alias : AlikeOn n n' .alias Alias.decode Alias.decode :=
  alikeOn_pair (fun _ => rfl) (by decide) alikeOn_string alikeOn_string

section Child

variable {σ ε : Type} {stmt stmt' : Decoder σ} {expr expr' : Decoder ε}

theorem alikeOn_withItem (hexpr : AlikeOn n n' .expr expr expr') :
    AlikeOn n n' .withItem (WithItem.decode expr) (WithItem.decode expr') :=
  alikeOn_pair (fun _ => rfl) (by decide) hexpr hexpr

theorem alikeOn_handler (hstmt : AlikeOn n n' .stmt stmt stmt')
    (hexpr : AlikeOn n n' .expr expr expr') :
    AlikeOn n n' .handler (node (Handler.fields stmt expr)) (node (Handler.fields stmt' expr')) := by
  refine alikeOn_node (fun _ => rfl) rfl fun l ms ms' h => ?_
  have hname := ((h.alike_optional "type" rfl hexpr).map (@Handler.mk σ ε l)).seq
    (h.alike_optional "name" rfl alikeOn_string) (by simp)
  exact (hname.seq (h.alike_required "body" rfl hstmt.listOf) (by simp)).read

theorem StmtForm.fields_alike (hstmt : AlikeOn n n' .stmt stmt stmt')
    (hexpr : AlikeOn n n' .expr expr expr') (kind : StmtKind) {ms ms' : List (String × Json)}
    (h : FieldsStep n n' kind.schema ms ms') :
    ((StmtForm.fields stmt expr kind).read ms).toOption =
      ((StmtForm.fields stmt' expr' kind).read ms').toOption := by
  cases kind with
  | functionDef =>
    have hhead := ((h.alike_required "name" rfl alikeOn_string).map (@StmtForm.functionDef σ ε)).seq
      (h.alike_required "args" rfl (alikeOn_params hexpr)) (by simp)
    have hbody := hhead.seq (h.alike_required "body" rfl hstmt.listOf) (by simp)
    exact (hbody.seq (h.alike_list "decorator_list" rfl hexpr) (by simp)).read
  | ret => exact ((h.alike_optional "value" rfl hexpr).map (@StmtForm.ret σ ε)).read
  | delete => exact ((h.alike_required "targets" rfl hexpr.listOf).map (@StmtForm.delete σ ε)).read
  | assign =>
    exact (((h.alike_required "targets" rfl hexpr.listOf).map (@StmtForm.assign σ ε)).seq
      (h.alike_required "value" rfl hexpr) (by simp)).read
  | augAssign =>
    have hop := ((h.alike_required "target" rfl hexpr).map (@StmtForm.augAssign σ ε)).seq
      (h.alike_required "op" rfl (alikeOn_variant BinaryOperator)) (by simp)
    exact (hop.seq (h.alike_required "value" rfl hexpr) (by simp)).read
  | forLoop =>
    have hhead := ((h.alike_required "target" rfl hexpr).map (@StmtForm.forLoop σ ε)).seq
      (h.alike_required "iter" rfl hexpr) (by simp)
    have hbody := hhead.seq (h.alike_required "body" rfl hstmt.listOf) (by simp)
    exact (hbody.seq (h.alike_list "orelse" rfl hstmt) (by simp)).read
  | whileLoop =>
    have hbody := ((h.alike_required "test" rfl hexpr).map (@StmtForm.whileLoop σ ε)).seq
      (h.alike_required "body" rfl hstmt.listOf) (by simp)
    exact (hbody.seq (h.alike_list "orelse" rfl hstmt) (by simp)).read
  | cond =>
    have hbody := ((h.alike_required "test" rfl hexpr).map (@StmtForm.cond σ ε)).seq
      (h.alike_required "body" rfl hstmt.listOf) (by simp)
    exact (hbody.seq (h.alike_list "orelse" rfl hstmt) (by simp)).read
  | raise =>
    exact (((h.alike_optional "exc" rfl hexpr).map (@StmtForm.raise σ ε)).seq
      (h.alike_optional "cause" rfl hexpr) (by simp)).read
  | expr => exact ((h.alike_required "value" rfl hexpr).map (@StmtForm.expr σ ε)).read
  | pass => rw [StmtForm.fields, StmtForm.fields, read_pure, read_pure]
  | breakLoop => rw [StmtForm.fields, StmtForm.fields, read_pure, read_pure]
  | continueLoop => rw [StmtForm.fields, StmtForm.fields, read_pure, read_pure]
  | classDef =>
    have hhead := ((h.alike_required "name" rfl alikeOn_string).map (@StmtForm.classDef σ ε)).seq
      (h.alike_list "bases" rfl hexpr) (by simp)
    have hbody := hhead.seq (h.alike_required "body" rfl hstmt.listOf) (by simp)
    exact (hbody.seq (h.alike_list "decorator_list" rfl hexpr) (by simp)).read
  | tryStmt =>
    have hcatch := ((h.alike_required "body" rfl hstmt.listOf).map (@StmtForm.tryStmt σ ε)).seq
      (h.alike_list "handlers" rfl (alikeOn_handler hstmt hexpr)) (by simp)
    have helse := hcatch.seq (h.alike_list "orelse" rfl hstmt) (by simp)
    exact (helse.seq (h.alike_list "finalbody" rfl hstmt) (by simp)).read
  | withStmt =>
    exact (((h.alike_required "items" rfl (alikeOn_withItem hexpr).listOf).map
      (@StmtForm.withStmt σ ε)).seq (h.alike_required "body" rfl hstmt.listOf) (by simp)).read
  | assert =>
    exact (((h.alike_required "test" rfl hexpr).map (@StmtForm.assert σ ε)).seq
      (h.alike_optional "msg" rfl hexpr) (by simp)).read
  | importStmt =>
    exact ((h.alike_required "names" rfl alikeOn_alias.listOf).map (@StmtForm.importStmt σ ε)).read
  | globalStmt =>
    exact ((h.alike_required "names" rfl alikeOn_string.listOf).map (@StmtForm.globalStmt σ ε)).read
  | nonlocalStmt =>
    exact ((h.alike_required "names" rfl alikeOn_string.listOf).map (@StmtForm.nonlocalStmt σ ε)).read

end Child

theorem Stmt.alikeOn_decode (n n' : Nat) : AlikeOn n n' .stmt (Stmt.decode n) (Stmt.decode n') := by
  apply alikeOn_of_layers
  · intro n j hj
    cases n with
    | zero => rfl
    | succ n => exact taggedNode_scalar _ _ hj
  · intro n n' ih
    rw [Stmt.decode_succ, Stmt.decode_succ]
    refine alikeOn_tagged (fun _ => rfl) (fun kind => ?_) (fun kind => ?_) fun kind ms ms' h => ?_
    · cases kind <;> rfl
    · cases kind <;> rfl
    · exact StmtForm.fields_alike ih (Expr.alikeOn_ofJson n n') kind h

theorem Stmt.alikeOn_ofJson (n n' : Nat) : AlikeOn n n' .stmt Stmt.ofJson Stmt.ofJson :=
  fun j j' h _ _ => Stmt.alikeOn_decode j.depth j'.depth j j' h (Nat.le_refl _) (Nat.le_refl _)

/-! ### Modules -/

theorem Module.alikeOn_ofJson (n n' : Nat) : AlikeOn n n' .module Module.ofJson Module.ofJson := by
  refine alikeOn_node (fun _ => rfl) rfl fun l ms ms' h => ?_
  exact ((h.alike_required "body" rfl (Stmt.alikeOn_ofJson n n').listOf).map (Module.mk l)).read

theorem Module.toOption_ofJson_eq {j j' : Json} (h : SameContent .module j j') :
    (Module.ofJson j).toOption = (Module.ofJson j').toOption := by
  induction h with
  | rel j j' hedit =>
    exact Module.alikeOn_ofJson j.depth j'.depth j j' (.single hedit) (Nat.le_refl _) (Nat.le_refl _)
  | refl j => rfl
  | symm j j' _ ih => exact ih.symm
  | trans j k j' _ _ ihj ihk => exact ihj.trans ihk

/-- Texts are loaded alike if their values have the same content. -/
theorem Module.load_iff_of_sameContent {text text' : String} {j j' : Json}
    (hj : Json.readText text.toList = .ok j) (hj' : Json.readText text'.toList = .ok j')
    (h : SameContent .module j j') (m : Module) :
    Module.load text = .ok m ↔ Module.load text' = .ok m := by
  have hvalue : Module.ofJson j = .ok m ↔ Module.ofJson j' = .ok m := by
    rw [← toOption_eq_some_iff, ← toOption_eq_some_iff, Module.toOption_ofJson_eq h]
  simpa [Module.load_eq_ok_iff, hj, hj'] using hvalue

/-- **Loading depends on the content of a tree only.**  Values that come from each other by reordering
    members, by members that are no fields and by fields spelled out with their defaults are loaded
    as the same module or both refused.  Repeated keys do no harm: where a key is repeated, it stays
    so. -/
theorem Module.ofJson_iff_of_sameContent {j j' : Json} (h : SameContent .module j j') (m : Module) :
    Module.ofJson j = .ok m ↔ Module.ofJson j' = .ok m := by
  rw [← toOption_eq_some_iff, ← toOption_eq_some_iff, Module.toOption_ofJson_eq h]

/-- A module that returns, with nothing in it that could be left out. -/
def bareReturn : Json := .obj [("body", .arr [.obj [("$t", .str "Return")]])]

/-- The same module with a note, a value that is null and a location after the body. -/
def notedReturn : Json :=
  .obj [("body", .arr [.obj [("value", .null), ("note", .str "early"), ("$t", .str "Return")]]),
    ("loc", .arr [.int 0, .int 0])]

theorem sameContent_bareReturn : SameContent .module bareReturn notedReturn := by
  have hbody : ∀ {j j' : Json}, Edit .stmt j j' →
      SameContent .module (.obj [("body", .arr [j])]) (.obj [("body", .arr [j'])]) :=
    fun h => .rel _ _ (.inMember (@Edit.inItem _ [] [] _ _ h))
  have hnote : Edit .stmt (.obj [("$t", .str "Return")])
      (.obj [("note", .str "early"), ("$t", .str "Return")]) := .addUnknown rfl rfl
  have hvalue : Edit .stmt (.obj [("note", .str "early"), ("$t", .str "Return")])
      (.obj [("value", .null), ("note", .str "early"), ("$t", .str "Return")]) :=
    .addDefault rfl rfl rfl (by simp)
  refine (hbody hnote).trans _ _ _ ((hbody hvalue).trans _ _ _ (.trans _ _ _ (.rel _ _ ?_)
    (.rel _ _ (.permute (.swap _ _ [])))))
  exact .addDefault rfl rfl rfl (by simp)

theorem ofJson_notedReturn : SameContent .module bareReturn notedReturn ∧
    Module.ofJson notedReturn = .ok ⟨.synthetic, [⟨.synthetic, .ret none⟩]⟩ :=
  ⟨sameContent_bareReturn, (Module.ofJson_iff_of_sameContent sameContent_bareReturn _).mp rfl⟩

end ScriptTree
