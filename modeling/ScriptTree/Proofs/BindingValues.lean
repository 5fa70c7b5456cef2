/-
  ScriptTree/Proofs/BindingValues.lean
  ====================================
  **Values of bindings read back from the script.**  A value is rendered as the expression that
  produces it.  If its numbers are 64-bit integers and its strings need no escapes (`Json.Simple`),
  then the text of that expression is JSON text of the same value: members keep their order, and the
  reader of bindings gives back what it was given (`renderExpr_toExpr_parse`).

  The text differs from the one that the writer of values makes in the blanks behind commas and
  colons only.  Expressions of values are thus another `Writing`.
-/
import ScriptTree.Proofs.JsonText
import ScriptTree.Proofs.LeadingBindings
import ScriptTree.Proofs.UniqueReading

namespace ScriptTree

namespace Json

/-! ### Simple values -/

/-- A text that is written between quotes as it is. -/
def Unescaped (s : String) : Prop := ∀ c ∈ s.toList, c ≠ '"' ∧ c ≠ '\\' ∧ 0x20 ≤ c.toNat

instance (s : String) : Decidable (Unescaped s) :=
  decidable_of_iff (s.toList.all fun c => c ≠ '"' ∧ c ≠ '\\' ∧ 0x20 ≤ c.toNat)
    (List.all_eq_true.trans (by simp only [Unescaped, decide_eq_true_eq]))

/-- The values that the script writes as JSON.  No object has two members of one name. -/
inductive Simple : Json → Prop
  | null : Simple .null
  | bool (b : Bool) : Simple (.bool b)
  | int {n : Int} : Constant.fitsInt64 n = true → Simple (.int n)
  | str {s : String} : Unescaped s → Simple (.str s)
  | arr {items : List Json} : (∀ j ∈ items, Simple j) → Simple (.arr items)
  | obj {members : List (String × Json)} : (members.map Prod.fst).Nodup →
      (∀ m ∈ members, Unescaped m.1) → (∀ m ∈ members, Simple m.2) → Simple (.obj members)

theorem stringChars_of_unescaped {s : String} (h : Unescaped s) :
    stringChars s = '"' :: s.toList ++ ['"'] := by
  have hescape : ∀ c ∈ s.toList, escapeChar c = [c] := by
    intro c hc
    obtain ⟨hquote, hslash, hleast⟩ := h c hc
    have hother : ∀ d : Char, d.toNat < 0x20 → c ≠ d := by
      rintro d hd rfl
      omega
    simp [escapeChar, hquote, hslash, hother '\x08' (by decide), hother '\x0c' (by decide),
      hother '\n' (by decide), hother '\x0d' (by decide), hother '\t' (by decide)]
    omega
  rw [stringChars, List.flatMap_congr hescape, List.flatMap_singleton' s.toList]

theorem not_mem_of_unescaped {s : String} (h : Unescaped s) : '"' ∉ s.toList :=
  fun hmem => (h '"' hmem).1 rfl

/-! ### The expression of a value -/

theorem itemExprs_eq (items : List Json) : itemExprs items = items.map toExpr := by
  induction items with
  | nil => rfl
  | cons j items ih => rw [itemExprs, ih, List.map_cons]

theorem memberExprs_eq (members : List (String × Json)) :
    memberExprs members = members.map fun m => m.2.toExpr := by
  induction members with
  | nil => rfl
  | cons m members ih => rw [memberExprs, ih, List.map_cons]

theorem Simple.readable {j : Json} (h : j.Simple) (p : Standing) : j.toExpr.Readable p := by
  have hconstant : ∀ value : Constant, value.Readable → ∀ p,
      (ExprForm.made (.constant value)).Readable p := fun value hvalue p => .constant hvalue
  induction h generalizing p with
  | null => exact hconstant .null trivial p
  | bool b => exact hconstant (.bool b) trivial p
  | @int n hn =>
    rw [toExpr, Constant.ofInt, if_pos hn]
    exact hconstant (.int (Int64.ofInt n)) trivial p
  | @str s hs => exact hconstant (.str s) (not_mem_of_unescaped hs) p
  | arr _ ih =>
    rw [toExpr, itemExprs_eq]
    exact .list (List.forall_mem_map.mpr fun j hj => ih j hj .element)
  | obj _ hkeys _ ih =>
    rw [toExpr, memberExprs_eq]
    refine .dict (by simp) ?_ (List.forall_mem_map.mpr fun m hm => ih m hm .alone)
    intro k hk
    obtain ⟨m, hm, ⟨⟩⟩ := List.mem_map.mp hk
    exact hconstant (.str m.1) (not_mem_of_unescaped (hkeys m hm)) .alone

/-- What the script writes for a value. -/
def scriptChars (j : Json) : List Char := j.toExpr.chars

theorem chars_made (form : ExprForm Expr) :
    (ExprForm.made form).chars = (form.map Expr.chars).layer.text :=
  Expr.chars_eq _

theorem fitsInteger_of_fitsInt64 {n : Int} (h : Constant.fitsInt64 n = true) : FitsInteger n := by
  obtain ⟨hleast, hmost⟩ := Bool.and_eq_true_iff.mp h
  constructor
  · exact of_decide_eq_true hleast
  · exact Int.le_trans (of_decide_eq_true hmost) (by decide)

theorem toInt_ofInt_of_fitsInt64 {n : Int} (h : Constant.fitsInt64 n = true) :
    (Int64.ofInt n).toInt = n := by
  obtain ⟨hleast, hmost⟩ := Bool.and_eq_true_iff.mp h
  apply Int64.toInt_ofInt_of_le
  · exact of_decide_eq_true hleast
  · exact Int.lt_of_le_of_lt (of_decide_eq_true hmost) (by decide)

theorem scriptChars_int {n : Int} (h : Constant.fitsInt64 n = true) :
    scriptChars (.int n) = (Decimal.intText n).toList := by
  rw [scriptChars, toExpr, Constant.ofInt, if_pos h, chars_made]
  show (Constant.int (Int64.ofInt n)).spelling.toList = _
  rw [Constant.spelling, toInt_ofInt_of_fitsInt64 h]

theorem scriptChars_str {s : String} (h : Unescaped s) : scriptChars (.str s) = stringChars s := by
  rw [scriptChars, toExpr, chars_made, stringChars_of_unescaped h]
  rfl

theorem scriptChars_arr (items : List Json) :
    scriptChars (.arr items) = '[' :: joined [' '] (items.map scriptChars) ++ [']'] := by
  rw [scriptChars, toExpr, chars_made, itemExprs_eq]
  simp only [ExprForm.map, ExprForm.layer, Layer.text_square, List.map_map]
  rfl

theorem scriptChars_obj {members : List (String × Json)} (h : ∀ m ∈ members, Unescaped m.1) :
    scriptChars (.obj members) =
      '\x7b' :: joined [' '] (members.map (memberText [' '] scriptChars)) ++ ['\x7d'] := by
  have hentry : ∀ m ∈ members,
      entryText ((keyExpr m).map Expr.chars, m.2.toExpr.chars) = memberText [' '] scriptChars m := by
    intro m hm
    rw [memberText, stringChars_of_unescaped (h m hm), keyExpr, Option.map_some, chars_made]
    rfl
  rw [scriptChars, toExpr, chars_made, memberExprs_eq]
  simp only [ExprForm.map, ExprForm.layer, Layer.text_curly, List.map_map]
  rw [List.zip_map', List.map_map, ← List.map_congr_left hentry]
  rfl

/-- The script is a way to write simple values. -/
theorem writing_scriptChars : Writing [' '] scriptChars Simple where
  blanks := List.forall_mem_singleton.mpr rfl
  scalar := by
    rintro j rest (_ | b | hn | hs | hitems | ⟨-, -, -⟩) hdepth hrest
    · rfl
    · cases b <;> rfl
    · rw [scriptChars_int hn]
      exact readScalar_int hrest (fitsInteger_of_fitsInt64 hn)
    · rw [scriptChars_str hs, stringChars_append, readScalar, readString_escaped]
      rfl
    · cases hdepth
    · cases hdepth
  items := by
    rintro items ⟨⟩
    assumption
  members := by
    rintro members ⟨⟩
    assumption
  write_arr _ := scriptChars_arr _
  write_obj := by
    rintro members ⟨⟩
    exact scriptChars_obj (by assumption)

/-! ### Members of different names -/

theorem put_of_not_mem {key : String} {value : Json} {members : List (String × Json)}
    (h : key ∉ members.map Prod.fst) : put key value members = members ++ [(key, value)] := by
  induction members with
  | nil => rfl
  | cons m members ih =>
    rw [List.map_cons, List.mem_cons, not_or] at h
    rw [put, if_neg (Ne.symm h.1), ih h.2, List.cons_append]

/-- Nothing is merged if there is nothing to merge. -/
theorem merge_of_nodup {members : List (String × Json)} (h : (members.map Prod.fst).Nodup) :
    merge members = members := by
  have hfold : ∀ kept rest : List (String × Json), ((kept ++ rest).map Prod.fst).Nodup →
      rest.foldl (fun kept m => put m.1 m.2 kept) kept = kept ++ rest := by
    intro kept rest hnodup
    induction rest generalizing kept with
    | nil => exact (List.append_nil kept).symm
    | cons m rest ih =>
      have hnew : m.1 ∉ kept.map Prod.fst := by
        rw [List.map_append, List.map_cons] at hnodup
        intro hmem
        exact (List.nodup_append.mp hnodup).2.2 _ hmem _ List.mem_cons_self rfl
      rw [List.foldl_cons, put_of_not_mem hnew, ih (kept ++ [(m.1, m.2)])]
      · simp
      · simpa using hnodup
  exact hfold [] members h

theorem mergedItems_eq (items : List Json) : mergedItems items = items.map merged := by
  induction items with
  | nil => rfl
  | cons j items ih => rw [mergedItems, ih, List.map_cons]

theorem mergedMembers_eq (members : List (String × Json)) :
    mergedMembers members = members.map fun m => (m.1, m.2.merged) := by
  induction members with
  | nil => rfl
  | cons m members ih => rw [mergedMembers, ih, List.map_cons]

theorem Simple.merged_eq {j : Json} (h : j.Simple) : j.merged = j := by
  induction h with
  | @arr items _ ih =>
    have hitems : items.map merged = items := (List.map_congr_left ih).trans (List.map_id' items)
    rw [merged, mergedItems_eq, hitems]
  | @obj members hnodup _ _ ih =>
    have hmembers : members.map (fun m => (m.1, m.2.merged)) = members := by
      refine (List.map_congr_left fun m hm => ?_).trans (List.map_id members)
      exact Prod.ext rfl (ih m hm)
    rw [merged, mergedMembers_eq, hmembers, merge_of_nodup hnodup]
  | _ => rfl

/-! ### Reading back -/

theorem parse_scriptChars {j : Json} (h : j.Simple) (hdepth : j.depth ≤ nestingLimit) :
    Json.parse (String.ofList j.scriptChars) = .ok j := by
  have hread : readValue (fuelFor j.scriptChars) nestingLimit j.scriptChars = .ok (j, []) := by
    have hvalue := writing_scriptChars.readValue_write h hdepth (Nat.le_succ _) endsNumber_nil
    rw [List.append_nil] at hvalue
    exact hvalue
  have htext : readText j.scriptChars = .ok j := by
    rw [readText, hread]
    rfl
  rw [Json.parse, String.toList_ofList, htext]
  exact congrArg Except.ok h.merged_eq

end Json

/-- **A simple value is read back from the script.**  Rendering its expression succeeds, with any
    renderer, and the reader of bindings reads the text as the value. -/
theorem renderExpr_toExpr_parse {κ : Type} [DecidableEq κ] {v : Json} (hv : v.Simple)
    (hdepth : v.depth ≤ Json.nestingLimit) (keyOf : Place → κ)
    (hkeys : Set.InjOn keyOf (v.toExpr.nodes [])) (r : Renderer κ) :
    ∃ text, (Renderer.renderExpr keyOf v.toExpr r).result = .ok text ∧
      Json.parse text = .ok v := by
  refine ⟨String.ofList v.scriptChars, ?_, Json.parse_scriptChars hv hdepth⟩
  rw [renderExpr_result keyOf hkeys]
  exact (hv.readable .alone).written v.supported_toExpr

/-- An object with the least integer in a list and an empty list in an object. -/
def nestedValue : Json :=
  .obj [("least", .arr [.int (-9223372036854775808), .str "a b"]), ("none", .obj [("", .arr [])])]

theorem simple_nestedValue : nestedValue.Simple := by
  have hkeys : ∀ key ∈ ["least", "none", "", "a b"], Json.Unescaped key := by
    decide
  refine .obj (by decide) (by simp [hkeys]) ?_
  rw [List.forall_mem_cons, List.forall_mem_singleton]
  constructor
  · apply Json.Simple.arr
    rw [List.forall_mem_cons, List.forall_mem_singleton]
    exact ⟨.int (by decide), .str (hkeys "a b" (by simp))⟩
  · refine .obj (by decide) (by simp [hkeys]) ?_
    exact List.forall_mem_singleton.mpr (.arr (List.forall_mem_nil _))

theorem renderExpr_toExpr_parse_nestedValue :
    nestedValue.Simple ∧ nestedValue.depth ≤ Json.nestingLimit ∧
    (Renderer.renderExpr id nestedValue.toExpr Renderer.new).result =
      .ok "\x7b\"least\": [-9223372036854775808, \"a b\"], \"none\": \x7b\"\": []\x7d\x7d" ∧
    Json.parse
      "\x7b\"least\": [-9223372036854775808, \"a b\"], \"none\": \x7b\"\": []\x7d\x7d" =
        .ok nestedValue := by
  have hdepth : nestedValue.depth ≤ Json.nestingLimit := by decide
  have hresult : (Renderer.renderExpr id nestedValue.toExpr Renderer.new).result =
      .ok "\x7b\"least\": [-9223372036854775808, \"a b\"], \"none\": \x7b\"\": []\x7d\x7d" := rfl
  obtain ⟨text, htext, hparse⟩ :=
    renderExpr_toExpr_parse simple_nestedValue hdepth id (Set.injOn_id _) Renderer.new
  rw [hresult] at htext
  cases htext
  exact ⟨simple_nestedValue, hdepth, hresult, hparse⟩

end ScriptTree
