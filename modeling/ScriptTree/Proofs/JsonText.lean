/-
  ScriptTree/Proofs/JsonText.lean
  ===============================
  **The text of a JSON value is read back as that value** (`readValue_chars`), whatever stands behind
  it, as long as that does not continue a number.  The value must be `Legible`: its integers are read
  as integers and each of its floating point numbers is read back from its own spelling.  The writer
  of values is a `Writing` without blanks.
-/
import ScriptTree.Proofs.JsonWriting

namespace ScriptTree.Json

/-- The spelling of a floating point number is read back. -/
def ReadsBack (x : Float) : Prop := readScalar (floatLayout.text x).toList = .ok (.float x, [])

/-- Every number of the value has a spelling that is read back. -/
inductive Legible : Json → Prop
  | null : Legible .null
  | bool (b : Bool) : Legible (.bool b)
  | int {n : Int} : FitsInteger n → Legible (.int n)
  | float {x : Float} : ReadsBack x → Legible (.float x)
  | str (s : String) : Legible (.str s)
  | arr {items : List Json} : (∀ j ∈ items, Legible j) → Legible (.arr items)
  | obj {members : List (String × Json)} : (∀ m ∈ members, Legible m.2) → Legible (.obj members)

/-- Values without brackets are read back. -/
theorem readScalar_chars {j : Json} (hj : j.Legible) (hdepth : j.depth = 0) {rest : List Char}
    (hrest : EndsNumber rest) : readScalar (j.chars ++ rest) = .ok (j, rest) := by
  cases hj with
  | null => rfl
  | bool b => cases b <;> rfl
  | int hn => exact readScalar_int hrest hn
  | float hx => exact readScalar_append hrest hx
  | str s =>
    rw [chars, stringChars_append, readScalar, readString_escaped]
    rfl
  | arr _ => simp [depth] at hdepth
  | obj _ => simp [depth] at hdepth

/-! ### The writer -/

theorem blanks_nil : Blanks [] := List.forall_mem_nil _

theorem itemsChars_eq (items : List Json) : itemsChars items = joined [] (items.map chars) := by
  induction items with
  | nil => rfl
  | cons j items ih =>
    rcases items with _ | ⟨k, items⟩
    · simp [itemsChars, joined]
    · rw [itemsChars, ih, List.map_cons, joined_cons, List.map_cons, joined_cons]
      · simp [following]
      · simp

theorem membersChars_eq (members : List (String × Json)) :
    membersChars members = joined [] (members.map (memberText [] chars)) := by
  induction members with
  | nil => rfl
  | cons m members ih =>
    rcases members with _ | ⟨l, members⟩
    · simp [membersChars, joined, memberText]
    · rw [membersChars, ih, List.map_cons, joined_cons, List.map_cons, joined_cons]
      · simp [following, memberText]
      · simp

theorem writing_chars : Writing [] chars Legible where
  blanks := blanks_nil
  scalar hj hdepth hrest := readScalar_chars hj hdepth hrest
  items := by
    rintro items ⟨⟩
    assumption
  members := by
    rintro members ⟨⟩
    assumption
  write_arr _ := by rw [chars, itemsChars_eq]
  write_obj _ := by rw [chars, membersChars_eq]

/-- **The text of a value is read back as that value.** -/
theorem readValue_chars {j : Json} (hj : j.Legible) {fuel budget : Nat} (hdepth : j.depth ≤ budget)
    (hfuel : j.chars.length ≤ fuel) {rest : List Char} (hrest : EndsNumber rest) :
    readValue fuel budget (j.chars ++ rest) = .ok (j, rest) :=
  writing_chars.readValue_write hj hdepth hfuel hrest

end ScriptTree.Json
