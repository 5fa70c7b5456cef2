/-
  ScriptTree/Proofs/CommandLine.lean
  ==================================
  **How the arguments become options.**  An argument that is taken does one of four things
  (`Takes`): it gives an option with its value, or an option that awaits one, or the value awaited, or
  it asks for the trace.  Two facts about accepted command lines follow by induction on the arguments.

  * The bindings are those of the values given to `--bind`, in their order (`bindings_of_run`).
  * Asking for the trace changes nothing else, wherever `--trace` stands (`insert_trace`), and in
    front of the other arguments it is accepted unless it is there already (`cons_trace`).
-/
import Mathlib.Data.List.TakeDrop
import ScriptTree.Command.Options
import ScriptTree.Proofs.Outcomes

namespace ScriptTree.Command

/-! ### What one argument does -/

/-- The option that an argument gives, with the value attached to it. -/
def optionOf? (text : String) : Option (ValueOption × Option String) :=
  match Argument.ofText text with
  | .long name value => (longOption? name).map fun option => (option, value)
  | .short letter tail => (shortOption? letter).map fun option => (option, attached? tail)
  | _ => none

/-- The same options with the trace asked for. -/
def Options.traced (o : Options) : Options := { o with trace := true }

/-- The arguments that are taken, by what is asked before and after, and which option is pending. -/
inductive Takes (o : Options) : Option Pending → String → Options → Option Pending → Prop where
  | attached {pending : Option Pending} {text value : String} {option : ValueOption}
      {o₁ o' : Options} (htext : optionOf? text = some (option, some value))
      (hsettle : settle o pending = .ok o₁) (hset : o₁.set option value = .ok o') :
      Takes o pending text o' none
  | awaits {pending : Option Pending} {text : String} {option : ValueOption} {o' : Options}
      (htext : optionOf? text = some (option, none)) (hsettle : settle o pending = .ok o') :
      Takes o pending text o' (some ⟨option, none⟩)
  | trace {pending : Option Pending} {text : String} {o₁ : Options}
      (htext : Argument.ofText text = .long "trace" none) (hsettle : settle o pending = .ok o₁)
      (hfresh : o₁.trace = false) : Takes o pending text o₁.traced none
  | value {text value : String} {option : ValueOption}
      (htext : Argument.ofText text = .plain value) :
      Takes o (some ⟨option, none⟩) text o (some ⟨option, some value⟩)

theorem takeArguments_nil_iff {o a : Options} {pending : Option Pending} :
    takeArguments o pending [] = .ok (.run a) ↔ settle o pending = .ok a := by
  rw [takeArguments]
  rcases settle o pending with e | o₁ <;> simp [bind, Except.bind, pure, Except.pure]

/-- What an argument with an option in it does. -/
theorem takeArguments_option_iff {text : String} {option : ValueOption} {value : Option String}
    (htext : optionOf? text = some (option, value)) {o a : Options} {pending : Option Pending}
    {rest : List String} :
    takeArguments o pending (text :: rest) = .ok (.run a)
      ↔ ∃ taken, takeOption o pending option value = .ok taken
        ∧ takeArguments taken.1 taken.2 rest = .ok (.run a) := by
  rw [takeArguments.eq_def]
  unfold optionOf? at htext
  split at htext
  next name value' harg =>
    obtain ⟨option', hname, hpair⟩ := Option.map_eq_some_iff.mp htext
    obtain ⟨rfl, rfl⟩ := Prod.mk.inj hpair
    simp only [harg, hname]
    exact bind_eq_ok_iff
  next letter tail harg =>
    obtain ⟨option', hname, hpair⟩ := Option.map_eq_some_iff.mp htext
    obtain ⟨rfl, rfl⟩ := Prod.mk.inj hpair
    simp only [harg, hname]
    exact bind_eq_ok_iff
  next => exact absurd htext (by simp)

theorem takes_iff_takeOption {text : String} {option : ValueOption} {value : Option String}
    (htext : optionOf? text = some (option, value)) {o o' : Options}
    {pending next : Option Pending} :
    Takes o pending text o' next ↔ takeOption o pending option value = .ok (o', next) := by
  have hargument : ∀ plain, Argument.ofText text ≠ .plain plain := by
    intro plain hplain
    simp [optionOf?, hplain] at htext
  have hflag : Argument.ofText text ≠ .long "trace" none := by
    intro htrace
    simp [optionOf?, htrace, longOption?] at htext
  unfold takeOption
  rw [bind_eq_ok_iff]
  constructor
  · rintro (⟨htext', hsettle, hset⟩ | ⟨htext', hsettle⟩ | ⟨htrace, -, -⟩ | hplain)
    · obtain ⟨rfl, rfl⟩ := Prod.mk.inj (Option.some.inj (htext.symm.trans htext'))
      exact ⟨_, hsettle, bind_eq_ok_iff.mpr ⟨_, hset, rfl⟩⟩
    · obtain ⟨rfl, rfl⟩ := Prod.mk.inj (Option.some.inj (htext.symm.trans htext'))
      exact ⟨_, hsettle, rfl⟩
    · exact absurd htrace hflag
    · exact absurd hplain (hargument _)
  · rintro ⟨o₁, hsettle, htake⟩
    rcases value with _ | value
    · obtain ⟨rfl, rfl⟩ := Prod.mk.inj (Except.ok.inj htake)
      exact .awaits htext hsettle
    · obtain ⟨o₂, hset, hpair⟩ := bind_eq_ok_iff.mp htake
      obtain ⟨rfl, rfl⟩ := Prod.mk.inj (Except.ok.inj hpair)
      exact .attached htext hsettle hset

/-- An argument without an option in it is the end mark, the flag for the trace, or a value that was
    awaited. -/
theorem takeArguments_flag_iff {text : String} (htext : optionOf? text = none) {o a : Options}
    {pending : Option Pending} {rest : List String} :
    takeArguments o pending (text :: rest) = .ok (.run a)
      ↔ (Argument.ofText text = .endMark ∧ rest = [] ∧ settle o pending = .ok a)
        ∨ (Argument.ofText text = .long "trace" none ∧ ∃ o₁, settle o pending = .ok o₁
          ∧ o₁.trace = false ∧ takeArguments o₁.traced none rest = .ok (.run a))
        ∨ ∃ option value, Argument.ofText text = .plain value ∧ pending = some ⟨option, none⟩
          ∧ takeArguments o (some ⟨option, some value⟩) rest = .ok (.run a) := by
  rw [takeArguments.eq_def]
  unfold optionOf? at htext
  rcases harg : Argument.ofText text with _ | ⟨name, value⟩ | ⟨letter, tail⟩ | plain
  · simp only [harg]
    rcases rest with _ | ⟨next, rest⟩
    · simp [bind_eq_ok_iff, pure, Except.pure]
    · simp
  · simp only [harg, Option.map_eq_none_iff] at htext
    simp only [harg, htext, longFlag?]
    rcases value with _ | value
    · by_cases htrace : name = "trace"
      · subst htrace
        simp only [↓reduceIte, bind_eq_ok_iff, Options.traced]
        constructor
        · rintro ⟨o₁, hsettle, hrest⟩
          split at hrest
          next => simp [throw, throwThe, MonadExceptOf.throw, bind, Except.bind] at hrest
          next hfresh => exact .inr (.inl ⟨trivial, o₁, hsettle, by simpa using hfresh, hrest⟩)
        · rintro (⟨hmark, -⟩ | ⟨-, o₁, hsettle, hfresh, hrest⟩ | ⟨_, _, hplain, -⟩)
          · simp at hmark
          · exact ⟨o₁, hsettle, by simpa [hfresh] using hrest⟩
          · simp at hplain
      · by_cases hhelp : name = "help" <;> simp [htrace, hhelp, bind_eq_ok_iff, pure, Except.pure]
    · by_cases htrace : name = "trace"
      · simp [htrace]
      · by_cases hhelp : name = "help" <;> simp [htrace, hhelp]
  · simp only [harg, Option.map_eq_none_iff] at htext
    simp only [harg, htext]
    by_cases hhelp : letter = 'h' <;> simp [hhelp, bind_eq_ok_iff, pure, Except.pure]
  · simp only [harg]
    rcases pending with _ | ⟨option, _ | value⟩ <;> simp

/-- A run is accepted if its first argument is taken and the others are; the end mark may come last. -/
theorem takeArguments_cons_iff {o a : Options} {pending : Option Pending} {text : String}
    {rest : List String} :
    takeArguments o pending (text :: rest) = .ok (.run a)
      ↔ (Argument.ofText text = .endMark ∧ rest = [] ∧ settle o pending = .ok a)
        ∨ ∃ o' next, Takes o pending text o' next ∧ takeArguments o' next rest = .ok (.run a) := by
  rcases htext : optionOf? text with _ | ⟨option, value⟩
  · rw [takeArguments_flag_iff htext]
    refine or_congr Iff.rfl ⟨?_, ?_⟩
    · rintro (⟨htrace, o₁, hsettle, hfresh, hrest⟩ | ⟨option, value, hplain, rfl, hrest⟩)
      · exact ⟨_, _, .trace htrace hsettle hfresh, hrest⟩
      · exact ⟨_, _, .value hplain, hrest⟩
    · rintro ⟨o', next, htakes, hrest⟩
      rcases htakes with ⟨htext', -, -⟩ | ⟨htext', -⟩ | ⟨htrace, hsettle, hfresh⟩ | hplain
      · simp [htext] at htext'
      · simp [htext] at htext'
      · exact .inl ⟨htrace, _, hsettle, hfresh, hrest⟩
      · exact .inr ⟨_, _, hplain, rfl, hrest⟩
  · have hmark : Argument.ofText text ≠ .endMark := by
      intro hmark
      simp [optionOf?, hmark] at htext
    simp only [takeArguments_option_iff htext, takes_iff_takeOption htext, hmark, false_and,
      false_or, Prod.exists]

theorem Takes.ne_endMark {o o' : Options} {pending next : Option Pending} {text : String}
    (h : Takes o pending text o' next) : Argument.ofText text ≠ .endMark := by
  intro hmark
  rcases h with ⟨hoption, -, -⟩ | ⟨hoption, -⟩ | ⟨hflag, -, -⟩ | hplain
  · simp [optionOf?, hmark] at hoption
  · simp [optionOf?, hmark] at hoption
  · simp [hmark] at hflag
  · simp [hmark] at hplain

/-- The values that are accepted, and what they set. -/
inductive Sets (o : Options) (value : String) : ValueOption → Options → Prop where
  | input (hfresh : o.input = none) (hvalue : value.isEmpty = false) :
      Sets o value .input { o with input := some value }
  | output (hfresh : o.output = none) (hvalue : value.isEmpty = false) :
      Sets o value .output { o with output := some value }
  | bind {b : Binding} (hparse : Binding.parse value = .ok b) :
      Sets o value .bind { o with bindings := o.bindings ++ [b] }

theorem set_eq_ok_iff {o o' : Options} {option : ValueOption} {value : String} :
    o.set option value = .ok o' ↔ Sets o value option o' := by
  constructor
  · intro h
    unfold Options.set at h
    rcases option with _ | _ | _
    · simp only at h
      split at h
      next => simp at h
      next hfresh =>
        split at h
        next => simp at h
        next hvalue =>
          obtain rfl := Except.ok.inj h
          exact .input (by simpa using hfresh) (by simpa using hvalue)
    · simp only at h
      split at h
      next => simp at h
      next hfresh =>
        split at h
        next => simp at h
        next hvalue =>
          obtain rfl := Except.ok.inj h
          exact .output (by simpa using hfresh) (by simpa using hvalue)
    · simp only at h
      split at h
      next b hparse =>
        obtain rfl := Except.ok.inj h
        exact .bind hparse
      next => simp at h
  · rintro (⟨hfresh, hvalue⟩ | ⟨hfresh, hvalue⟩ | hparse)
    · simp [Options.set, hfresh, hvalue]
    · simp [Options.set, hfresh, hvalue]
    · simp [Options.set, hparse]

/-! ### Asking for the trace -/

/-- Giving an option its value does not depend on the trace, and leaves it. -/
theorem set_traced {o o' : Options} {option : ValueOption} {value : String}
    (h : o.set option value = .ok o') :
    o.traced.set option value = .ok o'.traced ∧ o'.trace = o.trace := by
  rw [set_eq_ok_iff] at h ⊢
  rcases h with ⟨hfresh, hvalue⟩ | ⟨hfresh, hvalue⟩ | hparse
  · exact ⟨.input hfresh hvalue, rfl⟩
  · exact ⟨.output hfresh hvalue, rfl⟩
  · exact ⟨.bind hparse, rfl⟩

theorem settle_traced {o o' : Options} {pending : Option Pending} (h : settle o pending = .ok o') :
    settle o.traced pending = .ok o'.traced ∧ o'.trace = o.trace := by
  rcases pending with _ | ⟨option, _ | value⟩
  · exact Except.ok.inj h ▸ ⟨rfl, rfl⟩
  · simp [settle] at h
  · exact set_traced h

/-- What is asked for stays asked for. -/
theorem Takes.trace_mono {o o' : Options} {pending next : Option Pending} {text : String}
    (h : Takes o pending text o' next) (htrace : o.trace = true) : o'.trace = true := by
  rcases h with ⟨-, hsettle, hset⟩ | ⟨-, hsettle⟩ | ⟨-, -, -⟩ | -
  · rw [(set_traced hset).2, (settle_traced hsettle).2, htrace]
  · rw [(settle_traced hsettle).2, htrace]
  · rfl
  · exact htrace

theorem trace_mono {o a : Options} {pending : Option Pending} {args : List String}
    (h : takeArguments o pending args = .ok (.run a)) (htrace : o.trace = true) :
    a.trace = true := by
  induction args generalizing o pending with
  | nil => rw [(settle_traced (takeArguments_nil_iff.mp h)).2, htrace]
  | cons text rest ih =>
    rcases takeArguments_cons_iff.mp h with ⟨-, -, hsettle⟩ | ⟨o', next, htakes, hrest⟩
    · rw [(settle_traced hsettle).2, htrace]
    · exact ih hrest (htakes.trace_mono htrace)

theorem takes_flag_iff {text : String} (hflag : Argument.ofText text = .long "trace" none)
    {o o' : Options} {pending next : Option Pending} :
    Takes o pending text o' next
      ↔ ∃ o₁, settle o pending = .ok o₁ ∧ o₁.trace = false ∧ o' = o₁.traced ∧ next = none := by
  constructor
  · rintro (⟨hoption, -, -⟩ | ⟨hoption, -⟩ | ⟨-, hsettle, hfresh⟩ | hplain)
    · simp [optionOf?, hflag, longOption?] at hoption
    · simp [optionOf?, hflag, longOption?] at hoption
    · exact ⟨_, hsettle, hfresh, rfl, rfl⟩
    · simp [hflag] at hplain
  · rintro ⟨o₁, hsettle, hfresh, rfl, rfl⟩
    exact .trace hflag hsettle hfresh

/-- An argument does the same with the trace asked for, unless it asks for it again. -/
theorem Takes.traced {o o' : Options} {pending next : Option Pending} {text : String}
    (h : Takes o pending text o' next) (htext : Argument.ofText text ≠ .long "trace" none) :
    Takes o.traced pending text o'.traced next := by
  rcases h with ⟨hoption, hsettle, hset⟩ | ⟨hoption, hsettle⟩ | ⟨hflag, -, -⟩ | hplain
  · exact .attached hoption (settle_traced hsettle).1 (set_traced hset).1
  · exact .awaits hoption (settle_traced hsettle).1
  · exact absurd hflag htext
  · exact .value hplain

/-- Arguments that do not ask for the trace set the same options when it is asked for already. -/
theorem takeArguments_traced {o a : Options} {pending : Option Pending} {args : List String}
    (h : takeArguments o pending args = .ok (.run a)) (htrace : a.trace = false) :
    takeArguments o.traced pending args = .ok (.run a.traced) := by
  induction args generalizing o pending with
  | nil =>
    rw [takeArguments_nil_iff] at h ⊢
    exact (settle_traced h).1
  | cons text rest ih =>
    rw [takeArguments_cons_iff] at h ⊢
    rcases h with ⟨hmark, hlast, hsettle⟩ | ⟨o', next, htakes, hrest⟩
    · exact .inl ⟨hmark, hlast, (settle_traced hsettle).1⟩
    · refine .inr ⟨_, _, htakes.traced ?_, ih hrest⟩
      intro hflag
      -- a flag for the trace here would leave it asked for at the end
      obtain ⟨o₁, -, -, rfl, rfl⟩ := (takes_flag_iff hflag).mp htakes
      exact absurd (trace_mono hrest rfl) (by simp [htrace])

theorem Takes.det {o o₁ o₂ : Options} {pending next₁ next₂ : Option Pending} {text : String}
    (h₁ : Takes o pending text o₁ next₁) (h₂ : Takes o pending text o₂ next₂) :
    o₁ = o₂ ∧ next₁ = next₂ := by
  rcases htext : optionOf? text with _ | ⟨option, value⟩
  · rcases h₁ with ⟨htext₁, -, -⟩ | ⟨htext₁, -⟩ | ⟨hflag, hsettle, -⟩ | hplain
    · simp [htext] at htext₁
    · simp [htext] at htext₁
    · obtain ⟨o', hsettle', -, rfl, rfl⟩ := (takes_flag_iff hflag).mp h₂
      obtain rfl := Except.ok.inj (hsettle.symm.trans hsettle')
      exact ⟨rfl, rfl⟩
    · rcases h₂ with ⟨htext₂, -, -⟩ | ⟨htext₂, -⟩ | ⟨hflag, -, -⟩ | hplain'
      · simp [htext] at htext₂
      · simp [htext] at htext₂
      · simp [hflag] at hplain
      · obtain rfl := Argument.plain.inj (hplain.symm.trans hplain')
        exact ⟨rfl, rfl⟩
  · rw [takes_iff_takeOption htext] at h₁ h₂
    exact Prod.mk.inj (Except.ok.inj (h₁.symm.trans h₂))

/-- Where both are accepted, asking for the trace first changes nothing else. -/
theorem eq_traced_of_takeArguments {o a b : Options} {pending : Option Pending} {args : List String}
    (h : takeArguments o pending args = .ok (.run a))
    (htraced : takeArguments o.traced pending args = .ok (.run b)) : b = a.traced := by
  induction args generalizing o pending with
  | nil =>
    rw [takeArguments_nil_iff] at h htraced
    exact Except.ok.inj (htraced.symm.trans (settle_traced h).1)
  | cons text rest ih =>
    rw [takeArguments_cons_iff] at h htraced
    rcases h with ⟨hmark, -, hsettle⟩ | ⟨o', next, htakes, hrest⟩
    · rcases htraced with ⟨-, -, hsettle'⟩ | ⟨o'', next', htakes', -⟩
      · exact Except.ok.inj (hsettle'.symm.trans (settle_traced hsettle).1)
      · exact absurd hmark htakes'.ne_endMark
    · rcases htraced with ⟨hmark, -, -⟩ | ⟨o'', next', htakes', hrest'⟩
      · exact absurd hmark htakes.ne_endMark
      · by_cases hflag : Argument.ofText text = .long "trace" none
        · obtain ⟨o₁, hsettle, -, -, -⟩ := (takes_flag_iff hflag).mp htakes
          obtain ⟨o₂, hsettle', hfresh, -, -⟩ := (takes_flag_iff hflag).mp htakes'
          obtain rfl := Except.ok.inj (hsettle'.symm.trans (settle_traced hsettle).1)
          exact absurd hfresh (by simp [Options.traced])
        · obtain ⟨rfl, rfl⟩ := htakes'.det (htakes.traced hflag)
          exact ih hrest hrest'

/-- A pending option that has its value may be settled at once. -/
theorem takeArguments_settled {o o₁ a : Options} {pending : Option Pending} {args : List String}
    (hsettle : settle o pending = .ok o₁) (h : takeArguments o pending args = .ok (.run a)) :
    takeArguments o₁ none args = .ok (.run a) := by
  rcases args with _ | ⟨text, rest⟩
  · rw [takeArguments_nil_iff] at h ⊢
    exact hsettle.symm.trans h
  · rw [takeArguments_cons_iff] at h ⊢
    rcases h with ⟨hmark, hlast, hsettle'⟩ | ⟨o', next, htakes, hrest⟩
    · exact .inl ⟨hmark, hlast, hsettle.symm.trans hsettle'⟩
    · refine .inr ⟨o', next, ?_, hrest⟩
      rcases htakes with ⟨htext, hsettle', hset⟩ | ⟨htext, hsettle'⟩ | ⟨hflag, hsettle', hfresh⟩ | _
      · obtain rfl := Except.ok.inj (hsettle.symm.trans hsettle')
        exact .attached htext rfl hset
      · obtain rfl := Except.ok.inj (hsettle.symm.trans hsettle')
        exact .awaits htext rfl
      · obtain rfl := Except.ok.inj (hsettle.symm.trans hsettle')
        exact .trace hflag rfl hfresh
      · simp [settle] at hsettle

/-- A flag for the trace that is accepted, wherever it stands, changes nothing else. -/
theorem eq_traced_of_insert {text : String} (hflag : Argument.ofText text = .long "trace" none)
    {o a b : Options} {pending : Option Pending} {before after : List String}
    (h : takeArguments o pending (before ++ after) = .ok (.run a))
    (hinsert : takeArguments o pending (before ++ text :: after) = .ok (.run b)) : b = a.traced := by
  induction before generalizing o pending with
  | nil =>
    rcases takeArguments_cons_iff.mp hinsert with ⟨hmark, -, -⟩ | ⟨o', next, htakes, hrest⟩
    · simp [hflag] at hmark
    · obtain ⟨o₁, hsettle, -, rfl, rfl⟩ := (takes_flag_iff hflag).mp htakes
      exact eq_traced_of_takeArguments (takeArguments_settled hsettle h) hrest
  | cons first before ih =>
    rw [List.cons_append, takeArguments_cons_iff] at h hinsert
    rcases hinsert with ⟨-, hlast, -⟩ | ⟨o', next, htakes, hrest⟩
    · simp at hlast
    · rcases h with ⟨hmark, -, -⟩ | ⟨o'', next', htakes', hrest'⟩
      · exact absurd hmark htakes.ne_endMark
      · obtain ⟨rfl, rfl⟩ := htakes.det htakes'
        exact ih hrest' hrest

/-! ### The order of the bindings -/

/-- The value of an argument `--bind=value`. -/
def attachedBind? (text : String) : Option String :=
  if "--bind=".toList <+: text.toList then some (String.ofList (text.toList.drop 7)) else none

/-- The values given to `--bind`, attached to it or as the argument after it, in their order. -/
def bindTexts : List String → List String
  | [] => []
  | text :: rest =>
    (if text = "--bind" then rest.head? else attachedBind? text).toList ++ bindTexts rest

theorem attachedBind?_eq_some_iff {text value : String} :
    attachedBind? text = some value ↔ text = "--bind=" ++ value := by
  unfold attachedBind?
  constructor
  · intro h
    split at h
    next hprefix =>
      obtain ⟨tail, htail⟩ := hprefix
      obtain rfl := Option.some.inj h
      apply String.toList_inj.mp
      simp [← htail]
    next => simp at h
  · rintro rfl
    rw [if_pos (by simp)]
    simp

/-- A long name, with what follows the equals sign behind it. -/
theorem eq_of_ofText_long {text name : String} {value : Option String}
    (h : Argument.ofText text = .long name value) :
    (text = "--" ++ name ∧ value = none) ∨ ∃ v, text = "--" ++ name ++ "=" ++ v ∧ value = some v := by
  unfold Argument.ofText at h
  split at h
  next => simp at h
  next body _ htext =>
    simp only [List.span_eq_takeWhile_dropWhile, Argument.long.injEq] at h
    obtain ⟨rfl, hvalue⟩ := h
    have hbody : body.takeWhile (· != '=') ++ body.dropWhile (· != '=') = body :=
      List.takeWhile_append_dropWhile
    rcases htail : body.dropWhile (· != '=') with _ | ⟨c, tail⟩
    · refine .inl ⟨String.toList_inj.mp ?_, by simpa [htail] using hvalue.symm⟩
      rw [htail, List.append_nil] at hbody
      simp [htext, hbody]
    · have hc : c = '=' := by
        have := List.head?_dropWhile_not (· != '=') body
        simpa [htail] using this
      refine .inr ⟨String.ofList tail, String.toList_inj.mp ?_, by simpa [htail] using hvalue.symm⟩
      rw [htail, hc] at hbody
      simpa [htext] using hbody.symm
  next => simp at h
  next => simp at h

/-- Only the long name gives `--bind`. -/
theorem optionOf?_eq_bind_iff {text : String} {value : Option String} :
    optionOf? text = some (.bind, value)
      ↔ (text = "--bind" ∧ value = none) ∨ ∃ v, text = "--bind=" ++ v ∧ value = some v := by
  constructor
  · intro h
    unfold optionOf? at h
    split at h
    next name value' harg =>
      obtain ⟨option, hname, hpair⟩ := Option.map_eq_some_iff.mp h
      obtain ⟨rfl, rfl⟩ := Prod.mk.inj hpair
      have hbind : name = "bind" := by
        unfold longOption? at hname
        grind
      subst hbind
      exact eq_of_ofText_long harg
    next letter tail harg =>
      obtain ⟨option, hletter, hpair⟩ := Option.map_eq_some_iff.mp h
      obtain ⟨rfl, rfl⟩ := Prod.mk.inj hpair
      unfold shortOption? at hletter
      grind
    next => simp at h
  · rintro (⟨rfl, rfl⟩ | ⟨v, rfl, rfl⟩)
    · rfl
    · have harg : Argument.ofText ("--bind=" ++ v) = .long "bind" (some v) := by
        simp [Argument.ofText, List.span_eq_takeWhile_dropWhile]
      simp [optionOf?, harg, longOption?]

theorem bindTexts_cons_of_not_bind {text : String} (h : ∀ value, optionOf? text ≠ some (.bind, value))
    (rest : List String) : bindTexts (text :: rest) = bindTexts rest := by
  have hawaits : text ≠ "--bind" := fun htext =>
    h none (optionOf?_eq_bind_iff.mpr (.inl ⟨htext, rfl⟩))
  have hattached : attachedBind? text = none := by
    rw [Option.eq_none_iff_forall_ne_some]
    intro v hv
    exact h (some v) (optionOf?_eq_bind_iff.mpr (.inr ⟨v, attachedBind?_eq_some_iff.mp hv, rfl⟩))
  simp [bindTexts, hawaits, hattached]

/-- The value of the pending option, if that is `--bind`: it has it, or it is the next argument. -/
def pendingTexts : Option Pending → List String → List String
  | some ⟨.bind, some value⟩, _ => [value]
  | some ⟨.bind, none⟩, args => args.head?.toList
  | _, _ => []

theorem bindTexts_cons_option {text : String} {option : ValueOption} {value : Option String}
    (h : optionOf? text = some (option, value)) (rest : List String) :
    bindTexts (text :: rest) = pendingTexts (some ⟨option, value⟩) rest ++ bindTexts rest := by
  by_cases hbind : option = .bind
  · subst hbind
    rcases optionOf?_eq_bind_iff.mp h with ⟨rfl, rfl⟩ | ⟨v, rfl, rfl⟩
    · simp [bindTexts, pendingTexts]
    · have hne : "--bind=" ++ v ≠ "--bind" := by
        intro heq
        simpa using congrArg String.toList heq
      simp [bindTexts, pendingTexts, hne, attachedBind?_eq_some_iff.mpr rfl]
  · rw [bindTexts_cons_of_not_bind]
    · rcases option with _ | _ | _
      · rfl
      · rfl
      · exact absurd rfl hbind
    · intro v hv
      exact hbind (Prod.mk.inj (Option.some.inj (h.symm.trans hv))).1

/-- The bindings that some options have, and those that some texts stand for. -/
def readings (o : Options) (texts : List String) : List (Except BindingError Binding) :=
  o.bindings.map Except.ok ++ texts.map Binding.parse

theorem readings_set {o o' : Options} {option : ValueOption} {value : String}
    (h : o.set option value = .ok o') (args texts : List String) :
    readings o' texts = readings o (pendingTexts (some ⟨option, some value⟩) args ++ texts) := by
  rcases set_eq_ok_iff.mp h with _ | _ | hparse
  · rfl
  · rfl
  · simp [readings, pendingTexts, hparse]

theorem readings_settle {o o' : Options} {pending : Option Pending}
    (h : settle o pending = .ok o') (args texts : List String) :
    readings o' texts = readings o (pendingTexts pending args ++ texts) := by
  rcases pending with _ | ⟨option, _ | value⟩
  · obtain rfl := Except.ok.inj h
    rfl
  · simp [settle] at h
  · exact readings_set h args texts

theorem eq_of_ofText_plain {text value : String} (h : Argument.ofText text = .plain value) :
    value = text := by
  unfold Argument.ofText at h
  split at h <;> simp_all

/-- An argument leaves the bindings that the whole command line stands for. -/
theorem Takes.readings_eq {o o' : Options} {pending next : Option Pending} {text : String}
    (h : Takes o pending text o' next) (rest : List String) :
    readings o' (pendingTexts next rest ++ bindTexts rest)
      = readings o (pendingTexts pending (text :: rest) ++ bindTexts (text :: rest)) := by
  rcases h with ⟨hoption, hsettle, hset⟩ | ⟨hoption, hsettle⟩ | ⟨hflag, hsettle, -⟩ |
    @⟨_, value, option, hplain⟩
  · rw [← readings_settle hsettle, bindTexts_cons_option hoption, ← readings_set hset]
    rfl
  · rw [← readings_settle hsettle, bindTexts_cons_option hoption]
  · rw [← readings_settle hsettle, bindTexts_cons_of_not_bind]
    · rfl
    · intro value hvalue
      simp [optionOf?, hflag, longOption?] at hvalue
  · obtain rfl := eq_of_ofText_plain hplain
    rw [bindTexts_cons_of_not_bind]
    · rcases option with _ | _ | _ <;> rfl
    · intro value' hvalue
      simp [optionOf?, hplain] at hvalue

/-- The bindings of an accepted command line are those of the values given to `--bind`, in order. -/
theorem readings_of_takeArguments {o a : Options} {pending : Option Pending} {args : List String}
    (h : takeArguments o pending args = .ok (.run a)) :
    readings a [] = readings o (pendingTexts pending args ++ bindTexts args) := by
  induction args generalizing o pending with
  | nil =>
    rw [readings_settle (takeArguments_nil_iff.mp h) []]
    rfl
  | cons text rest ih =>
    rcases takeArguments_cons_iff.mp h with ⟨hmark, rfl, hsettle⟩ | ⟨o', next, htakes, hrest⟩
    · rw [readings_settle hsettle [text], bindTexts_cons_of_not_bind]
      · rfl
      · intro value hvalue
        simp [optionOf?, hmark] at hvalue
    · rw [ih hrest, htakes.readings_eq]

/-! ### Whole command lines -/

/-- The bindings of a run are those of the values given to `--bind`, in their order. -/
theorem bindings_of_run {args : List String} {o : Options}
    (h : parseArguments args = .ok (.run o)) :
    o.bindings.map Except.ok = (bindTexts args).map Binding.parse := by
  have hreadings := readings_of_takeArguments h
  simpa [readings, pendingTexts, Options.none] using hreadings

theorem ofText_trace : Argument.ofText "--trace" = .long "trace" none := by
  decide

/-- A flag for the trace in a run changes nothing else, wherever it stands. -/
theorem insert_trace {before after : List String} {o o' : Options}
    (h : parseArguments (before ++ after) = .ok (.run o))
    (hinsert : parseArguments (before ++ "--trace" :: after) = .ok (.run o')) : o' = o.traced :=
  eq_traced_of_insert ofText_trace h hinsert

/-- A flag for the trace may come first, unless there is one. -/
theorem cons_trace {args : List String} {o : Options} (h : parseArguments args = .ok (.run o))
    (htrace : o.trace = false) : parseArguments ("--trace" :: args) = .ok (.run o.traced) :=
  takeArguments_cons_iff.mpr
    (.inr ⟨_, _, .trace ofText_trace rfl rfl, takeArguments_traced h htrace⟩)

end ScriptTree.Command
