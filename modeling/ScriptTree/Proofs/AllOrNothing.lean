/-
  ScriptTree/Proofs/AllOrNothing.lean
  ===================================
  **The command writes all or nothing.**  A run succeeds exactly if its input can be read, is text,
  loads and renders, and its output can be created.  It then leaves the rendered text where it was
  asked for, and nothing else.  A run that fails leaves every file as it was, also an output that is
  there already or that is the input itself, and reports why under the name of the input, or of the
  output if only that was in the way.  Asking for the trace changes none of this.

  Nothing is assumed of the files but the laws of `LawfulFileSystem`: which paths there are, where they
  lead and what may be read or created is up to the file system, and standard input may fail as well.
-/
import ScriptTree.Command.Run
import ScriptTree.Proofs.CommandLine
import ScriptTree.Proofs.DiskLaws

namespace ScriptTree.Command

open FileSystem (openFile readFile createFile writeFile isDevice Key)

variable {σ : Type} [FileSystem σ]

/-! ### Runs in one piece -/

/-- What reading the input comes to. -/
def inputOf (o : Options) (stdin : Except FileFault ByteArray) (files : σ) :
    Except Failure ByteArray :=
  match o.input with
  | none => stdin.mapError .readInput
  | some path =>
    match openFile files path with
    | .error fault => .error (.openInput fault)
    | .ok key => (readFile files key).mapError .readInput

/-- What delivering a text comes to. -/
def delivered (o : Options) (files : σ) (events : List Event) : Except Failure String → Result σ
  | .error f => ⟨1, "", f.report o, events, files⟩
  | .ok text =>
    match o.output with
    | none => ⟨0, text, "", events, files⟩
    | some path =>
      match createFile files path with
      | .error fault => ⟨1, "", (Failure.writeOutput fault).report o, events, files⟩
      | .ok (key, created) =>
        match writeFile created key text with
        | .error fault => ⟨1, "", (Failure.writeOutput fault).report o, events, created⟩
        | .ok written => ⟨0, "", "", events, written⟩

theorem readInput_apply (o : Options) (w : World σ) :
    (readInput o : StateM (World σ) (Except Failure ByteArray)) w
      = (inputOf o w.stdin w.files, w) := by
  unfold readInput inputOf
  rcases o.input with _ | path
  · rfl
  · simp only [bind, StateT.bind, System.openFile]
    rcases openFile w.files path with fault | key
    · rfl
    · rfl

theorem fail_apply (o : Options) (f : Failure) (stdin : Except FileFault ByteArray) (files : σ)
    (events : List Event) :
    Result.of ((fail o f : StateM (World σ) UInt32) ⟨stdin, files, "", "", events⟩)
      = ⟨1, "", f.report o, events, files⟩ := by
  rw [← String.empty_append (s := f.report o)]
  rfl

theorem deliver_apply (o : Options) (text : Except Failure String)
    (stdin : Except FileFault ByteArray) (files : σ) (events : List Event) :
    Result.of ((deliver o text : StateM (World σ) UInt32) ⟨stdin, files, "", "", events⟩)
      = delivered o files events text := by
  rcases text with f | text
  · exact fail_apply o f stdin files events
  unfold delivered
  simp only [deliver, writeOutput]
  rcases o.output with _ | path
  · rw [← String.empty_append (s := text)]
    rfl
  · rcases hcreate : createFile files path with fault | ⟨key, created⟩
    · simp only [bind, StateT.bind, System.createFile, hcreate]
      exact fail_apply o _ stdin files events
    · simp only [bind, StateT.bind, System.createFile, System.writeFile, hcreate]
      rcases writeFile created key text with fault | written
      · exact fail_apply o _ stdin created events
      · rfl

/-- A run reads its input, works out the text and delivers it. -/
theorem runIn_eq_delivered {args : List String} {o : Options}
    (hargs : parseArguments args = .ok (.run o)) (stdin : Except FileFault ByteArray) (files : σ) :
    runIn args stdin files
      = delivered o files (if o.trace then (scriptText o (inputOf o stdin files)).2 else [])
          (scriptText o (inputOf o stdin files)).1 := by
  rw [← deliver_apply o _ stdin]
  simp only [runIn, command, hargs, perform, bind, StateT.bind, readInput_apply]
  rcases o.trace with _ | _
  · rfl
  · rfl

/-! ### What a run is to write -/

/-- The bytes of the input that the options name. -/
inductive InputHolds (o : Options) (stdin : Except FileFault ByteArray) (files : σ) :
    ByteArray → Prop where
  | stdin {bytes : ByteArray} (hinput : o.input = none) (hread : stdin = .ok bytes) :
      InputHolds o stdin files bytes
  | file {path : String} {key : Key σ} {bytes : ByteArray} (hinput : o.input = some path)
      (hopen : openFile files path = .ok key) (hread : readFile files key = .ok bytes) :
      InputHolds o stdin files bytes

/-- The input can be opened and read, is the UTF-8 form of a source that loads, and renders with the
    bindings as this text. -/
def Yields (o : Options) (stdin : Except FileFault ByteArray) (files : σ) (text : String) : Prop :=
  ∃ source m, InputHolds o stdin files source.toUTF8 ∧ Module.load source = .ok m
    ∧ (Script.run m o.bindings).result = .ok text

/-- What goes wrong before there is a text to write: one case for each step. -/
inductive Stops (o : Options) (stdin : Except FileFault ByteArray) (files : σ) :
    Failure → Prop where
  | readStdin {fault : FileFault} (hinput : o.input = none) (hread : stdin = .error fault) :
      Stops o stdin files (.readInput fault)
  | openInput {path : String} {fault : FileFault} (hinput : o.input = some path)
      (hopen : openFile files path = .error fault) : Stops o stdin files (.openInput fault)
  | readInput {path : String} {key : Key σ} {fault : FileFault} (hinput : o.input = some path)
      (hopen : openFile files path = .ok key) (hread : readFile files key = .error fault) :
      Stops o stdin files (.readInput fault)
  | notText {bytes : ByteArray} (hbytes : InputHolds o stdin files bytes)
      (hsource : ∀ source : String, bytes ≠ source.toUTF8) : Stops o stdin files .notText
  | load {source : String} {e : LoadError} (hbytes : InputHolds o stdin files source.toUTF8)
      (hload : Module.load source = .error e) : Stops o stdin files (.load e)
  | render {source : String} {m : Module} {e : RenderError}
      (hbytes : InputHolds o stdin files source.toUTF8) (hload : Module.load source = .ok m)
      (hrun : (Script.run m o.bindings).result = .error e) : Stops o stdin files (.render e)

section Input

variable {o : Options} {stdin : Except FileFault ByteArray} {files : σ}

theorem inputOf_of_inputHolds {bytes : ByteArray} (h : InputHolds o stdin files bytes) :
    inputOf o stdin files = .ok bytes := by
  rcases h with ⟨hinput, rfl⟩ | ⟨hinput, hopen, hread⟩
  · simp [inputOf, hinput, mapError_ok]
  · simp [inputOf, hinput, hopen, hread, mapError_ok]

theorem inputOf_cases (o : Options) (stdin : Except FileFault ByteArray) (files : σ) :
    (∃ bytes, InputHolds o stdin files bytes)
      ∨ ∃ f, inputOf o stdin files = .error f ∧ Stops o stdin files f := by
  rcases hinput : o.input with _ | path
  · rcases hread : stdin with fault | bytes
    · exact .inr ⟨_, by simp [inputOf, hinput, mapError_error], .readStdin hinput rfl⟩
    · exact .inl ⟨bytes, .stdin hinput rfl⟩
  · rcases hopen : openFile files path with fault | key
    · exact .inr ⟨_, by simp [inputOf, hinput, hopen], .openInput hinput hopen⟩
    · rcases hread : readFile files key with fault | bytes
      · refine .inr ⟨_, ?_, .readInput hinput hopen hread⟩
        simp [inputOf, hinput, hopen, hread, mapError_error]
      · exact .inl ⟨bytes, .file hinput hopen hread⟩

theorem fromUTF8?_eq_some_iff {bytes : ByteArray} {source : String} :
    String.fromUTF8? bytes = some source ↔ bytes = source.toUTF8 := by
  unfold String.fromUTF8?
  constructor
  · intro h
    split at h
    next => exact Option.some.inj h ▸ rfl
    next => simp at h
  · rintro rfl
    exact dif_pos source.isValidUTF8

theorem scriptText_of_yields {text : String} (h : Yields o stdin files text) :
    (scriptText o (inputOf o stdin files)).1 = .ok text := by
  obtain ⟨source, m, hbytes, hload, hrun⟩ := h
  have hsource : String.fromUTF8? source.toUTF8 = some source := fromUTF8?_eq_some_iff.mpr rfl
  rw [inputOf_of_inputHolds hbytes]
  simp only [scriptText, hsource, hload, hrun, mapError_ok]

/-- Either all steps succeed and there is a text to write, or one of them is the first to fail. -/
theorem scriptText_cases (o : Options) (stdin : Except FileFault ByteArray) (files : σ) :
    (∃ text, Yields o stdin files text)
      ∨ ∃ f, (scriptText o (inputOf o stdin files)).1 = .error f ∧ Stops o stdin files f := by
  rcases inputOf_cases o stdin files with ⟨bytes, hbytes⟩ | ⟨f, hinput, hstops⟩
  · have hinput := inputOf_of_inputHolds hbytes
    rcases hsource : String.fromUTF8? bytes with _ | source
    · refine .inr ⟨.notText, by simp only [hinput, scriptText, hsource], .notText hbytes ?_⟩
      intro source heq
      rw [fromUTF8?_eq_some_iff.mpr heq] at hsource
      exact Option.some_ne_none _ hsource
    · obtain rfl := fromUTF8?_eq_some_iff.mp hsource
      rcases hload : Module.load source with e | m
      · exact .inr ⟨_, by simp only [hinput, scriptText, hsource, hload], .load hbytes hload⟩
      · rcases hrun : (Script.run m o.bindings).result with e | text
        · refine .inr ⟨_, ?_, .render hbytes hload hrun⟩
          simp only [hinput, scriptText, hsource, hload, hrun, mapError_error]
        · exact .inl ⟨text, source, m, hbytes, hload, hrun⟩
  · exact .inr ⟨f, by rw [hinput, scriptText], hstops⟩

/-- What goes wrong before there is a text to write is reported under the name of the input. -/
theorem Stops.subject_eq {f : Failure} (h : Stops o stdin files f) :
    f.subject o = o.input.getD "<stdin>" := by
  rcases h <;> rfl

end Input

/-! ### What a run leaves behind -/

/-- A text was written to the file that a path names, and nothing else has changed: the path leads to
    no other file, other files hold what they held, and every path leads where it led, unless it
    leads to the file that was written. -/
structure Replaces (files files' : σ) (path text : String) (key : Key σ) : Prop where
  written : ∃ created, createFile files path = .ok (key, created)
    ∧ writeFile created key text = .ok files'
  readFile_eq (hkeeps : isDevice key = false) : readFile files' key = .ok text.toUTF8
  openFile_path (k : Key σ) (hopen : openFile files' path = .ok k) : k = key
  readFile_other (k : Key σ) (hk : k ≠ key) : readFile files' k = readFile files k
  openFile_kept (p : String) (k : Key σ) (hopen : openFile files p = .ok k) :
    openFile files' p = .ok k
  openFile_new (p : String) (k : Key σ) (hopen : openFile files' p = .ok k) :
    k = key ∨ openFile files p = .ok k

/-- What a run leaves that wrote a text. -/
structure Wrote (o : Options) (files : σ) (text : String) (r : Result σ) : Prop where
  report_eq : r.report = ""
  toOutput (houtput : o.output = none) : r.output = text ∧ r.folder = files
  toFile (path : String) (houtput : o.output = some path) :
    r.output = "" ∧ ∃ key, Replaces files r.folder path text key

/-- What a run leaves that failed: it is reported under the name of the input what has gone wrong if
    there is no text to write, and under the name of the output if there is one. -/
structure Failed (o : Options) (stdin : Except FileFault ByteArray) (files : σ) (r : Result σ) :
    Prop where
  exitCode_eq : r.exitCode = 1
  output_eq : r.output = ""
  folder_eq : r.folder = files
  inputReport (htext : ¬ ∃ text, Yields o stdin files text) :
    ∃ failure, Stops o stdin files failure
      ∧ r.report = o.input.getD "<stdin>" ++ ": " ++ failure.message ++ "\n"
  outputReport (text : String) (htext : Yields o stdin files text) :
    ∃ path fault, o.output = some path ∧ createFile files path = .error fault
      ∧ r.report = path ++ ": " ++ (Failure.writeOutput fault).message ++ "\n"

/-- The output that the options ask for, if it is a file, can be created. -/
def CanCreate (o : Options) (files : σ) : Prop :=
  ∀ path, o.output = some path → ∃ key created, createFile files path = .ok (key, created)

/-- Two runs differ in their traces at most. -/
structure Result.Agrees (r r' : Result σ) : Prop where
  exitCode_eq : r.exitCode = r'.exitCode
  output_eq : r.output = r'.output
  report_eq : r.report = r'.report
  folder_eq : r.folder = r'.folder

section Delivery

variable {o : Options} {stdin : Except FileFault ByteArray} {files : σ}

/-- Without a text to write, a run fails. -/
theorem failed_of_not_yields (h : ¬ ∃ text, Yields o stdin files text) (events : List Event) :
    Failed o stdin files (delivered o files events (scriptText o (inputOf o stdin files)).1) := by
  rcases scriptText_cases o stdin files with hyields | ⟨f, htext, hstops⟩
  · exact absurd hyields h
  · simp only [htext, delivered]
    refine ⟨rfl, rfl, rfl, fun _ => ⟨f, hstops, ?_⟩, fun text hyields => absurd ⟨text, hyields⟩ h⟩
    rw [Failure.report, hstops.subject_eq]

/-- With a text to write, a run fails where it cannot be written. -/
theorem failed_of_not_created {text path : String} {fault : FileFault}
    (h : Yields o stdin files text) (houtput : o.output = some path)
    (hcreate : createFile files path = .error fault) (events : List Event) :
    Failed o stdin files (delivered o files events (.ok text)) := by
  simp only [delivered, houtput, hcreate]
  refine ⟨rfl, rfl, rfl, fun hnone => absurd ⟨text, h⟩ hnone, fun _ _ => ?_⟩
  refine ⟨path, fault, houtput, hcreate, ?_⟩
  simp [Failure.report, Failure.subject, Options.outputName, houtput]

theorem delivered_traced (files : σ) (events events' : List Event) (text : Except Failure String) :
    (delivered o.traced files events text).Agrees (delivered o files events' text) := by
  have houtput : o.traced.output = o.output := rfl
  have hreport (f : Failure) : f.report o.traced = f.report o := by
    rcases f with _ | _ | _ | _ | _ | _ <;> rfl
  unfold delivered
  simp only [houtput, hreport]
  split
  next => exact ⟨rfl, rfl, rfl, rfl⟩
  next =>
    split
    next => exact ⟨rfl, rfl, rfl, rfl⟩
    next =>
      split
      next => exact ⟨rfl, rfl, rfl, rfl⟩
      next => split <;> exact ⟨rfl, rfl, rfl, rfl⟩

variable [LawfulFileSystem σ]

theorem replaces_of_writeFile {created files' : σ} {path text : String} {key : Key σ}
    (hcreate : createFile files path = .ok (key, created))
    (hwrite : writeFile created key text = .ok files') : Replaces files files' path text key where
  written := ⟨created, hcreate, hwrite⟩
  readFile_eq := LawfulFileSystem.readFile_written hcreate hwrite
  openFile_path k hopen := by
    rw [LawfulFileSystem.openFile_write path hwrite] at hopen
    exact LawfulFileSystem.openFile_created hcreate hopen
  readFile_other k hk := by
    rw [LawfulFileSystem.readFile_write hwrite hk, LawfulFileSystem.readFile_create hcreate hk]
  openFile_kept p k hopen := by
    rw [LawfulFileSystem.openFile_write p hwrite]
    exact LawfulFileSystem.openFile_create hcreate hopen
  openFile_new p k hopen := by
    rw [LawfulFileSystem.openFile_write p hwrite] at hopen
    exact LawfulFileSystem.openFile_of_create hcreate hopen

/-- With a text to write, a run writes it where it can. -/
theorem wrote_of_canCreate (hcreate : CanCreate o files) (text : String) (events : List Event) :
    (delivered o files events (.ok text)).exitCode = 0
      ∧ Wrote o files text (delivered o files events (.ok text)) := by
  unfold delivered
  rcases houtput : o.output with _ | path
  · exact ⟨rfl, rfl, fun _ => ⟨rfl, rfl⟩, fun path hpath => by simp [houtput] at hpath⟩
  · obtain ⟨key, created, hcreated⟩ := hcreate path houtput
    obtain ⟨files', hwrite⟩ := LawfulFileSystem.exists_writeFile text hcreated
    simp only [hcreated, hwrite]
    refine ⟨trivial, rfl, fun hnone => by simp [houtput] at hnone, fun path' hpath => ?_⟩
    obtain rfl := Option.some.inj (houtput.symm.trans hpath)
    exact ⟨rfl, key, replaces_of_writeFile hcreated hwrite⟩

/-- The two ways a run ends. -/
theorem delivered_ends (o : Options) (stdin : Except FileFault ByteArray) (files : σ)
    (events : List Event) {r : Result σ}
    (hr : r = delivered o files events (scriptText o (inputOf o stdin files)).1) :
    (∃ text, Yields o stdin files text ∧ CanCreate o files ∧ r.exitCode = 0
      ∧ Wrote o files text r)
    ∨ ¬ ((∃ text, Yields o stdin files text) ∧ CanCreate o files) ∧ Failed o stdin files r := by
  by_cases hyields : ∃ text, Yields o stdin files text
  · obtain ⟨text, htext⟩ := hyields
    rw [scriptText_of_yields htext] at hr
    by_cases hcreate : CanCreate o files
    · exact .inl ⟨text, htext, hcreate, hr ▸ wrote_of_canCreate hcreate text events⟩
    · refine .inr ⟨fun h => hcreate h.2, ?_⟩
      simp only [CanCreate, Classical.not_forall] at hcreate
      obtain ⟨path, houtput, hrefused⟩ := hcreate
      rcases hcreated : createFile files path with fault | ⟨key, created⟩
      · exact hr ▸ failed_of_not_created htext houtput hcreated events
      · exact absurd ⟨key, created, hcreated⟩ hrefused
  · exact .inr ⟨fun h => hyields h.1, hr ▸ failed_of_not_yields hyields events⟩

end Delivery

/-! ### The whole command -/

/-- **The command writes all or nothing.**  For a command line that asks for a run:
    the bindings are those given, in their order; the run succeeds exactly if there is a text to
    write and its place can be created; then the text is there and nothing else has changed;
    otherwise nothing has changed at all and a report says what is wrong; and a flag for the trace,
    which is accepted unless it is there already, makes no difference. -/
theorem run_writes_all_or_nothing [LawfulFileSystem σ] {args : List String} {o : Options}
    (hargs : parseArguments args = .ok (.run o)) (stdin : Except FileFault ByteArray) (files : σ) :
    o.bindings.map Except.ok = (bindTexts args).map Binding.parse
    ∧ ((runIn args stdin files).exitCode = 0
        ↔ (∃ text, Yields o stdin files text) ∧ CanCreate o files)
    ∧ ((runIn args stdin files).exitCode = 0 →
        ∃ text, Yields o stdin files text ∧ Wrote o files text (runIn args stdin files))
    ∧ ((runIn args stdin files).exitCode ≠ 0 → Failed o stdin files (runIn args stdin files))
    ∧ (o.trace = false → ∃ o', parseArguments ("--trace" :: args) = .ok (.run o'))
    ∧ ∀ before after o', args = before ++ after →
        parseArguments (before ++ "--trace" :: after) = .ok (.run o') →
        (runIn (before ++ "--trace" :: after) stdin files).Agrees (runIn args stdin files) := by
  have hends := delivered_ends o stdin files _ (runIn_eq_delivered hargs stdin files)
  refine ⟨bindings_of_run hargs, ?_, ?_, ?_, fun htrace => ⟨_, cons_trace hargs htrace⟩, ?_⟩
  · rcases hends with ⟨text, htext, hcreate, hzero, -⟩ | ⟨hnot, hfailed⟩
    · exact ⟨fun _ => ⟨⟨text, htext⟩, hcreate⟩, fun _ => hzero⟩
    · exact ⟨fun hzero => by simp [hfailed.exitCode_eq] at hzero, fun h => absurd h hnot⟩
  · intro hzero
    rcases hends with ⟨text, htext, -, -, hwrote⟩ | ⟨-, hfailed⟩
    · exact ⟨text, htext, hwrote⟩
    · simp [hfailed.exitCode_eq] at hzero
  · intro hnonzero
    rcases hends with ⟨-, -, -, hzero, -⟩ | ⟨-, hfailed⟩
    · exact absurd hzero hnonzero
    · exact hfailed
  · rintro before after o' rfl hinsert
    obtain rfl := insert_trace hargs hinsert
    rw [runIn_eq_delivered hargs, runIn_eq_delivered hinsert]
    exact delivered_traced files _ _ _

/-- Asks for a tree to be replaced by its own text. -/
def inPlace : Options := ⟨some "/home/tree", some "tree", [], false⟩

/-- Asks for the text of a tree to be written to a device. -/
def toDevice : Options := ⟨some "tree", some "/dev/null", [], false⟩

/-- A disk with a tree in the working directory. -/
def treeDisk (bytes : ByteArray) : Disk ByteArray where
  files := [(["home", "tree"], bytes)]
  devices := [["dev", "null"]]
  home := ["home"]

/-- An empty body, for which there is a text. -/
def emptyBody : ByteArray := "\x7b\"body\":[]\x7d".toUTF8

/-- An empty body is replaced by its text, and bytes that are no text stay where they are.  A text may
    go to a device, and standard input that cannot be read is reported. -/
theorem run_writes_all_or_nothing_treeDisk :
    parseArguments ["-i", "/home/tree", "-o", "tree"] = .ok (.run inPlace)
    ∧ (∃ text, Wrote inPlace (treeDisk emptyBody) text
          (runIn ["-i", "/home/tree", "-o", "tree"] (.ok .empty) (treeDisk emptyBody))
        ∧ readFile (runIn ["-i", "/home/tree", "-o", "tree"] (.ok .empty) (treeDisk emptyBody)).folder
            (Target.file ["home", "tree"]) = .ok text.toUTF8)
    ∧ (runIn ["-i", "/home/tree", "-o", "tree"] (.ok .empty) (treeDisk ⟨#[0xff]⟩)).folder
        = treeDisk ⟨#[0xff]⟩
    ∧ parseArguments ["-i", "tree", "-o", "/dev/null"] = .ok (.run toDevice)
    ∧ (∃ text, Wrote toDevice (treeDisk emptyBody) text
        (runIn ["-i", "tree", "-o", "/dev/null"] (.ok .empty) (treeDisk emptyBody)))
    ∧ parseArguments [] = .ok (.run ⟨none, none, [], false⟩)
    ∧ Failed ⟨none, none, [], false⟩ (.error .isADirectory) (treeDisk emptyBody)
        (runIn [] (.error .isADirectory) (treeDisk emptyBody)) := by
  have hinPlace : parseArguments ["-i", "/home/tree", "-o", "tree"] = .ok (.run inPlace) := rfl
  have htoDevice : parseArguments ["-i", "tree", "-o", "/dev/null"] = .ok (.run toDevice) := rfl
  have hstdin : parseArguments [] = .ok (.run ⟨none, none, [], false⟩) := rfl
  refine ⟨hinPlace, ?_, ?_, htoDevice, ?_, hstdin, ?_⟩
  · obtain ⟨-, -, hsuccess, -⟩ :=
      run_writes_all_or_nothing hinPlace (.ok .empty) (treeDisk emptyBody)
    obtain ⟨text, -, hwrote⟩ := hsuccess (by decide +kernel)
    obtain ⟨-, key, hreplaces⟩ := hwrote.toFile "tree" rfl
    have hkey : key = Target.file ["home", "tree"] := by
      obtain ⟨created, hcreated, -⟩ := hreplaces.written
      exact (Prod.mk.inj (Except.ok.inj hcreated)).1.symm
    subst hkey
    exact ⟨text, hwrote, hreplaces.readFile_eq rfl⟩
  · obtain ⟨-, -, -, hfailure, -⟩ :=
      run_writes_all_or_nothing hinPlace (.ok .empty) (treeDisk ⟨#[0xff]⟩)
    exact (hfailure (by decide +kernel)).folder_eq
  · obtain ⟨-, -, hsuccess, -⟩ :=
      run_writes_all_or_nothing htoDevice (.ok .empty) (treeDisk emptyBody)
    obtain ⟨text, -, hwrote⟩ := hsuccess (by decide +kernel)
    exact ⟨text, hwrote⟩
  · obtain ⟨-, -, -, hfailure, -⟩ :=
      run_writes_all_or_nothing hstdin (.error .isADirectory) (treeDisk emptyBody)
    exact hfailure (by decide +kernel)

end ScriptTree.Command
