/-
  ScriptTree/Proofs/DiskLaws.lean
  ===============================
  **Storing a file changes that file only.**  A path that leads to a file, or to a free place in a
  directory, leads to the same place after something was stored there.  What lies at any other place
  stays, and stays within reach of every path that led to it.  So a disk is a file system on which a
  program can rely (`LawfulFileSystem`).

  A disk is any list of files at any places, so the laws do not ask that the places differ, or that no
  file lies below another one.
-/
import ScriptTree.Command.Disk
import ScriptTree.Proofs.Outcomes

namespace ScriptTree.Command.Disk

variable {γ : Type} {d : Disk γ} {place : List String}

/-! ### What lies where after something was stored -/

/-- Replacing what the files of one place hold leaves all files where they are. -/
theorem place_replaced (place : List String) (contents : γ) (f : List String × γ) :
    (if f.1 = place then (place, contents) else f).1 = f.1 := by
  split
  next h => exact h.symm
  next => rfl

/-- The file that something is stored in holds it, and every other place holds what it held. -/
theorem contentsAt?_put (d : Disk γ) (place : List String) (contents : γ) (q : List String) :
    (d.put place contents).contentsAt? q = if q = place then some contents else d.contentsAt? q := by
  unfold put contentsAt?
  split
  next h =>
    -- the place is taken: the first file at a place is still the first one there
    rw [List.find?_map]
    simp only [Function.comp_def, place_replaced]
    by_cases hq : q = place
    · subst hq
      obtain ⟨f, hf, hplace⟩ := List.any_eq_true.mp h
      have hsome : (d.files.find? fun f => decide (f.1 = q)).isSome :=
        List.find?_isSome.mpr ⟨f, hf, hplace⟩
      obtain ⟨g, hg⟩ := Option.isSome_iff_exists.mp hsome
      have hgplace := List.find?_some hg
      simp only [decide_eq_true_eq] at hgplace
      simp [hg, hgplace]
    · rcases hg : d.files.find? fun f => decide (f.1 = q) with _ | g
      · simp [hg, hq]
      · have hgplace := List.find?_some hg
        simp only [decide_eq_true_eq] at hgplace
        simp [hg, hgplace, hq]
  next h =>
    -- the place is free: the new file comes last, and no other lies there
    rw [List.find?_append]
    by_cases hq : q = place
    · subst hq
      have hnone : (d.files.find? fun f => f.1 = q) = none := by
        simpa only [List.find?_eq_none, List.any_eq_true, not_exists, not_and] using h
      simp [hnone]
    · simp [hq, Ne.symm hq]

theorem devices_put (d : Disk γ) (place : List String) (contents : γ) :
    (d.put place contents).devices = d.devices := by
  unfold put
  split <;> rfl

theorem home_put (d : Disk γ) (place : List String) (contents : γ) :
    (d.put place contents).home = d.home := by
  unfold put
  split <;> rfl

theorem isDirectory_eq_true_iff {q : List String} :
    d.isDirectory q = true ↔
      q <+: d.home ∨ (∃ p ∈ d.devices, q <+: p) ∨ ∃ f ∈ d.files, q <+: f.1 := by
  simp [isDirectory]

theorem isDirectory_mono {p q : List String} (hpq : p <+: q)
    (h : d.isDirectory q = true) : d.isDirectory p = true := by
  rw [isDirectory_eq_true_iff] at h ⊢
  rcases h with h | ⟨r, hr, h⟩ | ⟨f, hf, h⟩
  · exact Or.inl (hpq.trans h)
  · exact Or.inr (Or.inl ⟨r, hr, hpq.trans h⟩)
  · exact Or.inr (Or.inr ⟨f, hf, hpq.trans h⟩)

/-- A place where a file lies or may be put: it is no directory and lies in one. -/
structure Site (d : Disk γ) (place : List String) : Prop where
  ne_nil : place ≠ []
  notDevice : place ∉ d.devices
  notDirectory : d.contentsAt? place = none → d.isDirectory place = false
  parent : place.dropLast = [] ∨ d.isDirectory place.dropLast = true

theorem exists_file_put {q : List String} (contents : γ) :
    (∃ f ∈ (d.put place contents).files, q <+: f.1) ↔ (∃ f ∈ d.files, q <+: f.1) ∨ q <+: place := by
  unfold put
  split
  next h =>
    obtain ⟨g, hg, hplace⟩ := List.any_eq_true.mp h
    constructor
    · rintro ⟨_, hmem, hfound⟩
      obtain ⟨f, hf, rfl⟩ := List.mem_map.mp hmem
      exact Or.inl ⟨f, hf, place_replaced place contents f ▸ hfound⟩
    · rintro (⟨f, hf, hfound⟩ | hfound)
      · exact ⟨_, List.mem_map_of_mem hf, (place_replaced place contents f).symm ▸ hfound⟩
      · have hg' : g.1 = place := of_decide_eq_true hplace
        exact ⟨_, List.mem_map_of_mem hg, by rwa [place_replaced, hg']⟩
  next => simp [or_and_right, exists_or]

/-- Storing a file makes no directory. -/
theorem isDirectory_put (hsite : d.Site place) (contents : γ)
    {q : List String} (hnil : q ≠ []) (hq : q ≠ place) :
    (d.put place contents).isDirectory q = d.isDirectory q := by
  rw [Bool.eq_iff_iff, isDirectory_eq_true_iff, isDirectory_eq_true_iff, devices_put, home_put,
    exists_file_put]
  constructor
  · rintro (h | h | h | hprefix)
    · exact Or.inl h
    · exact Or.inr (Or.inl h)
    · exact Or.inr (Or.inr h)
    · -- a proper beginning of the new place is a beginning of the directory around it
      have hparent : q <+: place.dropLast := by
        rw [← List.dropLast_concat_getLast hsite.ne_nil, List.prefix_concat_iff] at hprefix
        rcases hprefix with rfl | hprefix
        · exact absurd (List.dropLast_concat_getLast _) hq
        · exact hprefix
      rcases hsite.parent with hroot | hdir
      · exact absurd (List.prefix_nil.mp (hroot ▸ hparent)) hnil
      · exact isDirectory_eq_true_iff.mp (isDirectory_mono hparent hdir)
  · rintro (h | h | h)
    · exact Or.inl h
    · exact Or.inr (Or.inl h)
    · exact Or.inr (Or.inr (Or.inl h))

/-! ### Where paths lead -/

/-- What a target is after something was stored at a place. -/
def updated (place : List String) : Target → Target
  | .absent q => if q = place then .file place else .absent q
  | target => target

theorem child_put (hsite : d.Site place) (contents : γ) (q : List String) (name : String) :
    (d.put place contents).child q name = updated place (d.child q name) := by
  unfold child
  simp only [devices_put, contentsAt?_put]
  by_cases hdevice : d.devices.contains (q ++ [name]) = true
  · simp only [hdevice, if_true, updated]
  rw [if_neg hdevice, if_neg hdevice]
  by_cases hq : q ++ [name] = place
  · rw [hq, if_pos rfl]
    rcases hat : d.contentsAt? place with _ | old
    · simp [hsite.notDirectory hat, updated]
    · simp [updated]
  · rw [if_neg hq, isDirectory_put hsite contents (by simp) hq]
    split
    next => rfl
    next =>
      split
      next => rfl
      next => rw [updated, if_neg hq]

/-- The steps that succeed: only a directory has something below it. -/
inductive Moves (d : Disk γ) (name : String) : Target → Target → Prop where
  | stay (place : List String) (hname : name = "" ∨ name = ".") :
      Moves d name (.directory place) (.directory place)
  | up (place : List String) (hname : name = "..") :
      Moves d name (.directory place) (.directory place.dropLast)
  | down (place : List String) (hname : name ∉ ["", ".", ".."])
      (hlong : name.utf8ByteSize ≤ maxName) : Moves d name (.directory place) (d.child place name)

theorem step_eq_ok_iff {target next : Target} {name : String} :
    d.step target name = .ok next ↔ d.Moves name target next := by
  constructor
  · intro h
    unfold step at h
    split at h
    next => simp at h
    next => simp at h
    next => simp at h
    next place =>
      split at h
      next hstays =>
        obtain rfl := Except.ok.inj h
        exact .stay place (by simpa using hstays)
      next hstays =>
        split at h
        next hup =>
          obtain rfl := Except.ok.inj h
          exact .up place hup
        next hup =>
          split at h
          next => simp at h
          next hlong =>
            obtain rfl := Except.ok.inj h
            exact .down place (by simp_all) (Nat.le_of_not_lt hlong)
  · intro h
    rcases h with ⟨place, hname⟩ | ⟨place, hname⟩ | ⟨place, hname, hlong⟩
    · simp [step, hname]
    · simp [step, hname]
    · have hlong := Nat.not_lt_of_le hlong
      simp_all [step]

@[simp] theorem updated_eq_directory_iff {place q : List String} {target : Target} :
    updated place target = .directory q ↔ target = .directory q := by
  rcases target with r | r | r | r
  case absent =>
    simp only [updated]
    split
    all_goals simp
  all_goals rfl

/-- After something was stored, the steps that succeeded do, and no others. -/
theorem step_put (hsite : d.Site place) (contents : γ) {target next : Target} {name : String} :
    (d.put place contents).step (updated place target) name = .ok next
      ↔ ∃ next₀, d.step target name = .ok next₀ ∧ updated place next₀ = next := by
  simp only [step_eq_ok_iff]
  constructor
  · intro h
    generalize hstart : updated place target = start at h
    rcases h with ⟨q, hname⟩ | ⟨q, hname⟩ | ⟨q, hname, hlong⟩
    all_goals obtain rfl := updated_eq_directory_iff.mp hstart
    · exact ⟨_, .stay q hname, rfl⟩
    · exact ⟨_, .up q hname, rfl⟩
    · exact ⟨_, .down q hname hlong, (child_put hsite contents q name).symm⟩
  · rintro ⟨_, ⟨q, hname⟩ | ⟨q, hname⟩ | ⟨q, hname, hlong⟩, rfl⟩
    · exact .stay q hname
    · exact .up q hname
    · rw [← child_put hsite contents]
      exact .down q hname hlong

theorem walk_cons_eq_ok_iff {target last : Target} {name : String} {rest : List String} :
    d.walk target (name :: rest) = .ok last
      ↔ ∃ next, d.step target name = .ok next ∧ d.walk next rest = .ok last := by
  rw [walk, List.foldlM_cons]
  exact bind_eq_ok_iff

theorem walk_put (hsite : d.Site place) (contents : γ)
    {names : List String} {target last : Target} :
    (d.put place contents).walk (updated place target) names = .ok last
      ↔ ∃ last₀, d.walk target names = .ok last₀ ∧ updated place last₀ = last := by
  induction names generalizing target with
  | nil => simp [walk, pure, Except.pure]
  | cons name rest ih =>
    simp only [walk_cons_eq_ok_iff, step_put hsite]
    constructor
    · rintro ⟨_, ⟨next, hstep, rfl⟩, hwalk⟩
      obtain ⟨last₀, hwalk, hlast⟩ := ih.mp hwalk
      exact ⟨last₀, ⟨next, hstep, hwalk⟩, hlast⟩
    · rintro ⟨last₀, ⟨next, hstep, hwalk⟩, hlast⟩
      exact ⟨_, ⟨next, hstep, rfl⟩, ih.mpr ⟨last₀, hwalk, hlast⟩⟩

theorem resolve_eq_ok_iff {path : String} {last : Target} :
    d.resolve path = .ok last
      ↔ path.utf8ByteSize ≤ maxPath ∧ d.walk (d.origin path) (parts path) = .ok last := by
  unfold resolve
  split
  next hlong => simp [Nat.not_le_of_lt hlong]
  next hshort => simp [Nat.le_of_not_lt hshort]

/-- After a file was stored, every path that led somewhere leads there, and no other path leads
    anywhere. -/
theorem resolve_put (hsite : d.Site place) (contents : γ) {path : String} {last : Target} :
    (d.put place contents).resolve path = .ok last
      ↔ ∃ last₀, d.resolve path = .ok last₀ ∧ updated place last₀ = last := by
  have horigin : (d.put place contents).origin path = updated place (d.origin path) := by
    simp only [origin, home_put, updated]
  simp only [resolve_eq_ok_iff, horigin, walk_put hsite, and_assoc, exists_and_left]

/-! ### Where files may be stored -/

/-- What holds of the targets that a walk meets. -/
def Met (d : Disk γ) : Target → Prop
  | .file place => d.Site place ∧ (d.contentsAt? place).isSome = true
  | .device _ => True
  | .directory place => place = [] ∨ d.isDirectory place = true
  | .absent place => d.Site place ∧ d.contentsAt? place = none

theorem met_child (hplace : d.Met (.directory place))
    (name : String) : d.Met (d.child place name) := by
  have hsite (hdevice : place ++ [name] ∉ d.devices)
      (hnot : d.contentsAt? (place ++ [name]) = none → d.isDirectory (place ++ [name]) = false) :
      d.Site (place ++ [name]) :=
    ⟨by simp, hdevice, hnot, by simpa [Met] using hplace⟩
  unfold child
  simp only [List.contains_iff_mem]
  split
  next => trivial
  next hdevice =>
    split
    next hat => exact ⟨hsite hdevice fun hnone => by simp [hnone] at hat, hat⟩
    next hat =>
      split
      next hdir => exact Or.inr hdir
      next hdir => exact ⟨hsite hdevice fun _ => by simpa using hdir, by simpa using hat⟩

theorem met_step {target next : Target} {name : String} (htarget : d.Met target)
    (h : d.step target name = .ok next) : d.Met next := by
  rcases step_eq_ok_iff.mp h with ⟨place, -⟩ | ⟨place, -⟩ | ⟨place, -, -⟩
  · exact htarget
  · rcases htarget with rfl | hdir
    · exact Or.inl rfl
    · exact Or.inr (isDirectory_mono (List.dropLast_prefix place) hdir)
  · exact met_child htarget name

theorem met_walk {names : List String} {target last : Target} (htarget : d.Met target)
    (h : d.walk target names = .ok last) : d.Met last := by
  induction names generalizing target with
  | nil => exact Except.ok.inj h ▸ htarget
  | cons name rest ih =>
    obtain ⟨next, hstep, hwalk⟩ := walk_cons_eq_ok_iff.mp h
    exact ih (met_step htarget hstep) hwalk

theorem met_resolve {path : String} {last : Target} (h : d.resolve path = .ok last) :
    d.Met last := by
  obtain ⟨-, hwalk⟩ := resolve_eq_ok_iff.mp h
  refine met_walk ?_ hwalk
  unfold origin
  split
  next => exact Or.inl rfl
  next => exact Or.inr (isDirectory_eq_true_iff.mpr (Or.inl List.prefix_rfl))

/-! ### Files that are there -/

theorem exists_file_of_contentsAt?
    (h : (d.contentsAt? place).isSome = true) : ∃ f ∈ d.files, f.1 = place := by
  simpa [contentsAt?] using h

/-- What is stored in a file that is there changes nothing about where paths lead. -/
theorem resolve_put_of_isSome
    (h : (d.contentsAt? place).isSome = true) (contents : γ) (path : String) :
    (d.put place contents).resolve path = d.resolve path := by
  have hdir (q : List String) : (d.put place contents).isDirectory q = d.isDirectory q := by
    obtain ⟨f, hf, rfl⟩ := exists_file_of_contentsAt? h
    have hfile : q <+: f.1 → ∃ g ∈ d.files, q <+: g.1 := fun hfound => ⟨f, hf, hfound⟩
    rw [Bool.eq_iff_iff, isDirectory_eq_true_iff, isDirectory_eq_true_iff, devices_put, home_put,
      exists_file_put, or_iff_left_of_imp hfile]
  have hsome (q : List String) :
      ((d.put place contents).contentsAt? q).isSome = (d.contentsAt? q).isSome := by
    rw [contentsAt?_put]
    split
    next hq => rw [hq, h, Option.isSome_some]
    next => rfl
  have hchild : (d.put place contents).child = d.child := by
    funext q name
    simp only [child, devices_put, hsome, hdir]
  have hstep : (d.put place contents).step = d.step := by
    funext target name
    simp only [step, hchild]
  simp only [resolve, walk, origin, hstep, home_put]

/-! ### The laws -/

theorem openFile_eq_ok_iff {path : String} {key : Target} :
    d.openFile path = .ok key ↔ d.resolve path = .ok key ∧ ∀ place, key ≠ .absent place := by
  unfold openFile
  rcases d.resolve path with fault | target
  · simp
  · rcases target with place | place | place | place
    all_goals simp
    all_goals grind

theorem updated_cases (place : List String) (target : Target) :
    updated place target = .file place ∨ updated place target = target := by
  rcases target with q | q | q | q
  case absent =>
    simp only [updated]
    split
    next => exact Or.inl rfl
    next => exact Or.inr rfl
  all_goals exact Or.inr rfl

theorem updated_of_present {place : List String} {target : Target}
    (h : ∀ q, target ≠ .absent q) : updated place target = target := by
  rcases target with q | q | q | q
  case absent => exact absurd rfl (h q)
  all_goals rfl

variable [Contents γ]

/-- How a file is created: a device stays as it is, and a file comes to be at a place where one lies
    or may be put. -/
inductive Creates (d : Disk γ) (path : String) : Target → Disk γ → Prop where
  | device {place : List String} (hpath : d.resolve path = .ok (.device place)) :
      Creates d path (.device place) d
  | file {place : List String} (hsite : d.Site place)
      (hpath : d.resolve path = .ok (.file place) ∨ d.resolve path = .ok (.absent place)) :
      Creates d path (.file place) (d.put place (Contents.ofText ""))

theorem creates_of_createFile {d d' : Disk γ} {path : String} {key : Target}
    (h : d.createFile path = .ok (key, d')) : d.Creates path key d' := by
  unfold createFile at h
  split at h
  next => simp at h
  next =>
    split at h
    next => simp at h
    next => simp at h
    next hpath =>
      obtain ⟨rfl, rfl⟩ := Prod.mk.inj (Except.ok.inj h)
      exact .device hpath
    next hpath =>
      obtain ⟨rfl, rfl⟩ := Prod.mk.inj (Except.ok.inj h)
      exact .file (met_resolve hpath).1 (Or.inl hpath)
    next hpath =>
      obtain ⟨rfl, rfl⟩ := Prod.mk.inj (Except.ok.inj h)
      exact .file (met_resolve hpath).1 (Or.inr hpath)

/-- How a file is written. -/
inductive Writes (d : Disk γ) (text : String) : Target → Disk γ → Prop where
  | device (place : List String) : Writes d text (.device place) d
  | file {place : List String} (hsome : (d.contentsAt? place).isSome = true) :
      Writes d text (.file place) (d.put place (Contents.ofText text))

theorem writeFile_eq_ok_iff {d d' : Disk γ} {text : String} {key : Target} :
    d.writeFile key text = .ok d' ↔ d.Writes text key d' := by
  constructor
  · intro h
    unfold writeFile at h
    split at h
    next =>
      split at h
      next hsome =>
        obtain rfl := Except.ok.inj h
        exact .file hsome
      next => simp at h
    next =>
      obtain rfl := Except.ok.inj h
      exact .device _
    next => simp at h
    next => simp at h
  · rintro (_ | hsome)
    · rfl
    · simp [writeFile, hsome]

/-- Storing a file leaves everything but that file to be read as before. -/
theorem readFile_put (d : Disk γ) {place : List String} (contents : γ) {key : Target}
    (h : key ≠ .file place) : (d.put place contents).readFile key = d.readFile key := by
  rcases key with q | q | q | q
  case file =>
    have hq : q ≠ place := fun hq => h (congrArg Target.file hq)
    simp only [readFile, contentsAt?_put, if_neg hq]
  all_goals rfl

/-- The path under which a file was created leads to it. -/
theorem resolve_of_creates {d d' : Disk γ} {path : String} {key : Target}
    (h : d.Creates path key d') : d'.resolve path = .ok key := by
  rcases h with ⟨hpath⟩ | ⟨hsite, hpath⟩
  · exact hpath
  · rcases hpath with hpath | hpath
    all_goals exact (resolve_put hsite _).mpr ⟨_, hpath, by simp [updated]⟩

instance : LawfulFileSystem (Disk γ) where
  openFile_created := by
    intro d d' path key key' hcreate hopen
    obtain ⟨hresolve, -⟩ := openFile_eq_ok_iff.mp hopen
    exact Except.ok.inj (hresolve.symm.trans (resolve_of_creates (creates_of_createFile hcreate)))
  openFile_create := by
    intro d d' path other key key' hcreate hopen
    rcases creates_of_createFile hcreate with _ | ⟨hsite, -⟩
    · exact hopen
    · obtain ⟨hresolve, hpresent⟩ := openFile_eq_ok_iff.mp hopen
      refine openFile_eq_ok_iff.mpr ⟨?_, hpresent⟩
      exact (resolve_put hsite _).mpr ⟨_, hresolve, updated_of_present hpresent⟩
  openFile_of_create := by
    intro d d' path other key key' hcreate hopen
    rcases creates_of_createFile hcreate with _ | ⟨hsite, -⟩
    · exact Or.inr hopen
    · obtain ⟨hresolve, hpresent⟩ := openFile_eq_ok_iff.mp hopen
      obtain ⟨target, hbefore, rfl⟩ := (resolve_put hsite _).mp hresolve
      rcases updated_cases _ target with hfile | hsame
      · exact Or.inl hfile
      · rw [hsame] at hpresent ⊢
        exact Or.inr (openFile_eq_ok_iff.mpr ⟨hbefore, hpresent⟩)
  readFile_create := by
    intro d d' path key key' hcreate hne
    rcases creates_of_createFile hcreate with _ | _
    · rfl
    · exact readFile_put d _ hne
  exists_writeFile := by
    intro d d' path key text hcreate
    rcases creates_of_createFile hcreate with _ | _
    · exact ⟨_, writeFile_eq_ok_iff.mpr (.device _)⟩
    · exact ⟨_, writeFile_eq_ok_iff.mpr (.file (by simp [contentsAt?_put]))⟩
  readFile_written := by
    intro d d' d'' path text key hcreate hwrite hkeeps
    rcases writeFile_eq_ok_iff.mp hwrite with _ | _
    · cases hkeeps
    · simp [FileSystem.readFile, readFile, contentsAt?_put, Contents.bytes_ofText]
  openFile_write := by
    intro d d' text key path hwrite
    rcases writeFile_eq_ok_iff.mp hwrite with _ | ⟨hsome⟩
    · rfl
    · simp only [FileSystem.openFile, openFile, resolve_put_of_isSome hsome]
  readFile_write := by
    intro d d' text key key' hwrite hne
    rcases writeFile_eq_ok_iff.mp hwrite with _ | _
    · rfl
    · exact readFile_put d _ hne

end ScriptTree.Command.Disk
