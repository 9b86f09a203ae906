import DecimalScript.Eval.Reloads
import DecimalScript.Proofs.Observation
import DecimalScript.Proofs.Places

/-!
# Loading each file once at a time

Where no import leads up, all paths by which modules are loaded lie below the directory that
a program was started in, and there the place of a file decides its path. So a file that is
being loaded is known by its path, and is not loaded again. An import that leads up writes
double dots into the path, by which the same file is not known any more.
-/

namespace DecimalScript

namespace FileTree

/-- Different files of a tree are no more than its files. -/
theorem length_le_fileCount {files : FileTree} {places : List Place} (hdistinct : places.Nodup)
    (h : ∀ place ∈ places, ∃ contents, (place, .file contents) ∈ files.entries) :
    places.length ≤ files.fileCount := by
  have hsubset : places ⊆ (files.entries.filter fun item => item.2 != .directory).map (·.1) := by
    intro place hplace
    obtain ⟨contents, hentry⟩ := h place hplace
    exact List.mem_map.mpr ⟨_, List.mem_filter.mpr ⟨hentry, rfl⟩, rfl⟩
  have hle := hdistinct.length_le_of_subset hsubset
  rw [List.length_map] at hle
  exact hle

end FileTree

namespace Path

/-- Whether a path consists of a directory and names below it that do not lead up. -/
def Below (root path : Path) : Prop := ∃ names, Under root path names ∧ ∀ name ∈ names, Plain name

theorem Below.under {root path other : Path} {names : List (List Char)} (h : Below root path)
    (hother : Under path other names) (hnames : ∀ name ∈ names, Plain name) : Below root other := by
  obtain ⟨first, hfirst, hplain⟩ := h
  exact ⟨first ++ names, hfirst.trans hother, List.forall_mem_append.mpr ⟨hplain, hnames⟩⟩

/-- A module that an import names is below the directory, and so is the directory that holds it. -/
theorem Below.ofModule {root base : Path} (h : Below root base) (hbase : base.text ≠ "")
    {target : ModuleRef} (htarget : target.descends = true) :
    Below root (Path.ofModule base target.text) ∧
      Below root (Path.ofModule base target.text).parent ∧
      (Path.ofModule base target.text).parent.text ≠ "" := by
  obtain ⟨hrelative, hclimbs⟩ := Bool.and_eq_true_iff.mp htarget
  obtain ⟨lead, file, hfile, hlead, hup, hparent, hunder, hdown⟩ := ofModule_spec hbase hrelative
  have hnone : up ∉ lead := by
    rw [hup, Bool.not_eq_true, ← Bool.not_eq_true']
    exact hclimbs
  have hplain : ∀ name ∈ lead, Plain name := fun name hname =>
    ⟨hlead name hname, fun heq => hnone (heq ▸ hname)⟩
  have hbelow := h.under hdown hplain
  exact ⟨hbelow.under hunder fun name hname => List.mem_singleton.mp hname ▸ hfile, hbelow, hparent⟩

end Path

namespace Reloads

/-- Whether no import in a statement leads up. -/
def Descends (stmt : Stmt) : Prop := ∀ target ∈ stmt.targets, target.descends = true

theorem descends_of_block {block : Block} (h : Block.descends block = true) :
    ∀ stmt ∈ block, Descends stmt := fun _ hstmt target htarget =>
  List.all_eq_true.mp h target (Stmt.mem_targetsAll hstmt htarget)

/-- What is known of a machine while a program without imports that lead up runs below a directory:
the imports of its functions and files do not lead up either, imports are relative to a directory
below, and the modules being loaded are different ones below. -/
structure Guarded (root : Path) (m : Machine) : Prop where
  function : ∀ {name function}, m.functions.get? name = some function →
    ∀ stmt ∈ function.body, Descends stmt
  file : ∀ {path program}, Block.ofFile m.files path = .ok program → ∀ stmt ∈ program, Descends stmt
  named : m.baseDir.text ≠ ""
  base : Path.Below root m.baseDir
  distinct : m.loading.Nodup
  loading : ∀ canonical ∈ m.loading, ∃ path program, path.canonical = canonical ∧
    Path.Below root path ∧ Block.ofFile m.files path = .ok program

namespace Guarded

variable {root path : Path} {m : Machine} {program : Block}

/-- The program of a file of a machine without imports that lead up. -/
theorem descends_of_file (h : m.descends = true) (hfile : Block.ofFile m.files path = .ok program) :
    ∀ stmt ∈ program, Descends stmt := by
  refine descends_of_block ?_
  unfold Block.ofFile at hfile
  split at hfile
  · cases hfile
  · rename_i contents hread
    have hentry := FileTree.mem_of_contents (FileTree.contents_of_read hread)
    have hdescends := List.all_eq_true.mp (Bool.and_eq_true_iff.mp h).2 _ hentry
    simpa only [FileEntry.descends, hfile] using hdescends

/-- A machine on which nothing is being loaded. -/
theorem of_idle (hloading : m.loading = []) (hbase : m.baseDir.text ≠ "")
    (h : m.descends = true) : Guarded m.baseDir m where
  function := fun hget => descends_of_block
    (List.all_eq_true.mp (Bool.and_eq_true_iff.mp h).1 _ (NameTable.mem_of_get? hget))
  file := descends_of_file h
  named := hbase
  base := ⟨[], .refl _, List.forall_mem_nil _⟩
  distinct := hloading ▸ List.nodup_nil
  loading := by
    rw [hloading]
    exact List.forall_mem_nil _

/-- Another function whose imports do not lead up. -/
theorem register (h : Guarded root m) (name : String) {function : Function}
    (hbody : ∀ stmt ∈ function.body, Descends stmt) :
    Guarded root { m with functions := m.functions.set name function } where
  function := by
    intro other found hfound
    by_cases hname : other = name
    · subst hname
      rw [NameTable.get?_set_self] at hfound
      cases hfound
      exact hbody
    · rw [NameTable.get?_set_of_ne _ hname] at hfound
      exact h.function hfound
  file := h.file
  named := h.named
  base := h.base
  distinct := h.distinct
  loading := h.loading

/-- Another directory below. -/
theorem enter (h : Guarded root m) {dir : Path} (hdir : dir.text ≠ "" ∧ Path.Below root dir) :
    Guarded root { m with baseDir := dir } :=
  { h with named := hdir.1, base := hdir.2 }

/-- Another module that is being loaded. -/
theorem load (h : Guarded root m) (hbelow : Path.Below root path)
    (hnew : path.canonical ∉ m.loading) (hfile : Block.ofFile m.files path = .ok program) :
    Guarded root { m with loading := path.canonical :: m.loading } :=
  { h with
    distinct := List.nodup_cons.mpr ⟨hnew, h.distinct⟩
    loading := List.forall_mem_cons.mpr ⟨⟨path, program, rfl, hbelow, hfile⟩, h.loading⟩ }

/-- The modules being loaded are at different places. -/
theorem eq_of_place (h : Guarded root m) {first second : Path} (hfirst : first ∈ m.loading)
    (hsecond : second ∈ m.loading) (hplace : m.files.place first = m.files.place second) :
    first = second := by
  obtain ⟨path, _, rfl, ⟨names, hunder, hplain⟩, _⟩ := h.loading first hfirst
  obtain ⟨other, _, rfl, ⟨more, hunder', hplain'⟩, _⟩ := h.loading second hsecond
  rw [FileTree.place_canonical, FileTree.place_canonical] at hplace
  exact FileTree.canonical_eq_of_place hunder hplain hunder' hplain' hplace

/-- There are no more modules being loaded than files. -/
theorem length_le (h : Guarded root m) : m.loading.length ≤ m.files.fileCount := by
  have hplaces : (m.loading.map m.files.place).Nodup :=
    List.Nodup.map_on (fun _ hfirst _ hsecond => h.eq_of_place hfirst hsecond) h.distinct
  have hfiles : ∀ place ∈ m.loading.map m.files.place,
      ∃ contents, (place, .file contents) ∈ m.files.entries := by
    intro place hplace
    obtain ⟨canonical, hcanonical, rfl⟩ := List.mem_map.mp hplace
    obtain ⟨path, program, rfl, _, hfile⟩ := h.loading canonical hcanonical
    rw [FileTree.place_canonical]
    unfold Block.ofFile at hfile
    split at hfile
    · cases hfile
    · rename_i contents hread
      exact ⟨contents, FileTree.mem_of_contents (FileTree.contents_of_read hread)⟩
  have hle := FileTree.length_le_fileCount hplaces hfiles
  rwa [List.length_map] at hle

/-- An import that does not lead up may load what it would load. -/
theorem mayLoad (h : Guarded root m) {target : ModuleRef} (htarget : target.descends = true)
    (hloads : m.loads target = true) : m.mayLoad target = true := by
  unfold Machine.loads at hloads
  rw [Bool.and_eq_true, Bool.and_eq_true, Bool.not_eq_true'] at hloads
  obtain ⟨⟨_, hnotIn⟩, hok⟩ := hloads
  obtain ⟨program, hfile⟩ : ∃ program,
      Block.ofFile m.files (Path.ofModule m.baseDir target.text) = .ok program := by
    cases hfile : Block.ofFile m.files (Path.ofModule m.baseDir target.text) with
    | ok program => exact ⟨program, rfl⟩
    | error stop =>
      rw [hfile] at hok
      cases hok
  have hnew : (Path.ofModule m.baseDir target.text).canonical ∉ m.loading := by
    rw [← List.contains_iff_mem, hnotIn]
    exact Bool.false_ne_true
  -- On the machine that loads it, the new path is one of those at different places.
  have hloaded := h.load (h.base.ofModule h.named htarget).1 hnew hfile
  refine Bool.and_eq_true_iff.mpr ⟨List.all_eq_true.mpr fun other hother => ?_,
    decide_eq_true hloaded.length_le⟩
  refine bne_iff_ne.mpr fun hplace => hnew ?_
  have heq := hloaded.eq_of_place (List.mem_cons_of_mem _ hother) List.mem_cons_self
    (hplace.trans (FileTree.place_canonical _ _).symm)
  exact heq ▸ hother

end Guarded

/-- The criteria by which a program is kept to imports that do not lead up. No fault stops it that
could not be handled. -/
def criteria (root : Path) : Criteria where
  related m m' := m' = m ∧ Guarded root m
  also _ _ := True
  good _ := True
  legalExpr _ := True
  legalStmt := Descends
  directory dir := dir.text ≠ "" ∧ Path.Below root dir
  allows stop _ := ∀ fault, stop = .failed (.running fault) → fault.isFatal = false
  releases _ := False
  hit _ _ _ := False

/-- The operations on machines keep it to them. -/
def comparison (root : Path) : Comparison where
  toCriteria := criteria root
  also_of_errors := fun _ => trivial
  also_trans := fun _ _ => trivial
  hit_of_also := fun _ _ _ => id
  hit_of_errors := fun _ => id
  allows_fault := by
    rintro fault m hhandled _ ⟨⟩
    exact hhandled
  allows_io := by
    rintro fault m _ _ ⟨⟩
  allows_of_sinks := fun _ _ h => h
  releases_fatal := fun h => h.elim
  releases_badMemory := id
  values := .univ
  lambda := Iff.rfl
  lambdaBody := id
  definition := fun h stmt hstmt target htarget => h target (Stmt.mem_targetsAll hstmt htarget)
  initializer := fun _ => trivial
  view := by
    rintro m m' ⟨rfl, _⟩
    exact ⟨m'.loops, m'.maxCallDepth, rfl⟩
  depth := by
    rintro m m' ⟨rfl, _⟩
    rfl
  iterations := by
    rintro m m' ⟨rfl, _⟩
    exact Nat.le_refl _
  binding := fun _ _ _ => trivial
  base := fun h => ⟨h.2.named, h.2.base⟩
  function := fun h hget => h.2.function hget
  related_console := by
    rintro m m' c ⟨rfl, h⟩
    exact ⟨rfl, { h with }⟩
  related_env := by
    rintro m m' env ⟨rfl, h⟩ _
    exact ⟨rfl, { h with }⟩
  related_register := by
    rintro m m' function name ⟨rfl, h⟩ hbody
    exact ⟨rfl, h.register name hbody⟩
  related_modules := by
    rintro m m' modules ⟨rfl, h⟩
    exact ⟨rfl, { h with }⟩
  related_directory := by
    rintro m m' baseDir ⟨rfl, h⟩ hdir
    exact ⟨rfl, h.enter hdir⟩
  related_advance := by
    rintro m m' current ⟨rfl, h⟩
    exact ⟨rfl, { h with }⟩
  related_pop := by
    rintro m m' ⟨rfl, h⟩
    exact ⟨rfl, { h with }⟩
  push := by
    rintro m m' context ⟨rfl, h⟩ _
    cases m'.loops.push context with
    | ok loops => exact .passed ⟨rfl, { h with }⟩
    | error fault => exact .refused ⟨rfl, { h with }⟩ trivial
  tick := by
    rintro m m' ⟨rfl, h⟩
    cases m'.loops.tick with
    | ok loops => exact .passed ⟨rfl, { h with }⟩
    | error fault => exact .refused ⟨rfl, { h with }⟩ trivial

/-- Inside calls and module loads the same holds. -/
theorem opens (root : Path) : (comparison root).Opens (comparison root) where
  legalExpr := id
  legalStmt := id
  good := Iff.rfl
  allows := id
  releases := id
  also := id
  recursion := by
    rintro m m' line ⟨rfl, _⟩ _
    exact .inl rfl
  allowed := by
    rintro m m' ⟨rfl, _⟩ h
    exact h
  begin := by
    rintro m m' ⟨rfl, h⟩ _
    exact ⟨rfl, { h with }⟩
  file := fun h _ hfile => h.2.file hfile
  parent := by
    rintro m m' line target aliasName ⟨rfl, h⟩ htarget
    obtain ⟨_, hparent, hnamed⟩ := h.base.ofModule h.named (htarget target List.mem_cons_self)
    exact ⟨hnamed, hparent⟩
  load := by
    rintro m m' line target aliasName path program ⟨rfl, h⟩ htarget rfl hnew hfile
    exact ⟨rfl, h.load (h.base.ofModule h.named (htarget target List.mem_cons_self)).1 hnew hfile⟩
  back := by
    rintro m m' after after' ⟨rfl, h⟩ ⟨rfl, hinside⟩ hfiles _
    exact ⟨rfl, { hinside with
      distinct := h.distinct
      loading := by
        rw [hfiles]
        exact h.loading }⟩

/-- The observer has nothing to refuse. -/
theorem accepts {α : Type} {root : Path} {job : Job α} (hlegal : (comparison root).legal job)
    {m : Machine} (hm : Guarded root m) (outcome : Outcome α) :
    Observer.loadsOnce job m outcome = true := by
  unfold Observer.loadsOnce
  split
  · rename_i target _ _
    cases hloads : m.loads target with
    | false => rfl
    | true => exact hm.mayLoad (hlegal target List.mem_cons_self) hloads
  · rfl

/-- Evaluations that agree are one evaluation. -/
theorem eq_of_agree {α : Type} {root : Path} {change : Machine → Machine → Prop} {good : α → Prop}
    {m : Machine} {r r' : Outcome α} (h : (criteria root).Agree change false good m r r') :
    r' = r := by
  cases h with
  | returned _ hrel _ =>
    obtain ⟨rfl, _⟩ := hrel
    rfl
  | stopped _ hrel _ =>
    obtain ⟨rfl, _⟩ := hrel
    rfl
  | released h => exact h.elim
  | hit hhits _ => cases hhits

/-- Observed and unobserved jobs agree. -/
theorem perform (root : Path) (depth : Nat) {α : Type} {job : Job α}
    (hlegal : (comparison root).legal job) :
    (comparison root).Does false (Job.perform depth) (Job.performObserved Observer.loadsOnce depth)
      job := by
  refine Comparison.performObserved (opens root) (by rintro _ _ ⟨⟩)
    (fun h => ⟨fun _ _ => trivial, fun part hpart target htarget =>
      h target (Stmt.mem_targets_of_mem_stmts hpart htarget)⟩) (fun _ _ _ => trivial) ?_ depth hlegal
  rintro β inside m m' r r' hinside ⟨rfl, hm⟩ h
  have hquiet := h.quiet id
  rw [Observer.check_of_accepts (accepts hinside hm r')]
  exact hquiet

/-- Where no import leads up, a program loads each file once at a time. -/
theorem runObserved_loadsOnce {program : Block} {m : Machine} (hloading : m.loading = [])
    (hbase : m.baseDir.text ≠ "") (hm : m.descends = true)
    (hprogram : Block.descends program = true) :
    Eval.runObserved Observer.loadsOnce program m = Eval.runProgram program m := by
  have hstatements : (comparison m.baseDir).Executes
      (Job.perform (m.nestingBound (Stmt.sizeAll program) (Stmt.importsAny program)))
      (Job.performObserved Observer.loadsOnce
        (m.nestingBound (Stmt.sizeAll program) (Stmt.importsAny program))) program :=
    fun stmt hstmt => perform m.baseDir _
      (show (comparison m.baseDir).legal (.execute stmt) from descends_of_block hprogram stmt hstmt)
  have honce := Comparison.executes_atOnce hstatements (fun h => h _ rfl) id
  exact eq_of_agree (Comparison.runStatements honce (fun _ _ _ _ _ h => h.elim) m m
    ⟨rfl, .of_idle hloading hbase hm⟩)

end Reloads

/-- Let the imports of a machine be relative to a directory with a path. If nothing is being loaded
and no import leads up in the functions and files of the machine and in a program, then, at any
nesting of the run of the program, no file is loaded while it is being loaded, and there are never
more loads in progress than files. That an import leads up is what makes the difference: for every
chain of relative imports that leads from a module back to the same place, the path at its end is
known as that of the module exactly if none of the imports climbs. -/
theorem modules_load_once (m : Machine) (hbase : m.baseDir.text ≠ "") :
    (m.loading = [] → m.descends = true → ∀ program, Block.descends program = true →
      Eval.runObserved Observer.loadsOnce program m = Eval.runProgram program m) ∧
    ∀ (first : String) (targets : List String),
      (∀ target ∈ first :: targets, Path.isRelative target = true) →
      let path := Path.ofModule m.baseDir first
      m.files.place (path.chain targets) = m.files.place path →
      ((path.chain targets).canonical = path.canonical ↔
        ∀ target ∈ targets, Path.climbs target = false) := by
  refine ⟨fun hloading hm program => Reloads.runObserved_loadsOnce hloading hbase hm, ?_⟩
  intro first targets hrelative path hplace
  obtain ⟨hfirst, htargets⟩ := List.forall_mem_cons.mp hrelative
  obtain ⟨_, file, hfile, _, _, hparent, hunder, _⟩ := Path.ofModule_spec hbase hfirst
  exact FileTree.canonical_chain_iff hparent hunder hfile htargets hplace

/-- Two modules that use each other, and a program that uses one of them. -/
theorem modules_load_once_of_cycle :
    let m : Machine := { files := { entries := [
      (["a.myco".toList], .file (Text.bytesOf "use ./b as b")),
      (["b.myco".toList], .file (Text.bytesOf "use ./a as a\nlet c = 1;"))] } }
    let program : Block := [.use 1 (.path "./a") "a"]
    let path := Path.ofModule m.baseDir "./a"
    m.baseDir.text ≠ "" ∧ m.loading = [] ∧ m.descends = true ∧ Block.descends program = true ∧
      Eval.runObserved Observer.loadsOnce program m = Eval.runProgram program m ∧
      (path.chain ["./b", "./a"]).canonical = path.canonical := by
  intro m program path
  have hbase : m.baseDir.text ≠ "" := by decide
  have hdescends : m.descends = true := by decide +kernel
  have hprogram : Block.descends program = true := by decide +kernel
  obtain ⟨hruns, hchains⟩ := modules_load_once m hbase
  refine ⟨hbase, rfl, hdescends, hprogram, hruns rfl hdescends program hprogram, ?_⟩
  exact (hchains "./a" ["./b", "./a"] (by decide +kernel) (by decide +kernel)).mpr
    (by decide +kernel)

/-- A machine beside a module file that uses itself by way of the directory above. -/
def besideSelfImport : Machine := {
  files := { entries := [(["sub".toList, "a.myco".toList], .file
    (Text.bytesOf "use ../sub/a as a"))] } }

/-- The file is loaded while it is being loaded. -/
theorem file_loaded_inside_itself :
    let program : Block := [.use 1 (.path "./sub/a") "a"]
    besideSelfImport.IsFresh ∧
      Eval.runObserved Observer.loadsOnce program besideSelfImport ≠
        Eval.runProgram program besideSelfImport := by
  intro program
  refine ⟨⟨rfl, rfl, rfl, rfl, rfl, rfl, rfl⟩, fun h => ?_⟩
  have hrefused : (Outcome.stop? (Eval.runObserved Observer.loadsOnce program
      besideSelfImport)).isSome = true := by decide +kernel
  rw [h] at hrefused
  rcases Eval.runProgram_ok_or_io program besideSelfImport with ⟨after, hrun⟩ | ⟨fault, _, hfail, _⟩
  · rw [hrun] at hrefused
    cases hrefused
  · rcases hfail with houtput | herrors
    · exact Device.not_mayFail rfl (fun _ => rfl) houtput
    · exact herrors.1 rfl

end DecimalScript
