import DecimalScript.Eval.Observe
import DecimalScript.Proofs.Loading
import DecimalScript.Proofs.ReadingPrograms

/-!
# What an alias promises

An alias that stands for a module file promises the constants of the module, and keeps the promise
where each of them has a binding under its qualified name. An import makes these bindings before it
binds the alias, so it never breaks a promise. What breaks one is the end of a call or of a guarded
block, which drops the bindings that were made in it but leaves the alias bound.
-/

namespace DecimalScript

namespace Machine

/-- The constants that an alias promises: those of the module file that it stands for. -/
def promised (m : Machine) (aliasName : String) : List String :=
  match m.modules.get? aliasName with
  | some (.source _ program) => program.constantNames
  | some (.library _) | none => []

/-- Every constant that an alias promises has a binding. -/
def Keeps (aliasName : String) (m : Machine) : Prop :=
  ∀ name ∈ m.promised aliasName, Eval.qualified aliasName name ∈ m.env.names

/-- An alias promises nothing that it did not promise before. -/
def Shrinks (aliasName : String) (m after : Machine) : Prop :=
  ∀ name ∈ after.promised aliasName, name ∈ m.promised aliasName

variable {aliasName : String}

/-- What an alias promises depends on what it is bound to only. -/
theorem promised_of_modules {m after : Machine} (h : after.modules = m.modules) :
    after.promised aliasName = m.promised aliasName := by
  unfold promised
  rw [h]

/-- A promise that was kept stays kept where no promise is added and no name is lost. -/
theorem Keeps.of_shrinks {m after : Machine} (h : m.Keeps aliasName)
    (hshrinks : Shrinks aliasName m after) (hnames : m.env.names ⊆ after.env.names) :
    after.Keeps aliasName :=
  fun name hname => hnames (h name (hshrinks name hname))

/-- Promises shrink where no alias is bound anew. -/
theorem shrinks_of_modules {m after : Machine} (h : after.modules = m.modules) :
    Shrinks aliasName m after := by
  intro name hname
  rwa [promised_of_modules h] at hname

/-- Promises that shrink in each of two steps shrink in both. -/
theorem Shrinks.trans {a b c : Machine} (h : Shrinks aliasName a b) (h' : Shrinks aliasName b c) :
    Shrinks aliasName a c :=
  fun name hname => h name (h' name hname)

/-- Another alias promises what it did when an alias is bound. -/
theorem promised_bound_of_ne {m : Machine} {other : String} (h : aliasName ≠ other)
    (module : Module) :
    promised { m with modules := m.modules.set other module } aliasName = m.promised aliasName := by
  unfold promised
  rw [NameTable.get?_set_of_ne m.modules h]

/-- Promises depend on the aliases and the variables only. -/
theorem Keeps.congr {m after : Machine} (h : m.Keeps aliasName) (henv : after.env = m.env)
    (hmodules : after.modules = m.modules) : after.Keeps aliasName :=
  h.of_shrinks (shrinks_of_modules hmodules) (by rw [henv]; exact fun _ => id)

/-- An alias that is bound to a library promises nothing. -/
theorem Keeps.bindLibrary {m : Machine} (h : m.Keeps aliasName) (other : String)
    (library : Library) :
    Keeps aliasName { m with modules := m.modules.set other (.library library) } := by
  intro name hname
  by_cases hsame : aliasName = other
  · subst hsame
    unfold promised at hname
    rw [NameTable.get?_set_self] at hname
    cases hname
  · rw [promised_bound_of_ne hsame] at hname
    exact h name hname

/-- An alias that was bound to a module file promises its constants. -/
theorem promised_bound (aliasName : String) (m : Machine) (path : Path) (program : Block) :
    promised { m with modules := m.modules.set aliasName (.source path program) } aliasName =
      program.constantNames := by
  unfold promised
  rw [NameTable.get?_set_self]

/-- When a module is installed, its alias keeps what it promises. -/
theorem keeps_installed {path : Path} {program : Block} {found : List (String × Value)}
    (hfound : found.map (·.1) = program.constantNames) (closed : Environment)
    (evaluated : Machine) :
    (evaluated.installed path program aliasName found closed).Keeps aliasName := by
  intro name hname
  have hpromised : name ∈ program.constantNames := by
    rw [← promised_bound aliasName evaluated path program]
    exact hname
  rw [← hfound] at hpromised
  obtain ⟨entry, hentry, rfl⟩ := List.mem_map.mp hpromised
  exact Eval.mem_names_assignConstants.mpr (.inr ⟨entry, hentry, rfl⟩)

/-- When a module is installed, the other aliases keep what they promise. -/
theorem keeps_installed_of_ne {path : Path} {program : Block} {other : String}
    (hother : aliasName ≠ other) {found : List (String × Value)} {closed : Environment}
    {imported evaluated : Machine} (h : imported.Keeps aliasName)
    (hshrinks : Shrinks aliasName imported evaluated) (hnames : closed.names = imported.env.names) :
    (evaluated.installed path program other found closed).Keeps aliasName := by
  refine h.of_shrinks (fun name hname => hshrinks name ?_) ?_
  · rw [← promised_bound_of_ne hother (.source path program)]
    exact hname
  · rw [← hnames]
    exact fun name hname => Eval.mem_names_assignConstants.mpr (.inl hname)

end Machine

/-- The observer that refuses the evaluation of an expression, and the execution of a guarded block,
after which an alias promises a constant that it did not promise before. -/
def Observer.steadfast (aliasName : String) : Observer := fun job m outcome =>
  let kept := (outcome.machine.promised aliasName).all (m.promised aliasName).contains
  match job with
  | .evaluate _ | .execute (.attempt _ _ _ _) => kept
  | .execute _ => true

namespace Eval

variable {α β : Type} {aliasName : String}

/-- An evaluation that breaks no promise of an alias, unless an observer refuses it. -/
def Honours (aliasName : String) (x : Eval α) : Prop := ∀ m : Machine, m.Keeps aliasName →
  Outcome.stop? (x m) ≠ some Watch.refusal → (Outcome.machine (x m)).Keeps aliasName

/-- An evaluation that adds no promise, unless an observer refuses it. -/
def AddsNone (aliasName : String) (x : Eval α) : Prop := ∀ m : Machine,
  Outcome.stop? (x m) ≠ some Watch.refusal →
    Machine.Shrinks aliasName m (Outcome.machine (x m))

namespace AddsNone

variable {x : Eval α} {f : α → Eval β}

/-- An evaluation that binds no alias. -/
theorem of_modules (h : ∀ m, (Outcome.machine (x m)).modules = m.modules) :
    AddsNone aliasName x :=
  fun m _ => Machine.shrinks_of_modules (h m)

/-- One evaluation after another. -/
protected theorem bind (hx : AddsNone aliasName x) (hf : ∀ a, AddsNone aliasName (f a)) :
    AddsNone aliasName (x >>= f) := by
  intro m h
  have hfirst := hx m
  cases hran : x m with
  | ok a after =>
    rw [bind_of_ok hran] at h ⊢
    rw [hran] at hfirst
    exact (hfirst nofun).trans (hf a after h)
  | error stop after =>
    rw [bind_of_error hran] at h ⊢
    rw [hran] at hfirst
    exact hfirst h

/-- The constants of a module add no promise if no expression does. -/
theorem constants {run : JobRunner} (hexpr : ∀ expr, AddsNone aliasName (run (.evaluate expr)))
    (program : Block) : AddsNone aliasName (Eval.constants run program) := by
  induction program with
  | nil => exact .of_modules fun _ => rfl
  | cons stmt rest ih =>
    cases stmt with
    | declare line name typed expr =>
      refine .bind (hexpr expr) fun value => ?_
      refine .bind (of_modules fun _ => rfl) fun _ => ?_
      exact .bind ih fun _ => of_modules fun _ => rfl
    | _ => exact ih

/-- What adds no promise breaks none, if it does to the machine what evaluation does. -/
theorem honours (hx : AddsNone aliasName x) (hmoves : Moves x) : Honours aliasName x :=
  fun m hm h => hm.of_shrinks (hx m h) (hmoves m).names_suffix.subset

end AddsNone

namespace Honours

variable {x : Eval α} {f : α → Eval β}

/-- A value honours everything. -/
protected theorem pure (a : α) : Honours aliasName (pure a : Eval α) := fun _ hm _ => hm

/-- So does running out of depth. -/
theorem exhausted : Honours aliasName (Eval.exhausted : Eval α) := fun _ hm _ => hm

/-- One evaluation after another, from a given machine. -/
theorem bindAt {m : Machine} (hm : m.Keeps aliasName) (hx : Honours aliasName x)
    (hf : ∀ a after, x m = .ok a after → after.Keeps aliasName →
      Outcome.stop? (f a after) ≠ some Watch.refusal →
        (Outcome.machine (f a after)).Keeps aliasName)
    (h : Outcome.stop? ((x >>= f) m) ≠ some Watch.refusal) :
    (Outcome.machine ((x >>= f) m)).Keeps aliasName := by
  have hfirst := hx m hm
  cases hran : x m with
  | ok a after =>
    rw [bind_of_ok hran] at h ⊢
    rw [hran] at hfirst
    exact hf a after hran (hfirst nofun) h
  | error stop after =>
    rw [bind_of_error hran] at h ⊢
    rw [hran] at hfirst
    exact hfirst h

/-- One evaluation after another. -/
protected theorem bind (hx : Honours aliasName x) (hf : ∀ a, Honours aliasName (f a)) :
    Honours aliasName (x >>= f) :=
  fun _ hm => bindAt hm hx fun a after _ => hf a after

/-- What reads the machine. -/
protected theorem get {f : Machine → Eval β} (hf : ∀ m, Honours aliasName (f m)) :
    Honours aliasName (get >>= f) :=
  fun m hm h => hf m m hm h

/-- An evaluation that touches neither the aliases nor the variables. -/
theorem of_untouched (h : ∀ m, (Outcome.machine (x m)).env = m.env ∧
    (Outcome.machine (x m)).modules = m.modules) : Honours aliasName x :=
  fun m hm _ => hm.congr (h m).1 (h m).2

/-- An evaluation that binds no alias. -/
theorem of_modules (hmoves : Moves x) (h : ∀ m, (Outcome.machine (x m)).modules = m.modules) :
    Honours aliasName x :=
  (AddsNone.of_modules h).honours hmoves

/-- A fault breaks no promise. -/
theorem raise (fault : Fault) : Honours aliasName (Eval.raise fault : Eval α) := fun _ hm _ => hm

/-- Nor does a computation with values. -/
theorem ofExcept (result : Except Fault α) : Honours aliasName (Eval.ofExcept result) := by
  cases result with
  | ok a => exact .pure a
  | error fault => exact .raise fault

/-- Nor does a report. -/
theorem report (line : Nat) (message : String) : Honours aliasName (Eval.report line message) := by
  refine of_untouched fun m => ?_
  obtain ⟨errors, hmachine⟩ := machine_report line message m
  rw [hmachine]
  exact ⟨rfl, rfl⟩

/-- Nor does output. -/
theorem write (text : String) : Honours aliasName (Eval.write text) := by
  refine of_untouched fun m => ?_
  rw [write_eq]
  split <;> exact ⟨rfl, rfl⟩

/-- An assignment binds more names, if anything. -/
theorem assign (name : String) (value : Value) :
    Honours aliasName (Eval.modifyEnv (·.assign name value)) :=
  of_modules (Moves.assign name value) fun _ => rfl

/-- So does a declaration. -/
theorem declare (name : String) (value : Value) :
    Honours aliasName (Eval.modifyEnv (·.declare name value)) :=
  of_modules (.modify fun m => m.evolves_declare name value) fun _ => rfl

/-- So does one to properties. -/
theorem assignProperty (path : PropertyPath) (value : Value) (line : Nat) :
    Honours aliasName (Eval.assignProperty path value line) := by
  refine .get fun m => ?_
  dsimp only
  split
  · exact assign _ _
  · exact .raise _

/-- An assignment to an element binds the same names. -/
theorem assignElement (name : String) (index value : Value) (line : Nat) :
    Honours aliasName (Eval.assignElement name index value line) := by
  refine .get fun m => ?_
  cases m.env.get? name with
  | none => exact .raise _
  | some target =>
    have hwrite : ∀ changed, Honours aliasName (Eval.modifyEnv (·.write name changed)) :=
      fun changed => of_modules (.modify fun _ => .effect (.write name changed)) fun _ => rfl
    exact .bind (ofExcept _) hwrite

/-- A turn declares its variable. -/
theorem beginTurn (name : String) (current : Number) (value : Value) :
    Honours aliasName (Eval.beginTurn name current value) :=
  of_modules (Moves.beginTurn name current value) fun _ => rfl

/-- A range does no more than to begin turns. -/
theorem enterRange (name : String) (stop step current : Number) :
    Honours aliasName (Eval.enterRange name stop step current) := by
  unfold Eval.enterRange
  split
  · exact .bind (beginTurn name current _) fun _ => .pure _
  · exact .pure _

/-- Nor does a loop over elements. -/
theorem enterItems (name : String) (cursor : Nat × List Value) :
    Honours aliasName (Eval.enterItems name cursor) := by
  obtain ⟨position, items⟩ := cursor
  cases items with
  | nil => exact .pure _
  | cons item rest => exact .bind (beginTurn name _ item) fun _ => .pure _

/-- Loops that go on, or are refused. -/
theorem withLoops {changed : Except LoopFault Loop.Stack} {refused : α} {body : Eval α}
    (hbody : Honours aliasName body) : Honours aliasName (Eval.withLoops changed refused body) := by
  cases changed with
  | ok loops => exact fun m hm h => hbody { m with loops } hm h
  | error fault =>
    refine of_untouched fun m => ?_
    show (Outcome.machine (refuse fault refused m)).env = _ ∧
      (Outcome.machine (refuse fault refused m)).modules = _
    rw [refuse_eq]
    split <;> exact ⟨rfl, rfl⟩

/-- A change of the loops at the end. -/
theorem popping {body : Eval α} (hbody : Honours aliasName body) :
    Honours aliasName (Eval.afterwards body fun m => { m with loops := m.loops.pop }) := by
  intro m hm h
  have hinside := hbody m hm
  cases hran : body m with
  | ok value after =>
    rw [afterwards_ok hran] at h ⊢
    rw [hran] at hinside
    exact hinside nofun
  | error stop after =>
    rw [afterwards_error hran] at h ⊢
    rw [hran] at hinside
    exact hinside h

section

variable {run : JobRunner} (hmoves : ∀ {γ : Type} (job : Job γ), Moves (run job))
  (hexpr : ∀ expr, AddsNone aliasName (run (.evaluate expr)))
  (hstmt : ∀ stmt, Honours aliasName (run (.execute stmt)))

include hmoves hexpr

/-- An expression adds no promise, and it keeps the names that keep those there are. -/
theorem evaluate (expr : Expr) : Honours aliasName (run (.evaluate expr)) :=
  (hexpr expr).honours (hmoves _)

/-- So do expressions one after the other. -/
theorem evaluateAll (exprs : List Expr) : Honours aliasName (Eval.evaluateAll run exprs) := by
  induction exprs with
  | nil => exact .pure _
  | cons expr rest ih => exact .bind (evaluate hmoves hexpr expr) fun _ => .bind ih fun _ => .pure _

/-- So does the bound of a loop. -/
theorem loopBound (expr : Expr) : Honours aliasName (Eval.loopBound run expr) := by
  refine .bind (evaluate hmoves hexpr expr) fun value => ?_
  cases value with
  | number n => exact .pure _
  | text _ | boolean _ | array _ | object _ | lambda _ _ _ | nothing => exact .raise _

/-- So does the search for a case. -/
theorem findCase (subject : Value) (cases : List (Expr × Block)) :
    Honours aliasName (Eval.findCase run subject cases) := by
  induction cases with
  | nil => exact .pure _
  | cons head rest ih =>
    refine .bind (evaluate hmoves hexpr head.1) fun value => ?_
    split
    · exact .pure _
    · exact ih

omit hmoves hexpr in
/-- The imports of a module honour an alias if each of them does. -/
theorem importNested (hstmt : ∀ stmt, Honours aliasName (run (.execute stmt))) (program : Block) :
    Honours aliasName (Eval.importNested run program) := by
  induction program with
  | nil => exact .pure _
  | cons stmt rest ih =>
    cases stmt with
    | use line target bound => exact .bind (hstmt _) fun _ => ih
    | _ => exact ih

/-- When a module file is loaded, its own imports honour the promise, its constants add none before
they are evaluated, and all of them are bound when the alias is. -/
theorem importFile (hstmt : ∀ stmt, Honours aliasName (run (.execute stmt))) (target : ModuleRef)
    (bound : String) (line : Nat) : Honours aliasName (Eval.importFile run target bound line) := by
  intro m hm h
  by_cases hloading : (Path.ofModule m.baseDir target.text).canonical ∈ m.loading
  · rw [importFile_of_loading hloading]
    exact hm
  cases hread : Block.ofFile m.files (Path.ofModule m.baseDir target.text) with
  | error stop =>
    cases stop with
    | exhausted => exact absurd hread (Block.ofFile_ne_exhausted _ _)
    | failed failure =>
      rw [importFile_of_unreadable hloading hread] at h ⊢
      exact report line _ m hm h
  | ok program =>
    have hload := loading_importFile hmoves hloading hread bound line
    generalize Path.ofModule m.baseDir target.text = path at hload
    generalize Eval.importFile run target bound line m = outcome at h hload ⊢
    have hnested := importNested hstmt program (m.importing path) (hm.congr rfl rfl)
    -- Without the last stage the alias is not bound, so only what was promised before counts.
    cases hload with
    | @unimported stop imported himports =>
      rw [himports] at hnested
      exact (hnested h).congr rfl rfl
    | @unevaluated stop imported failed closed himports hconstants hclosed hnames =>
      rw [himports] at hnested
      have hnone := AddsNone.constants hexpr program (m.registering bound program imported).opening
      rw [hconstants] at hnone
      refine (hnested nofun).of_shrinks (hnone h) ?_
      show imported.env.names ⊆ closed.names
      rw [hnames]
      exact fun _ => id
    | @installed imported evaluated found closed himports hconstants hclosed hnames =>
      rw [himports] at hnested
      have hnone := AddsNone.constants hexpr program (m.registering bound program imported).opening
      rw [hconstants] at hnone
      by_cases hsame : aliasName = bound
      · subst hsame
        exact Machine.keeps_installed (names_of_constants hconstants) closed evaluated
      · exact Machine.keeps_installed_of_ne hsame (hnested nofun) (hnone nofun) hnames

section

variable (hstmt : ∀ stmt, Honours aliasName (run (.execute stmt)))

include hstmt

omit hmoves hexpr in
/-- A block honours an alias if each of its statements does. -/
theorem executeBlock (block : Block) : Honours aliasName (Eval.executeBlock run block) := by
  induction block with
  | nil => exact .pure _
  | cons stmt rest ih =>
    refine .bind (hstmt stmt) fun flow => ?_
    cases flow with
    | normal => exact ih
    | leave | next | giveBack _ => exact .pure _

omit hmoves hexpr in
/-- So does a turn. -/
theorem turn (body : Block) : Honours aliasName (Eval.turn run body) := by
  refine .get fun m => withLoops ?_
  refine .bind (executeBlock hstmt body) fun flow => ?_
  cases flow with
  | normal | next | leave | giveBack _ => exact .pure _

omit hmoves hexpr in
/-- The turns of a loop, by induction on the bound on their number. -/
theorem loopTurns {σ : Type} {enter : σ → Eval Bool}
    (henter : ∀ cursor, Honours aliasName (enter cursor)) (next : σ → Option σ) (body : Block)
    (turns : Nat) (cursor : σ) :
    Honours aliasName (Eval.loopTurns run enter next body turns cursor) := by
  induction turns generalizing cursor with
  | zero => exact .exhausted
  | succ turns ih =>
    refine .bind (henter cursor) fun entered => ?_
    cases entered with
    | false => exact .pure _
    | true =>
      refine .bind (turn hstmt body) fun ended => ?_
      cases ended with
      | some flow => exact .pure _
      | none =>
        dsimp only
        cases next cursor with
        | none => exact .pure _
        | some following => exact ih following

omit hmoves hexpr in
/-- A loop honours an alias if what begins its turns does. -/
theorem executeLoop {σ : Type} {enter : σ → Eval Bool}
    (henter : ∀ cursor, Honours aliasName (enter cursor)) (context : Loop.Context)
    (next : σ → Option σ) (body : Block) (first : σ) :
    Honours aliasName (Eval.executeLoop run context enter next body first) :=
  .get fun _ => .get fun _ => withLoops (popping (loopTurns hstmt henter next body _ first))

/-- A loop with a condition evaluates it to begin a turn. -/
theorem executeWhile (condition : Expr) (body : Block) (line : Nat) :
    Honours aliasName (Eval.executeWhile run condition body line) := by
  have henter : ∀ _ : Unit, Honours aliasName (do return (← run (.evaluate condition)).holds) :=
    fun _ => .bind (evaluate hmoves hexpr condition) fun _ => .pure _
  exact executeLoop hstmt henter _ some body ()

omit hmoves hexpr in
/-- A loop over a range declares its variable to begin a turn. -/
theorem executeRange (name : String) (start stop step : Number) (body : Block) (line : Nat) :
    Honours aliasName (Eval.executeRange run name start stop step body line) := by
  rw [executeRange_eq]
  split
  · exact .pure _
  · exact executeLoop hstmt (enterRange name stop step) _ _ body start

/-- So does one over elements. -/
theorem executeFor (name : String) (iteration : Iteration) (body : Block) (line : Nat) :
    Honours aliasName (Eval.executeFor run name iteration body line) := by
  have hbound (expr : Expr) : Honours aliasName (Eval.loopBound run expr) :=
    loopBound hmoves hexpr expr
  cases iteration with
  | range start stop =>
    exact .bind (hbound start) fun _ => .bind (hbound stop) fun _ =>
      executeRange hstmt name _ _ _ body line
  | step start stop width | countdown start stop width =>
    exact .bind (hbound start) fun _ => .bind (hbound stop) fun _ => .bind (hbound width) fun _ =>
      executeRange hstmt name _ _ _ body line
  | items value =>
    exact .bind (evaluate hmoves hexpr value) fun _ => .bind (ofExcept _) fun items =>
      executeLoop hstmt (enterItems name) _ _ body _

/-- A choice executes one block. -/
theorem executeSwitch (subject : Expr) (cases : List (Expr × Block)) (otherwise : Option Block) :
    Honours aliasName (Eval.executeSwitch run subject cases otherwise) := by
  refine .bind (evaluate hmoves hexpr subject) fun value => ?_
  refine .bind (findCase hmoves hexpr value cases) fun found => ?_
  cases found.or otherwise with
  | none => exact .pure _
  | some body =>
    refine .bind (executeBlock hstmt body) fun flow => ?_
    cases flow with
    | leave | normal | next | giveBack _ => exact .pure _

/-- An import binds its own alias, and breaks no promise of another. -/
theorem importModule (target : ModuleRef) (bound : String) (line : Nat) :
    Honours aliasName (Eval.importModule run target bound line) := by
  unfold Eval.importModule
  split
  · exact fun m hm _ => hm.bindLibrary bound _
  · exact importFile hmoves hexpr hstmt target bound line

/-- Every statement but a guarded block. -/
theorem execute {stmt : Stmt} (hunguarded : ∀ line body failure handler,
    stmt ≠ .attempt line body failure handler) : Honours aliasName (Eval.execute run stmt) := by
  have hvalue (expr : Expr) : Honours aliasName (run (.evaluate expr)) :=
    evaluate hmoves hexpr expr
  cases stmt with
  | use line target bound =>
    exact .bind (importModule hmoves hexpr hstmt target bound line) fun _ => .pure _
  | declare line name typed expr =>
    exact .bind (hvalue expr) fun value => .bind (declare name value) fun _ => .pure _
  | assign line name expr =>
    exact .bind (hvalue expr) fun value => .bind (assign name value) fun _ => .pure _
  | assignIndex line name index expr =>
    exact .bind (hvalue index) fun _ => .bind (hvalue expr) fun _ =>
      .bind (assignElement name _ _ line) fun _ => .pure _
  | assignProperty line path expr =>
    exact .bind (hvalue expr) fun value => .bind (assignProperty path value line) fun _ => .pure _
  | define line name params returnType body =>
    exact .bind (of_untouched fun _ => ⟨rfl, rfl⟩) fun _ => .pure _
  | branch line condition whenTrue whenFalse =>
    refine .bind (hvalue condition) fun value => ?_
    split
    · exact executeBlock hstmt whenTrue
    · exact executeBlock hstmt _
  | repeatWhile line condition body => exact executeWhile hmoves hexpr hstmt condition body line
  | repeatOver line name iteration body =>
    exact executeFor hmoves hexpr hstmt name iteration body line
  | select line subject cases otherwise =>
    exact executeSwitch hmoves hexpr hstmt subject cases otherwise
  | attempt line body failure handler => exact absurd rfl (hunguarded line body failure handler)
  | print line arguments =>
    exact .bind (evaluateAll hmoves hexpr arguments) fun _ => .bind (write _) fun _ => .pure _
  | giveBack line value =>
    cases value with
    | none => exact .pure _
    | some expr => exact .bind (hvalue expr) fun _ => .pure _
  | leave line => exact .pure _
  | next line => exact .pure _
  | evaluate expr => exact .bind (hvalue expr) fun _ => .pure _

end

end

end Honours

end Eval

end DecimalScript
