import DecimalScript.Proofs.ModuleTables
import DecimalScript.Proofs.Runs

/-!
# What the load of a module does

A module first loads the modules nested in it, then registers its functions, and then binds its
constants. Where no constant calls on the way, the load writes nothing else into the tables: what
the names of the module mean is decided by the module alone, the other names that are registered
belong to nested modules, and no variable without a dot in its name is touched.
-/

namespace DecimalScript

/-- Between two machines functions were registered under given names only, and the variables
without a dot in their names are the same. -/
structure Machine.Spared (touched : String → Prop) (m after : Machine) : Prop where
  functions : ∀ name, ¬touched name → after.functions.get? name = m.functions.get? name
  bindings : after.env.plain = m.env.plain

namespace Machine.Spared

variable {touched more : String → Prop} {m mid after : Machine}

theorem of_eq (hfunctions : after.functions = m.functions) (henv : after.env = m.env) :
    Spared touched m after :=
  ⟨fun name _ => congrArg (·.get? name) hfunctions, congrArg Environment.plain henv⟩

theorem trans (h : Spared touched m mid) (h' : Spared touched mid after) :
    Spared touched m after :=
  ⟨fun name hname => (h'.functions name hname).trans (h.functions name hname),
    h'.bindings.trans h.bindings⟩

theorem mono (hmore : ∀ name, touched name → more name) (h : Spared touched m after) :
    Spared more m after :=
  ⟨fun name hname => h.functions name (mt (hmore name) hname), h.bindings⟩

end Machine.Spared

namespace Eval

variable {run : JobRunner} {path : Path} {program : Block} {aliasName : String} {m after : Machine}

/-- Where the constants of a module do not call, its functions are registered among those that its
imports left, and its constants are bound among the variables that these left. -/
theorem installed_quiet
    (hquiet : ∀ expr : Expr, expr.calls = false → Quiet (run (.evaluate expr)))
    (hcalls : program.constantsCall = false)
    (h : Loading run path program aliasName m (.ok () after)) :
    ∃ imported evaluated found, importNested run program (m.importing path) = .ok () imported ∧
      constants run program (m.registering aliasName program imported).opening =
        .ok found evaluated ∧
      after.functions = registerFunctions aliasName program imported.functions ∧
      after.env = assignConstants aliasName imported.env found := by
  cases h with
  | @installed imported evaluated found closed himports hconstants hclosed hnames =>
    refine ⟨imported, evaluated, found, himports, hconstants, ?_⟩
    obtain ⟨nextLambda, rfl⟩ := constants_quiet hquiet hcalls hconstants
    have hscope := hclosed.symm.trans (popScope?_defineAll _ _ _)
    cases hscope
    exact ⟨rfl, rfl⟩

/-- The load of a module spares what its imports spare, but for the names of its functions. -/
theorem spared_of_loading {touched : String → Prop}
    (hquiet : ∀ expr : Expr, expr.calls = false → Quiet (run (.evaluate expr)))
    (hcalls : program.constantsCall = false)
    (himports : ∀ imported, importNested run program (m.importing path) = .ok () imported →
      Machine.Spared touched (m.importing path) imported)
    (htouched : ∀ name, program.Registers aliasName name → touched name)
    (h : Loading run path program aliasName m (.ok () after)) : Machine.Spared touched m after := by
  obtain ⟨imported, _, found, himported, _, hfunctions, henv⟩ := installed_quiet hquiet hcalls h
  have hspared := himports imported himported
  refine ⟨fun name hname => ?_, ?_⟩
  · rw [hfunctions, get?_registerFunctions_of_not_registers (mt (htouched name) hname)]
    exact hspared.functions name hname
  · rw [henv, plain_assignConstants]
    exact hspared.bindings

/-- The imports of a program spare what each of them spares at their site. -/
theorem spared_importNested {touched : String → Prop} {site : ImportSite}
    (hsite : ∀ {stmt : Stmt} {m after : Machine} {flow : Flow},
      run (.execute stmt) m = .ok flow after → after.site = m.site)
    (huse : ∀ line target aliasName, .use line target aliasName ∈ program →
      ∀ {m after : Machine} {flow : Flow}, m.site = site →
        run (.execute (.use line target aliasName)) m = .ok flow after →
          Machine.Spared touched m after)
    (hm : m.site = site) (h : importNested run program m = .ok () after) :
    Machine.Spared touched m after := by
  induction program generalizing m with
  | nil =>
    cases h
    exact .of_eq rfl rfl
  | cons stmt rest ih =>
    have hrest := fun line target aliasName hmem =>
      @huse line target aliasName (List.mem_cons_of_mem stmt hmem)
    cases stmt with
    | use line target aliasName =>
      rw [importNested] at h
      cases hfirst : run (.execute (.use line target aliasName)) m with
      | error stop stopped =>
        rw [bind_of_error hfirst] at h
        cases h
      | ok flow mid =>
        rw [bind_of_ok hfirst] at h
        have hspared := huse line target aliasName List.mem_cons_self hm hfirst
        exact hspared.trans (ih hrest ((hsite hfirst).trans hm) h)
    | _ => exact ih hrest hm h

/-- An import that ended has loaded its module in stages. -/
theorem loading_of_loads (hrun : ∀ {α : Type} (job : Job α), Moves (run job)) {line : Nat}
    {target : ModuleRef} {flow : Flow} (hloads : m.site.Loads target path program)
    (h : execute run (.use line target aliasName) m = .ok flow after) :
    Loading run path program aliasName m (.ok () after) := by
  obtain ⟨hfile, hpath, hidle, hread⟩ := hloads
  subst hpath
  rw [← importFile_of_use_ok hfile h]
  exact loading_importFile hrun hidle hread aliasName line

end Eval

open Eval

/-- Executing keeps the site of imports. -/
theorem Job.site_of_perform {depth : Nat} {stmt : Stmt} {m after : Machine} {flow : Flow}
    (h : Job.perform depth (.execute stmt) m = .ok flow after) : after.site = m.site := by
  have hchanged := Job.changed_perform depth (.execute stmt) m
  rw [h, Outcome.machine_ok] at hchanged
  unfold Machine.site
  rw [hchanged.kept.files, hchanged.kept.baseDir, hchanged.kept.loading]

/-- An import does nothing to the functions and the variables, or it loads a module. -/
theorem Eval.execute_use_cases {run : JobRunner} {line : Nat} {target : ModuleRef}
    {aliasName : String} {m after : Machine} {flow : Flow}
    (h : execute run (.use line target aliasName) m = .ok flow after) :
    after.functions = m.functions ∧ after.env = m.env ∨
      ∃ path program, m.site.Loads target path program := by
  cases hfile : importedLibrary? target with
  | some library =>
    change (do importModule run target aliasName line; return Flow.normal : Eval Flow) m = _ at h
    rw [importModule, hfile] at h
    cases h
    exact .inl ⟨rfl, rfl⟩
  | none =>
    have himport := importFile_of_use_ok hfile h
    by_cases hloading : (Path.ofModule m.baseDir target.text).canonical ∈ m.loading
    · rw [importFile_of_loading hloading] at himport
      cases himport
      exact .inl ⟨rfl, rfl⟩
    · cases hread : Block.ofFile m.files (Path.ofModule m.baseDir target.text) with
      | ok program => exact .inr ⟨_, program, hfile, rfl, hloading, hread⟩
      | error stop =>
        cases stop with
        | exhausted => exact absurd hread (Block.ofFile_ne_exhausted _ _)
        | failed failure =>
          obtain ⟨errors, hreport⟩ := machine_report line (loadFailure target.text failure) m
          rw [importFile_of_unreadable hloading hread] at himport
          rw [himport, Outcome.machine_ok] at hreport
          rw [hreport]
          exact .inl ⟨rfl, rfl⟩

/-- The imports of a program register functions of the modules nested in it, where none of their
constants calls. By induction on the depth of the run: what is nested in a module that an import
loads is nested in the program. -/
theorem spared_by_imports (depth : Nat) {site : ImportSite} {program : Block} {m imported : Machine}
    (hfree : site.CallFree program) (hm : m.site = site)
    (h : importNested (fun job => Job.perform depth job) program m = .ok () imported) :
    Machine.Spared (site.Registers program) m imported := by
  induction depth generalizing site program m imported with
  | zero =>
    refine spared_importNested Job.site_of_perform ?_ hm h
    intro line target aliasName huse before after flow hbefore himport
    cases himport
  | succ depth ih =>
    refine spared_importNested Job.site_of_perform ?_ hm h
    intro line target aliasName huse before after flow hbefore himport
    change execute (fun nested => Job.perform depth nested) (.use line target aliasName) before =
      .ok flow after at himport
    subst hbefore
    rcases execute_use_cases himport with ⟨hfunctions, henv⟩ | ⟨path, loaded, hloads⟩
    · exact .of_eq hfunctions henv
    · have hdirect := ImportSite.Nested.direct huse hloads
      have hinside : (before.site.inside path).CallFree loaded := fun other nested hnested =>
        hfree other nested (.deeper huse hloads hnested)
      have hload := loading_of_loads (fun job => Job.moves_perform depth job) hloads himport
      refine spared_of_loading (fun expr => Job.quiet_perform depth) (hfree _ _ hdirect)
        (fun inner hinner => ?_) (fun name hname => ⟨aliasName, loaded, hdirect, hname⟩) hload
      have hspared := ih hinside rfl hinner
      exact hspared.mono fun name ⟨other, nested, hnested, hname⟩ =>
        ⟨other, nested, .deeper huse hloads hnested, hname⟩

/-- What the last value of a constant was evaluated in. -/
theorem Eval.constant_of_installed {run : JobRunner} {aliasName name : String}
    {program before later : Block} {line : Nat} {typed : Option TypeName} {expr : Expr}
    (hquiet : ∀ expr : Expr, expr.calls = false → Quiet (run (.evaluate expr)))
    (hsplit : program = before ++ .declare line name typed expr :: later)
    (hcalls : program.constantsCall = false) (hlast : name ∉ later.constantNames)
    {found : List (String × Value)} {start evaluated : Machine}
    (h : constants run program start = .ok found evaluated) (env : Environment) :
    ∃ earlier nextLambda value next,
      let ready := { start with
        env := start.env.defineAll before.constantNames (earlier.map (·.2)), nextLambda }
      constants run before start = .ok earlier ready ∧ run (.evaluate expr) ready = .ok value next ∧
        (assignConstants aliasName env found).get? (qualified aliasName name) = some value := by
  have hbefore : before.constantsCall = false := by
    rw [hsplit, Block.constantsCall, List.any_append, Bool.or_eq_false_iff] at hcalls
    exact hcalls.1
  rw [hsplit] at h
  obtain ⟨earlier, ready, rest, hearlier, hrest, rfl⟩ := constants_append h
  obtain ⟨nextLambda, rfl⟩ := constants_quiet hquiet hbefore hearlier
  obtain ⟨value, next, others, hvalue, hothers, rfl⟩ := constants_declare_eq_ok.mp hrest
  have hfree : name ∉ others.map (·.1) := names_of_constants hothers ▸ hlast
  exact ⟨earlier, nextLambda, value, next, hearlier, hvalue, get?_assignConstants_last hfree env⟩

/-- What a load leaves in the tables, if no constant of the module or of the modules nested in it
calls. Each function of the module is registered under its qualified and its plain name as it was
defined last, and of the other names only those of nested modules are touched. The qualified name of
each constant means the value of its last initialiser, evaluated behind the imports and where the
constants before it are bound by their plain names. The variables without a dot in their names are
the same as before. -/
theorem module_load_effect (depth line : Nat) (target : ModuleRef) (aliasName : String)
    {m after : Machine} {flow : Flow} {path : Path} {program : Block}
    (hloads : m.site.Loads target path program) (hcalls : program.constantsCall = false)
    (hnested : (m.site.inside path).CallFree program)
    (huse : Job.perform (depth + 1) (.execute (.use line target aliasName)) m = .ok flow after) :
    let run : JobRunner := fun job => Job.perform depth job
    (∀ before line name params returnType body later,
      program = before ++ .define line name params returnType body :: later →
      name ∉ Block.functionNames later →
      after.functions.get? (qualified aliasName name) = some ⟨name, params, returnType, body⟩ ∧
        after.functions.get? name = some ⟨name, params, returnType, body⟩) ∧
    (∀ name, ¬program.Registers aliasName name → ¬(m.site.inside path).Registers program name →
      after.functions.get? name = m.functions.get? name) ∧
    (∃ imported, importNested run program (m.importing path) = .ok () imported ∧
      ∀ before line name typed expr later,
        program = before ++ .declare line name typed expr :: later →
        name ∉ Block.constantNames later →
        ∃ earlier nextLambda value next,
          let start := (m.registering aliasName program imported).opening
          let ready := { start with
            env := start.env.defineAll (Block.constantNames before) (earlier.map (·.2))
            nextLambda }
          constants run before start = .ok earlier ready ∧
            run (.evaluate expr) ready = .ok value next ∧
              after.env.get? (qualified aliasName name) = some value) ∧
    after.env.plain = m.env.plain := by
  intro run
  have hquiet : ∀ expr : Expr, expr.calls = false → Quiet (run (.evaluate expr)) :=
    fun expr => Job.quiet_perform depth
  have hload := loading_of_loads (fun job => Job.moves_perform depth job) hloads huse
  have hplain : ∀ defined ∈ program.functionNames, PlainName defined :=
    fun defined => Block.plainName_of_function hloads.read
  obtain ⟨imported, evaluated, found, himported, hconstants, hfunctions, henv⟩ :=
    installed_quiet hquiet hcalls hload
  have hspared : Machine.Spared (fun name => program.Registers aliasName name ∨
      (m.site.inside path).Registers program name) m after := by
    refine spared_of_loading hquiet hcalls (fun imported himported => ?_) (fun name => .inl) hload
    exact (spared_by_imports depth hnested rfl himported).mono fun name => .inr
  refine ⟨?_, fun name hown hother => hspared.functions name (not_or.mpr ⟨hown, hother⟩),
    ⟨imported, himported, ?_⟩, hspared.bindings⟩
  · intro before line name params returnType body later hsplit hlast
    rw [hfunctions]
    exact get?_registerFunctions_last hsplit hlast hplain imported.functions
  · intro before line name typed expr later hsplit hlast
    rw [henv]
    exact constant_of_installed hquiet hsplit hcalls hlast hconstants imported.env

/-- A module that loads another one, defines a function twice and has a constant. -/
def outerSource : List UInt8 :=
  Text.bytesOf "use ./n as n\nfunc f(): end\nfunc f(a): end\nlet c = n.d;"

/-- The module that it loads. -/
def innerSource : List UInt8 := Text.bytesOf "func g(): end\nlet d = true;"

/-- The program of the outer module. -/
def outerModule : Block := [
  .use 1 (.path "./n") "n", .define 2 "f" [] none [], .define 3 "f" [⟨"a", none⟩] none [],
  .declare 4 "c" none (.member 4 (.var 4 "n") "d")]

/-- The program of the inner module. -/
def innerModule : Block := [
  .define 1 "g" [] none [], .declare 2 "d" none (.literal 2 (.boolean true))]

/-- A machine with a variable beside the files of the two modules. -/
def besideNestedModules : Machine := {
  env := { bindings := [⟨"x", .boolean true⟩] }
  files := { entries := [
    (["m.myco".toList], .file outerSource), (["n.myco".toList], .file innerSource)] } }

theorem ofSource_outerSource : Block.ofSource outerSource = .ok outerModule := by
  have htokens : Token.ofSource outerSource = .ok [
      ⟨.keyword .useWord, "use", 1⟩, ⟨.path "./n", "./n", 1⟩, ⟨.keyword .asWord, "as", 1⟩,
      ⟨.identifier "n", "n", 1⟩,
      ⟨.keyword .funcWord, "func", 2⟩, ⟨.identifier "f", "f", 2⟩, ⟨.symbol .leftParen, "(", 2⟩,
      ⟨.symbol .rightParen, ")", 2⟩, ⟨.symbol .colon, ":", 2⟩, ⟨.keyword .endWord, "end", 2⟩,
      ⟨.keyword .funcWord, "func", 3⟩, ⟨.identifier "f", "f", 3⟩, ⟨.symbol .leftParen, "(", 3⟩,
      ⟨.identifier "a", "a", 3⟩, ⟨.symbol .rightParen, ")", 3⟩, ⟨.symbol .colon, ":", 3⟩,
      ⟨.keyword .endWord, "end", 3⟩,
      ⟨.keyword .letWord, "let", 4⟩, ⟨.identifier "c", "c", 4⟩, ⟨.symbol .equal, "=", 4⟩,
      ⟨.identifier "n", "n", 4⟩, ⟨.symbol .dot, ".", 4⟩, ⟨.identifier "d", "d", 4⟩,
      ⟨.symbol .semicolon, ";", 4⟩, Token.endOn 4] := by decide +kernel
  rw [Block.ofSource, htokens]
  rfl

theorem ofSource_innerSource : Block.ofSource innerSource = .ok innerModule := by
  have htokens : Token.ofSource innerSource = .ok [
      ⟨.keyword .funcWord, "func", 1⟩, ⟨.identifier "g", "g", 1⟩, ⟨.symbol .leftParen, "(", 1⟩,
      ⟨.symbol .rightParen, ")", 1⟩, ⟨.symbol .colon, ":", 1⟩, ⟨.keyword .endWord, "end", 1⟩,
      ⟨.keyword .letWord, "let", 2⟩, ⟨.identifier "d", "d", 2⟩, ⟨.symbol .equal, "=", 2⟩,
      ⟨.keyword .trueWord, "true", 2⟩, ⟨.symbol .semicolon, ";", 2⟩, Token.endOn 2] := by
    decide +kernel
  rw [Block.ofSource, htokens]
  rfl

/-- The site of the imports of the outer module. -/
def outerSite : ImportSite := besideNestedModules.site.inside (Path.ofModule ⟨"."⟩ "./m")

theorem loads_outerModule :
    besideNestedModules.site.Loads (.path "./m") (Path.ofModule ⟨"."⟩ "./m") outerModule := by
  have hread : besideNestedModules.site.files.read (Path.ofModule ⟨"."⟩ "./m") =
      .ok outerSource := by decide +kernel
  refine ⟨rfl, rfl, List.not_mem_nil, ?_⟩
  rw [Block.ofFile, hread]
  exact ofSource_outerSource

/-- The outer module loads the inner one only. -/
theorem eq_innerModule_of_loads {line : Nat} {target : ModuleRef} {aliasName : String} {path : Path}
    {nested : Block} (huse : .use line target aliasName ∈ outerModule)
    (hloads : outerSite.Loads target path nested) : nested = innerModule := by
  obtain ⟨rfl, rfl, rfl⟩ : line = 1 ∧ target = .path "./n" ∧ aliasName = "n" := by
    simpa [outerModule] using huse
  have hread : outerSite.files.read (Path.ofModule outerSite.dir (ModuleRef.path "./n").text) =
      .ok innerSource := by decide +kernel
  have hnested := hloads.read
  rw [← hloads.path_eq, Block.ofFile, hread] at hnested
  cases hnested.symm.trans ofSource_innerSource
  rfl

/-- The inner module loads nothing, so it is all that is nested in the outer one. -/
theorem eq_innerModule_of_nested {aliasName : String} {nested : Block}
    (h : outerSite.Nested outerModule aliasName nested) : nested = innerModule := by
  cases h with
  | direct huse hloads => exact eq_innerModule_of_loads huse hloads
  | deeper huse hloads hdeeper =>
    rw [eq_innerModule_of_loads huse hloads] at hdeeper
    cases hdeeper with
    | direct huse' => simp [innerModule] at huse'
    | deeper huse' => simp [innerModule] at huse'

/-- The last definition of the function and the constant of the outer module are there after the
load, and the variable is as before. -/
theorem module_load_effect_of_nested :
    besideNestedModules.site.Loads (.path "./m") (Path.ofModule ⟨"."⟩ "./m") outerModule ∧
      outerModule.constantsCall = false ∧ outerSite.CallFree outerModule ∧
      ∃ flow after, Job.perform 6 (.execute (.use 1 (.path "./m") "m")) besideNestedModules =
          .ok flow after ∧
        after.functions.get? "m.f" = some ⟨"f", [⟨"a", none⟩], none, []⟩ ∧
        after.functions.get? "f" = some ⟨"f", [⟨"a", none⟩], none, []⟩ ∧
        after.functions.get? "x" = none ∧ (∃ value, after.env.get? "m.c" = some value) ∧
        after.env.plain = [⟨"x", .boolean true⟩] := by
  have hfree : outerSite.CallFree outerModule :=
    fun aliasName nested h => eq_innerModule_of_nested h ▸ rfl
  have hdone : (Outcome.stop? (Job.perform 6 (.execute (.use 1 (.path "./m") "m"))
      besideNestedModules)).isNone = true := by decide +kernel
  refine ⟨loads_outerModule, rfl, hfree, ?_⟩
  cases huse : Job.perform 6 (.execute (.use 1 (.path "./m") "m")) besideNestedModules with
  | error stop after =>
    rw [huse] at hdone
    cases hdone
  | ok flow after =>
    obtain ⟨hfunctions, hothers, ⟨imported, -, hconstants⟩, hbindings⟩ :=
      module_load_effect 5 1 (.path "./m") "m" loads_outerModule rfl hfree huse
    obtain ⟨hqualified, hplain⟩ := hfunctions (outerModule.take 2) 3 "f" [⟨"a", none⟩] none []
      (outerModule.drop 3) rfl (by decide)
    obtain ⟨_, _, value, _, -, -, hvalue⟩ := hconstants (outerModule.take 3) 4 "c" none _ [] rfl
      List.not_mem_nil
    have hunregistered : ¬outerSite.Registers outerModule "x" := by
      rintro ⟨aliasName, nested, h, defined, hdefined, hname⟩
      rw [eq_innerModule_of_nested h] at hdefined
      cases List.mem_singleton.mp hdefined
      exact hname.elim (by decide) (ne_qualified (by decide) aliasName "g")
    exact ⟨flow, after, rfl, hqualified, hplain, hothers "x" (by decide) hunregistered,
      ⟨value, hvalue⟩, hbindings⟩

end DecimalScript
