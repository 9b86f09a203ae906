import DecimalScript.Proofs.Evolution
import Mathlib.Data.List.Forall2

/-!
# Calls and the variables of their callers

A name means its newest binding anywhere, so a callee can write the variables of all its
callers. It cannot write those that its own parameters shadow: a parameter stays above
the older bindings of its name through everything that a body can do, and only the newest
binding of a name is ever written. So a call leaves every older binding of the name of
one of its parameters as it was.
-/

namespace DecimalScript

/-- What becomes of an older binding below bindings of given names: it keeps its name, and if one of
the names is its own, it keeps its value. -/
def KeptUnder (names : List String) (b after : Binding) : Prop :=
  after.name = b.name ∧ (b.name ∈ names → after = b)

/-- What becomes of bindings: wherever they are divided into newer and older ones, the division is
still there, with no name of the newer ones lost and the older ones kept under them. -/
def Persists (before after : List Binding) : Prop :=
  ∀ newer older, before = newer ++ older → ∃ newer' older', after = newer' ++ older' ∧
    newer.map (·.name) <:+ newer'.map (·.name) ∧
    List.Forall₂ (KeptUnder (newer.map (·.name))) older older'

/-- Bindings are kept under any others. -/
theorem KeptUnder.refl (names : List String) (b : Binding) : KeptUnder names b b :=
  ⟨rfl, fun _ => rfl⟩

/-- What is kept under more names after what is kept under some is kept under those. -/
theorem forall₂_keptUnder_trans {names more : List String} (hmore : ∀ name ∈ names, name ∈ more)
    {a b c : List Binding} (h : List.Forall₂ (KeptUnder names) a b)
    (h' : List.Forall₂ (KeptUnder more) b c) : List.Forall₂ (KeptUnder names) a c := by
  induction h generalizing c with
  | nil =>
    cases h'
    exact .nil
  | cons hfirst _ ih =>
    cases h' with
    | cons hfirst' hrest' =>
      refine .cons ⟨hfirst'.1.trans hfirst.1, fun hname => ?_⟩ (ih hrest')
      have hsame := hfirst.2 hname
      rw [hsame] at hfirst'
      exact hfirst'.2 (hmore _ hname)

/-- Rebinding a name keeps bindings under all others. -/
theorem forall₂_rebind {names : List String} {name : String} (h : name ∉ names) (value : Value)
    (bindings : List Binding) :
    List.Forall₂ (KeptUnder names) bindings (rebind name value bindings) := by
  induction bindings with
  | nil => exact .nil
  | cons b rest ih =>
    unfold rebind
    by_cases hb : b.name = name
    · have hother : b.name ∉ names := hb ▸ h
      simp only [hb, beq_self_eq_true, if_true]
      exact .cons ⟨hb.symm, fun hname => absurd hname hother⟩
        (List.forall₂_same.mpr fun b _ => .refl names b)
    · simp only [beq_false_of_ne hb]
      exact .cons (.refl names b) ih

namespace Persists

theorem refl (bindings : List Binding) : Persists bindings bindings := by
  intro newer older hsplit
  exact ⟨newer, older, hsplit, List.suffix_refl _, List.forall₂_same.mpr fun b _ => .refl _ b⟩

theorem trans {a b c : List Binding} (h : Persists a b) (h' : Persists b c) : Persists a c := by
  intro newer older hsplit
  obtain ⟨between, kept, hbetween, hnames, hkept⟩ := h newer older hsplit
  obtain ⟨after, last, hafter, hnames', hlast⟩ := h' between kept hbetween
  refine ⟨after, last, hafter, hnames.trans hnames', ?_⟩
  exact forall₂_keptUnder_trans (fun _ hname => hnames.subset hname) hkept hlast

/-- A new binding shadows those before. -/
theorem cons {before after : List Binding} (h : Persists before after) (b : Binding) :
    Persists before (b :: after) := by
  intro newer older hsplit
  obtain ⟨newer', older', hafter, hnames, hkept⟩ := h newer older hsplit
  refine ⟨b :: newer', older', by rw [hafter, List.cons_append], ?_, hkept⟩
  exact hnames.trans (List.suffix_cons _ _)

/-- A write reaches an older binding only if no newer one has its name. -/
theorem rebind (name : String) (value : Value) (bindings : List Binding) :
    Persists bindings (rebind name value bindings) := by
  rintro newer older rfl
  by_cases hname : name ∈ newer.map (·.name)
  · refine ⟨_, older, rebind_append_of_mem hname, ?_, List.forall₂_same.mpr fun b _ => .refl _ b⟩
    exact names_rebind name value newer ▸ List.suffix_refl _
  · exact ⟨newer, _, rebind_append_of_not_mem hname, List.suffix_refl _,
      forall₂_rebind hname value older⟩

/-- What was added to bindings before they persisted can be dropped again. -/
theorem dropped {added before after : List Binding} (h : Persists (added ++ before) after) :
    Persists before (keepOldest before.length after) := by
  rintro newer older rfl
  obtain ⟨newer', older', rfl, hnames, hkept⟩ :=
    h (added ++ newer) older (List.append_assoc added newer older).symm
  have hlength : (newer ++ older).length = newer.length + older'.length := by
    rw [List.length_append, hkept.length_eq]
  refine ⟨keepOldest newer.length newer', older', ?_, ?_, ?_⟩
  · rw [hlength, keepOldest_append]
  · rw [List.map_append] at hnames
    have hnewer := keepOldest_of_suffix ((List.suffix_append _ _).trans hnames)
    rw [List.length_map] at hnewer
    exact (map_keepOldest _ _ newer').trans hnewer ▸ List.suffix_refl _
  · refine hkept.imp fun b b' hb => ⟨hb.1, fun hname => hb.2 ?_⟩
    rw [List.map_append]
    exact List.mem_append_right _ hname

/-- What was bound since can be dropped again. -/
theorem restored {before after : List Binding} (h : Persists before after) :
    Persists before (keepOldest before.length after) :=
  @dropped [] before after h

end Persists

/-- Parameters are bound in front of the other bindings. -/
theorem Environment.bindings_defineAll (env : Environment) (names : List String)
    (values : List Value) :
    ∃ added, (env.defineAll names values).bindings = added ++ env.bindings ∧
      added.map (·.name) = (names.take values.length).reverse := by
  induction names generalizing env values with
  | nil => exact ⟨[], rfl, by simp⟩
  | cons name names ih =>
    cases values with
    | nil => exact ⟨[], rfl, by simp⟩
    | cons value values =>
      obtain ⟨added, hadded, hnames⟩ := ih (env.define name value) values
      refine ⟨added ++ [⟨name, value⟩], ?_, ?_⟩
      · rw [List.append_assoc]
        exact hadded
      · simp [hnames]

/-- Whatever evaluation does, the bindings persist. -/
theorem Machine.Evolves.persists {m after : Machine} (h : m.Evolves after) :
    Persists m.env.bindings after.env.bindings := by
  induction h with
  | refl m => exact .refl _
  | effect h =>
    cases h with
    | define name value => exact Persists.cons (.refl _) _
    | write name value => exact .rebind name value _
    | console | reported | refused | register | bindModule | advance | tick => exact .refl _
  | trans _ _ ih ih' => exact ih.trans ih'
  | loop _ _ ih | directory _ _ ih | loading _ _ _ ih => exact ih
  | @scope m after params values calls env h hclosed ih =>
    obtain ⟨added, hadded, _⟩ := m.env.pushScope.bindings_defineAll params values
    have hopened : after.env.scopes = m.env.size :: m.env.scopes :=
      h.scopes.trans (m.env.scopes_opened params values)
    rw [Environment.popScope_of_scopes hopened] at hclosed
    cases hclosed
    exact (hadded ▸ ih : Persists (added ++ m.env.bindings) after.env.bindings).dropped
  | rollback _ ih => exact ih.restored
  | recover failure fault _ ih => exact ih.restored.cons _

/-- When a call is over, closing its scope leaves the bindings that were there before it, kept under
its parameters. -/
theorem Machine.Evolves.kept_under_params {m after : Machine} {params : List String}
    {values : List Value} (hlength : params.length = values.length) {calls : Nat}
    (h : Machine.Evolves { m with
      env := m.env.pushScope.defineAll params values
      callDepth := calls } after) :
    ∃ older, after.env.popScope? = some ⟨older, m.env.scopes⟩ ∧
      List.Forall₂ (KeptUnder params) m.env.bindings older := by
  obtain ⟨added, hadded, hnames⟩ := m.env.pushScope.bindings_defineAll params values
  rw [← hlength, List.take_length] at hnames
  obtain ⟨newer, older, hafter, _, hkept⟩ := h.persists added m.env.bindings hadded
  have hopened : after.env.scopes = m.env.size :: m.env.scopes :=
    h.scopes.trans (m.env.scopes_opened params values)
  -- There are as many older bindings as before, so the scope is closed where they begin.
  have holdest : keepOldest m.env.size after.env.bindings = older := by
    rw [hafter, Environment.size, hkept.length_eq]
    exact keepOldest_of_suffix (List.suffix_append _ _)
  refine ⟨older, ?_, ?_⟩
  · rw [Environment.popScope_of_scopes hopened, holdest]
  · refine hkept.imp fun b b' hb => ⟨hb.1, fun hname => hb.2 ?_⟩
    rw [hnames]
    exact List.mem_reverse.mpr hname

namespace Environment

/-- Nothing was bound or dropped, and the bindings of the given names are as they were. -/
structure Shields (shielded : List String) (before after : Environment) : Prop where
  names : after.names = before.names
  bindings : ∀ (i : Nat) (b : Binding), before.bindings[i]? = some b → b.name ∈ shielded →
    after.bindings[i]? = some b

theorem Shields.refl (shielded : List String) (env : Environment) : Shields shielded env env :=
  ⟨rfl, fun _ _ h _ => h⟩

/-- Bindings that were kept under names are shielded by them. -/
theorem Shields.of_kept {shielded : List String} {before after : Environment}
    (h : List.Forall₂ (KeptUnder shielded) before.bindings after.bindings) :
    Shields shielded before after := by
  obtain ⟨before, scopes⟩ := before
  obtain ⟨after, scopes'⟩ := after
  change List.Forall₂ (KeptUnder shielded) before after at h
  induction h with
  | nil => exact ⟨rfl, nofun⟩
  | @cons b b' rest rest' hfirst hrest ih =>
    refine ⟨congrArg₂ List.cons hfirst.1 ih.names, fun i found hfound hname => ?_⟩
    cases i with
    | zero =>
      cases hfound
      exact congrArg some (hfirst.2 hname)
    | succ i => exact ih.bindings i found hfound hname

end Environment

namespace Eval

/-- A call that binds a value to each parameter shields the older bindings of their names, whatever
its body does and ends with. -/
theorem shields_invoke {params : List String} {values : List Value}
    (hlength : params.length = values.length) (line : Nat) {body : Eval Value}
    (hbody : Moves body) (m : Machine) :
    Environment.Shields params m.env (Outcome.machine (invoke params values line body m)).env := by
  unfold invoke
  split
  · exact .refl params m.env
  · have hinside := hbody { m with
      env := m.env.pushScope.defineAll params values
      callDepth := m.callDepth + 1 }
    obtain ⟨older, hclosed, hkept⟩ := hinside.kept_under_params hlength
    have hshields : Environment.Shields params m.env ⟨older, m.env.scopes⟩ := .of_kept hkept
    dsimp only
    rw [machine_leaveScope hclosed]
    exact hshields

/-- A call with evaluated arguments shields the older bindings of its parameters' names, also if
there are too few or too many arguments. -/
theorem shields_checked {params : List String} {values : List Value} (name : String) (line : Nat)
    {body : Eval Value} (hbody : Moves body) (m : Machine) :
    Environment.Shields params m.env (Outcome.machine ((do
      checkCount name params.length values.length line
      invoke params values line body) m)).env := by
  unfold checkCount
  split
  · rename_i hlength
    exact shields_invoke hlength line hbody m
  · exact .refl params m.env

end Eval

/-- Once its arguments are evaluated, a call of a function or of a lambda makes and drops no
binding, and every binding of the name of one of its parameters has the value it had before,
whatever the body does and whatever the call ends with. -/
theorem calls_shield_parameters (depth : Nat) {m mid : Machine} {arguments : List Expr}
    {values : List Value} (line : Nat)
    (h : Eval.evaluateAll (fun job => Job.perform depth job) arguments m = .ok values mid) :
    let run : JobRunner := fun job => Job.perform depth job
    (∀ function : Function,
      Environment.Shields (function.params.map (·.name)) mid.env
        (Outcome.machine (Eval.callFunction run function arguments line m)).env) ∧
    ∀ (params : List String) (body : Expr),
      Environment.Shields params mid.env
        (Outcome.machine (Eval.callLambda run params body arguments line m)).env := by
  intro run
  have hrun : ∀ {α : Type} (job : Job α), Eval.Moves (run job) := fun job =>
    Job.moves_perform depth job
  constructor
  · intro function
    have hbody := Eval.Moves.bodyValue hrun function.body
    unfold Eval.callFunction
    rw [Eval.bind_of_ok h, ← List.length_map (·.name)]
    exact Eval.shields_checked function.name line hbody mid
  · intro params body
    unfold Eval.callLambda
    rw [Eval.bind_of_ok h]
    exact Eval.shields_checked "lambda" line (hrun (.evaluate body)) mid

/-- A callee of the body writes the parameter, which is the newest binding of its name, and not the
variable that the parameter shadows. Then the body fails. -/
theorem calls_shield_parameters_of_nested_write :
    let one : Expr := .literal 1 (.number .one)
    let inner : Function := ⟨"g", [], none, [.assign 1 "x" (.literal 1 (.text "inner"))]⟩
    let outer : Function := ⟨"f", [⟨"x", none⟩], none,
      [.evaluate (.call 2 (.var 2 "g") []), .evaluate (.negate 4 (.var 4 "x"))]⟩
    let m : Machine :=
      { env := ⟨[⟨"x", .nothing⟩], []⟩, functions := [("f", outer), ("g", inner)] }
    let outcome := Eval.callFunction (fun job => Job.perform 5 job) outer [one] 5 m
    Eval.evaluateAll (fun job => Job.perform 5 job) [one] m = .ok [.number .one] m ∧
      Environment.Shields ["x"] m.env (Outcome.machine outcome).env ∧
      Outcome.stop? outcome = some (.failed (.running (.cannotNegate .text 4))) := by
  intro one inner outer m outcome
  have harguments : Eval.evaluateAll (fun job => Job.perform 5 job) [one] m =
      .ok [.number .one] m := rfl
  exact ⟨harguments, (calls_shield_parameters 5 5 harguments).1 outer, rfl⟩

end DecimalScript
