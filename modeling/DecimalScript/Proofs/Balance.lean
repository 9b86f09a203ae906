import DecimalScript.Proofs.Budget
import DecimalScript.Proofs.Jobs

/-!
# Balance of evaluation

Evaluation is compared with itself: whatever happens, the machine afterwards has the
scopes, calls, loops, directory and modules being loaded that it had before. If the
machine is within its limits it stays so, and if a budget fits the machine it keeps
fitting, and the bound on nesting is not reached.
-/

namespace DecimalScript

namespace Balance

/-- What is known of a machine: if asked for, it is within its limits, and if there is a budget,
it fits. -/
def Sound (strict : Prop) (budget : Option Budget) (m : Machine) : Prop :=
  (strict → m.WithinLimits) ∧ ∀ b, budget = some b → b.Fits m

/-- The stops that evaluation can end with. Without a budget the bound on nesting may be reached;
faults can always be handled, and what a sink fails with is up to its device. -/
def Possible (budget : Option Budget) : Stop → Machine → Prop
  | .exhausted, _ => budget = none
  | .failed (.running fault), _ => fault.isFatal = false
  | .failed (.io fault), m => m.output.MayFail fault ∨ m.errors.MayRefuse fault
  | .failed (.lexical _), _ | .failed (.syntactic _), _ | .failed (.loop _), _ => False

/-- Of a machine, only its sinks matter for what evaluation can end with. -/
theorem possible_of_sinks {budget : Option Budget} {stop : Stop} {m after : Machine}
    (houtput : after.output = m.output) (herrors : after.errors = m.errors)
    (h : Possible budget stop m) : Possible budget stop after := by
  cases stop with
  | exhausted => exact h
  | failed failure =>
    cases failure with
    | io fault =>
      show after.output.MayFail fault ∨ after.errors.MayRefuse fault
      rw [houtput, herrors]
      exact h
    | lexical _ | syntactic _ | running _ | loop _ => exact h

/-- The criteria by which evaluation is balanced. -/
def criteria (strict : Prop) (budget : Option Budget) : Criteria where
  related m m' := m' = m ∧ Sound strict budget m
  also _ _ := True
  good value := ∀ b, budget = some b → value.lambdaSize ≤ b.size
  legalExpr expr := ∀ b, budget = some b → expr.size ≤ b.size
  legalStmt stmt := ∀ b, budget = some b → b.Covers stmt
  directory _ := True
  allows := Possible budget
  releases _ := False
  hit _ _ _ := False

variable {strict : Prop} {budget : Option Budget}

/-- A machine that differs in what neither limits nor budgets are about. -/
theorem Sound.of_eq {m after : Machine} (h : Sound strict budget m)
    (hcalls : after.callDepth = m.callDepth) (hmax : after.maxCallDepth = m.maxCallDepth)
    (hloops : after.loops = m.loops)
    (hfunctions : after.functions = m.functions) (henv : after.env = m.env)
    (hfiles : after.files = m.files) (hloading : after.loading = m.loading) :
    Sound strict budget after := by
  refine ⟨fun hstrict => ?_, fun b hb => ?_⟩
  · unfold Machine.WithinLimits
    rw [hcalls, hmax, hloops]
    exact h.1 hstrict
  · have hfits := h.2 b hb
    constructor
    · rw [hfunctions]
      exact hfits.function
    · rw [henv]
      exact hfits.binding
    · rw [hfiles]
      exact hfits.file
    · rw [hfiles, hloading, hcalls, hmax]
      exact hfits.room

/-- A machine that differs in its loops, which are within its limits. -/
theorem Sound.withLoops {m : Machine} (h : Sound strict budget m) {loops : Loop.Stack}
    (hloops : m.WithinLimits → { m with loops }.WithinLimits) :
    Sound strict budget { m with loops } := by
  refine ⟨fun hstrict => hloops (h.1 hstrict), fun b hb => ?_⟩
  have hfits := h.2 b hb
  exact ⟨hfits.function, hfits.binding, hfits.file, hfits.room⟩

end Balance

namespace Machine.WithinLimits

variable {m : Machine} (h : m.WithinLimits)

include h

/-- Noting the value of a turn concerns no limit. -/
theorem advance (current : Number) :
    { m with loops := m.loops.advance current }.WithinLimits := by
  obtain ⟨hcalls, hdepth, hturns⟩ := h
  unfold Loop.Stack.advance
  split
  · exact ⟨hcalls, hdepth, hturns⟩
  · rename_i context rest hcontexts
    rw [Loop.Stack.depth, hcontexts] at hdepth
    rw [hcontexts] at hturns
    obtain ⟨hfirst, hrest⟩ := List.forall_mem_cons.mp hturns
    exact ⟨hcalls, hdepth, List.forall_mem_cons.mpr ⟨hfirst, hrest⟩⟩

/-- Leaving a loop leaves the others within their limits. -/
theorem pop : { m with loops := m.loops.pop }.WithinLimits := by
  obtain ⟨hcalls, hdepth, hturns⟩ := h
  refine ⟨hcalls, ?_, fun context hcontext => hturns context (List.mem_of_mem_tail hcontext)⟩
  have hless : m.loops.contexts.tail.length ≤ m.loops.contexts.length := by simp
  exact Nat.le_trans hless hdepth

/-- A loop is entered only if the limit on nesting allows it. -/
theorem push {context : Loop.Context} (hcontext : context.turns = 0) {loops : Loop.Stack}
    (hpush : m.loops.push context = .ok loops) : { m with loops }.WithinLimits := by
  obtain ⟨hcalls, hdepth, hturns⟩ := h
  unfold Loop.Stack.push at hpush
  split at hpush
  · cases hpush
  · rename_i hroom
    cases hpush
    refine ⟨hcalls, Nat.lt_of_not_le hroom, List.forall_mem_cons.mpr ⟨⟨?_, rfl⟩, hturns⟩⟩
    show context.turns ≤ m.loops.limits.maxIterations
    omega

/-- A turn is counted only if the limit on turns allows it. -/
theorem tick {loops : Loop.Stack} (htick : m.loops.tick = .ok loops) :
    { m with loops }.WithinLimits := by
  obtain ⟨hcalls, hdepth, hturns⟩ := h
  unfold Loop.Stack.tick at htick
  split at htick
  · cases htick
    exact ⟨hcalls, hdepth, hturns⟩
  · rename_i context rest hcontexts
    split at htick
    · cases htick
    · rename_i hroom
      cases htick
      rw [Loop.Stack.depth, hcontexts] at hdepth
      rw [hcontexts] at hturns
      obtain ⟨hfirst, hrest⟩ := List.forall_mem_cons.mp hturns
      exact ⟨hcalls, hdepth, List.forall_mem_cons.mpr
        ⟨⟨Nat.lt_of_not_le hroom, hfirst.2⟩, hrest⟩⟩

end Machine.WithinLimits

namespace Balance

variable {strict : Prop} {budget : Option Budget}

/-- The operations on machines keep evaluation balanced. -/
def comparison (strict : Prop) (budget : Option Budget) : Comparison where
  toCriteria := criteria strict budget
  also_of_errors := fun _ => trivial
  also_trans := fun _ _ => trivial
  hit_of_also := fun _ _ _ => id
  hit_of_errors := fun _ => id
  allows_fault := id
  allows_io := id
  allows_of_sinks := possible_of_sinks
  releases_fatal := False.elim
  releases_badMemory := id
  values := .all fun b => Value.lambdaSize_class b.size
  lambda := Iff.rfl
  lambdaBody := fun h b hb => Nat.le_of_succ_le (h b hb)
  definition := fun h stmt hstmt b hb => (h b hb).definition stmt hstmt
  initializer := fun h b hb => Nat.le_of_succ_le (h b hb).1
  view := by
    rintro m m' ⟨rfl, _⟩
    exact ⟨m'.loops, m'.maxCallDepth, rfl⟩
  depth := by
    rintro m m' ⟨rfl, _⟩
    rfl
  iterations := by
    rintro m m' ⟨rfl, _⟩
    exact Nat.le_refl _
  binding := fun h bound hbound b hb => (h.2.2 b hb).binding bound hbound
  function := fun h hget stmt hstmt b hb => (h.2.2 b hb).function hget stmt hstmt
  related_console := by
    rintro m m' c ⟨rfl, h⟩
    exact ⟨rfl, h.of_eq rfl rfl rfl rfl rfl rfl rfl⟩
  related_env := by
    rintro m m' env ⟨rfl, h⟩ henv
    exact ⟨rfl, h.1, fun b hb => (h.2 b hb).withEnv fun bound hbound =>
      (henv bound hbound).imp_right fun hgood => hgood b hb⟩
  related_register := by
    rintro m m' function name ⟨rfl, h⟩ hbody
    exact ⟨rfl, h.1, fun b hb =>
      (h.2 b hb).register name fun stmt hstmt => hbody stmt hstmt b hb⟩
  related_modules := by
    rintro m m' modules ⟨rfl, h⟩
    exact ⟨rfl, h.of_eq rfl rfl rfl rfl rfl rfl rfl⟩
  base := fun _ => trivial
  related_directory := by
    rintro m m' baseDir ⟨rfl, h⟩ _
    exact ⟨rfl, h.of_eq rfl rfl rfl rfl rfl rfl rfl⟩
  related_advance := by
    rintro m m' current ⟨rfl, h⟩
    exact ⟨rfl, h.withLoops fun hlimits => hlimits.advance current⟩
  related_pop := by
    rintro m m' ⟨rfl, h⟩
    exact ⟨rfl, h.withLoops fun hlimits => hlimits.pop⟩
  push := by
    rintro m m' context ⟨rfl, h⟩ hturns
    cases hpush : m'.loops.push context with
    | ok loops => exact .passed ⟨rfl, h.withLoops fun hlimits => hlimits.push hturns hpush⟩
    | error fault => exact .refused ⟨rfl, h.withLoops id⟩ trivial
  tick := by
    rintro m m' ⟨rfl, h⟩
    cases htick : m'.loops.tick with
    | ok loops => exact .passed ⟨rfl, h.withLoops fun hlimits => hlimits.tick htick⟩
    | error fault => exact .refused ⟨rfl, h.withLoops id⟩ trivial

/-- The budget inside calls and module loads, if there is one. -/
def nested (budget : Option Budget) : Option Budget := budget.map Budget.nested

theorem of_nested {b : Budget} (h : nested budget = some b) :
    ∃ outer, budget = some outer ∧ outer.nested = b :=
  Option.map_eq_some_iff.mp h

theorem nested_of {b : Budget} (h : budget = some b) : nested budget = some b.nested := by
  rw [nested, h]
  rfl

/-- Inside calls and module loads evaluation is balanced with one level less. -/
theorem opens (strict : Prop) (budget : Option Budget) :
    (comparison strict budget).Opens (comparison strict (nested budget)) where
  legalExpr := by
    intro expr h b hb
    obtain ⟨outer, houter, rfl⟩ := of_nested hb
    exact h outer houter
  legalStmt := by
    intro stmt h b hb
    obtain ⟨outer, houter, rfl⟩ := of_nested hb
    exact h outer houter
  good := by
    intro value
    constructor
    · exact fun h b hb => h b.nested (nested_of hb)
    · intro h b hb
      obtain ⟨outer, houter, rfl⟩ := of_nested hb
      exact h outer houter
  allows := by
    intro stop m h
    cases stop with
    | exhausted => exact Option.map_eq_none_iff.mp h
    | failed failure => cases failure <;> exact h
  releases := id
  also := id
  recursion := by
    rintro m m' line ⟨rfl, _⟩ _
    exact .inl rfl
  allowed := by
    rintro m m' ⟨rfl, _⟩ h
    exact h
  begin := by
    rintro m m' ⟨rfl, h⟩ hcalls
    refine ⟨rfl, fun hstrict => ⟨hcalls, (h.1 hstrict).2⟩, fun b hb => ?_⟩
    obtain ⟨outer, houter, rfl⟩ := of_nested hb
    exact (h.2 outer houter).call hcalls fun bound hbound => .inl hbound
  file := by
    rintro m m' line target aliasName path program ⟨rfl, h⟩ hlegal hfile stmt hstmt b hb
    obtain ⟨outer, houter, rfl⟩ := of_nested hb
    have himports := (hlegal outer houter).imports_of_use
    refine ⟨?_, fun hoff => absurd (himports.symm.trans hoff) (by decide)⟩
    exact Nat.le_trans (Stmt.size_le_of_mem hstmt) ((h.2 outer houter).file himports hfile)
  parent := fun _ _ => trivial
  load := by
    rintro m m' line target aliasName path program ⟨rfl, h⟩ hlegal _ hnew hfile
    refine ⟨rfl, h.1, fun b hb => ?_⟩
    obtain ⟨outer, houter, rfl⟩ := of_nested hb
    have himports := (hlegal outer houter).imports_of_use
    exact (h.2 outer houter).load himports ⟨path, program, rfl, hfile⟩ hnew
  back := by
    rintro m m' after after' ⟨rfl, h⟩ ⟨rfl, hinside⟩ hfiles hmax
    refine ⟨rfl, fun hstrict => ⟨?_, (hinside.1 hstrict).2⟩, fun b hb => ?_⟩
    · show m'.callDepth ≤ after'.maxCallDepth
      rw [hmax]
      exact (h.1 hstrict).1
    · exact (h.2 b hb).back (hinside.2 _ (nested_of hb)) rfl (fun _ => id) hfiles rfl rfl hmax

variable {α : Type}

/-- A legal job is as large as a budget allows. -/
theorem size_le_of_legal {job : Job α} (h : (comparison strict budget).legal job) {b : Budget}
    (hb : budget = some b) : job.size ≤ b.size := by
  cases job with
  | evaluate expr => exact h b hb
  | execute stmt => exact (h b hb).1

/-- The parts of a legal job are legal. -/
theorem legal_parts {job : Job α} (h : (comparison strict budget).legal job) :
    (∀ expr ∈ job.exprs, (comparison strict budget).legal (.evaluate expr)) ∧
      ∀ stmt ∈ job.stmts, (comparison strict budget).legal (.execute stmt) := by
  refine ⟨fun expr hexpr b hb => ?_, fun stmt hstmt b hb => ⟨?_, fun hoff => ?_⟩⟩
  · have := Job.size_lt_of_mem_exprs hexpr
    have := size_le_of_legal h hb
    omega
  · have := Job.size_lt_of_mem_stmts hstmt
    have := size_le_of_legal h hb
    omega
  · cases job with
    | evaluate expr => cases hstmt
    | execute whole => exact Stmt.imports_of_mem_stmts ((h b hb).2 hoff) hstmt

/-- A watch that refuses no machine within its limits; without a need for limits, none at all. -/
def Accepts (strict : Prop) (watch : Watch) : Prop :=
  ∀ m stop after, (strict → m.WithinLimits) → (strict → after.WithinLimits) →
    watch m stop after = true

/-- A watch that accepts what is balanced refuses nothing here. -/
theorem check {watch : Watch} (hwatch : Accepts strict watch) {m : Machine}
    (hm : strict → m.WithinLimits) {reach : Reach} {good : α → Prop}
    {r r' : Outcome α}
    (h : (comparison strict budget).Agree ((comparison strict budget).change reach) true good m
      r r') :
    (comparison strict budget).Agree ((comparison strict budget).change reach) false good m r
      (watch.check m r') := by
  cases h with
  | @returned value after after' hgood hrel hchange =>
    rw [Watch.check_of_accepts (hwatch m _ after' hm (hrel.1 ▸ hrel.2.1))]
    exact .returned hgood hrel hchange
  | @stopped stop after after' hallows hrel hchange =>
    rw [Watch.check_of_accepts (hwatch m _ after' hm (hrel.1 ▸ hrel.2.1))]
    exact .stopped hallows hrel hchange
  | released h => exact h.elim
  | hit _ h => exact h.elim

/-- Watched and unwatched runs agree, by induction on the bound on nesting. A budget of one level
leaves the size of the job, and every further level the size of another tree. With a budget the
watched run may be given a greater bound. -/
theorem perform {watch : Watch} (hwatch : Accepts strict watch) {depth depth' : Nat}
    (hle : depth ≤ depth') {budget : Option Budget}
    (hsame : budget = none → depth' = depth) {job : Job α}
    (hlegal : (comparison strict budget).legal job)
    (hdepth : ∀ b, budget = some b → 0 < b.levels → b.bound job.size ≤ depth) :
    (comparison strict budget).Does false (Job.perform depth) (Job.performWatched watch depth')
      job := by
  induction depth generalizing depth' budget α with
  | zero =>
    intro m m' hm
    obtain ⟨rfl, hsound⟩ := hm
    cases hbudget : budget with
    | none =>
      rw [hsame hbudget]
      exact .stopped rfl ⟨rfl, hbudget ▸ hsound⟩ ((comparison strict none).refl _ _)
    | some b =>
      obtain ⟨room, _, hlevels⟩ := (hsound.2 b hbudget).room
      have hbound : job.size + _ ≤ 0 := hdepth b hbudget (by omega)
      have hpos := job.size_pos
      omega
  | succ depth ih =>
    obtain ⟨depth', rfl⟩ : ∃ less, depth' = less + 1 := ⟨depth' - 1, by omega⟩
    have hle' : depth ≤ depth' := Nat.le_of_succ_le_succ hle
    have hsame' : budget = none → depth' = depth := fun hnone => Nat.succ.inj (hsame hnone)
    have hinner : (comparison strict (nested budget)).Runs (Job.perform depth)
        (Job.performWatched watch depth') := by
      intro β inside hinside
      refine ih hle' (fun hnone => hsame' (Option.map_eq_none_iff.mp hnone)) hinside
        fun b hb hlevels => ?_
      obtain ⟨outer, houter, rfl⟩ := of_nested hb
      have hbound := hdepth outer houter (by have : 0 < outer.levels - 1 := hlevels; omega)
      have hsize : inside.size ≤ outer.nested.size := size_le_of_legal hinside hb
      have hless : outer.nested.bound inside.size < outer.bound job.size :=
        Budget.bound_nested job.size_pos hsize hlevels
      omega
    have hexprs : (comparison strict budget).Evaluates (Job.perform depth)
        (Job.performWatched watch depth') job.exprs := by
      intro expr hexpr
      refine ih hle' hsame' ((legal_parts hlegal).1 expr hexpr) fun b hb hlevels => ?_
      have hbound : job.size + _ ≤ depth + 1 := hdepth b hb hlevels
      have hless := Job.size_lt_of_mem_exprs hexpr
      show expr.size + _ ≤ depth
      omega
    have hstmts : (comparison strict budget).Executes (Job.perform depth)
        (Job.performWatched watch depth') job.stmts := by
      intro stmt hstmt
      refine ih hle' hsame' ((legal_parts hlegal).2 stmt hstmt) fun b hb hlevels => ?_
      have hbound : job.size + _ ≤ depth + 1 := hdepth b hb hlevels
      have hless := Job.size_lt_of_mem_stmts hstmt
      show stmt.size + _ ≤ depth
      omega
    intro m m' hm
    obtain ⟨rfl, hsound⟩ := hm
    exact check hwatch hsound.1
      (Comparison.step (opens strict budget) hinner hlegal hexprs hstmts m' m' ⟨rfl, hsound⟩)

end Balance

end DecimalScript
