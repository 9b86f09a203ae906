import DecimalScript.Eval.Observe
import DecimalScript.Proofs.Runs
import Mathlib.Data.List.Forall2

/-!
# Limits are transparent unless hit

Two machines that differ in their limits only run alike until the tighter limits refuse
something. Either they are the same limits but for the widest range, which no run asks
for, or the looser machine is compared with a run that is stopped when a limit is hit.
-/

namespace DecimalScript

namespace Loop

/-- Contexts that differ in the turns allowed only, the second allowing no fewer. -/
def Context.Looser (context other : Context) : Prop :=
  context.maxTurns ≤ other.maxTurns ∧ other = { context with maxTurns := other.maxTurns }

theorem Context.Looser.refl (context : Context) : context.Looser context :=
  ⟨Nat.le_refl _, rfl⟩

namespace Stack

/-- Loops under looser limits. What the limits refuse is the same if they are. -/
structure Looser (same : Prop) (loops other : Stack) : Prop where
  contexts : List.Forall₂ Context.Looser loops.contexts other.contexts
  statistics : other.statistics = loops.statistics
  maxIterations : loops.limits.maxIterations ≤ other.limits.maxIterations
  maxDepth : loops.limits.maxDepth ≤ other.limits.maxDepth
  alike : same → other.contexts = loops.contexts ∧
    other.limits.maxIterations = loops.limits.maxIterations ∧
    other.limits.maxDepth = loops.limits.maxDepth

/-- What looser limits make of an operation: where the tighter ones pass so do the looser, and the
same limits refuse with the same fault. -/
inductive Loosens (same : Prop) : Except LoopFault Stack → Except LoopFault Stack → Prop
  /-- Neither refuses. -/
  | passed {loops other : Stack} (h : loops.Looser same other) :
      Loosens same (.ok loops) (.ok other)
  /-- The tighter limits refuse. -/
  | refused {fault : LoopFault} {result : Except LoopFault Stack}
      (h : same → result = .error fault) : Loosens same (.error fault) result

namespace Looser

variable {same : Prop} {loops other : Stack} (h : loops.Looser same other)

include h

theorem depth_eq : other.depth = loops.depth := h.contexts.length_eq.symm

/-- A loop is entered under looser limits too. -/
theorem push (context : Context) : Loosens same (loops.push context) (other.push context) := by
  unfold Stack.push
  rw [h.depth_eq]
  by_cases hfull : loops.limits.maxDepth ≤ loops.depth
  · rw [if_pos hfull]
    refine .refused fun hsame => ?_
    rw [(h.alike hsame).2.2, if_pos hfull]
  · have hroom : ¬ other.limits.maxDepth ≤ loops.depth :=
      fun hle => hfull (Nat.le_trans h.maxDepth hle)
    rw [if_neg hfull, if_neg hroom, h.statistics]
    refine .passed ⟨.cons ⟨h.maxIterations, rfl⟩ h.contexts, rfl, h.maxIterations, h.maxDepth,
      fun hsame => ?_⟩
    obtain ⟨hcontexts, hiterations, hdepth⟩ := h.alike hsame
    refine ⟨?_, hiterations, hdepth⟩
    dsimp only
    rw [hcontexts, hiterations]

/-- A turn is counted under looser limits too. -/
theorem tick : Loosens same loops.tick other.tick := by
  have hcontexts := h.contexts
  have halike := h.alike
  unfold Stack.tick
  generalize loops.contexts = before at hcontexts halike
  generalize other.contexts = before' at hcontexts halike
  cases hcontexts with
  | nil => exact .passed h
  | @cons context context' rest rest' hfirst hrest =>
    dsimp only
    have hturns : context'.turns = context.turns := by rw [hfirst.2]
    have hline : context'.line = context.line := by rw [hfirst.2]
    by_cases hfull : context.maxTurns ≤ context.turns
    · rw [if_pos hfull]
      refine .refused fun hsame => ?_
      rw [(List.cons.inj (halike hsame).1).1, if_pos hfull]
    · have hroom : ¬ context'.maxTurns ≤ context'.turns := by
        rw [hturns]
        exact fun hle => hfull (Nat.le_trans hfirst.1 hle)
      rw [if_neg hfull, if_neg hroom, h.statistics]
      refine .passed ⟨.cons ⟨hfirst.1, ?_⟩ hrest, rfl, h.maxIterations, h.maxDepth,
        fun hsame => ?_⟩
      · rw [hfirst.2]
      · obtain ⟨hcons, hiterations, hdepth⟩ := halike hsame
        obtain ⟨rfl, rfl⟩ := List.cons.inj hcons
        exact ⟨rfl, hiterations, hdepth⟩

theorem advance (current : Number) :
    (loops.advance current).Looser same (other.advance current) := by
  have hcontexts := h.contexts
  have halike := h.alike
  unfold Stack.advance
  generalize loops.contexts = before at hcontexts halike
  generalize other.contexts = before' at hcontexts halike
  cases hcontexts with
  | nil => exact h
  | @cons context context' rest rest' hfirst hrest =>
    refine ⟨.cons ⟨hfirst.1, ?_⟩ hrest, h.statistics, h.maxIterations, h.maxDepth,
      fun hsame => ?_⟩
    · rw [hfirst.2]
    · obtain ⟨hcons, hiterations, hdepth⟩ := halike hsame
      obtain ⟨rfl, rfl⟩ := List.cons.inj hcons
      exact ⟨rfl, hiterations, hdepth⟩

theorem pop : loops.pop.Looser same other.pop where
  contexts := by
    have hcontexts := h.contexts
    unfold Stack.pop
    dsimp only
    generalize loops.contexts = before at hcontexts
    generalize other.contexts = before' at hcontexts
    cases hcontexts with
    | nil => exact .nil
    | cons _ hrest => exact hrest
  statistics := h.statistics
  maxIterations := h.maxIterations
  maxDepth := h.maxDepth
  alike := fun hsame => ⟨congrArg List.tail (h.alike hsame).1, (h.alike hsame).2⟩

theorem recordError : loops.recordError.Looser same other.recordError where
  contexts := h.contexts
  statistics := by
    unfold Stack.recordError
    dsimp only
    rw [h.statistics]
  maxIterations := h.maxIterations
  maxDepth := h.maxDepth
  alike := h.alike

end Looser

end Stack

end Loop

namespace Transparency

variable {same : Prop}

/-- Machines that differ in their limits only, the second having looser ones. -/
def Looser (same : Prop) (m other : Machine) : Prop :=
  ∃ loops maxCalls, other = { m with loops := loops, maxCallDepth := maxCalls } ∧
    m.loops.Looser same loops ∧ m.maxCallDepth ≤ maxCalls ∧ (same → maxCalls = m.maxCallDepth)

/-- A stop by a call that the limit on calls refuses. -/
def isRecursion : Stop → Bool
  | .failed (.running (.recursion _ _)) => true
  | _ => false

/-- A limit refused something between two machines, or it ends what lies between them. -/
def Hit (m : Machine) (stop : Option Stop) (after : Machine) : Prop :=
  stop.any isRecursion = true ∨ m.loops.statistics.errors < after.loops.statistics.errors

/-- The criteria for comparison with a machine that has looser limits. A bound on nesting that is
reached, and a fault that no handler takes, end the comparison. -/
def criteria (same : Prop) : Criteria where
  related := Looser same
  also m after := m.loops.statistics.errors ≤ after.loops.statistics.errors
  good _ := True
  legalExpr _ := True
  legalStmt _ := True
  directory _ := True
  allows _ _ := True
  releases
    | .exhausted => True
    | .failed (.running fault) => fault.isFatal = true
    | .failed _ => False
  hit m stop after := ¬ same ∧ Hit m stop after

/-- What a limit on loops refuses counts as an error, unless the limits are the same. -/
theorem limited {m other : Machine} {result result' : Except LoopFault Loop.Stack}
    (hm : Looser same m other) (h : Loop.Stack.Loosens same result result') :
    (criteria same).Limited m other result result' := by
  obtain ⟨loops, maxCalls, rfl, hloops, hcalls, halike⟩ := hm
  cases h with
  | @passed entered entered' hentered =>
    exact .passed ⟨entered', maxCalls, rfl, hentered, hcalls, halike⟩
  | @refused fault result hresult =>
    by_cases hsame : same
    · rw [hresult hsame]
      exact .refused ⟨_, maxCalls, rfl, hloops.recordError, hcalls, halike⟩ (Nat.le_succ _)
    · refine .hit fun stop after herrors => ⟨hsame, .inr ?_⟩
      rw [herrors]
      exact Nat.lt_succ_self _

/-- The operations on machines do not depend on their limits, unless these are hit. -/
def comparison (same : Prop) : Comparison where
  toCriteria := criteria same
  also_of_errors := fun h => Nat.le_of_eq h.symm
  also_trans := Nat.le_trans
  hit_of_also := fun hle _ _ h => ⟨h.1, h.2.imp_right (Nat.lt_of_le_of_lt hle)⟩
  hit_of_errors := fun heq h => ⟨h.1, h.2.imp_right fun hlt => heq ▸ hlt⟩
  allows_fault := fun _ => trivial
  allows_io := fun _ => trivial
  allows_of_sinks := fun _ _ _ => trivial
  releases_fatal := id
  releases_badMemory := fun _ => rfl
  values := .univ
  lambda := Iff.rfl
  lambdaBody := fun _ => trivial
  definition := fun _ _ _ => trivial
  initializer := fun _ => trivial
  view := by
    rintro m other ⟨loops, maxCalls, rfl, _⟩
    exact ⟨loops, maxCalls, rfl⟩
  depth := by
    rintro m other ⟨loops, maxCalls, rfl, hloops, _⟩
    exact hloops.depth_eq
  iterations := by
    rintro m other ⟨loops, maxCalls, rfl, hloops, _⟩
    exact hloops.maxIterations
  binding := fun _ _ _ => trivial
  function := fun _ _ _ _ => trivial
  related_console := by
    rintro m other c ⟨loops, maxCalls, rfl, h⟩
    exact ⟨loops, maxCalls, rfl, h⟩
  related_env := by
    rintro m other env ⟨loops, maxCalls, rfl, h⟩ _
    exact ⟨loops, maxCalls, rfl, h⟩
  related_register := by
    rintro m other function name ⟨loops, maxCalls, rfl, h⟩ _
    exact ⟨loops, maxCalls, rfl, h⟩
  related_modules := by
    rintro m other modules ⟨loops, maxCalls, rfl, h⟩
    exact ⟨loops, maxCalls, rfl, h⟩
  base := fun _ => trivial
  related_directory := by
    rintro m other baseDir ⟨loops, maxCalls, rfl, h⟩ _
    exact ⟨loops, maxCalls, rfl, h⟩
  related_advance := by
    rintro m other current ⟨loops, maxCalls, rfl, hloops, h⟩
    exact ⟨_, maxCalls, rfl, hloops.advance current, h⟩
  related_pop := by
    rintro m other ⟨loops, maxCalls, rfl, hloops, h⟩
    exact ⟨_, maxCalls, rfl, hloops.pop, h⟩
  push := by
    intro m other context hm _
    have h := hm
    obtain ⟨loops, maxCalls, rfl, hloops, _⟩ := h
    exact limited hm (hloops.push context)
  tick := by
    intro m other hm
    have h := hm
    obtain ⟨loops, maxCalls, rfl, hloops, _⟩ := h
    exact limited hm hloops.tick

/-- Calls and module loads do not depend on limits either, unless too many calls are refused. -/
theorem opens (same : Prop) : (comparison same).Opens (comparison same) where
  legalExpr := id
  legalStmt := id
  good := Iff.rfl
  allows := id
  releases := id
  also := id
  recursion := by
    rintro m other line ⟨loops, maxCalls, rfl, hloops, hcalls, halike⟩ _
    by_cases hsame : same
    · exact .inl (halike hsame)
    · exact .inr ⟨hsame, .inl rfl⟩
  allowed := by
    rintro m other ⟨loops, maxCalls, rfl, hloops, hcalls, halike⟩ hlt
    exact Nat.lt_of_lt_of_le hlt hcalls
  begin := by
    rintro m other ⟨loops, maxCalls, rfl, h⟩ _
    exact ⟨loops, maxCalls, rfl, h⟩
  file := fun _ _ _ _ _ => trivial
  parent := fun _ _ => trivial
  load := by
    rintro m other line target aliasName path program ⟨loops, maxCalls, rfl, h⟩ _ _ _ _
    exact ⟨loops, maxCalls, rfl, h⟩
  back := by
    rintro m other after after' _ ⟨loops, maxCalls, rfl, h⟩ _ _
    exact ⟨loops, maxCalls, rfl, h⟩

variable {α : Type}

/-- An observer that refuses what hits a limit, unless the limits are the same. -/
def Catches (same : Prop) (observer : Observer) : Prop :=
  ∀ (α : Type) (job : Job α) (m : Machine) (outcome : Outcome α), ¬ same →
    Hit m outcome.stop? outcome.machine → observer job m outcome = false

/-- Where the limits are the same, there is nothing to refuse. -/
theorem catches_same (observer : Observer) : Catches True observer :=
  fun _ _ _ _ hnot => absurd trivial hnot

/-- Where an observer refuses what hits a limit, hits need not count. -/
theorem check {observer : Observer} (hcatch : Catches same observer) {job : Job α}
    {change : Machine → Machine → Prop} {good : α → Prop} {m : Machine} {r r' : Outcome α}
    (h : (comparison same).Agree change true good m r r') :
    (comparison same).Agree change false good m (Observer.check observer job m r) r' := by
  cases hobserver : observer job m r with
  | true =>
    rw [Observer.check_of_accepts hobserver]
    refine h.quiet fun hhit => ?_
    cases (hcatch _ job m r hhit.1 hhit.2).symm.trans hobserver
  | false =>
    rw [Observer.check, hobserver]
    exact .released rfl

/-- An observed run agrees with a run under looser limits that may nest deeper, by induction on the
bound on nesting. -/
theorem perform {observer : Observer} (hcatch : Catches same observer) {depth depth' : Nat}
    (hle : depth ≤ depth') (job : Job α) :
    (comparison same).Does false (Job.performObserved observer depth) (Job.perform depth') job := by
  induction depth generalizing depth' α with
  | zero => exact fun _ _ _ => .released trivial
  | succ depth ih =>
    obtain ⟨depth', rfl⟩ : ∃ less, depth' = less + 1 := ⟨depth' - 1, by omega⟩
    have hle' : depth ≤ depth' := Nat.le_of_succ_le_succ hle
    intro m other hm
    refine check hcatch (Comparison.step (opens same) (fun inside _ => ih hle' inside) ?_
      (fun expr _ => ih hle' _) (fun stmt _ => ih hle' _) m other hm)
    cases job with
    | evaluate expr | execute stmt => trivial

/-- A first run that ends at a fault that no handler takes agrees no less, since such a fault ends
the comparison. -/
theorem executes_atOnce {run run' : JobRunner} {program : Block}
    (h : (comparison same).Executes run run' program) :
    (comparison same).Executes (fun job m => Watch.atOnce (run job m)) run' program := by
  intro stmt hstmt m other hm
  have hagree : (comparison same).Agree ((comparison same).change .stmt) false
      (comparison same).goodFlow m (run (.execute stmt) m) (run' (.execute stmt) other) :=
    h stmt hstmt m other hm
  show (comparison same).Agree ((comparison same).change .stmt) false (comparison same).goodFlow m
    (Watch.atOnce (run (.execute stmt) m)) (run' (.execute stmt) other)
  generalize run (.execute stmt) m = r at hagree ⊢
  generalize run' (.execute stmt) other = r' at hagree ⊢
  by_cases hfatal : ∃ fault after, r = .error (.failed (.running fault)) after ∧ fault.isFatal = true
  · obtain ⟨fault, after, rfl, hfatal⟩ := hfatal
    refine .released ?_
    rw [hfatal]
    trivial
  · rw [Watch.atOnce_of_not_fatal fun fault after heq =>
      eq_false_of_ne_true fun htrue => hfatal ⟨fault, after, heq, htrue⟩]
    exact hagree

end Transparency

/-- A machine with other limits. -/
def Machine.withLimits (m : Machine) (limits : Loop.Limits) (maxCallDepth : Nat) : Machine :=
  { m with loops := { m.loops with limits }, maxCallDepth }

/-- An outcome with another machine. -/
def Outcome.mapMachine {α : Type} (change : Machine → Machine) : Outcome α → Outcome α
  | .ok value m => .ok value (change m)
  | .error stop m => .error stop (change m)

namespace Transparency

variable {same : Prop} {m : Machine} {limits : Loop.Limits} {maxCalls : Nat}

/-- A machine with looser limits. -/
theorem looser_withLimits (hiterations : m.loops.limits.maxIterations ≤ limits.maxIterations)
    (hdepth : m.loops.limits.maxDepth ≤ limits.maxDepth) (hcalls : m.maxCallDepth ≤ maxCalls)
    (halike : same → limits.maxIterations = m.loops.limits.maxIterations ∧
      limits.maxDepth = m.loops.limits.maxDepth ∧ maxCalls = m.maxCallDepth) :
    Looser same m (m.withLimits limits maxCalls) := by
  refine ⟨_, maxCalls, rfl, ⟨?_, rfl, hiterations, hdepth, fun h => ?_⟩, hcalls,
    fun h => (halike h).2.2⟩
  · exact List.forall₂_same.mpr fun context _ => .refl context
  · exact ⟨rfl, (halike h).1, (halike h).2.1⟩

/-- Machines that differ in their limits only, after statements of both: the limits and contexts
are what they were, and so the machines still differ in their limits only. -/
theorem eq_withLimits {after after' : Machine} (h : Looser same after after')
    (hchanged : Machine.Changed .stmt m after)
    (hchanged' : Machine.Changed .stmt (m.withLimits limits maxCalls) after') :
    after' = after.withLimits limits maxCalls := by
  obtain ⟨loops, calls, rfl, hloops, _⟩ := h
  have hcalls : calls = maxCalls := hchanged'.1.maxCallDepth
  have hlimits : loops.limits = limits := hchanged'.1.limits
  have hcontexts : loops.contexts = after.loops.contexts :=
    Eq.trans hchanged'.2.2 hchanged.2.2.symm
  have hstatistics := hloops.statistics
  obtain ⟨contexts, limits, statistics⟩ := loops
  dsimp only at hcontexts hlimits hstatistics
  subst hcalls hlimits hcontexts hstatistics
  rfl

/-- An observed run agrees with the run under looser limits. -/
theorem agree_runObserved {observer : Observer} (hcatch : Catches same observer) (program : Block)
    (hlooser : Looser same m (m.withLimits limits maxCalls)) :
    (comparison same).Agree ((comparison same).change .stmt) false (fun _ => True) m
      (Eval.runObserved observer program m)
      (Eval.runProgram program (m.withLimits limits maxCalls)) := by
  have hcalls : m.maxCallDepth ≤ maxCalls := by
    obtain ⟨loops, calls, hother, _, hcalls, _⟩ := hlooser
    have hmax : maxCalls = calls := congrArg Machine.maxCallDepth hother
    omega
  have hbound : m.nestingBound (Stmt.sizeAll program) (Stmt.importsAny program) ≤
      (m.withLimits limits maxCalls).nestingBound (Stmt.sizeAll program)
        (Stmt.importsAny program) := by
    unfold Machine.nestingBound
    change (if _ then _ else _) ≤ (if Stmt.importsAny program || m.imports then
      (maxCalls + m.files.loadBound + 1) * _ else (maxCalls + 1) * _)
    split
    · exact Nat.mul_le_mul_right _ (by omega)
    · exact Nat.mul_le_mul_right _ (by omega)
  have hexecutes := executes_atOnce fun stmt (_ : stmt ∈ program) =>
    perform hcatch hbound (.execute stmt)
  refine Comparison.runStatements hexecutes (fun stmt before stop after hstop hreleases => ?_) m _
    hlooser
  cases stop with
  | exhausted => rfl
  | failed failure =>
    cases failure with
    | running fault => exact absurd (hreleases.symm.trans (Watch.isFatal_of_atOnce hstop)) nofun
    | io _ | lexical _ | syntactic _ | loop _ => exact hreleases.elim

/-- If an observed run ends with nothing that ends the comparison, the run under looser limits has
the same outcome but for the limits. -/
theorem runProgram_withLimits {observer : Observer} (hcatch : Catches same observer)
    (program : Block) (hlooser : Looser same m (m.withLimits limits maxCalls))
    (hfree : ∀ stop, Outcome.stop? (Eval.runObserved observer program m) = some stop →
      ¬ (criteria same).releases stop) :
    Machine.Changed .stmt m (Outcome.machine (Eval.runObserved observer program m)) ∧
      Eval.runProgram program (m.withLimits limits maxCalls) =
        Outcome.mapMachine (·.withLimits limits maxCalls)
          (Eval.runObserved observer program m) := by
  have hagree := agree_runObserved hcatch program hlooser
  have hchanged := Eval.changed_runProgram program (m.withLimits limits maxCalls)
  generalize Eval.runObserved observer program m = r at hagree hfree ⊢
  generalize Eval.runProgram program (m.withLimits limits maxCalls) = r' at hagree hchanged ⊢
  cases hagree with
  | returned _ hrel hchange =>
    rw [eq_withLimits hrel hchange.1 hchanged]
    exact ⟨hchange.1, rfl⟩
  | stopped _ hrel hchange =>
    rw [eq_withLimits hrel hchange.1 hchanged]
    exact ⟨hchange.1, rfl⟩
  | released h => exact absurd h (hfree _ rfl)
  | hit hhits _ => cases hhits

/-- What a program ends with does not end the comparison. -/
theorem not_releases (program : Block) {stop : Stop}
    (h : Outcome.stop? (Eval.runProgram program m) = some stop) :
    ¬ (criteria same).releases stop := by
  intro hreleases
  rcases Eval.runProgram_ok_or_io program m with ⟨after, hok⟩ | ⟨_, after, _, herror⟩
  · rw [hok] at h
    cases h
  · rw [herror] at h
    cases h
    exact hreleases

/-- The widest range is no limit that refuses anything. -/
theorem looser_withSpan (m : Machine) (span : Nat) :
    Looser True m (m.withLimits { m.loops.limits with maxRangeSpan := span } m.maxCallDepth) :=
  looser_withLimits (Nat.le_refl _) (Nat.le_refl _) (Nat.le_refl _) fun _ => ⟨rfl, rfl, rfl⟩

/-- An observed run that ends with a value is the run. -/
theorem runObserved_of_ok {observer : Observer} {program : Block} {m : Machine}
    (h : (Outcome.stop? (Eval.runObserved observer program m)).isNone = true) :
    Eval.runObserved observer program m = Eval.runProgram program m := by
  obtain ⟨hchanged, hrun⟩ := runProgram_withLimits (catches_same observer) program
    (looser_withSpan m m.loops.limits.maxRangeSpan) fun stop hstop => by
      rw [hstop] at h
      cases h
  change Eval.runProgram program m =
    Outcome.mapMachine (·.withLimits m.loops.limits m.maxCallDepth) _ at hrun
  rw [hrun]
  cases hobserved : Eval.runObserved observer program m with
  | ok value after =>
    rw [hobserved] at hchanged
    rw [← hchanged.kept.limits, ← hchanged.kept.maxCallDepth]
    rfl
  | error stop after =>
    rw [hobserved] at h
    cases h

/-- So is a watched run. -/
theorem runWatched_of_ok {watch : Watch} {program : Block} {m : Machine}
    (h : (Outcome.stop? (Eval.runWatched watch program m)).isNone = true) :
    Eval.runWatched watch program m = Eval.runProgram program m := by
  rw [← Eval.runObserved_ofWatch] at h ⊢
  exact runObserved_of_ok h

end Transparency

/-- The watch that refuses jobs in which a limit refused a loop, a turn or a call. -/
def Watch.unhit : Watch := fun m stop after =>
  !stop.any Transparency.isRecursion &&
    after.loops.statistics.errors ≤ m.loops.statistics.errors

namespace Transparency

theorem catches_unhit (same : Prop) : Catches same (Observer.ofWatch Watch.unhit) := by
  intro α job m outcome _ hhit
  show Watch.unhit m outcome.stop? outcome.machine = false
  rcases hhit with hstop | herrors
  · rw [Watch.unhit, hstop]
    rfl
  · rw [Watch.unhit, decide_eq_false (Nat.not_le_of_lt herrors), Bool.and_false]

end Transparency

/-- A program in whose run no limit refuses a loop, a turn or a call, also none that the program
handles, runs to the same outcome under limits that are greater or equal: all of the machine but
the limits is the same in the end. The widest range that raises no concern makes no difference to
any program. -/
theorem limits_transparent (program : Block) (m : Machine) :
    (∀ (limits : Loop.Limits) (maxCalls : Nat),
      m.loops.limits.maxIterations ≤ limits.maxIterations →
      m.loops.limits.maxDepth ≤ limits.maxDepth →
      m.maxCallDepth ≤ maxCalls →
      Eval.runWatched Watch.unhit program m = Eval.runProgram program m →
      Eval.runProgram program (m.withLimits limits maxCalls) =
        Outcome.mapMachine (·.withLimits limits maxCalls) (Eval.runProgram program m)) ∧
    ∀ span : Nat,
      Eval.runProgram program
          (m.withLimits { m.loops.limits with maxRangeSpan := span } m.maxCallDepth) =
        Outcome.mapMachine (·.withLimits { m.loops.limits with maxRangeSpan := span }
          m.maxCallDepth) (Eval.runProgram program m) := by
  constructor
  · intro limits maxCalls hiterations hdepth hcalls hrun
    rw [← Eval.runObserved_ofWatch] at hrun
    have hlimits := Transparency.runProgram_withLimits (Transparency.catches_unhit False) program
      (Transparency.looser_withLimits hiterations hdepth hcalls False.elim) fun stop hstop =>
        Transparency.not_releases program (hrun ▸ hstop)
    rw [hlimits.2, hrun]
  · intro span
    have hrun := Eval.runWatched_permissive program m
    rw [← Eval.runObserved_ofWatch] at hrun
    have hlimits := Transparency.runProgram_withLimits (Transparency.catches_same _) program
      (Transparency.looser_withSpan m span) fun stop hstop =>
        Transparency.not_releases program (hrun ▸ hstop)
    rw [hlimits.2, hrun]

/-- A loop and a call that use up their limits. -/
theorem run_at_limits_transparent :
    let call : Expr := .call 1 (.lambda 1 [] (.literal 1 (.boolean true))) []
    let program : Block := [.repeatWhile 1 (.literal 1 (.boolean true)) [.evaluate call, .leave 1]]
    let m : Machine :=
      { maxCallDepth := 1, loops := { limits := { maxIterations := 1, maxDepth := 1 } } }
    Eval.runWatched Watch.unhit program m = Eval.runProgram program m ∧
      Eval.runProgram program (m.withLimits {} 200) =
        Outcome.mapMachine (·.withLimits {} 200) (Eval.runProgram program m) :=
  have hrun := Transparency.runWatched_of_ok (by decide +kernel)
  ⟨hrun, (limits_transparent _ _).1 {} 200 (by decide) (by decide) (by decide) hrun⟩

end DecimalScript
