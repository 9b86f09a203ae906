import DecimalScript.Eval.Sequence
import DecimalScript.Proofs.Runs
import DecimalScript.Proofs.StatementEnds

/-!
# Programs compose

Two token lists that are programs are one program when they are joined, as long as the first ends
with the end of a statement. If the first program runs through, running the joined program is
running the first and then the second on the machine that the first one left. The bounds on
nesting that are computed for the three runs differ, and none of them matters.
-/

namespace DecimalScript

namespace Eval

variable {run : JobRunner}

/-- The rest of a program runs behind its first statement, if the program goes on there. -/
theorem runStatements_cons (stmt : Stmt) (rest : Block) (m : Machine) :
    runStatements run (stmt :: rest) m =
      match behind? run stmt m with
      | some after => runStatements run rest after
      | none => runStatements run [stmt] m := by
  simp only [runStatements, behind?]
  generalize run (.execute stmt) m = ended
  cases ended with
  | ok flow reached => cases flow <;> rfl
  | error stop reached =>
    cases stop with
    | exhausted => rfl
    | failed failure =>
      cases failure with
      | lexical _ | syntactic _ | io _ | loop _ => rfl
      | running fault =>
        cases hfatal : fault.isFatal with
        | true => simp only [hfatal, if_true]
        | false =>
          -- The report is what stands between the fault and the next statement.
          simp only [hfatal, Bool.false_eq_true, if_false, bind, EStateM.bind]
          cases report fault.line fault.message reached <;> rfl

/-- Running joined statements is running the first ones, and then the others on the machine that
these leave if they run through. -/
theorem runStatements_append (first second : Block) (m : Machine) :
    runStatements run (first ++ second) m =
      if passes run first m then
        runStatements run second (Outcome.machine (runStatements run first m))
      else runStatements run first m := by
  induction first generalizing m with
  | nil =>
    show _ = runStatements run second (Outcome.machine (flush m))
    rw [machine_flush]
    rfl
  | cons stmt rest ih =>
    rw [List.cons_append, runStatements_cons, runStatements_cons stmt rest, passes]
    cases behind? run stmt m with
    | none => rfl
    | some after => exact ih after

/-- Statements that run through end with a flush. -/
theorem runStatements_of_passes {program : Block} {m : Machine} (h : passes run program m = true) :
    runStatements run program m = flush (Outcome.machine (runStatements run program m)) := by
  induction program generalizing m with
  | nil =>
    show flush m = flush (Outcome.machine (flush m))
    rw [machine_flush]
  | cons stmt rest ih =>
    rw [runStatements_cons]
    rw [passes] at h
    cases hafter : behind? run stmt m with
    | none =>
      rw [hafter] at h
      cases h
    | some after =>
      rw [hafter] at h
      exact ih h

end Eval

namespace Balance

variable {strict : Prop} {budget : Option Budget} {run run' : JobRunner}

/-- Behind a report, too, evaluation is balanced. -/
theorem sound_of_report {line : Nat} {message : String} {m reported : Machine}
    (hm : Sound strict budget m) (h : Eval.report line message m = .ok () reported) :
    Sound strict budget reported := by
  have hreport : (comparison strict budget).Holds .stmt false (fun _ => True)
      (Eval.report line message) (Eval.report line message) := Criteria.Holds.report line message
  have hsound := (settled_of_agree (hreport m m ⟨rfl, hm⟩)).2.sound
  rwa [h] at hsound

/-- Behind a statement, too, evaluation is balanced. -/
theorem sound_of_behind {stmt : Stmt} {m after : Machine}
    (hsettled : Settled strict budget .stmt m (run (.execute stmt) m))
    (h : Eval.behind? run stmt m = some after) : Sound strict budget after := by
  have hsound := hsettled.sound
  simp only [Eval.behind?] at h
  generalize run (.execute stmt) m = ended at h hsound
  cases ended with
  | ok flow reached =>
    cases flow with
    | giveBack value => cases h
    | normal | leave | next =>
      cases h
      exact hsound
  | error stop reached =>
    cases stop with
    | exhausted => cases h
    | failed failure =>
      cases failure with
      | lexical _ | syntactic _ | io _ | loop _ => cases h
      | running fault =>
        cases hfatal : fault.isFatal with
        | true => simp only [hfatal, if_true, reduceCtorEq] at h
        | false =>
          simp only [hfatal, Bool.false_eq_true, if_false] at h
          cases hend : Eval.report fault.line fault.message reached with
          | error stop reported => simp only [hend, reduceCtorEq] at h
          | ok value reported =>
            simp only [hend, Option.some.injEq] at h
            exact h ▸ sound_of_report hsound hend

/-- Whether a program runs through does not depend on the bound on nesting. -/
theorem passes_eq {program : Block} (h : (comparison strict budget).Executes run run' program)
    {m : Machine} (hm : Sound strict budget m) :
    Eval.passes run' program m = Eval.passes run program m := by
  induction program generalizing m with
  | nil => rfl
  | cons stmt rest ih =>
    obtain ⟨hfirst, hrest⟩ := List.forall_mem_cons.mp h
    obtain ⟨hsame, hsettled⟩ := settled_of_agree (hfirst m m ⟨rfl, hm⟩)
    have hbehind : Eval.behind? run' stmt m = Eval.behind? run stmt m := by
      unfold Eval.behind?
      generalize run' (.execute stmt) m = ended at hsame ⊢
      rw [hsame]
    rw [Eval.passes, Eval.passes, hbehind]
    cases hafter : Eval.behind? run stmt m with
    | none => rfl
    | some after => exact ih hrest (sound_of_behind hsettled hafter)

end Balance

namespace Eval

/-- How the top-level statements of a program are done with a bound on nesting. -/
private def runner (depth : Nat) : JobRunner := fun job m =>
  Watch.atOnce (Job.performWatched Watch.permissive depth job m)

/-- A greater bound on nesting than the one that is computed for a program makes no difference. -/
theorem runStatements_eq_runProgram (program : Block) (m : Machine) {depth : Nat}
    (hdepth : m.nestingBound (Stmt.sizeAll program) (Stmt.importsAny program) ≤ depth) :
    runStatements (runner depth) program m = runProgram program m :=
  (Balance.settled_runProgram Balance.accepts_permissive program nofun hdepth).1

/-- Nor does it for whether the program runs through. -/
theorem passes_eq_runsThrough (program : Block) (m : Machine) {depth : Nat}
    (hdepth : m.nestingBound (Stmt.sizeAll program) (Stmt.importsAny program) ≤ depth) :
    passes (runner depth) program m = runsThrough program m := by
  have hexecutes := Balance.executes_program Balance.accepts_permissive program m hdepth
  exact Balance.passes_eq (Comparison.executes_atOnce hexecutes id id)
    (Balance.sound_budget nofun _ _)

/-- A program that runs through ends with a flush. -/
theorem runProgram_of_runsThrough {program : Block} {m : Machine}
    (h : runsThrough program m = true) :
    runProgram program m = flush (Outcome.machine (runProgram program m)) := by
  rw [← passes_eq_runsThrough program m (Nat.le_refl _)] at h
  rw [← runStatements_eq_runProgram program m (Nat.le_refl _)]
  exact runStatements_of_passes h

/-- Running joined programs is running the first one, and then the second if the first one runs
through. -/
theorem runProgram_append (program other : Block) (m : Machine) :
    runProgram (program ++ other) m =
      if runsThrough program m then runProgram other (Outcome.machine (runProgram program m))
      else runProgram program m := by
  let after := Outcome.machine (runProgram program m)
  -- A bound that is enough for each of the three runs.
  let depth := max (m.nestingBound (Stmt.sizeAll (program ++ other))
      (Stmt.importsAny (program ++ other)))
    (max (m.nestingBound (Stmt.sizeAll program) (Stmt.importsAny program))
      (after.nestingBound (Stmt.sizeAll other) (Stmt.importsAny other)))
  have hdepthBoth : m.nestingBound (Stmt.sizeAll (program ++ other))
      (Stmt.importsAny (program ++ other)) ≤ depth := Nat.le_max_left _ _
  have hdepth : m.nestingBound (Stmt.sizeAll program) (Stmt.importsAny program) ≤ depth :=
    Nat.le_trans (Nat.le_max_left _ _) (Nat.le_max_right _ _)
  have hdepthOther : after.nestingBound (Stmt.sizeAll other) (Stmt.importsAny other) ≤ depth :=
    Nat.le_trans (Nat.le_max_right _ _) (Nat.le_max_right _ _)
  rw [← runStatements_eq_runProgram (program ++ other) m hdepthBoth, runStatements_append,
    passes_eq_runsThrough program m hdepth, runStatements_eq_runProgram program m hdepth,
    runStatements_eq_runProgram other after hdepthOther]

end Eval

/-- Programs compose. Two token lists that are programs with an end marker behind them are, joined,
the joined program, if the first one is empty or ends with a semicolon or an `end`. On every
machine, if no top-level statement of the first program gives back a value or ends the run, its run
ends with a flush, and running the joined program is running the other on the machine that it
leaves; otherwise it is running the first. -/
theorem programs_compose {first second : List Token} {last last' : Token} {program other : Block}
    (hfirst : first = [] ∨ Ended first)
    (hmarks : ∀ token ∈ first, token.kind ≠ .endMarker) (hlast : last.kind = .endMarker)
    (hprogram : Block.ofTokens (first ++ [last]) = .ok program)
    (hother : Block.ofTokens (second ++ [last']) = .ok other) :
    Block.ofTokens (first ++ second ++ [last']) = .ok (program ++ other) ∧
      ∀ m,
        let after := Outcome.machine (Eval.runProgram program m)
        (Eval.runsThrough program m = true →
          Eval.runProgram program m = Eval.flush after ∧
            Eval.runProgram (program ++ other) m = Eval.runProgram other after) ∧
        (Eval.runsThrough program m = false →
          Eval.runProgram (program ++ other) m = Eval.runProgram program m) := by
  constructor
  · rw [List.append_assoc]
    exact Block.ofTokens_append hfirst hmarks hlast hprogram hother
  · intro m after
    have hjoined := Eval.runProgram_append program other m
    refine ⟨fun hthrough => ⟨Eval.runProgram_of_runsThrough hthrough, ?_⟩, fun hends => ?_⟩
    · rw [hjoined, if_pos hthrough]
    · rw [hjoined, hends]
      rfl

/-- A statement that fails, and one that prints: the failure is reported and the other statement is
run, by the joined program as by the one program after the other. -/
theorem programs_compose_of_reports :
    let reading : List Token := [⟨.identifier "x", "x", 1⟩, ⟨.symbol .semicolon, ";", 1⟩]
    let printing : List Token := [⟨.keyword .printWord, "print", 1⟩, ⟨.symbol .leftParen, "(", 1⟩,
      ⟨.text "y", "\"y\"", 1⟩, ⟨.symbol .rightParen, ")", 1⟩, ⟨.symbol .semicolon, ";", 1⟩]
    let mark : Token := ⟨.endMarker, "", 1⟩
    let program : Block := [.evaluate (.var 1 "x")]
    let other : Block := [.print 1 [.literal 1 (.text "y")]]
    let m : Machine := { maxCallDepth := 1, color := false }
    let after := Outcome.machine (Eval.runProgram program m)
    let report := "Line 1: Undefined variable 'x'\n"
    Eval.runsThrough program m = true ∧
      Block.ofTokens (reading ++ printing ++ [mark]) = .ok (program ++ other) ∧
      after.errors.written = report ∧
      Eval.runProgram (program ++ other) m = Eval.runProgram other after ∧
      (Outcome.machine (Eval.runProgram (program ++ other) m)).errors.written = report ∧
      (Outcome.machine (Eval.runProgram (program ++ other) m)).output.written = "y\n" := by
  intro reading printing mark program other m after report
  have hthrough : Eval.runsThrough program m = true := by decide
  obtain ⟨htokens, hruns⟩ := @programs_compose reading printing mark mark program other
    (.inr ⟨_, rfl, rfl⟩) (by decide) rfl rfl rfl
  have hrun := ((hruns m).1 hthrough).2
  exact ⟨hthrough, htokens, by decide +kernel, hrun, by decide +kernel, by decide +kernel⟩

end DecimalScript
