import DecimalScript.Proofs.Brackets

/-!
# Comparing loops

A loop runs inside its context, which counts its turns. The turns that are left bound the
rest of the loop, so the bound on turns that a loop is run with is not reached. A limit
that refuses the loop or a turn refuses it for both evaluations, or ends the comparison.
-/

namespace DecimalScript

namespace Eval

variable {α : Type}

/-- A report changes no loop. -/
theorem loops_report (line : Nat) (message : String) (m : Machine) :
    (Outcome.machine (report line message m)).loops = m.loops := by
  show (Outcome.machine (writeError _ m)).loops = m.loops
  rw [writeError_eq]
  split <;> rfl

/-- A refusal counts one loop more with an error, whatever follows it without an effect. -/
theorem errors_refuse (fault : LoopFault) (result : α) (m : Machine) :
    (Outcome.machine (refuse fault result m)).loops.statistics.errors =
      m.loops.statistics.errors + 1 := by
  have hloops := loops_report fault.line fault.message { m with loops := m.loops.recordError }
  show (Outcome.machine (EStateM.bind (report fault.line fault.message) (fun _ => pure result)
    { m with loops := m.loops.recordError })).loops.statistics.errors = _
  unfold EStateM.bind
  generalize report fault.line fault.message { m with loops := m.loops.recordError } = r at hloops ⊢
  cases r with
  | ok value after => exact congrArg (·.statistics.errors) hloops
  | error stop after => exact congrArg (·.statistics.errors) hloops

/-- A refused turn ends its loop normally. -/
theorem refused_bind {fault : LoopFault} {body : Eval (Option Flow)}
    {rest : Option Flow → Eval Flow} (hrest : ∀ flow, rest (some flow) = pure flow) :
    withLoops (.error fault) (some .normal) body >>= rest = refuse fault .normal := by
  simp only [withLoops, refuse, bind_assoc, pure_bind, hrest]

end Eval

namespace Comparison

variable {C : Comparison} {α : Type} {hits : Bool} {reach : Reach} {m m' : Machine}

/-- A refusal by equal limits. -/
theorem refuse {fault : LoopFault} {good : α → Prop} {result : α} (hresult : good result)
    (hrel : C.related { m with loops := m.loops.recordError }
      { m' with loops := m'.loops.recordError })
    (halso : C.also m { m with loops := m.loops.recordError }) :
    C.Agree (C.change reach) hits good m (Eval.refuse fault result m)
      (Eval.refuse fault result m') := by
  have hreport : C.Holds .value hits good
      (do Eval.report fault.line fault.message; return result)
      (do Eval.report fault.line fault.message; return result) :=
    .bind (.report _ _) fun _ _ => .pure hresult
  have hchange : C.change reach m { m with loops := m.loops.recordError } :=
    ⟨.of_value ⟨by constructor <;> rfl, rfl, rfl⟩, halso⟩
  exact Criteria.Holds.after hchange (hreport.ofValue _ _ hrel)

/-- A refusal by a limit that ends the comparison. -/
theorem refuse_hit {fault : LoopFault} {good : α → Prop} {result : α} {r' : Outcome α}
    (h : ∀ stop (after : Machine), after.loops.statistics.errors =
      m.loops.statistics.errors + 1 → C.hit m stop after) :
    C.Agree (C.change reach) true good m (Eval.refuse fault result m) r' :=
  .hit rfl (h _ _ (Eval.errors_refuse fault result m))

/-- A turn that was counted and ran changes nothing else about the loop. -/
theorem countedTurn {run run' : JobRunner} {body : Block}
    (hbody : C.Holds .stmt false C.goodFlow (Eval.executeBlock run body)
      (Eval.executeBlock run' body)) :
    C.Holds .stmt false (fun flow => ∀ ended ∈ flow, C.goodFlow ended)
      (Eval.countedTurn run body) (Eval.countedTurn run' body) := by
  refine .bind hbody fun flow hflow => ?_
  cases flow with
  | normal | next => exact .pure (by simp)
  | leave => exact .pure fun ended hended => by cases hended; trivial
  | giveBack value => exact .pure fun ended hended => by cases hended; exact hflow

/-- One turn and the rest of the loop after it, which has one turn less left. -/
theorem turn {run run' : JobRunner} {body : Block}
    (hbody : C.Holds .stmt false C.goodFlow (Eval.executeBlock run body)
      (Eval.executeBlock run' body)) {rest rest' : Option Flow → Eval Flow}
    (hended : ∀ flow, rest (some flow) = pure flow ∧ rest' (some flow) = pure flow) {turns : Nat}
    (hrest : ∀ m m', C.related m m' → m.loops.LeavesTurns turns →
      C.Agree (C.change .loop) true C.goodFlow m (rest none m) (rest' none m'))
    (hm : C.related m m') (hturns : m.loops.LeavesTurns (turns + 1)) :
    C.Agree (C.change .loop) true C.goodFlow m ((Eval.turn run body >>= rest) m)
      ((Eval.turn run' body >>= rest') m') := by
  have hunfold : ∀ (run : JobRunner) (rest : Option Flow → Eval Flow) (m : Machine),
      (Eval.turn run body >>= rest) m =
        (Eval.withLoops m.loops.tick (some .normal) (Eval.countedTurn run body) >>= rest) m :=
    fun _ _ _ => rfl
  rw [hunfold, hunfold]
  have htick := C.tick hm
  have hticked : ∀ ticked, m.loops.tick = .ok ticked → ticked.LeavesTurns turns ∧
      C.change .loop m { m with loops := ticked } := by
    intro ticked h
    obtain ⟨hlimits, herrors, htail, _⟩ := Loop.Stack.tick_ok h
    exact ⟨hturns.tick h, ⟨⟨rfl, rfl, rfl, hlimits, rfl, rfl, rfl, rfl, rfl⟩, List.suffix_refl _,
      htail⟩, C.also_of_errors herrors⟩
  generalize m.loops.tick = ticked at htick hticked ⊢
  generalize m'.loops.tick = ticked' at htick ⊢
  cases htick with
  | @passed loops loops' hrel =>
    obtain ⟨hleft, hchange⟩ := hticked loops rfl
    refine Criteria.Holds.after hchange (Criteria.Holds.bindFrom ?_ (countedTurn hbody _ _ hrel)
      fun flow after after' hflow hrel' hchange' => ?_)
    · exact fun _ h => ⟨h.1.turn_of_stmt.loop_of_turn, h.2⟩
    · cases flow with
      | none => exact hrest after after' hrel' (hleft.of_steady hchange'.1.turn_of_stmt.2.2)
      | some ended =>
        rw [(hended ended).1, (hended ended).2]
        exact .returned (hflow ended rfl) hrel' (C.refl .loop after)
  | refused hrel halso =>
    rw [Eval.refused_bind fun flow => (hended flow).1,
      Eval.refused_bind fun flow => (hended flow).2]
    exact refuse trivial hrel halso
  | hit h =>
    rw [Eval.refused_bind fun flow => (hended flow).1]
    exact refuse_hit h

section

variable {run run' : JobRunner} {σ : Type} {valid : σ → Prop} {enter enter' : σ → Eval Bool}
  {next : σ → Option σ} {body : Block}
  (henter : ∀ cursor, valid cursor →
    C.Holds .turn false (fun _ => True) (enter cursor) (enter' cursor))
  (hnext : ∀ cursor following, valid cursor → next cursor = some following → valid following)
  (hbody : C.Holds .stmt false C.goodFlow (Eval.executeBlock run body)
    (Eval.executeBlock run' body))

include henter hnext hbody

/-- The turns of a loop from a cursor on, by induction on the bound on their number. -/
theorem loopTurns {turns turns' : Nat} (hle : turns ≤ turns') {cursor : σ} {m m' : Machine}
    (hcursor : valid cursor) (hm : C.related m m') (hturns : m.loops.LeavesTurns turns) :
    C.Agree (C.change .loop) true C.goodFlow m (Eval.loopTurns run enter next body turns cursor m)
      (Eval.loopTurns run' enter' next body turns' cursor m') := by
  induction turns generalizing turns' cursor m m' with
  | zero =>
    obtain ⟨context, rest, _, hfew, hmany⟩ := hturns
    omega
  | succ turns ih =>
    obtain ⟨bound, rfl⟩ : ∃ bound, turns' = bound + 1 := ⟨turns' - 1, by omega⟩
    unfold Eval.loopTurns
    refine Criteria.Holds.bindFrom (fun _ h => ⟨h.1.loop_of_turn, h.2⟩)
      (henter cursor hcursor m m' hm)
      fun entered after after' _ hrel hchange => ?_
    cases entered with
    | false => exact .returned trivial hrel (C.refl .loop after)
    | true =>
      refine turn hbody (fun flow => ⟨rfl, rfl⟩) (fun m m' hm hleft => ?_) hrel
        (hturns.of_steady hchange.1.2.2)
      cases hfollowing : next cursor with
      | none => exact .returned trivial hm (C.refl .loop m)
      | some following =>
        exact ih (by omega) (hnext cursor following hcursor hfollowing) hm hleft

/-- Loops are entered and left. -/
theorem executeLoop {context : Loop.Context} (hcontext : context.turns = 0) {first : σ}
    (hfirst : valid first) :
    C.Holds .stmt true C.goodFlow (Eval.executeLoop run context enter next body first)
      (Eval.executeLoop run' context enter' next body first) := by
  intro m m' hm
  have hunfold : ∀ (run : JobRunner) (enter : σ → Eval Bool) (m : Machine),
      Eval.executeLoop run context enter next body first m =
        Eval.withLoops (m.loops.push context) .normal
          (Eval.afterwards
            (Eval.loopTurns run enter next body (m.loops.limits.maxIterations + 1) first)
            fun m => { m with loops := m.loops.pop }) m := fun _ _ _ => rfl
  rw [hunfold, hunfold]
  have hpush := C.push hm hcontext
  have hentered : ∀ entered, m.loops.push context = .ok entered →
      entered.LeavesTurns (m.loops.limits.maxIterations + 1) ∧
        entered.contexts.tail = m.loops.contexts ∧ entered.limits = m.loops.limits ∧
        C.also m { m with loops := entered } := by
    intro entered h
    obtain ⟨hlimits, herrors, _, hcontexts, _⟩ := Loop.Stack.push_ok h
    exact ⟨Loop.Stack.leavesTurns_push h hcontext, by rw [hcontexts]; rfl, hlimits,
      C.also_of_errors herrors⟩
  generalize m.loops.push context = entered at hpush hentered ⊢
  generalize m'.loops.push context = entered' at hpush ⊢
  cases hpush with
  | @passed loops loops' hrel =>
    obtain ⟨hleft, htail, hlimits, halso⟩ := hentered loops rfl
    have hturns := loopTurns henter hnext hbody (Nat.succ_le_succ (C.iterations hm)) hfirst hrel
      hleft
    refine hturns.afterwards (fun _ _ => id) (fun _ => id) (fun _ stop after hhit => ?_)
      (fun _ => ⟨rfl, rfl⟩) fun after after' hrel' hchange => ?_
    · refine C.hit_of_errors ?_ (C.hit_of_also halso stop after hhit)
      rfl
    · obtain ⟨⟨hkept, hnames, hcontexts⟩, halso'⟩ := hchange
      exact ⟨C.related_pop hrel', ⟨{ hkept with limits := hkept.limits.trans hlimits }, hnames,
        hcontexts.trans htail⟩,
        C.also_trans halso (C.also_trans halso' (C.also_of_errors rfl))⟩
  | refused hrel halso => exact refuse trivial hrel halso
  | hit h => exact refuse_hit h

end

end Comparison

end DecimalScript
