import DecimalScript.Eval.Turns
import DecimalScript.Proofs.Effects

/-!
# Where a loop runs its body

Whatever the body of a loop does, the machines in which it is run are those of a run of the loop.
The turns are counted here by themselves, beside the context of the loop on the stack of loops, which
its body may cover with others.
-/

namespace DecimalScript

namespace Loop.Stack

/-- The innermost loop is in a line and has taken some turns of as many as it may. -/
def Stands (loops : Stack) (taken limit line : Nat) : Prop :=
  ∃ context rest, loops.contexts = context :: rest ∧ context.turns = taken ∧
    context.maxTurns = limit ∧ context.line = line

variable {loops after : Stack} {taken limit line : Nat}

/-- The value of the current turn does not matter to where a loop stands. -/
theorem Stands.of_steady (h : loops.Stands taken limit line)
    (hsteady : steady after.contexts = steady loops.contexts) : after.Stands taken limit line := by
  obtain ⟨context, rest, hcontexts, hturns, hlimit, hline⟩ := h
  rw [hcontexts] at hsteady
  cases hafter : after.contexts with
  | nil =>
    rw [hafter] at hsteady
    cases hsteady
  | cons first others =>
    rw [hafter] at hsteady
    simp only [steady, List.cons.injEq, Context.mk.injEq] at hsteady
    refine ⟨first, others, hafter, ?_, ?_, ?_⟩
    · omega
    · omega
    · omega

/-- A loop that has taken all its turns is refused another one. -/
theorem Stands.tick_full (h : loops.Stands limit limit line) :
    loops.tick = .error (.iterationLimit limit line) := by
  obtain ⟨context, rest, hcontexts, hturns, hlimit, hline⟩ := h
  rw [tick_of_full hcontexts (by omega), hlimit, hline]

/-- A loop that has turns left takes one more. -/
theorem Stands.tick_room (h : loops.Stands taken limit line) (hroom : taken < limit) :
    ∃ ticked, loops.tick = .ok ticked ∧ ticked.Stands (taken + 1) limit line := by
  obtain ⟨context, rest, hcontexts, hturns, hlimit, hline⟩ := h
  exact ⟨_, tick_of_room hcontexts (by omega), _, _, rfl, by rw [hturns], hlimit, hline⟩

/-- A loop is entered where another one may be nested. -/
theorem push_room {context : Context} (hroom : loops.depth < loops.limits.maxDepth)
    (hturns : context.turns = 0) :
    ∃ entered, loops.push context = .ok entered ∧
      entered.Stands 0 loops.limits.maxIterations context.line :=
  ⟨_, push_of_room hroom, _, _, rfl, hturns, rfl, rfl⟩

end Loop.Stack

namespace Eval

/-- A body from which the loop goes on ends normally or with the next turn. -/
theorem GoesOn.exists_flow {body : Eval Flow} {inside after : Machine}
    (h : GoesOn body inside after) :
    ∃ flow, (flow = .normal ∨ flow = .next) ∧ body inside = .ok flow after := by
  rcases h with hnormal | hnext
  · exact ⟨.normal, .inl rfl, hnormal⟩
  · exact ⟨.next, .inr rfl, hnext⟩

/-- A body ends in one way. -/
theorem GoesOn.unique {body : Eval Flow} {inside after after' : Machine}
    (h : GoesOn body inside after) (h' : GoesOn body inside after') : after = after' := by
  obtain ⟨flow, -, hblock⟩ := h.exists_flow
  obtain ⟨flow', -, hblock'⟩ := h'.exists_flow
  cases hblock.symm.trans hblock'
  rfl

section

variable {σ : Type} {run : JobRunner} {enter : σ → Eval Bool} {next : σ → Option σ}
  {body : Block} {cursor : σ} {m : Machine}

/-- A loop that is entered takes its turns inside its context, and is left. -/
theorem executeLoop_of_push {context : Loop.Context} {first : σ} {m : Machine}
    {loops : Loop.Stack} (hpush : m.loops.push context = .ok loops) :
    executeLoop run context enter next body first m =
      Outcome.mapMachine (fun after => { after with loops := after.loops.pop })
        (loopTurns run enter next body (m.loops.limits.maxIterations + 1) first
          { m with loops }) := by
  show withLoops (m.loops.push context) _ _ m = _
  rw [hpush]
  show afterwards _ _ { m with loops } = _
  unfold afterwards
  generalize loopTurns run enter next body _ first { m with loops } = ran
  cases ran with
  | ok flow after => rfl
  | error stop after => rfl

/-- A loop that is not entered is reported. -/
theorem executeLoop_of_refusal {context : Loop.Context} {first : σ} {m : Machine}
    {fault : LoopFault} (hpush : m.loops.push context = .error fault) :
    executeLoop run context enter next body first m = refuse fault .normal m := by
  show withLoops (m.loops.push context) _ _ m = _
  rw [hpush]
  rfl

/-- A turn that is counted is the execution of the body. -/
theorem turn_of_tick {m : Machine} {loops : Loop.Stack} (h : m.loops.tick = .ok loops) :
    turn run body m = countedTurn run body { m with loops } := by
  show withLoops m.loops.tick (some .normal) (countedTurn run body) m = _
  rw [h]
  rfl

/-- A counted turn ends with the flow that its body ends with. -/
theorem turn_of_flow {m after : Machine} {loops : Loop.Stack} {flow : Flow}
    (htick : m.loops.tick = .ok loops)
    (hends : executeBlock run body { m with loops } = .ok flow after) :
    turn run body m = .ok (match flow with
      | .normal | .next => none
      | .leave => some .normal
      | .giveBack value => some (.giveBack value)) after := by
  rw [turn_of_tick htick]
  refine (bind_of_ok hends).trans ?_
  cases flow with
  | normal | next | leave | giveBack => rfl

/-- A counted turn stops as its body does. -/
theorem turn_of_stop {m after : Machine} {loops : Loop.Stack} {stop : Stop}
    (htick : m.loops.tick = .ok loops)
    (hends : executeBlock run body { m with loops } = .error stop after) :
    turn run body m = .error stop after := by
  rw [turn_of_tick htick]
  exact bind_of_error hends

/-- A turn that is refused ends the loop as its report does. -/
theorem bind_turn_of_refusal {fault : LoopFault} (htick : m.loops.tick = .error fault)
    {f : Option Flow → Eval Flow} (hf : f (some .normal) = pure .normal) :
    (turn run body >>= f) m = refuse fault .normal m := by
  have hturn : turn run body m = refuse fault (some .normal) m := by
    show withLoops m.loops.tick (some .normal) (countedTurn run body) m = _
    rw [htick]
    rfl
  rw [refuse_eq] at hturn ⊢
  split at hturn
  · rename_i hfits
    rw [if_pos hfits, bind_of_ok hturn, hf]
    rfl
  · rename_i hfull
    rw [if_neg hfull, bind_of_error hturn]

/-- A turn whose body came to its end, with what is left of the loop after it. -/
theorem loopRuns_of_block {limit line taken : Nat} {entered after : Machine} {loops : Loop.Stack}
    {flow : Flow} (hentered : enter cursor m = .ok true entered) (hroom : taken < limit)
    (htick : entered.loops.tick = .ok loops)
    (hblock : executeBlock run body { entered with loops } = .ok flow after) {rest : σ → Eval Flow}
    (hrest : ∀ following, ∃ later, LoopRuns enter next (executeBlock run body) limit line
      (taken + 1) following after later (rest following after)) :
    ∃ inside, LoopRuns enter next (executeBlock run body) limit line taken cursor m inside
      ((do
        match ← turn run body with
        | some flow => return flow
        | none =>
          match next cursor with
          | none => return .normal
          | some following => rest following) entered) := by
  have hruns : RunsIn enter limit taken cursor m { entered with loops } :=
    ⟨hroom, entered, loops, hentered, htick, rfl⟩
  have hgoes (hends : GoesOn (executeBlock run body) { entered with loops } after) :
      ∃ inside, LoopRuns enter next (executeBlock run body) limit line taken cursor m inside
        ((match next cursor with
          | none => return .normal
          | some following => rest following : Eval Flow) after) := by
    cases hnext : next cursor with
    | none => exact ⟨_, .last hruns hends hnext⟩
    | some following =>
      obtain ⟨later, hlater⟩ := hrest following
      exact ⟨_, .turn hruns hends hnext hlater⟩
  rw [bind_of_ok (turn_of_flow htick hblock)]
  cases flow with
  | normal => exact hgoes (.inl hblock)
  | next => exact hgoes (.inr hblock)
  | leave => exact ⟨_, .left hruns hblock⟩
  | giveBack value => exact ⟨_, .gaveBack hruns hblock⟩

variable (henter : ∀ cursor m, Machine.Changed .turn m (Outcome.machine (enter cursor m)))
  (hbody : ∀ m, Machine.Changed .stmt m (Outcome.machine (executeBlock run body m)))

include henter hbody

/-- The turns of a loop are a run of it, by induction on the bound on their number, which is greater
than the number that the limit leaves. Whatever the body does, the context of the loop stands where
it stood when the turn began. -/
theorem loopRuns_loopTurns {limit line turns taken : Nat}
    (hstands : m.loops.Stands taken limit line) (hfew : taken ≤ limit) (hmany : limit < taken + turns) :
    ∃ inside, LoopRuns enter next (executeBlock run body) limit line taken cursor m inside
      (loopTurns run enter next body turns cursor m) := by
  induction turns generalizing taken cursor m with
  | zero => omega
  | succ turns ih =>
    have hchanged := henter cursor m
    unfold loopTurns
    cases hentered : enter cursor m with
    | error stop after =>
      rw [bind_of_error hentered]
      exact ⟨[], .broken hentered⟩
    | ok more entered =>
      rw [bind_of_ok hentered]
      rw [hentered, Outcome.machine_ok] at hchanged
      have hinside := hstands.of_steady hchanged.2.2
      cases more with
      | false => exact ⟨[], .finished hentered⟩
      | true =>
        simp only [if_true]
        rcases Nat.lt_or_ge taken limit with hroom | hfull
        · obtain ⟨loops, htick, hticked⟩ := hinside.tick_room hroom
          have hblock := hbody { entered with loops }
          cases houtcome : executeBlock run body { entered with loops } with
          | error stop after =>
            rw [bind_of_error (turn_of_stop htick houtcome)]
            exact ⟨_, .stopped ⟨hroom, entered, loops, hentered, htick, rfl⟩ houtcome⟩
          | ok flow after =>
            rw [houtcome, Outcome.machine_ok] at hblock
            have hafter := hticked.of_steady (congrArg Loop.steady hblock.2.2)
            exact loopRuns_of_block hentered hroom htick houtcome fun following =>
              ih hafter hroom (by omega)
        · -- Entered, but not counted: the body is not run.
          obtain rfl : taken = limit := Nat.le_antisymm hfew hfull
          have htick := hinside.tick_full
          rw [bind_turn_of_refusal htick rfl]
          exact ⟨[], .refused hentered htick⟩

/-- A loop where another one may be nested is entered, runs and is left. -/
theorem loopRuns_executeLoop {context : Loop.Context} {first : σ} (hturns : context.turns = 0)
    (hroom : m.loops.depth < m.loops.limits.maxDepth) :
    ∃ loops inside ran, m.loops.push context = .ok loops ∧
      LoopRuns enter next (executeBlock run body) m.loops.limits.maxIterations context.line 0 first
        { m with loops } inside ran ∧
      executeLoop run context enter next body first m =
        ran.mapMachine fun after => { after with loops := after.loops.pop } := by
  obtain ⟨loops, hpush, hstands⟩ := Loop.Stack.push_room hroom hturns
  have hmany : m.loops.limits.maxIterations < 0 + (m.loops.limits.maxIterations + 1) := by omega
  have hruns : ∃ inside, LoopRuns enter next (executeBlock run body) m.loops.limits.maxIterations
      context.line 0 first { m with loops } inside
      (loopTurns run enter next body (m.loops.limits.maxIterations + 1) first { m with loops }) :=
    loopRuns_loopTurns henter hbody hstands (Nat.zero_le _) hmany
  obtain ⟨inside, hruns⟩ := hruns
  exact ⟨loops, inside, _, hpush, hruns, executeLoop_of_push hpush⟩

end

end Eval

end DecimalScript
