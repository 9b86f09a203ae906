import DecimalScript.Proofs.Evolution
import DecimalScript.Syntax.Exits

/-!
# Exits end where the syntax says

A block ends early only by an exit that is exposed in its own syntax: loops, selections and
function bodies take the exits meant for them, branches and guarded blocks pass them on. An
expression gives a value and nothing else, so what the body of a called function does to leave
its own blocks is never seen by the blocks around the call.
-/

namespace DecimalScript

namespace Flow

/-- How a flow leaves a block, unless the next statement follows. -/
def exit? : Flow → Option Exit
  | normal => none
  | leave => some .leave
  | next => some .next
  | giveBack _ => some .giveBack

/-- A flow that leaves by an exposed exit, if it leaves at all. -/
def Within (exposed : Exit → Bool) (flow : Flow) : Prop :=
  ∀ exit, flow.exit? = some exit → exposed exit = true

/-- What the body of a function is worth to its caller. -/
def given : Flow → Value
  | giveBack value => value
  | normal | leave | next => .nothing

variable {exposed wider : Exit → Bool} {flow : Flow}

theorem within_normal : normal.Within exposed := nofun

/-- A flow within no exits is normal. -/
theorem Within.eq_normal (h : flow.Within fun _ => false) : flow = normal := by
  cases flow with
  | normal => rfl
  | leave | next | giveBack _ => cases h _ rfl

theorem Within.mono (h : flow.Within exposed) (hwider : ∀ exit, exposed exit → wider exit) :
    flow.Within wider :=
  fun exit hexit => hwider exit (h exit hexit)

end Flow

namespace Eval

variable {α β : Type}

/-- An evaluation whose value is good, whenever there is one. -/
def Gives (x : Eval α) (good : α → Prop) : Prop := ∀ m a after, x m = .ok a after → good a

namespace Gives

variable {x : Eval α} {f : α → Eval β} {mid : α → Prop} {good : β → Prop}

protected theorem pure {a : β} (ha : good a) : Gives (pure a) good := by
  rintro m _ _ ⟨⟩
  exact ha

theorem exhausted : Gives Eval.exhausted good := by
  intro m a after h
  have hstop : Outcome.stop? (Eval.exhausted m : Outcome β) = none := congrArg Outcome.stop? h
  cases hstop

/-- One evaluation after another. -/
protected theorem bind (hx : Gives x mid) (hf : ∀ a, mid a → Gives (f a) good) :
    Gives (x >>= f) good := by
  intro m b last h
  cases hfirst : x m with
  | ok a after =>
    rw [bind_of_ok hfirst] at h
    exact hf a (hx m a after hfirst) after b last h
  | error stop after =>
    rw [bind_of_error hfirst] at h
    cases h

/-- One evaluation after another, of which the last decides. -/
theorem andThen (hf : ∀ a, Gives (f a) good) : Gives (x >>= f) good := by
  have hany : Gives x fun _ => True := fun _ _ _ _ => trivial
  exact hany.bind fun a _ => hf a

/-- A change at the end, whatever the body ended with. -/
theorem afterwards {undo : Machine → Machine} (hx : Gives x mid) :
    Gives (Eval.afterwards x undo) mid := by
  intro m a last h
  cases hbody : x m with
  | ok value after =>
    simp only [Eval.afterwards, hbody] at h
    cases h
    exact hx m _ after hbody
  | error stop after =>
    simp only [Eval.afterwards, hbody] at h
    cases h

/-- Loops that go on, or are refused. -/
theorem withLoops {changed : Except LoopFault Loop.Stack} {refused : β} {body : Eval β}
    (hrefused : good refused) (hbody : Gives body good) :
    Gives (Eval.withLoops changed refused body) good := by
  cases changed with
  | error fault => exact andThen fun _ => andThen fun _ => .pure hrefused
  | ok loops => exact andThen fun _ => hbody

variable {run : JobRunner}
  (hrun : ∀ stmt, Gives (run (.execute stmt)) fun flow => flow.Within (Stmt.exposes · stmt))

include hrun

/-- A block ends by an exit of one of its statements. -/
theorem executeBlock (block : Block) :
    Gives (Eval.executeBlock run block) fun flow => flow.Within (Stmt.exposesAny · block) := by
  induction block with
  | nil => exact .pure Flow.within_normal
  | cons stmt rest ih =>
    refine .bind (hrun stmt) fun flow hflow => ?_
    cases flow with
    | normal =>
      intro m flow after h
      refine (ih m flow after h).mono fun exit hexit => ?_
      simp [Stmt.exposesAny, hexit]
    | leave | next | giveBack _ =>
      refine .pure (hflow.mono fun exit hexit => ?_)
      simp [Stmt.exposesAny, hexit]

/-- A turn that leaves the loop for more than its end gives a value back. -/
theorem countedTurn (body : Block) :
    Gives (Eval.countedTurn run body) fun ended => ∀ flow, ended = some flow →
      flow.Within fun exit => exit.passesLoop && Stmt.exposesAny exit body := by
  refine .bind (executeBlock hrun body) fun flow hflow => ?_
  cases flow with
  | normal | next => exact .pure nofun
  | leave =>
    refine .pure ?_
    rintro _ ⟨⟩
    exact Flow.within_normal
  | giveBack value =>
    refine .pure ?_
    rintro _ ⟨⟩ exit ⟨⟩
    simpa [Exit.passesLoop] using hflow .giveBack rfl

/-- The turns of a loop, by induction on the bound on their number. -/
theorem loopTurns {σ : Type} (enter : σ → Eval Bool) (next : σ → Option σ) (body : Block)
    (turns : Nat) (cursor : σ) :
    Gives (Eval.loopTurns run enter next body turns cursor) fun flow =>
      flow.Within fun exit => exit.passesLoop && Stmt.exposesAny exit body := by
  induction turns generalizing cursor with
  | zero => exact exhausted
  | succ turns ih =>
    refine andThen fun entered => ?_
    cases entered with
    | false => exact .pure Flow.within_normal
    | true =>
      have hturn : Gives (Eval.turn run body) fun ended => ∀ flow, ended = some flow →
          flow.Within fun exit => exit.passesLoop && Stmt.exposesAny exit body := by
        refine andThen fun m => withLoops ?_ (countedTurn hrun body)
        rintro _ ⟨⟩
        exact Flow.within_normal
      refine .bind hturn fun ended hended => ?_
      cases ended with
      | some flow => exact .pure (hended flow rfl)
      | none =>
        dsimp only
        cases next cursor with
        | none => exact .pure Flow.within_normal
        | some following => exact ih following

/-- A loop only passes on what gives a value back. -/
theorem executeLoop {σ : Type} (context : Loop.Context) (enter : σ → Eval Bool)
    (next : σ → Option σ) (body : Block) (first : σ) :
    Gives (Eval.executeLoop run context enter next body first) fun flow =>
      flow.Within fun exit => exit.passesLoop && Stmt.exposesAny exit body :=
  andThen fun _ => andThen fun _ =>
    withLoops Flow.within_normal (afterwards (loopTurns hrun enter next body _ first))

theorem executeRange (name : String) (start stop step : Number) (body : Block) (line : Nat) :
    Gives (Eval.executeRange run name start stop step body line) fun flow =>
      flow.Within fun exit => exit.passesLoop && Stmt.exposesAny exit body := by
  rw [executeRange_eq]
  split
  · exact .pure Flow.within_normal
  · exact executeLoop hrun _ _ _ body start

theorem executeFor (name : String) (iteration : Iteration) (body : Block) (line : Nat) :
    Gives (Eval.executeFor run name iteration body line) fun flow =>
      flow.Within fun exit => exit.passesLoop && Stmt.exposesAny exit body := by
  cases iteration with
  | range start stop =>
    exact andThen fun start => andThen fun stop => executeRange hrun name start stop _ body line
  | step start stop width | countdown start stop width =>
    exact andThen fun start => andThen fun stop => andThen fun width =>
      executeRange hrun name start stop width body line
  | items value => exact andThen fun _ => andThen fun _ => executeLoop hrun _ _ _ body _

omit hrun in
/-- The block that is selected is that of a case. -/
theorem findCase (subject : Value) (cases : List (Expr × Block)) :
    Gives (Eval.findCase run subject cases) fun found => ∀ body, found = some body →
      ∀ exit, Stmt.exposesAny exit body → Stmt.exposesCases exit cases := by
  induction cases with
  | nil => exact .pure nofun
  | cons head rest ih =>
    refine andThen fun value => ?_
    split
    · refine .pure ?_
      rintro _ ⟨⟩ exit hexit
      simp [Stmt.exposesCases, hexit]
    · intro m found after h body hbody exit hexit
      simp [Stmt.exposesCases, ih m found after h body hbody exit hexit]

/-- A selection takes the exit that leaves it. -/
theorem executeSwitch (subject : Expr) (cases : List (Expr × Block)) (otherwise : Option Block) :
    Gives (Eval.executeSwitch run subject cases otherwise) fun flow => flow.Within fun exit =>
      exit.passesSelection &&
        (Stmt.exposesCases exit cases || Stmt.exposesOption exit otherwise) := by
  refine andThen fun value => .bind (findCase value cases) fun found hfound => ?_
  have hselected : ∀ body, found.or otherwise = some body → ∀ exit,
      Stmt.exposesAny exit body → (Stmt.exposesCases exit cases ||
        Stmt.exposesOption exit otherwise) = true := by
    intro body hbody exit hexit
    cases found with
    | some selected =>
      cases hbody
      simp [hfound body rfl exit hexit]
    | none =>
      cases otherwise with
      | none => cases hbody
      | some last =>
        cases hbody
        simp [Stmt.exposesOption, hexit]
  cases hbody : found.or otherwise with
  | none => exact .pure Flow.within_normal
  | some body =>
    refine .bind (executeBlock hrun body) fun flow hflow => ?_
    have hinside := hselected body hbody
    cases flow with
    | leave | normal => exact .pure Flow.within_normal
    | next | giveBack _ =>
      refine .pure ?_
      rintro exit ⟨⟩
      simpa [Exit.passesSelection] using hinside _ (hflow _ rfl)

/-- A guarded block passes on what its body or its handler does. -/
theorem executeTry (body : Block) (failure : String) (handler : Block) :
    Gives (Eval.executeTry run body failure handler) fun flow => flow.Within fun exit =>
      Stmt.exposesAny exit body || Stmt.exposesAny exit handler := by
  have hhandler : Gives (Eval.executeBlock run handler) fun flow => flow.Within fun exit =>
      Stmt.exposesAny exit body || Stmt.exposesAny exit handler := by
    intro m flow after h
    refine (executeBlock hrun handler m flow after h).mono fun exit hexit => ?_
    simp [hexit]
  intro m flow last h
  unfold Eval.executeTry at h
  dsimp only at h
  split at h
  · split at h
    · cases h
    · exact afterwards hhandler _ flow last h
  · cases h
  · rename_i inside after hbody
    cases h
    refine (executeBlock hrun body m flow after hbody).mono fun exit hexit => ?_
    simp [hexit]

/-- Every clause of the execution of statements. -/
theorem execute (stmt : Stmt) :
    Gives (Eval.execute run stmt) fun flow => flow.Within (Stmt.exposes · stmt) := by
  cases stmt with
  | use line target aliasName => exact andThen fun _ => .pure Flow.within_normal
  | declare line name typed expr =>
    exact andThen fun _ => andThen fun _ => .pure Flow.within_normal
  | assign line name expr => exact andThen fun _ => andThen fun _ => .pure Flow.within_normal
  | assignIndex line name index expr =>
    exact andThen fun _ => andThen fun _ => andThen fun _ => .pure Flow.within_normal
  | assignProperty line path expr =>
    exact andThen fun _ => andThen fun _ => .pure Flow.within_normal
  | print line arguments => exact andThen fun _ => andThen fun _ => .pure Flow.within_normal
  | define line name params returnType body => exact andThen fun _ => .pure Flow.within_normal
  | evaluate expr => exact andThen fun _ => .pure Flow.within_normal
  | branch line condition whenTrue whenFalse =>
    refine andThen fun value => ?_
    split
    · intro m flow after h
      refine (executeBlock hrun whenTrue m flow after h).mono fun exit hexit => ?_
      simp [Stmt.exposes, hexit]
    · intro m flow after h
      refine (executeBlock hrun _ m flow after h).mono fun exit hexit => ?_
      cases whenFalse with
      | none => cases hexit
      | some block => simp_all [Stmt.exposes, Stmt.exposesOption]
  | repeatWhile line condition body => exact executeLoop hrun _ _ some body ()
  | repeatOver line name iteration body => exact executeFor hrun name iteration body line
  | select line subject cases otherwise => exact executeSwitch hrun subject cases otherwise
  | attempt line body failure handler => exact executeTry hrun body failure handler
  | giveBack line value =>
    have hgiven : ∀ value, (Flow.giveBack value).Within (Stmt.exposes · (.giveBack line none)) := by
      rintro value exit ⟨⟩
      rfl
    cases value with
    | none => exact .pure (hgiven .nothing)
    | some expr => exact andThen fun value => .pure (hgiven value)
  | leave line | next line =>
    refine .pure ?_
    rintro exit ⟨⟩
    rfl

end Gives

end Eval

/-- A statement ends by an exit that it exposes, by induction on the bound on nesting. -/
theorem Job.flow_within (depth : Nat) (stmt : Stmt) :
    Eval.Gives (Job.perform depth (.execute stmt)) fun flow =>
      flow.Within (Stmt.exposes · stmt) := by
  induction depth generalizing stmt with
  | zero => exact .exhausted
  | succ depth ih =>
    show Eval.Gives (Eval.execute (fun nested => Job.perform depth nested) stmt) _
    exact .execute ih stmt

/-- The machine in which the body of a called function starts. -/
def Machine.calling (function : Function) (values : List Value) (m : Machine) : Machine := { m with
  env := m.env.pushScope.defineAll (function.params.map (·.name)) values
  callDepth := m.callDepth + 1 }

namespace Eval

/-- However its body ends, a call gives a value. -/
theorem callFunction_of_body {depth : Nat} {function : Function} {arguments : List Expr}
    (line : Nat) {m ready inside : Machine} {values : List Value} {flow : Flow}
    (harguments : evaluateAll (fun job => Job.perform depth job) arguments m = .ok values ready)
    (hcount : function.params.length = values.length)
    (hdepth : ready.callDepth < ready.maxCallDepth)
    (hbody : executeBlock (fun job => Job.perform depth job) function.body
      (ready.calling function values) = .ok flow inside) :
    ∃ after, callFunction (fun job => Job.perform depth job) function arguments line m =
      .ok flow.given after := by
  -- The scope that is closed is the one that the call opened.
  have hmoves := (Moves.executeBlock (fun job => Job.moves_perform depth job) function.body).of_ok
    hbody
  have hscopes := hmoves.scopes.trans (ready.env.scopes_opened _ values)
  have hclosed := Environment.popScope_of_scopes hscopes
  have hvalue : bodyValue (fun job => Job.perform depth job) function.body
      (ready.calling function values) = .ok flow.given inside := by
    unfold bodyValue
    rw [bind_of_ok hbody]
    cases flow with
    | normal | leave | next | giveBack _ => rfl
  have hchecked : checkCount function.name function.params.length values.length line ready =
      .ok () ready := by
    unfold checkCount
    rw [if_pos hcount]
    rfl
  have hcall : callFunction (fun job => Job.perform depth job) function arguments line m =
      leaveScope "scope stack underflow" line 1
        (bodyValue (fun job => Job.perform depth job) function.body
          (ready.calling function values)) := by
    unfold callFunction
    rw [bind_of_ok harguments, bind_of_ok hchecked]
    exact if_neg (Nat.not_le.mpr hdepth)
  rw [hcall, hvalue, leaveScope_ok hclosed]
  exact ⟨_, rfl⟩

/-- A block ends by an exit only if that exit is exposed in the block. What a called function
does to leave its body is only seen in the value of the call: a statement that exposes no exit
itself is followed by the rest of its block, and a turn whose body exposes none that ends a loop
is followed by the next turn. -/
theorem block_ends_as_exposed (depth : Nat) (block : Block) :
    let run : JobRunner := fun job => Job.perform depth job
    (∀ m flow after, executeBlock run block m = .ok flow after →
      flow.Within (Stmt.exposesAny · block)) ∧
    (∀ m flow after, runBlock block m = .ok flow after →
      flow.Within (Stmt.exposesAny · block)) ∧
    (∀ (function : Function) arguments line m values ready flow inside,
      evaluateAll run arguments m = .ok values ready →
      function.params.length = values.length → ready.callDepth < ready.maxCallDepth →
      executeBlock run function.body (ready.calling function values) = .ok flow inside →
      ∃ after, callFunction run function arguments line m = .ok flow.given after) ∧
    (∀ stmt m flow after, (∀ exit, stmt.exposes exit = false) →
      run (.execute stmt) m = .ok flow after →
      flow = .normal ∧ executeBlock run (stmt :: block) m = executeBlock run block after) ∧
    (∀ m ended after, Stmt.exposesAny .leave block = false →
      Stmt.exposesAny .giveBack block = false →
      countedTurn run block m = .ok ended after → ended = none) := by
  intro run
  have hblock (run : JobRunner) (hrun : ∀ stmt, Gives (run (.execute stmt)) fun flow =>
      flow.Within (Stmt.exposes · stmt)) : Gives (executeBlock run block) fun flow =>
      flow.Within (Stmt.exposesAny · block) := .executeBlock hrun block
  refine ⟨hblock run (Job.flow_within depth), ?_, ?_, ?_, ?_⟩
  · intro m
    exact hblock _ (Job.flow_within _) m
  · intro function arguments line m values ready flow inside harguments hcount hdepth hbody
    exact callFunction_of_body line harguments hcount hdepth hbody
  · intro stmt m flow after hnone h
    have hwithin := Job.flow_within depth stmt m flow after h
    simp only [hnone] at hwithin
    obtain rfl := hwithin.eq_normal
    refine ⟨rfl, ?_⟩
    rw [executeBlock, bind_of_ok h]
  · intro m ended after hleave hgiveBack h
    unfold countedTurn at h
    cases hran : executeBlock run block m with
    | error stop stopped =>
      rw [bind_of_error hran] at h
      cases h
    | ok flow ran =>
      rw [bind_of_ok hran] at h
      have hwithin := hblock run (Job.flow_within depth) m flow ran hran
      cases flow with
      | normal | next =>
        cases h
        rfl
      | leave => exact absurd (hwithin .leave rfl) (by simp [hleave])
      | giveBack value => exact absurd (hwithin .giveBack rfl) (by simp [hgiveBack])

end Eval

end DecimalScript
