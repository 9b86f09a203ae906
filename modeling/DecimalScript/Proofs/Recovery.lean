import DecimalScript.Proofs.Transparency

/-!
# Guarded blocks

However a guarded block ends, the names of the variables are those before it, and the
bindings are what the block that ran last left of them. A fault of the body is never seen
outside: the handler runs from the names, scopes, calls and loops at the start, with one
binding more, and the statement ends as the handler does.
-/

namespace DecimalScript

/-- A block is balanced if its statements are, whatever it ends with. -/
theorem Balance.settled_executeBlock (depth : Nat) (block : Block) (m : Machine) :
    Settled False none .stmt m (Eval.executeBlock (fun job => Job.perform depth job) block m) := by
  have hblock : (comparison False none).Executes (fun job => Job.perform depth job)
      (fun job => Job.performWatched .permissive depth job) block := fun stmt _ =>
    perform accepts_permissive (Nat.le_refl depth) (fun _ => rfl) nofun nofun
  exact (settled_of_agree (Comparison.executeBlock hblock m m ⟨rfl, nofun, nofun⟩)).2

namespace Eval

/-- A block changes no more than a statement does. -/
theorem changed_executeBlock (depth : Nat) (block : Block) (m : Machine) :
    Machine.Changed .stmt m
      (Outcome.machine (executeBlock (fun job => Job.perform depth job) block m)) :=
  (Balance.settled_executeBlock depth block m).changed

/-- A fault of a block can be handled. -/
theorem isFatal_of_executeBlock {depth : Nat} {block : Block} {m after : Machine} {fault : Fault}
    (h : executeBlock (fun job => Job.perform depth job) block m =
      .error (.failed (.running fault)) after) : fault.isFatal = false := by
  have hpossible := (Balance.settled_executeBlock depth block m).possible
  rw [h] at hpossible
  exact hpossible _ rfl

end Eval

namespace Machine

/-- A machine with the variables and scopes there were at a mark. -/
def rollback (mark : Environment.Mark) (m : Machine) : Machine :=
  { m with env := m.env.restore mark }

/-- The machine that a handler is started in, given the machine before the guarded block and the
one in which its body failed. -/
def recover (failure : String) (fault : Fault) (m after : Machine) : Machine := { after with
  env := (after.env.restore m.env.mark).define failure (.text fault.description)
  loops := after.loops.unwindTo m.loops.depth
  callDepth := m.callDepth }

/-- What a handler should start from: the bindings before the guarded block, with the values that
they had when its body failed, and one for the failure, in the scopes, calls and loops before. -/
structure Recovered (failure : String) (fault : Fault) (m after start : Machine) : Prop where
  bindings : ∃ old, start.env.bindings = ⟨failure, .text fault.description⟩ :: old ∧
    old <:+ after.env.bindings ∧ old.map (·.name) = m.env.names
  scopes : start.env.scopes = m.env.scopes
  callDepth : start.callDepth = m.callDepth
  loops : start.loops.contexts = m.loops.contexts

/-- Rolling back makes no binding and changes none. -/
theorem bindings_rollback (mark : Environment.Mark) (m : Machine) :
    (m.rollback mark).env.bindings <:+ m.env.bindings :=
  keepOldest_suffix _ _

/-- A handler is started in a machine that it should start from. -/
theorem recovered_recover {m after : Machine} (h : Changed .stmt m after) (failure : String)
    (fault : Fault) : Recovered failure fault m after (recover failure fault m after) where
  bindings := ⟨_, rfl, bindings_rollback m.env.mark after, Environment.names_restore h.2.1⟩
  scopes := Environment.scopes_restore h.1.scopes
  callDepth := rfl
  loops := by
    have hdepth : after.loops.depth = m.loops.depth := congrArg List.length h.2.2
    show (after.loops.unwindTo m.loops.depth).contexts = m.loops.contexts
    rw [Loop.Stack.unwindTo_of_depth hdepth]
    exact h.2.2

/-- A handler starts with one name in front of those before. -/
theorem Recovered.suffix {failure : String} {fault : Fault} {m after start : Machine}
    (h : Recovered failure fault m after start) : m.env.names <:+ start.env.names := by
  obtain ⟨old, hstart, _, hold⟩ := h.bindings
  have hnames : start.env.names = failure :: m.env.names := by
    rw [Environment.names, hstart, List.map_cons, hold]
  exact hnames ▸ List.suffix_cons failure m.env.names

end Machine

namespace Eval

variable {run : JobRunner} {body handler : Block} {failure : String} {m after : Machine}

/-- A guarded block whose body has no fault ends as its body and is rolled back. -/
theorem executeTry_of_no_fault
    (h : ∀ fault, Outcome.stop? (executeBlock run body m) ≠ some (.failed (.running fault))) :
    executeTry run body failure handler m =
      Outcome.mapMachine (·.rollback m.env.mark) (executeBlock run body m) := by
  unfold executeTry
  dsimp only
  generalize executeBlock run body m = r at h ⊢
  cases r with
  | ok flow after => rfl
  | error stop after =>
    cases stop with
    | exhausted => rfl
    | failed failure =>
      cases failure with
      | io _ | lexical _ | syntactic _ | loop _ => rfl
      | running fault => exact absurd rfl (h fault)

/-- A guarded block whose body has a fault ends as its handler and is rolled back. -/
theorem executeTry_of_fault {fault : Fault} (hfatal : fault.isFatal = false)
    (h : executeBlock run body m = .error (.failed (.running fault)) after) :
    executeTry run body failure handler m =
      Outcome.mapMachine (·.rollback m.env.mark)
        (executeBlock run handler (Machine.recover failure fault m after)) := by
  unfold executeTry
  dsimp only
  rw [h]
  dsimp only
  rw [hfatal]
  rfl

end Eval

namespace Outcome

/-- An outcome is a fault or not. -/
theorem fault_or_none {α : Type} (outcome : Outcome α) :
    (∃ fault after, outcome = .error (.failed (.running fault)) after) ∨
      ∀ fault, outcome.stop? ≠ some (.failed (.running fault)) := by
  by_cases h : ∃ fault, outcome.stop? = some (.failed (.running fault))
  · obtain ⟨fault, hstop⟩ := h
    cases outcome with
    | ok value after => cases hstop
    | error stop after =>
      cases hstop
      exact .inl ⟨fault, after, rfl⟩
  · exact .inr fun fault hstop => h ⟨fault, hstop⟩

/-- Rolling back the machine of an outcome restores the names that are still there, keeps the
values of their bindings, and does not touch why the outcome stopped. -/
theorem rollback_spec {α : Type} {m : Machine} {last : Outcome α}
    (h : m.env.names <:+ last.machine.env.names) :
    let outcome := last.mapMachine (·.rollback m.env.mark)
    outcome.machine.env.names = m.env.names ∧
      outcome.machine.env.bindings <:+ last.machine.env.bindings ∧ outcome.stop? = last.stop? := by
  cases last with
  | ok value after =>
    exact ⟨Environment.names_restore h, Machine.bindings_rollback _ after, rfl⟩
  | error stop after =>
    exact ⟨Environment.names_restore h, Machine.bindings_rollback _ after, rfl⟩

end Outcome

/-- However a guarded block ends, the names of all variables are those before it, and the bindings
are the ones that the block that ran last left behind. That block is the body, and then it had no
fault, or it is the handler, which started from the bindings before and one for the fault of the
body, in the scopes, calls and loops before. So a fault leaves the statement only if the handler
ended with it. -/
theorem guarded_block_recovers (depth : Nat) (m : Machine) (line : Nat) (body : Block)
    (failure : String) (handler : Block) :
    let run : JobRunner := fun job => Job.perform depth job
    let outcome : Outcome Flow :=
      Job.perform (depth + 1) (.execute (.attempt line body failure handler)) m
    (Outcome.machine outcome).env.names = m.env.names ∧
    (∃ last : Outcome Flow,
      outcome = Outcome.mapMachine (·.rollback m.env.mark) last ∧
      (Outcome.machine outcome).env.bindings <:+ (Outcome.machine last).env.bindings ∧
      ((last = Eval.executeBlock run body m ∧
          ∀ fault, Outcome.stop? last ≠ some (.failed (.running fault))) ∨
        ∃ fault after start,
          Eval.executeBlock run body m = .error (.failed (.running fault)) after ∧
          Machine.Recovered failure fault m after start ∧
          last = Eval.executeBlock run handler start)) ∧
    ∀ fault, Outcome.stop? outcome = some (.failed (.running fault)) →
      ∃ raised after start,
        Eval.executeBlock run body m = .error (.failed (.running raised)) after ∧
        Machine.Recovered failure raised m after start ∧
        Outcome.stop? (Eval.executeBlock run handler start) =
          some (.failed (.running fault)) := by
  intro run outcome
  have hbody := Eval.changed_executeBlock depth body m
  rcases Outcome.fault_or_none (Eval.executeBlock run body m) with ⟨raised, after, hraised⟩ | hnone
  · have hchanged : Machine.Changed .stmt m after := by
      rw [hraised] at hbody
      exact hbody
    have hstart := Machine.recovered_recover hchanged failure raised
    have houtcome : outcome = Outcome.mapMachine (·.rollback m.env.mark)
        (Eval.executeBlock run handler (Machine.recover failure raised m after)) :=
      Eval.executeTry_of_fault (Eval.isFatal_of_executeBlock hraised) hraised
    have hlast := Eval.changed_executeBlock depth handler (Machine.recover failure raised m after)
    obtain ⟨hnames, hbindings, hstop⟩ := Outcome.rollback_spec (hstart.suffix.trans hlast.2.1)
    rw [← houtcome] at hnames hbindings hstop
    refine ⟨hnames, ⟨_, houtcome, hbindings, .inr ⟨raised, after, _, hraised, hstart, rfl⟩⟩, ?_⟩
    exact fun fault hfault => ⟨raised, after, _, hraised, hstart, hstop.symm.trans hfault⟩
  · have houtcome : outcome = Outcome.mapMachine (·.rollback m.env.mark)
        (Eval.executeBlock run body m) := Eval.executeTry_of_no_fault hnone
    obtain ⟨hnames, hbindings, hstop⟩ := Outcome.rollback_spec hbody.2.1
    rw [← houtcome] at hnames hbindings hstop
    refine ⟨hnames, ⟨_, houtcome, hbindings, .inl ⟨rfl, hnone⟩⟩, ?_⟩
    exact fun fault hfault => absurd (hstop.symm.trans hfault) (hnone fault)

end DecimalScript
