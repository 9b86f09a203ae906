import DecimalScript.Eval.Watch
import DecimalScript.Proofs.Scopes

/-!
# What evaluation leaves as it was

Evaluation keeps the open scopes, the calls and loops in progress, the limits, the
directory, the modules being loaded and the files. An expression also keeps the names of
all variables, a statement adds names in front of them, and only the turns of a loop
touch the context of that loop.
-/

namespace DecimalScript

/-- The part of a machine that faces the outside. -/
structure Console where
  /-- Where printed text goes. -/
  output : Sink
  /-- Where reports go. -/
  errors : Sink
  /-- The input that was not read yet. -/
  input : List UInt8
  /-- What is drawn at random. -/
  draws : Draws
  /-- The identity of the next lambda. -/
  nextLambda : Nat

/-- A machine with another console. -/
def Machine.withConsole (m : Machine) (c : Console) : Machine := { m with
  output := c.output, errors := c.errors, input := c.input, draws := c.draws
  nextLambda := c.nextLambda }

/-- How much of a machine a part of an evaluation may change. -/
inductive Reach where
  /-- What the evaluation of an expression may. -/
  | value
  /-- What the execution of a statement may. -/
  | stmt
  /-- What entering a turn of the innermost loop may. -/
  | turn
  /-- What the turns of the innermost loop may. -/
  | loop

/-- How much of a machine a job may change. -/
def Job.reach {α : Type} : Job α → Reach
  | .evaluate _ => .value
  | .execute _ => .stmt

namespace Loop

/-- Contexts without the value of the current turn of the innermost loop. -/
def steady : List Context → List Context
  | [] => []
  | context :: rest => { context with current := context.start } :: rest

/-- Contexts that differ in the value of a turn only are inside the same loops. -/
theorem tail_eq_of_steady {contexts after : List Context} (h : steady after = steady contexts) :
    after.tail = contexts.tail := by
  cases contexts with
  | nil =>
    cases after with
    | nil => rfl
    | cons context rest => cases h
  | cons context rest =>
    cases after with
    | nil => cases h
    | cons context' rest' => exact (List.cons.inj h).2

/-- Noting the value of a turn changes nothing else of the contexts. -/
theorem steady_advance (loops : Stack) (current : Number) :
    steady (loops.advance current).contexts = steady loops.contexts := by
  unfold Stack.advance
  split
  · rfl
  · rename_i context rest hcontexts
    rw [hcontexts]
    rfl

namespace Stack

/-- Noting the value of a turn changes neither limits nor counts. -/
theorem limits_advance (loops : Stack) (current : Number) :
    (loops.advance current).limits = loops.limits := by
  unfold advance
  split <;> rfl

/-- Nor does it change what was counted. -/
theorem statistics_advance (loops : Stack) (current : Number) :
    (loops.advance current).statistics = loops.statistics := by
  unfold advance
  split <;> rfl

/-- What is known of the loops when one was entered. -/
theorem push_ok {loops entered : Stack} {context : Context}
    (h : loops.push context = .ok entered) :
    entered.limits = loops.limits ∧ entered.statistics.errors = loops.statistics.errors ∧
      ∃ first, entered.contexts = first :: loops.contexts ∧ first.turns = context.turns ∧
        first.maxTurns = loops.limits.maxIterations := by
  unfold push at h
  split at h
  · cases h
  · cases h
    exact ⟨rfl, rfl, _, rfl, rfl, rfl⟩

/-- What is known of the loops when a turn was counted. -/
theorem tick_ok {loops ticked : Stack} (h : loops.tick = .ok ticked) :
    ticked.limits = loops.limits ∧ ticked.statistics.errors = loops.statistics.errors ∧
      ticked.contexts.tail = loops.contexts.tail ∧
      ∀ context rest, loops.contexts = context :: rest → context.turns < context.maxTurns ∧
        ticked.contexts = { context with turns := context.turns + 1 } :: rest := by
  unfold tick at h
  split at h
  · rename_i hcontexts
    cases h
    refine ⟨rfl, rfl, rfl, fun context rest hcons => ?_⟩
    rw [hcontexts] at hcons
    cases hcons
  · rename_i first others hcontexts
    split at h
    · cases h
    · rename_i hroom
      cases h
      refine ⟨rfl, rfl, by rw [hcontexts]; rfl, fun context rest hcons => ?_⟩
      rw [hcontexts] at hcons
      cases hcons
      exact ⟨Nat.lt_of_not_le hroom, rfl⟩

/-- The innermost loop has fewer turns left than a bound. -/
def LeavesTurns (loops : Stack) (bound : Nat) : Prop :=
  ∃ context rest, loops.contexts = context :: rest ∧ context.turns ≤ context.maxTurns ∧
    context.maxTurns < context.turns + bound

/-- A loop that was entered leaves fewer turns than one more than the limit. -/
theorem leavesTurns_push {loops entered : Stack} {context : Context}
    (h : loops.push context = .ok entered) (hturns : context.turns = 0) :
    entered.LeavesTurns (loops.limits.maxIterations + 1) := by
  obtain ⟨_, _, first, hcontexts, hfirst, hmax⟩ := push_ok h
  exact ⟨first, loops.contexts, hcontexts, by omega, by omega⟩

/-- A turn that was counted leaves one turn less. -/
theorem LeavesTurns.tick {loops ticked : Stack} {bound : Nat}
    (h : loops.LeavesTurns (bound + 1)) (htick : loops.tick = .ok ticked) :
    ticked.LeavesTurns bound := by
  obtain ⟨context, rest, hcontexts, hle, hlt⟩ := h
  obtain ⟨hroom, hticked⟩ := (tick_ok htick).2.2.2 context rest hcontexts
  exact ⟨_, rest, hticked, hroom, by show context.maxTurns < context.turns + 1 + bound; omega⟩

/-- The value of the current turn does not matter to the turns that are left. -/
theorem LeavesTurns.of_steady {loops after : Stack} {bound : Nat} (h : loops.LeavesTurns bound)
    (hsteady : steady after.contexts = steady loops.contexts) : after.LeavesTurns bound := by
  obtain ⟨context, rest, hcontexts, hle, hlt⟩ := h
  rw [hcontexts] at hsteady
  cases hafter : after.contexts with
  | nil =>
    rw [hafter] at hsteady
    cases hsteady
  | cons first others =>
    rw [hafter] at hsteady
    simp only [steady, List.cons.injEq, Context.mk.injEq] at hsteady
    exact ⟨first, others, hafter, by omega, by omega⟩

/-- Leaving loops down to as many as there are leaves none. -/
theorem unwindTo_of_depth {loops : Stack} {depth : Nat} (h : loops.depth = depth) :
    loops.unwindTo depth = loops := by
  unfold unwindTo
  rw [h, Nat.sub_self, List.drop_zero]

end Stack

end Loop

namespace Machine

/-- A machine has as many calls and loops in progress as its limits allow, no loop has taken more
turns than it may, and every loop may take the turns of the limits in force. -/
def WithinLimits (m : Machine) : Prop :=
  m.callDepth ≤ m.maxCallDepth ∧ m.loops.depth ≤ m.loops.limits.maxDepth ∧
    ∀ context ∈ m.loops.contexts,
      context.turns ≤ context.maxTurns ∧ context.maxTurns = m.loops.limits.maxIterations

instance (m : Machine) : Decidable m.WithinLimits :=
  inferInstanceAs (Decidable (_ ∧ _ ∧ _))

/-- A machine that has run nothing yet. -/
structure IsFresh (m : Machine) : Prop where
  env : m.env = {}
  functions : m.functions = []
  modules : m.modules = []
  contexts : m.loops.contexts = []
  statistics : m.loops.statistics = {}
  callDepth : m.callDepth = 0
  loading : m.loading = []

/-- A fresh machine has no call or loop in progress. -/
theorem IsFresh.withinLimits {m : Machine} (h : m.IsFresh) : m.WithinLimits := by
  refine ⟨?_, ?_, fun context hcontext => ?_⟩
  · rw [h.callDepth]
    exact Nat.zero_le _
  · rw [Loop.Stack.depth, h.contexts]
    exact Nat.zero_le _
  · rw [h.contexts] at hcontext
    cases hcontext

/-- What evaluation keeps of a machine. -/
structure Kept (m after : Machine) : Prop where
  scopes : after.env.scopes = m.env.scopes
  callDepth : after.callDepth = m.callDepth
  maxCallDepth : after.maxCallDepth = m.maxCallDepth
  limits : after.loops.limits = m.loops.limits
  baseDir : after.baseDir = m.baseDir
  loading : after.loading = m.loading
  files : after.files = m.files
  output : after.output.toDevice = m.output.toDevice
  errors : after.errors.toDevice = m.errors.toDevice

namespace Kept

/-- A machine keeps its own bookkeeping. -/
theorem refl (m : Machine) : Kept m m := ⟨rfl, rfl, rfl, rfl, rfl, rfl, rfl, rfl, rfl⟩

/-- What is kept in each of two steps is kept in both. -/
theorem trans {a b c : Machine} (h : Kept a b) (h' : Kept b c) : Kept a c where
  scopes := h'.scopes.trans h.scopes
  callDepth := h'.callDepth.trans h.callDepth
  maxCallDepth := h'.maxCallDepth.trans h.maxCallDepth
  limits := h'.limits.trans h.limits
  baseDir := h'.baseDir.trans h.baseDir
  loading := h'.loading.trans h.loading
  files := h'.files.trans h.files
  output := h'.output.trans h.output
  errors := h'.errors.trans h.errors

end Kept

/-- What evaluation changes of a machine, by its reach. -/
def Changed : Reach → Machine → Machine → Prop
  | .value, m, after =>
    Kept m after ∧ after.env.names = m.env.names ∧ after.loops.contexts = m.loops.contexts
  | .stmt, m, after =>
    Kept m after ∧ m.env.names <:+ after.env.names ∧ after.loops.contexts = m.loops.contexts
  | .turn, m, after =>
    Kept m after ∧ m.env.names <:+ after.env.names ∧
      Loop.steady after.loops.contexts = Loop.steady m.loops.contexts
  | .loop, m, after =>
    Kept m after ∧ m.env.names <:+ after.env.names ∧
      after.loops.contexts.tail = m.loops.contexts.tail

namespace Changed

/-- No change is one of any reach. -/
theorem refl (reach : Reach) (m : Machine) : Changed reach m m := by
  cases reach with
  | value => exact ⟨.refl m, rfl, rfl⟩
  | stmt | turn | loop => exact ⟨.refl m, List.suffix_refl _, rfl⟩

/-- Changes of a reach add up to one of it. -/
theorem trans {reach : Reach} {a b c : Machine} (h : Changed reach a b)
    (h' : Changed reach b c) : Changed reach a c := by
  cases reach with
  | value => exact ⟨h.1.trans h'.1, h'.2.1.trans h.2.1, h'.2.2.trans h.2.2⟩
  | stmt | turn | loop => exact ⟨h.1.trans h'.1, h.2.1.trans h'.2.1, h'.2.2.trans h.2.2⟩

/-- Whatever the reach of a change, the bookkeeping is kept. -/
theorem kept {reach : Reach} {m after : Machine} (h : Changed reach m after) : Kept m after := by
  cases reach with
  | value | stmt | turn | loop => exact h.1

/-- A statement may change what an expression may. -/
theorem stmt_of_value {m after : Machine} (h : Changed .value m after) : Changed .stmt m after :=
  ⟨h.1, h.2.1 ▸ List.suffix_refl _, h.2.2⟩

/-- A turn may change what a statement may. -/
theorem turn_of_stmt {m after : Machine} (h : Changed .stmt m after) : Changed .turn m after :=
  ⟨h.1, h.2.1, congrArg Loop.steady h.2.2⟩

/-- A loop may change what a turn may. -/
theorem loop_of_turn {m after : Machine} (h : Changed .turn m after) : Changed .loop m after :=
  ⟨h.1, h.2.1, Loop.tail_eq_of_steady h.2.2⟩

/-- An expression changes as little as anything does. -/
theorem of_value {reach : Reach} {m after : Machine} (h : Changed .value m after) :
    Changed reach m after := by
  cases reach with
  | value => exact h
  | stmt => exact h.stmt_of_value
  | turn => exact h.stmt_of_value.turn_of_stmt
  | loop => exact h.stmt_of_value.turn_of_stmt.loop_of_turn

end Changed

/-- Noting the value of a turn touches the context of the innermost loop only. -/
theorem changed_advance (m : Machine) (current : Number) :
    Changed .turn m { m with loops := m.loops.advance current } :=
  ⟨⟨rfl, rfl, rfl, Loop.Stack.limits_advance _ _, rfl, rfl, rfl, rfl, rfl⟩, List.suffix_refl _,
    Loop.steady_advance _ _⟩

end Machine

/-- The watch that refuses jobs that do not begin and end within the limits. -/
def Watch.limits : Watch := fun m _ after => decide (m.WithinLimits ∧ after.WithinLimits)

end DecimalScript
