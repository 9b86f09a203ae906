import DecimalScript.Loop.InPlace

/-!
# What loops keep of their history

An operation on a stack of loops does one of five things: it leaves loops, possibly none, notes a
value in the innermost loop, counts a turn of it, enters a loop, or records an error. From this
follows what it changes in the accounts, and by induction what the statistics tell of all
operations that were performed. A counter is never greater than the number of operations, so it
has room in its word.
-/

namespace DecimalScript

namespace Loop

/-- An operation that the statistics need not notice. -/
structure Deed.Silent (deed : Deed) : Prop where
  /-- No loop is entered. -/
  enters : deed.enters = false
  /-- No turn is counted. -/
  counts : deed.counts = false
  /-- No error is recorded. -/
  records : deed.records = false
  /-- No loop is begun. -/
  begun : deed.begun = []

/-- What an operation does to a stack. -/
inductive Deed.Effect : Deed → Stack → Prop
  /-- Loops are left, or nothing happens. -/
  | dropped {deed : Deed} (count : Nat) (h : deed.Silent) :
      Effect deed { deed.before with contexts := deed.before.contexts.drop count }
  /-- A value is noted in the innermost loop. -/
  | noted {deed : Deed} {context : Context} {rest : List Context} (current : Number)
      (h : deed.Silent) (hcontexts : deed.before.contexts = context :: rest) :
      Effect deed { deed.before with contexts := { context with current } :: rest }
  /-- A turn of the innermost loop is counted. -/
  | ticked {loops : Stack} {context : Context} {rest : List Context}
      (hcounts : Deed.counts ⟨loops, .tick⟩ = true) (hcontexts : loops.contexts = context :: rest)
      (hroom : context.turns < context.maxTurns) :
      Effect ⟨loops, .tick⟩ { loops with
        contexts := { context with turns := context.turns + 1 } :: rest
        statistics := { loops.statistics with iterations := loops.statistics.iterations + 1 } }
  /-- A loop is entered. -/
  | entered {loops : Stack} {name : String} {start stop step : Number} {line : Nat}
      (haccepted : Deed.accepted ⟨loops, .push name start stop step line⟩ = true)
      (hroom : loops.depth < loops.limits.maxDepth) :
      Effect ⟨loops, .push name start stop step line⟩ { loops with
        contexts := loops.opened (.begin name start stop step line) :: loops.contexts
        statistics := { loops.statistics with
          entered := loops.statistics.entered + 1
          maxDepth := max loops.statistics.maxDepth (loops.depth + 1) } }
  /-- An error is recorded. -/
  | recorded {loops : Stack} : Effect ⟨loops, .recordError⟩ loops.recordError

namespace Stack

variable {loops : Stack}

/-- An accepted operation leads to the stack that it gives. -/
theorem after_of_ok {after : Stack} {op : Operation} (h : loops.perform op = .ok after) :
    loops.after op = after := by
  rw [Stack.after, h]

/-- A refused operation leaves the stack as it was. -/
theorem after_of_error {op : Operation} {fault : LoopFault}
    (h : loops.perform op = .error fault) : loops.after op = loops := by
  rw [Stack.after, h]

end Stack

namespace Deed

/-- Every operation has one of the effects. -/
theorem effect (deed : Deed) : deed.Effect deed.after := by
  obtain ⟨loops, op⟩ := deed
  cases op with
  | push name start stop step line =>
    -- A refused operation has the effect of one that leaves no loop.
    by_cases hroom : loops.depth < loops.limits.maxDepth
    · have hperform : loops.perform (.push name start stop step line) = .ok _ :=
        Stack.push_of_room hroom
      have haccepted : Deed.accepted ⟨loops, .push name start stop step line⟩ = true := by
        rw [accepted, hperform]
        rfl
      rw [after, Stack.after_of_ok hperform]
      exact .entered haccepted hroom
    · have hperform : loops.perform (.push name start stop step line) = .error _ :=
        Stack.push_of_full (Nat.le_of_not_lt hroom)
      have haccepted : Deed.accepted ⟨loops, .push name start stop step line⟩ = false := by
        rw [accepted, hperform]
        rfl
      rw [after, Stack.after_of_error hperform]
      exact .dropped 0 ⟨haccepted, rfl, rfl, if_neg (by simp [haccepted])⟩
  | pop =>
    rw [after, Stack.after_of_ok rfl, Stack.pop, ← List.drop_one]
    exact .dropped 1 ⟨rfl, rfl, rfl, rfl⟩
  | tick =>
    cases hcontexts : loops.contexts with
    | nil =>
      have hcounts : Deed.counts ⟨loops, .tick⟩ = false := by
        rw [counts, hcontexts]
        exact Bool.and_false _
      have hperform : loops.perform .tick = .ok loops := Stack.tick_of_nil hcontexts
      rw [after, Stack.after_of_ok hperform]
      exact .dropped 0 ⟨rfl, hcounts, rfl, rfl⟩
    | cons context rest =>
      by_cases hroom : context.turns < context.maxTurns
      · have hperform : loops.perform .tick = .ok _ := Stack.tick_of_room hcontexts hroom
        have hcounts : Deed.counts ⟨loops, .tick⟩ = true := by
          rw [counts, accepted, hperform, hcontexts]
          rfl
        rw [after, Stack.after_of_ok hperform]
        exact .ticked hcounts hcontexts hroom
      · have hperform : loops.perform .tick = .error _ :=
          Stack.tick_of_full hcontexts (Nat.le_of_not_lt hroom)
        have hcounts : Deed.counts ⟨loops, .tick⟩ = false := by
          rw [counts, accepted, hperform]
          rfl
        rw [after, Stack.after_of_error hperform]
        exact .dropped 0 ⟨rfl, hcounts, rfl, rfl⟩
  | advance current =>
    have hsilent : Deed.Silent ⟨loops, .advance current⟩ := ⟨rfl, rfl, rfl, rfl⟩
    rw [after, Stack.after_of_ok rfl, Stack.advance]
    cases hcontexts : loops.contexts with
    | nil => exact .dropped 0 hsilent
    | cons context rest => exact .noted current hsilent hcontexts
  | recordError =>
    rw [after, Stack.after_of_ok rfl]
    exact .recorded
  | unwindTo depth =>
    rw [after, Stack.after_of_ok rfl, Stack.unwindTo]
    exact .dropped _ ⟨rfl, rfl, rfl, rfl⟩

/-! ### Accounts -/

/-- Loops that are left stand in front of those that stay. -/
theorem left_append {deed : Deed} {after : Stack} {count : Nat}
    (h : after.contexts = deed.before.contexts.drop count) :
    deed.before.contexts.take (deed.before.depth - after.depth) ++ after.contexts =
      deed.before.contexts := by
  by_cases hle : count ≤ deed.before.depth
  · have hcount : deed.before.depth - after.depth = count := by
      rw [Stack.depth, Stack.depth, h, List.length_drop]
      exact Nat.sub_sub_self hle
    rw [hcount, h, List.take_append_drop]
  · have hnone : after.contexts = [] := by
      rw [h, List.drop_eq_nil_iff]
      exact Nat.le_of_not_le hle
    rw [hnone, Stack.depth, Stack.depth, hnone, List.append_nil]
    exact List.take_length

/-- No loop is left where the depth does not shrink. -/
theorem left_of_length {deed : Deed} {after : Stack} (h : deed.before.depth ≤ after.depth) :
    deed.before.contexts.take (deed.before.depth - after.depth) = [] := by
  rw [Nat.sub_eq_zero_of_le h, List.take_zero]

/-- One for what happens and nothing for what does not. -/
def one (happens : Bool) : Nat := if happens then 1 else 0

/-- What an operation changes in the accounts. -/
structure Settles (deed : Deed) (after : Stack) (left : List Context) : Prop where
  /-- The limits stay. -/
  limits : after.limits = deed.before.limits
  /-- A loop that is entered counts. -/
  entered : after.statistics.entered = deed.before.statistics.entered + one deed.enters
  /-- A turn that is taken counts. -/
  iterations : after.statistics.iterations = deed.before.statistics.iterations + one deed.counts
  /-- An error that is recorded counts. -/
  errors : after.statistics.errors = deed.before.statistics.errors + one deed.records
  /-- The loops that are left or stay are those there were and the one that is begun. -/
  ever : ((left ++ after.contexts).map Context.unbegun).Perm
    (deed.before.contexts.map Context.unbegun ++ deed.begun)
  /-- They have taken the turns there were and the one that is counted. -/
  turns : turnsTaken (left ++ after.contexts) =
    turnsTaken deed.before.contexts + one deed.counts
  /-- Either the depth is greater than before, or the greatest depth stays. -/
  maxDepth : after.statistics.maxDepth = max deed.before.statistics.maxDepth after.depth ∨
    after.depth ≤ deed.before.depth ∧
      after.statistics.maxDepth = deed.before.statistics.maxDepth

/-- An operation that changes no statistics settles if no loop is changed but in its value. -/
theorem Silent.settles {deed : Deed} (h : deed.Silent) {contexts left : List Context}
    (hever : (left ++ contexts).map Context.unbegun = deed.before.contexts.map Context.unbegun)
    (hturns : turnsTaken (left ++ contexts) = turnsTaken deed.before.contexts)
    (hdepth : contexts.length ≤ deed.before.depth) :
    deed.Settles { deed.before with contexts } left where
  limits := rfl
  entered := by rw [h.enters]; rfl
  iterations := by rw [h.counts]; rfl
  errors := by rw [h.records]; rfl
  ever := by rw [hever, h.begun, List.append_nil]
  turns := by rw [hturns, h.counts]; rfl
  maxDepth := .inr ⟨hdepth, rfl⟩

/-- Whatever its effect, a deed settles with the loops that it left. -/
theorem Effect.settles {deed : Deed} {after : Stack} (h : deed.Effect after) :
    deed.Settles after (deed.before.contexts.take (deed.before.depth - after.depth)) := by
  cases h with
  | dropped count hsilent =>
    have happend : deed.before.contexts.take (deed.before.depth -
        Stack.depth { deed.before with contexts := deed.before.contexts.drop count }) ++
        deed.before.contexts.drop count = deed.before.contexts := left_append rfl
    refine hsilent.settles (congrArg _ happend) (congrArg _ happend) ?_
    exact Nat.le_trans (Nat.le_of_eq (List.length_drop ..)) (Nat.sub_le _ _)
  | @noted _ context rest current hsilent hcontexts =>
    have hdepth : deed.before.depth = rest.length + 1 := congrArg List.length hcontexts
    rw [left_of_length (Nat.le_of_eq hdepth)]
    refine hsilent.settles ?_ ?_ (Nat.le_of_eq hdepth.symm)
    · rw [hcontexts]
      rfl
    · rw [hcontexts]
      rfl
  | @ticked loops context rest hcounts hcontexts hroom =>
    have hdepth : loops.depth = rest.length + 1 := congrArg List.length hcontexts
    rw [left_of_length (Nat.le_of_eq hdepth)]
    refine ⟨rfl, rfl, ?_, rfl, ?_, ?_, .inr ⟨Nat.le_of_eq hdepth.symm, rfl⟩⟩
    · rw [hcounts]
      rfl
    · show List.Perm _ (loops.contexts.map _ ++ [])
      rw [List.append_nil, hcontexts]
      exact .refl _
    · rw [hcounts]
      show context.turns + 1 + turnsTaken rest = turnsTaken loops.contexts + 1
      rw [hcontexts, turnsTaken]
      omega
  | @entered loops name start stop step line haccepted hroom =>
    rw [left_of_length (Nat.le_succ _)]
    have hbegun : begun ⟨loops, .push name start stop step line⟩ =
        [.begin name start stop step line] := if_pos haccepted
    refine ⟨rfl, ?_, rfl, rfl, ?_, ?_, .inl rfl⟩
    · rw [show enters ⟨loops, .push name start stop step line⟩ = true from haccepted]
      rfl
    · rw [hbegun]
      exact (List.perm_append_singleton _ _).symm
    · exact Nat.zero_add _
  | @recorded loops =>
    rw [left_of_length (Nat.le_refl loops.depth : loops.depth ≤ loops.recordError.depth)]
    refine ⟨rfl, rfl, rfl, rfl, ?_, rfl, .inr ⟨Nat.le_refl _, rfl⟩⟩
    show List.Perm _ (loops.contexts.map _ ++ [])
    rw [List.append_nil]
    exact .refl _

end Deed

/-! ### Nesting -/

/-- All loops of a stack are nested in its order, which lists the innermost one first. -/
def AllNested (limits : Limits) (contexts : List Context) : Prop :=
  ∀ (i : Nat) (context : Context), contexts.reverse[i]? = some context → context.Nested limits i

variable {limits : Limits}

/-- A stack is nested if its innermost loop has the position that is the number of the others. -/
theorem allNested_cons_iff {context : Context} {rest : List Context} :
    AllNested limits (context :: rest) ↔
      context.Nested limits rest.length ∧ AllNested limits rest := by
  have hlength : rest.reverse.length = rest.length := List.length_reverse
  unfold AllNested
  rw [List.reverse_cons]
  constructor
  · intro h
    refine ⟨h rest.length context ?_, fun i inner hinner => h i inner ?_⟩
    · rw [← hlength, List.getElem?_concat_length]
    · have hlt := (List.getElem?_eq_some_iff.mp hinner).1
      rw [List.getElem?_append_left hlt, hinner]
  · rintro ⟨hfirst, hrest⟩ i inner hinner
    by_cases hlt : i < rest.reverse.length
    · rw [List.getElem?_append_left hlt] at hinner
      exact hrest i inner hinner
    · have hi : i < (rest.reverse ++ [context]).length := (List.getElem?_eq_some_iff.mp hinner).1
      rw [List.length_append, List.length_singleton] at hi
      obtain rfl : i = rest.reverse.length := by omega
      rw [List.getElem?_concat_length, Option.some.injEq] at hinner
      rw [← hinner, hlength]
      exact hfirst

/-- What is left of properly nested loops is properly nested. -/
theorem AllNested.drop {contexts : List Context} (h : AllNested limits contexts) (count : Nat) :
    AllNested limits (contexts.drop count) := by
  induction contexts generalizing count with
  | nil => rwa [List.drop_nil]
  | cons context rest ih =>
    cases count with
    | zero => exact h
    | succ count => exact ih (allNested_cons_iff.mp h).2 count

namespace Deed

variable {deed : Deed} {after : Stack}

/-- The loops stay nested. -/
theorem Effect.nested (h : deed.Effect after) (hlimits : deed.before.limits = limits)
    (hnested : AllNested limits deed.before.contexts) : AllNested limits after.contexts := by
  cases h with
  | dropped count => exact hnested.drop count
  | noted current _ hcontexts =>
    rw [hcontexts, allNested_cons_iff] at hnested
    obtain ⟨hfirst, hrest⟩ := hnested
    exact allNested_cons_iff.mpr ⟨⟨hfirst.parent, hfirst.maxTurns, hfirst.turns⟩, hrest⟩
  | ticked _ hcontexts hroom =>
    rw [hcontexts, allNested_cons_iff] at hnested
    obtain ⟨hfirst, hrest⟩ := hnested
    rw [hfirst.maxTurns] at hroom
    exact allNested_cons_iff.mpr ⟨⟨hfirst.parent, hfirst.maxTurns, hroom⟩, hrest⟩
  | entered => exact allNested_cons_iff.mpr ⟨⟨rfl, by rw [← hlimits]; rfl, Nat.zero_le _⟩, hnested⟩
  | recorded => exact hnested

/-- The loops do not become too many. -/
theorem Effect.depth_le (h : deed.Effect after) (hlimits : deed.before.limits = limits)
    (hdepth : deed.before.depth ≤ limits.maxDepth) : after.depth ≤ limits.maxDepth := by
  cases h with
  | dropped count =>
    refine Nat.le_trans ?_ hdepth
    exact Nat.le_trans (Nat.le_of_eq (List.length_drop ..)) (Nat.sub_le _ _)
  | noted current _ hcontexts | ticked _ hcontexts =>
    rw [Stack.depth, hcontexts] at hdepth
    exact hdepth
  | entered _ hroom =>
    rw [hlimits] at hroom
    exact hroom
  | recorded => exact hdepth

end Deed

/-! ### Runs -/

/-- Turns of loops in a row add up. -/
@[simp] theorem turnsTaken_append (contexts others : List Context) :
    turnsTaken (contexts ++ others) = turnsTaken contexts + turnsTaken others := by
  induction contexts with
  | nil => exact (Nat.zero_add _).symm
  | cons context rest ih => rw [List.cons_append, turnsTaken, turnsTaken, ih, Nat.add_assoc]

/-- With one more deed, the loops ever entered are those left by then and those still open. -/
theorem everEntered_concat (past : List Deed) (deed : Deed) :
    everEntered (past ++ [deed]) deed.after =
      past.flatMap Deed.left ++ (deed.left ++ deed.after.contexts) := by
  rw [everEntered, List.flatMap_append, List.flatMap_singleton, List.append_assoc]

/-- With one more deed, there is one more state. -/
theorem states_concat (past : List Deed) (deed : Deed) :
    states (past ++ [deed]) deed.after = states past deed.before ++ [deed.after] := by
  rw [states, List.map_append]
  rfl

/-- With one more deed, the count of deeds of a kind grows by one or by none. -/
theorem countP_concat (p : Deed → Bool) (past : List Deed) (deed : Deed) :
    (past ++ [deed]).countP p = past.countP p + Deed.one (p deed) := by
  rw [List.countP_append, List.countP_singleton]
  rfl

/-- After one more operation the greatest depth is still that of all states. -/
theorem maxDepth_step {past : List Deed} {deed : Deed} {left : List Context}
    (hsettles : deed.Settles deed.after left)
    (hle : ∀ loops ∈ states past deed.before, loops.depth ≤ deed.before.statistics.maxDepth)
    (hdeepest : ∃ loops ∈ states past deed.before,
      loops.depth = deed.before.statistics.maxDepth) :
    (∀ loops ∈ states (past ++ [deed]) deed.after,
      loops.depth ≤ deed.after.statistics.maxDepth) ∧
    ∃ loops ∈ states (past ++ [deed]) deed.after,
      loops.depth = deed.after.statistics.maxDepth := by
  rw [states_concat, List.forall_mem_append, List.forall_mem_singleton]
  obtain ⟨deepest, hmem, hdepth⟩ := hdeepest
  -- The greatest depth is either taken over the new state too, which may then be the deepest, or it
  -- stays, and the new state is no deeper than the one before.
  rcases hsettles.maxDepth with hmax | ⟨hstays, hsame⟩
  · rw [hmax]
    refine ⟨⟨fun loops hloops => ?_, Nat.le_max_right _ _⟩, ?_⟩
    · exact Nat.le_trans (hle loops hloops) (Nat.le_max_left _ _)
    · by_cases hdeeper : deed.before.statistics.maxDepth ≤ deed.after.depth
      · exact ⟨deed.after, by simp, (Nat.max_eq_right hdeeper).symm⟩
      · refine ⟨deepest, List.mem_append_left _ hmem, ?_⟩
        rw [hdepth, Nat.max_eq_left (Nat.le_of_not_le hdeeper)]
  · rw [hsame]
    refine ⟨⟨hle, Nat.le_trans hstays (hle deed.before ?_)⟩, deepest,
      List.mem_append_left _ hmem, hdepth⟩
    exact List.mem_append_right _ (List.mem_singleton_self _)

/-- One more operation is recorded. -/
theorem Recorded.step {past : List Deed} {deed : Deed} (h : Recorded limits past deed.before) :
    Recorded limits (past ++ [deed]) deed.after := by
  have heffect := deed.effect
  have hsettles : deed.Settles deed.after deed.left := heffect.settles
  obtain ⟨hmaxDepth, hdeepest⟩ := maxDepth_step hsettles h.maxDepth h.deepest
  refine ⟨hsettles.limits.trans h.kept, heffect.depth_le h.kept h.depth,
    heffect.nested h.kept h.nested, ?_, ?_, ?_, ?_, ?_, hmaxDepth, hdeepest⟩
  · rw [countP_concat, ← h.entered, hsettles.entered]
  · rw [countP_concat, ← h.iterations, hsettles.iterations]
  · rw [countP_concat, ← h.errors, hsettles.errors]
  · rw [everEntered_concat, List.map_append, List.flatMap_append, List.flatMap_singleton]
    refine (hsettles.ever.append_left _).trans ?_
    rw [← List.append_assoc, ← List.map_append]
    exact h.ever.append_right _
  · rw [everEntered_concat, turnsTaken_append, hsettles.turns, hsettles.iterations,
      ← Nat.add_assoc, ← turnsTaken_append, ← h.turns]
    rfl

/-- Operations are recorded one after the other. -/
theorem Recorded.run {past : List Deed} {now : Stack} (h : Recorded limits past now)
    (ops : List Operation) : Recorded limits (past ++ now.deeds ops) (now.run ops) := by
  induction ops generalizing past now with
  | nil =>
    rw [Stack.deeds, List.append_nil]
    exact h
  | cons op rest ih =>
    have hstep : Recorded limits (past ++ [⟨now, op⟩]) (now.after op) := h.step
    have hrun := ih hstep
    rwa [List.append_assoc] at hrun

/-- A stack without loops has recorded nothing. -/
theorem recorded_start (limits : Limits) : Recorded limits [] { limits } where
  kept := rfl
  depth := Nat.zero_le _
  nested := by simp
  entered := rfl
  iterations := rfl
  errors := rfl
  ever := .refl _
  turns := rfl
  maxDepth := by simp [states, Stack.depth]
  deepest := ⟨_, List.mem_singleton_self _, rfl⟩

/-- There is one deed for each operation. -/
@[simp] theorem length_deeds (loops : Stack) (ops : List Operation) :
    (loops.deeds ops).length = ops.length := by
  induction ops generalizing loops with
  | nil => rfl
  | cons op rest ih => exact congrArg (· + 1) (ih _)

/-- A deed is performed on what the operations before it have led to. -/
theorem exists_of_mem_deeds {loops : Stack} {ops : List Operation} {deed : Deed}
    (h : deed ∈ loops.deeds ops) :
    ∃ earlier later, ops = earlier ++ deed.op :: later ∧ deed.before = loops.run earlier := by
  induction ops generalizing loops with
  | nil => cases h
  | cons op rest ih =>
    rcases List.mem_cons.mp h with rfl | hrest
    · exact ⟨[], rest, rfl, rfl⟩
    · obtain ⟨earlier, later, rfl, hbefore⟩ := ih hrest
      exact ⟨op :: earlier, later, rfl, hbefore⟩

/-! ### Operations in place -/

namespace InPlace

/-- A counter with room counts one more. -/
theorem countUp_of_room {n : Nat} (h : n + 1 < UInt64.size) (loops : Stack) :
    countUp n loops = .ok (n + 1) loops := by
  rw [countUp, if_pos h]
  rfl

/-- What comes after a step that succeeds starts where it ended. -/
theorem bind_of_ok {α β : Type} {body : InPlace α} {rest : α → InPlace β} {loops after : Stack}
    {a : α} (h : body loops = .ok a after) : (body >>= rest) loops = rest a after := by
  show EStateM.bind body rest loops = _
  rw [EStateM.bind, h]

/-- A step that halts ends what comes after it as well. -/
theorem bind_of_error {α β : Type} {body : InPlace α} {rest : α → InPlace β}
    {loops after : Stack} {halt : Halt} (h : body loops = .error halt after) :
    (body >>= rest) loops = .error halt after := by
  show EStateM.bind body rest loops = _
  rw [EStateM.bind, h]

/-- Reading the stack gives it. -/
theorem get_eq (loops : Stack) : (get : InPlace Stack) loops = .ok loops loops := rfl

/-- Writing the stack replaces it. -/
theorem set_eq (loops after : Stack) : (set after : InPlace Unit) loops = .ok () after := rfl

/-- A counter of the statistics with room counts one more in place. -/
theorem count_of_room {loops : Stack} {counter : Counter}
    (h : counter.read loops.statistics + 1 < UInt64.size) :
    count counter loops = .ok ()
      { loops with
        statistics := counter.write loops.statistics (counter.read loops.statistics + 1) } :=
  bind_of_ok (countUp_of_room h loops)

/-- A loop is refused in place where as many as allowed are open. -/
theorem push_of_full {loops : Stack} {context : Context}
    (h : loops.limits.maxDepth ≤ loops.depth) : push context loops =
      .error (.refused (.depthExceeded loops.limits.maxDepth context.line)) loops := by
  refine (bind_of_ok (get_eq loops)).trans ?_
  rw [if_pos h]
  rfl

/-- It is entered in place where there is room. -/
theorem push_of_room {loops : Stack} {context : Context}
    (h : loops.depth < loops.limits.maxDepth)
    (hcount : Counter.entered.read loops.statistics + 1 < UInt64.size) :
    push context loops = .ok (loops.depth + 1) { loops with
      contexts := loops.opened context :: loops.contexts
      statistics := { loops.statistics with
        entered := loops.statistics.entered + 1
        maxDepth := max loops.statistics.maxDepth (loops.depth + 1) } } := by
  refine (bind_of_ok (get_eq loops)).trans ?_
  rw [if_neg (Nat.not_le_of_lt h)]
  refine (bind_of_ok (set_eq loops _)).trans ?_
  refine (bind_of_ok (count_of_room ?_)).trans ?_
  · exact hcount
  · rfl

/-- Outside all loops, no turn is counted in place. -/
theorem tick_of_nil {loops : Stack} (hcontexts : loops.contexts = []) :
    tick loops = .ok () loops := by
  refine (bind_of_ok (get_eq loops)).trans ?_
  rw [hcontexts]
  rfl

/-- A turn is refused in place where the loop has had as many as allowed. -/
theorem tick_of_full {loops : Stack} {context : Context} {rest : List Context}
    (hcontexts : loops.contexts = context :: rest) (h : context.maxTurns ≤ context.turns) :
    tick loops = .error (.refused (.iterationLimit context.maxTurns context.line)) loops := by
  refine (bind_of_ok (get_eq loops)).trans ?_
  rw [hcontexts]
  dsimp only
  rw [if_pos h]
  rfl

/-- It is counted in place where there is room. -/
theorem tick_of_room {loops : Stack} {context : Context} {rest : List Context}
    (hcontexts : loops.contexts = context :: rest) (h : context.turns < context.maxTurns)
    (hturns : context.turns + 1 < UInt64.size)
    (hcount : Counter.iterations.read loops.statistics + 1 < UInt64.size) :
    tick loops = .ok () { loops with
      contexts := { context with turns := context.turns + 1 } :: rest
      statistics := { loops.statistics with iterations := loops.statistics.iterations + 1 } } := by
  refine (bind_of_ok (get_eq loops)).trans ?_
  rw [hcontexts]
  dsimp only
  rw [if_neg (Nat.not_le_of_lt h)]
  refine (bind_of_ok (countUp_of_room hturns loops)).trans ?_
  refine (bind_of_ok (set_eq loops _)).trans ?_
  exact count_of_room hcount

/-- The counters of a stack have room for one more. -/
structure Room (loops : Stack) : Prop where
  /-- For a loop that is entered. -/
  entered : loops.statistics.entered + 1 < UInt64.size
  /-- For a turn of any loop. -/
  iterations : loops.statistics.iterations + 1 < UInt64.size
  /-- For an error. -/
  errors : loops.statistics.errors + 1 < UInt64.size
  /-- For a turn of each loop. -/
  turns : ∀ context ∈ loops.contexts, context.turns + 1 < UInt64.size

/-- An operation in place has the result that the operation has, and a refused one changes
nothing. -/
theorem inPlace_eq {loops : Stack} (hroom : Room loops) (op : Operation) :
    op.inPlace loops = match loops.perform op with
      | .ok after => .ok () after
      | .error fault => .error (.refused fault) loops := by
  cases op with
  | push name start stop step line =>
    by_cases h : loops.depth < loops.limits.maxDepth
    · rw [Stack.perform, Stack.push_of_room h]
      exact bind_of_ok (push_of_room h hroom.entered)
    · rw [Stack.perform, Stack.push_of_full (Nat.le_of_not_lt h)]
      exact bind_of_error (push_of_full (Nat.le_of_not_lt h))
  | pop => rfl
  | tick =>
    cases hcontexts : loops.contexts with
    | nil =>
      rw [Stack.perform, Stack.tick_of_nil hcontexts]
      exact tick_of_nil hcontexts
    | cons context rest =>
      by_cases h : context.turns < context.maxTurns
      · rw [Stack.perform, Stack.tick_of_room hcontexts h]
        exact tick_of_room hcontexts h (hroom.turns context (by simp [hcontexts]))
          hroom.iterations
      · rw [Stack.perform, Stack.tick_of_full hcontexts (Nat.le_of_not_lt h)]
        exact tick_of_full hcontexts (Nat.le_of_not_lt h)
  | advance current =>
    rw [Stack.perform, Stack.advance]
    refine (bind_of_ok (get_eq loops)).trans ?_
    cases hcontexts : loops.contexts with
    | nil => rfl
    | cons context rest => rfl
  | recordError => exact count_of_room hroom.errors
  | unwindTo depth => rfl

end InPlace

/-- One loop has had no more turns than all of them. -/
theorem turns_le_turnsTaken {context : Context} {contexts : List Context}
    (h : context ∈ contexts) : context.turns ≤ turnsTaken contexts := by
  induction contexts with
  | nil => cases h
  | cons first rest ih =>
    rw [turnsTaken]
    rcases List.mem_cons.mp h with rfl | hrest
    · exact Nat.le_add_right _ _
    · exact Nat.le_trans (ih hrest) (Nat.le_add_left _ _)

/-- What counts operations has room for one more as long as their number has. -/
theorem Recorded.room {past : List Deed} {now : Stack} (h : Recorded limits past now)
    (hpast : past.length + 1 < UInt64.size) : InPlace.Room now := by
  have hcount (p : Deed → Bool) : past.countP p + 1 < UInt64.size :=
    Nat.lt_of_le_of_lt (Nat.succ_le_succ List.countP_le_length) hpast
  have hiterations : now.statistics.iterations + 1 < UInt64.size := h.iterations ▸ hcount _
  refine ⟨h.entered ▸ hcount _, hiterations, h.errors ▸ hcount _, fun context hcontext => ?_⟩
  have hturns : context.turns ≤ now.statistics.iterations := by
    rw [← h.turns, everEntered, turnsTaken_append]
    exact Nat.le_trans (turns_le_turnsTaken hcontext) (Nat.le_add_left _ _)
  exact Nat.lt_of_le_of_lt (Nat.succ_le_succ hturns) hiterations

/-- What a stack of loops keeps of all operations that were performed on it: the loops are nested
within the limits, and the statistics count what was entered, turned and recorded, also of loops
that have been left. Performed in place, a refused operation leaves the stack as it was, and no
counter overflows. -/
theorem history_recorded (limits : Limits) (ops : List Operation)
    (h : ops.length < UInt64.size) :
    Recorded limits (({ limits } : Stack).deeds ops) (({ limits } : Stack).run ops) ∧
    ∀ deed ∈ ({ limits } : Stack).deeds ops,
      deed.op.inPlace deed.before = match deed.before.perform deed.op with
        | .ok after => .ok () after
        | .error fault => .error (.refused fault) deed.before := by
  refine ⟨(recorded_start limits).run ops, fun deed hdeed => InPlace.inPlace_eq ?_ deed.op⟩
  obtain ⟨earlier, later, rfl, hbefore⟩ := exists_of_mem_deeds hdeed
  have hrecorded : Recorded limits (({ limits } : Stack).deeds earlier) deed.before := by
    rw [hbefore]
    exact (recorded_start limits).run earlier
  refine hrecorded.room (Nat.lt_of_le_of_lt ?_ h)
  simp only [length_deeds, List.length_append, List.length_cons]
  omega

/-- Loops and turns up to the limits and beyond them, with some loops left at once. -/
def refusals : List Operation :=
  [.push "i" .zero .one .one 1, .tick, .tick, .push "j" .zero .one .one 2, .tick,
    .push "k" .zero .one .one 3, .recordError, .unwindTo 0, .tick, .push "k" .zero .one .one 4]

/-- A turn and a loop beyond the limits are not counted, nor is a turn outside of all loops, and
what has been counted of loops that were left stays counted. -/
theorem history_of_refusals :
    Recorded ⟨1, 2, 0⟩ (Stack.deeds ⟨[], ⟨1, 2, 0⟩, {}⟩ refusals)
      (Stack.run ⟨[], ⟨1, 2, 0⟩, {}⟩ refusals) ∧
    (Stack.run ⟨[], ⟨1, 2, 0⟩, {}⟩ refusals).statistics = ⟨3, 2, 2, 1⟩ :=
  ⟨(history_recorded ⟨1, 2, 0⟩ refusals (by decide)).1, by decide⟩

end Loop

end DecimalScript
