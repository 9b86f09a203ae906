import DecimalScript.Eval.Turns
import DecimalScript.Proofs.LoopLimits
import DecimalScript.Proofs.MemberReads

/-!
# Loops over a range take the turns of the range

The cursor of a loop over a range is a number, and the next one is found by an addition that is
checked. Beside it stands the count of the turns taken, which says which value of the progression
the cursor is, in unbounded integers. The two go together: where the sum cannot be represented, the
range has no further turn.
-/

namespace DecimalScript

namespace Loop

variable {start stop step current : Number} {turn : Nat}

theorem turnValue_zero (start step : Number) : turnValue start step 0 = start.raw := by
  simp [turnValue]

theorem turnValue_succ (start step : Number) (turn : Nat) :
    turnValue start step (turn + 1) = turnValue start step turn + step.raw := by
  simp only [turnValue, Nat.cast_add, Nat.cast_one, add_mul, one_mul, add_assoc]

/-- The turns of a range are those below their number. -/
theorem lt_turnCount_iff (start stop step : Number) (turn : Nat) :
    turn < turnCount start stop step ↔ HasTurn start stop step turn := by
  have hcount {quotient : Int} : turn < (quotient + 1).toNat ↔ (turn : Int) ≤ quotient := by omega
  unfold turnCount HasTurn turnValue
  rcases lt_trichotomy step.raw 0 with hdown | hzero | hup
  · have hstep : step.isZero = false := by simpa [Number.isZero] using hdown.ne
    have hfloor : (stop.raw - start.raw).fdiv step.raw = (start.raw - stop.raw) / -step.raw := by
      rw [← Int.neg_fdiv_neg, Int.neg_sub, Int.fdiv_eq_ediv_of_nonneg _ (by omega)]
    rw [if_neg (by simp [hstep]), hcount, hfloor, Int.le_ediv_iff_mul_le (by omega), mul_neg]
    constructor
    · intro h
      exact .inr ⟨hdown, by omega⟩
    · rintro (⟨hup, _⟩ | ⟨_, h⟩)
      · omega
      · omega
  · have hstep : step.isZero = true := by simpa [Number.isZero] using hzero
    rw [if_pos hstep]
    constructor
    · omega
    · rintro (⟨h, _⟩ | ⟨h, _⟩)
      · omega
      · omega
  · have hstep : step.isZero = false := by simpa [Number.isZero] using hup.ne'
    rw [if_neg (by simp [hstep]), hcount, Int.fdiv_eq_ediv_of_nonneg _ (by omega),
      Int.le_ediv_iff_mul_le hup]
    constructor
    · intro h
      exact .inl ⟨hup, by omega⟩
    · rintro (⟨_, h⟩ | ⟨hdown, _⟩)
      · omega
      · omega

/-- A turn is the last one if there is none behind it. -/
theorem turnCount_eq (hturn : HasTurn start stop step turn)
    (hlast : ¬HasTurn start stop step (turn + 1)) : turnCount start stop step = turn + 1 := by
  rw [← lt_turnCount_iff] at hturn hlast
  omega

/-- The test for the end of a range finds whether it has the turn of a value. -/
theorem withinRange_iff (hvalue : current.raw = turnValue start step turn) :
    Eval.withinRange current stop step = true ↔ HasTurn start stop step turn := by
  simp [Eval.withinRange, HasTurn, Number.le_iff, ← hvalue]

/-- The sum of a value and the step is the next value. -/
theorem turnValue_of_add {following : Number} (hvalue : current.raw = turnValue start step turn)
    (hnext : current.add? step = some following) :
    following.raw = turnValue start step (turn + 1) := by
  rw [turnValue_succ, ← hvalue]
  exact Number.ofRaw?_eq_some_iff.mp hnext

/-- Where the sum cannot be represented there is no further turn, since the end can be. -/
theorem not_hasTurn_of_add (hvalue : current.raw = turnValue start step turn)
    (hnext : current.add? step = none) : ¬HasTurn start stop step (turn + 1) := by
  have hout : current.raw + step.raw < Number.minRaw ∨ Number.maxRaw < current.raw + step.raw :=
    Number.ofRaw?_eq_none_iff.mp hnext
  have hlow := current.minRaw_le
  have hhigh := current.le_maxRaw
  have hend := stop.minRaw_le
  have hend' := stop.le_maxRaw
  unfold HasTurn
  rw [turnValue_succ, ← hvalue]
  omega

end Loop

namespace Environment

/-- A variable that is declared has its value. -/
theorem get?_declare (env : Environment) (name : String) (value : Value) :
    (env.declare name value).get? name = some value := by
  unfold declare
  by_cases hframe : env.frame.any (·.name == name) = true
  · have hbound : env.bindings.any (·.name == name) = true := by
      obtain ⟨b, hb, hname⟩ := List.any_eq_true.mp hframe
      exact List.any_eq_true.mpr ⟨b, List.mem_of_mem_take hb, hname⟩
    rw [if_pos hframe, get?, write, find?_rebind hbound]
    rfl
  · rw [if_neg hframe]
    simp [get?, define]

end Environment

namespace Eval

variable {name : String} {start stop step : Number}

/-- A turn that has begun sees its value in the loop variable. -/
theorem TurnBegins.get?_name {value : Number} {m inside : Machine}
    (h : TurnBegins name value m inside) : inside.env.get? name = some (.number value) := by
  obtain ⟨loops, _, rfl⟩ := h
  exact Environment.get?_declare _ _ _

namespace Turns

variable {body : Eval Flow} {values : List Number} {m left : Machine} {inside : List Machine}

/-- The body is run once for each value. -/
theorem length_eq (h : Turns name body values m inside left) : inside.length = values.length := by
  induction h with
  | none => rfl
  | turn _ _ _ ih => rw [List.length_cons, List.length_cons, ih]

/-- Each run of the body sees the value of its turn in the loop variable. -/
theorem map_get?_name (h : Turns name body values m inside left) :
    inside.map (·.env.get? name) = values.map fun value => some (.number value) := by
  induction h with
  | none => rfl
  | turn hbegins _ _ ih => rw [List.map_cons, List.map_cons, hbegins.get?_name, ih]

end Turns

/-- Values are those of a range, one by one from a turn on. -/
def ValuesFrom (start step : Number) (first : Nat) (values : List Number) : Prop :=
  ∀ turn value, values[turn]? = some value → value.raw = Loop.turnValue start step (first + turn)

theorem ValuesFrom.cons {first : Nat} {value : Number} {values : List Number}
    (hvalue : value.raw = Loop.turnValue start step first)
    (hvalues : ValuesFrom start step (first + 1) values) :
    ValuesFrom start step first (value :: values) := by
  intro turn other hother
  cases turn with
  | zero =>
    cases hother
    exact hvalue
  | succ turn =>
    rw [← Nat.add_assoc, Nat.add_right_comm]
    exact hvalues turn other hother

/-- How a loop over a range ends when all turns that it may take have been taken: normally, if those
are all turns of the range, and else by beginning one more, which is refused. -/
def RangeEnds (name : String) (start stop step : Number) (limit line : Nat) (left : Machine)
    (outcome : Outcome Flow) : Prop :=
  (Loop.turnCount start stop step ≤ limit → outcome = .ok .normal left) ∧
    (limit < Loop.turnCount start stop step →
      ∃ value, value.raw = Loop.turnValue start step limit ∧
        outcome = refusedTurn name value limit line left)

/-- In machines with a property, which may depend on the turn, the body goes on to the next turn,
and the property is kept. -/
def KeepsGoing (name : String) (start stop step : Number) (body : Eval Flow)
    (good : Nat → Machine → Prop) : Prop :=
  ∀ turn value m inside, good turn m → Loop.HasTurn start stop step turn →
    value.raw = Loop.turnValue start step turn → TurnBegins name value m inside →
      ∃ after, GoesOn body inside after ∧ good (turn + 1) after

/-- What a loop over a range does from a machine on when it has taken some turns: it takes as many
as there are and as it may, and ends. -/
def RunsRange (name : String) (start stop step : Number) (body : Eval Flow)
    (good : Nat → Machine → Prop) (limit line taken : Nat) (m : Machine) (outcome : Outcome Flow) :
    Prop :=
  ∃ values inside left,
    taken + values.length = max taken (min (Loop.turnCount start stop step) limit) ∧
      ValuesFrom start step taken values ∧ Turns name body values m inside left ∧
      good (taken + values.length) left ∧ RangeEnds name start stop step limit line left outcome

namespace RunsRange

variable {body : Eval Flow} {good : Nat → Machine → Prop} {limit line taken : Nat}
  {m : Machine} {outcome : Outcome Flow}

/-- No turn is left to take. -/
theorem ended (hgood : good taken m)
    (htaken : min (Loop.turnCount start stop step) limit ≤ taken)
    (hends : RangeEnds name start stop step limit line m outcome) :
    RunsRange name start stop step body good limit line taken m outcome := by
  refine ⟨[], [], m, ?_, ?_, .none, hgood, hends⟩
  · exact (Nat.max_eq_left htaken).symm
  · intro turn value hvalue
    cases hvalue

/-- A turn is taken, and the loop runs on from the next one. -/
theorem turn {value : Number} {inside after : Machine} (hturn : Loop.HasTurn start stop step taken)
    (hroom : taken < limit) (hvalue : value.raw = Loop.turnValue start step taken)
    (hbegins : TurnBegins name value m inside) (hends : GoesOn body inside after)
    (hrest : RunsRange name start stop step body good limit line (taken + 1) after outcome) :
    RunsRange name start stop step body good limit line taken m outcome := by
  obtain ⟨values, later, left, hlength, hvalues, hturns, hgood, hend⟩ := hrest
  have hcount := (Loop.lt_turnCount_iff start stop step taken).mpr hturn
  refine ⟨value :: values, inside :: later, left, ?_, hvalues.cons hvalue,
    .turn hbegins hends hturns, ?_, hend⟩
  · rw [List.length_cons]
    omega
  · rw [List.length_cons, ← Nat.add_assoc, Nat.add_right_comm]
    exact hgood

end RunsRange

section

variable {run : JobRunner} {body : Block} {current : Number} {m : Machine}

/-- A turn whose value has not passed the end is entered. -/
theorem enterRange_of_within (h : withinRange current stop step = true) :
    enterRange name stop step current m =
      .ok true { m with
        loops := m.loops.advance current, env := m.env.declare name (.number current) } := by
  unfold enterRange
  rw [if_pos h]
  rfl

/-- Where the value has passed the end nothing is changed. -/
theorem enterRange_of_passed (h : ¬withinRange current stop step = true) :
    enterRange name stop step current m = .ok false m := by
  unfold enterRange
  rw [if_neg h]
  rfl

end

section

variable {body : Eval Flow} {current : Number} {limit line taken : Nat} {m : Machine}
  {inside : List Machine} {outcome : Outcome Flow}

/-- A turn is entered if its value has not passed the end. -/
theorem enterRange_cases {entered : Outcome Bool}
    (h : enterRange name stop step current m = entered) :
    withinRange current stop step = true ∧ entered = .ok true { m with
      loops := m.loops.advance current, env := m.env.declare name (.number current) } ∨
    ¬withinRange current stop step = true ∧ entered = .ok false m := by
  subst h
  by_cases hwithin : withinRange current stop step = true
  · exact .inl ⟨hwithin, enterRange_of_within hwithin⟩
  · exact .inr ⟨hwithin, enterRange_of_passed hwithin⟩

/-- A turn of a range is run if its value has not passed the end, and sees it. -/
theorem RunsIn.turnBegins {machine : Machine}
    (h : RunsIn (enterRange name stop step) limit taken current m machine) :
    withinRange current stop step = true ∧ TurnBegins name current m machine := by
  obtain ⟨-, entered, loops, hentered, htick, rfl⟩ := h
  obtain ⟨hwithin, hsame⟩ | ⟨-, hsame⟩ := enterRange_cases hentered
  · cases hsame
    exact ⟨hwithin, loops, htick, rfl⟩
  · cases hsame

/-- A turn that is run is one of the range, and one that the limit allows. -/
theorem RunsIn.hasTurn {machine : Machine}
    (h : RunsIn (enterRange name stop step) limit taken current m machine)
    (hvalue : current.raw = Loop.turnValue start step taken) :
    Loop.HasTurn start stop step taken ∧ taken < limit :=
  ⟨(Loop.withinRange_iff hvalue).mp h.turnBegins.1, h.1⟩

/-- Where the sum with the step cannot be represented, the turn is the last one. -/
theorem RunsIn.turnCount_eq {machine : Machine}
    (h : RunsIn (enterRange name stop step) limit taken current m machine)
    (hvalue : current.raw = Loop.turnValue start step taken) (hnext : current.add? step = none) :
    Loop.turnCount start stop step = taken + 1 :=
  Loop.turnCount_eq (h.hasTurn hvalue).1 (Loop.not_hasTurn_of_add hvalue hnext)

/-- A run of a loop over a range takes the turns of the range, where the body goes on to the next
turn. The cursor is the value of the next turn in unbounded integers. -/
theorem runsRange_of_loopRuns {good : Nat → Machine → Prop}
    (hkeeps : KeepsGoing name start stop step body good)
    (h : LoopRuns (enterRange name stop step) (·.add? step) body limit line taken current m inside
      outcome)
    (hgood : good taken m) (hvalue : current.raw = Loop.turnValue start step taken)
    (hfew : taken ≤ limit) :
    RunsRange name start stop step body good limit line taken m outcome := by
  induction h with
  | finished hentered =>
    obtain ⟨-, hsame⟩ | ⟨hpassed, hsame⟩ := enterRange_cases hentered
    · cases hsame
    · cases hsame
      rw [Loop.withinRange_iff hvalue, ← Loop.lt_turnCount_iff] at hpassed
      refine .ended hgood (by omega) ⟨fun _ => rfl, fun hmore => ?_⟩
      omega
  | broken hentered =>
    obtain ⟨-, hsame⟩ | ⟨-, hsame⟩ := enterRange_cases hentered
    · cases hsame
    · cases hsame
  | refused hentered htick =>
    obtain ⟨hwithin, hsame⟩ | ⟨-, hsame⟩ := enterRange_cases hentered
    · cases hsame
      rw [Loop.withinRange_iff hvalue, ← Loop.lt_turnCount_iff] at hwithin
      refine .ended hgood (Nat.min_le_right _ _) ⟨fun hall => ?_, fun _ => ⟨_, hvalue, rfl⟩⟩
      omega
    · cases hsame
  | stopped hruns hends | left hruns hends | gaveBack hruns hends =>
    obtain ⟨hturn, -⟩ := hruns.hasTurn hvalue
    obtain ⟨after, hnormal | hnext, -⟩ := hkeeps _ _ _ _ hgood hturn hvalue hruns.turnBegins.2
    · cases hends.symm.trans hnormal
    · cases hends.symm.trans hnext
  | last hruns hends hnext =>
    obtain ⟨hturn, hroom⟩ := hruns.hasTurn hvalue
    obtain ⟨after, hgoes, hafter⟩ := hkeeps _ _ _ _ hgood hturn hvalue hruns.turnBegins.2
    obtain rfl := hgoes.unique hends
    have hlast := hruns.turnCount_eq hvalue hnext
    refine .turn hturn hroom hvalue hruns.turnBegins.2 hends
      (.ended hafter (by omega) ⟨fun _ => rfl, fun hmore => ?_⟩)
    omega
  | turn hruns hends hnext _ ih =>
    obtain ⟨hturn, hroom⟩ := hruns.hasTurn hvalue
    obtain ⟨after, hgoes, hafter⟩ := hkeeps _ _ _ _ hgood hturn hvalue hruns.turnBegins.2
    obtain rfl := hgoes.unique hends
    exact .turn hturn hroom hvalue hruns.turnBegins.2 hends
      (ih hafter (Loop.turnValue_of_add hvalue hnext) hroom)

end

/-- Where the bounds of a range are known, a loop over it is the loop over these numbers. -/
theorem executeFor_of_rangeBounds {run : JobRunner} {iteration : Iteration} {body : Block}
    {line : Nat} {before m : Machine}
    (h : rangeBounds run iteration before = .ok (some (start, stop, step)) m) :
    executeFor run name iteration body line before =
      executeRange run name start stop step body line m := by
  let loop : Option (Number × Number × Number) → Eval Flow := fun
    | some (start, stop, step) => executeRange run name start stop step body line
    | none => return .normal
  have hafter : (rangeBounds run iteration >>= loop) before =
      executeRange run name start stop step body line m := bind_of_ok h
  cases iteration with
  | range _ _ | step _ _ _ | countdown _ _ _ =>
    rw [← hafter]
    simp only [rangeBounds, bind_assoc, pure_bind]
    rfl
  | items value => cases h

/-- Only the refusal is reported. -/
theorem errors_refusedTurn (name : String) (value : Number) (limit line : Nat) (left : Machine) :
    (Outcome.machine (refusedTurn name value limit line left)).errors =
      left.errors.put ((Notice.loop (.iterationLimit limit line)).text left.color) := by
  have hreport : refusedTurn name value limit line left =
      refuse (.iterationLimit limit line) Flow.normal
        { left with
          loops := left.loops.advance value, env := left.env.declare name (.number value) } :=
    rfl
  rw [hreport, refuse_eq]
  split <;> rfl

theorem errors_mapMachine (outcome : Outcome Flow) (change : Machine → Machine)
    (h : ∀ m, (change m).errors = m.errors) :
    (Outcome.machine (outcome.mapMachine change)).errors = (Outcome.machine outcome).errors := by
  cases outcome with
  | ok flow after => exact h after
  | error stop after => exact h after

/-- A loop over a range of a step that is not zero, where another one may be nested, is entered,
runs and is left. -/
theorem loopRuns_executeRange (depth : Nat) (name : String) (start stop : Number) {step : Number}
    (hstep : step.isZero = false) (body : Block) (line : Nat) {m : Machine}
    (hroom : m.loops.depth < m.loops.limits.maxDepth) :
    let run : JobRunner := fun job => Job.perform depth job
    ∃ loops inside ran, m.loops.push (.begin name start stop step line) = .ok loops ∧
      LoopRuns (enterRange name stop step) (·.add? step) (executeBlock run body)
        m.loops.limits.maxIterations line 0 start { m with loops } inside ran ∧
      executeRange run name start stop step body line m =
        ran.mapMachine fun after => { after with loops := after.loops.pop } := by
  intro run
  rw [executeRange_eq, if_neg (by simp [hstep])]
  exact loopRuns_executeLoop (changed_enterRange name stop step) (changed_executeBlock depth body)
    rfl hroom

/-- A loop over a range of a step that is not zero, where another loop may be nested, is entered,
runs over the range and is left. -/
theorem runsRange_executeRange (depth : Nat) {body : Block} {line : Nat} {m : Machine}
    {good : Nat → Machine → Prop} (hstep : step.isZero = false)
    (hroom : m.loops.depth < m.loops.limits.maxDepth)
    (hstart : ∀ loops, m.loops.push (.begin name start stop step line) = .ok loops →
      good 0 { m with loops })
    (hkeeps : KeepsGoing name start stop step (executeBlock (fun job => Job.perform depth job) body)
      good) :
    ∃ loops ran, m.loops.push (.begin name start stop step line) = .ok loops ∧
      RunsRange name start stop step (executeBlock (fun job => Job.perform depth job) body) good
        m.loops.limits.maxIterations line 0 { m with loops } ran ∧
      executeRange (fun job => Job.perform depth job) name start stop step body line m =
        ran.mapMachine fun after => { after with loops := after.loops.pop } := by
  obtain ⟨loops, inside, ran, hpush, hruns, hran⟩ :=
    loopRuns_executeRange depth name start stop hstep body line hroom
  have hvalue := (Loop.turnValue_zero start step).symm
  exact ⟨loops, ran, hpush,
    runsRange_of_loopRuns hkeeps hruns (hstart loops hpush) hvalue (Nat.zero_le _), hran⟩

/-- A loop over a range takes the turns of the range. Let `count` be the number of turns whose
value, in unbounded integers, has not passed the end, and let the body go on to the next turn
wherever the loop runs it. Then the body is run once for each of the first `count` turns, but not
more often than the limit allows, and each run sees the value of its turn in the loop variable,
whatever the runs before it did to that variable. If the limit cuts the turns off, one more turn is
begun, refused and reported; otherwise the loop reports nothing. A step of zero has no turn, and the
loop is not even entered. The loops of a program are such loops, if their bounds have these
values. -/
theorem range_takes_its_turns (depth : Nat) {name : String} {start stop step : Number} {body : Block}
    {line : Nat} {m : Machine} {good : Nat → Machine → Prop}
    (hroom : m.loops.depth < m.loops.limits.maxDepth)
    (hstart : ∀ loops, m.loops.push (.begin name start stop step line) = .ok loops →
      good 0 { m with loops })
    (hkeeps : KeepsGoing name start stop step (executeBlock (fun job => Job.perform depth job) body)
      good) :
    let run : JobRunner := fun job => Job.perform depth job
    let limit := m.loops.limits.maxIterations
    let count := Loop.turnCount start stop step
    let outcome := executeRange run name start stop step body line m
    (∀ turn, turn < count ↔ Loop.HasTurn start stop step turn) ∧
    (step.isZero = true → outcome = .ok .normal m) ∧
    (step.isZero = false → ∃ loops values inside left,
      m.loops.push (.begin name start stop step line) = .ok loops ∧
      Turns name (executeBlock run body) values { m with loops } inside left ∧
      inside.length = min count limit ∧
      (∀ (turn : Nat) (machine : Machine), inside[turn]? = some machine →
        ∃ value : Number, machine.env.get? name = some (.number value) ∧
          value.raw = start.raw + turn * step.raw) ∧
      (count ≤ limit → outcome = .ok .normal { left with loops := left.loops.pop }) ∧
      (limit < count → ∃ value : Number, value.raw = start.raw + limit * step.raw ∧
        outcome = Outcome.mapMachine (fun after => { after with loops := after.loops.pop })
          (refusedTurn name value limit line left)) ∧
      (Outcome.machine outcome).errors =
        if limit < count then
          left.errors.put ((Notice.loop (.iterationLimit limit line)).text left.color)
        else left.errors) ∧
    ∀ iteration before, rangeBounds run iteration before = .ok (some (start, stop, step)) m →
      executeFor run name iteration body line before = outcome := by
  intro run limit count outcome
  refine ⟨Loop.lt_turnCount_iff start stop step, fun hstep => ?_, fun hstep => ?_,
    fun iteration before hbounds => executeFor_of_rangeBounds hbounds⟩
  · show executeRange run name start stop step body line m = _
    rw [executeRange_eq, if_pos hstep]
    rfl
  · obtain ⟨loops, ran, hpush, ⟨values, inside, left, hlength, hvalues, hturns, -, hends⟩, hran⟩ :=
      runsRange_executeRange depth hstep hroom hstart hkeeps
    have hlength : values.length = min count limit := by omega
    refine ⟨loops, values, inside, left, hpush, hturns, hturns.length_eq.trans hlength,
      fun turn machine hmachine => ?_, fun hall => ?_, fun hmore => ?_, ?_⟩
    · have hsees := congrArg (·[turn]?) hturns.map_get?_name
      simp only [List.getElem?_map, hmachine, Option.map_some] at hsees
      obtain ⟨value, hvalue, hsame⟩ := Option.map_eq_some_iff.mp hsees.symm
      refine ⟨value, hsame.symm, ?_⟩
      have hraw := hvalues turn value hvalue
      rwa [Nat.zero_add] at hraw
    · exact hran.trans (by rw [hends.1 hall]; rfl)
    · obtain ⟨value, hvalue, hrefused⟩ := hends.2 hmore
      exact ⟨value, hvalue, hran.trans (by rw [hrefused])⟩
    · have herrors : (Outcome.machine outcome).errors = (Outcome.machine ran).errors := by
        rw [show outcome = _ from hran]
        exact errors_mapMachine _ _ fun _ => rfl
      rw [herrors]
      rcases Nat.lt_or_ge limit count with hmore | hall
      · obtain ⟨value, _, hrefused⟩ := hends.2 hmore
        rw [hrefused, errors_refusedTurn, if_pos hmore]
      · rw [hends.1 hall, if_neg (by omega)]
        rfl

/-- The two greatest numbers, with a body that prints the loop variable and changes it: both numbers
are printed, the sum after the second turn cannot be represented, and the loop ends. -/
theorem range_of_greatest_numbers :
    let m : Machine := { loops := { limits := { maxIterations := 5 } } }
    let start : Number := { raw := 9223372036854775806 }
    let stop : Number := { raw := 9223372036854775807 }
    let step : Number := { raw := 1 }
    let body : Block := [.print 1 [.var 1 "i"], .assign 1 "i" (.literal 1 (.number .zero))]
    let run : JobRunner := fun job => Job.perform 2 job
    let outcome := executeRange run "i" start stop step body 1 m
    m.loops.depth < m.loops.limits.maxDepth ∧ Loop.turnCount start stop step = 2 ∧
      (∃ inside left : Machine, ∃ values machines,
        Turns "i" (executeBlock run body) values inside machines left ∧ machines.length = 2 ∧
          outcome = .ok .normal { left with loops := left.loops.pop }) ∧
      (Outcome.machine outcome).output.written = "9223372036854.775806\n9223372036854.775807\n" := by
  intro m start stop step body run outcome
  have hroom : m.loops.depth < m.loops.limits.maxDepth := by decide
  let good : Nat → Machine → Prop := fun _ machine => machine.output.capacity = none
  have hstart : ∀ loops, m.loops.push (.begin "i" start stop step 1) = .ok loops →
      good 0 { m with loops } := fun _ _ => rfl
  have hgoes : KeepsGoing "i" start stop step (executeBlock run body) good := by
    intro turn value before inside hcapacity _ _ hbegins
    have hread := hbegins.get?_name
    obtain ⟨loops, -, hinside⟩ := hbegins
    have hfits : ∀ text, inside.output.fits text = true :=
      Sink.fits_of_capacity (by rw [hinside]; exact hcapacity)
    have hvalues : evaluateAll (fun job => Job.perform 1 job) [.var 1 "i"] inside =
        .ok [.number value] inside := bind_of_ok (Job.perform_var hread 1 0)
    have hwritten := write_eq (String.intercalate " " [value.text] ++ "\n") inside
    rw [if_pos (hfits _)] at hwritten
    have hprint : run (.execute (.print 1 [.var 1 "i"])) inside = .ok .normal _ :=
      (bind_of_ok hvalues).trans (bind_of_ok hwritten)
    exact ⟨_, .inl (bind_of_ok hprint), by rw [hinside]; exact hcapacity⟩
  have hrange := range_takes_its_turns 2 hroom hstart hgoes
  obtain ⟨loops, values, inside, left, _, hturns, hlength, _, hends, _⟩ := hrange.2.2.1 rfl
  refine ⟨hroom, rfl, ⟨_, left, values, inside, hturns, hlength, hends (by decide)⟩, ?_⟩
  decide +kernel

end Eval

end DecimalScript
