import DecimalScript.Proofs.RangeTurns
import Mathlib.Data.Int.ModEq

/-!
# Sound ranges and the loops over them

The check of a range finds whether it is sound, though it is done on words of 64 bits: the distance
of two numbers and the magnitude of each fit a word without a sign, and a limit that does not fit is
greater than all of them. A sound range has its first turn, and as many more as its step fits into
its width.
-/

namespace DecimalScript

namespace Number

namespace Word

variable {word : Word} {x : Int}

/-- What a word can hold does not wrap around. -/
theorem wrapped_of_holds (h : word.Holds x) : word.wrapped x = x := by
  obtain ⟨hleast, hgreatest⟩ := h
  rw [wrapped, Int.emod_eq_of_lt (by omega) (by omega)]
  omega

/-- A word keeps an integer up to multiples of how many it can hold. -/
theorem wrapped_modEq (word : Word) (x : Int) :
    Int.ModEq (word.greatest - word.least + 1) (word.wrapped x) x := by
  have hmod := (Int.mod_modEq (x - word.least) (word.greatest - word.least + 1)).add_left word.least
  rwa [add_sub_cancel] at hmod

/-- All else of an integer is forgotten. -/
theorem wrapped_of_modEq {y : Int} (h : Int.ModEq (word.greatest - word.least + 1) x y) :
    word.wrapped x = word.wrapped y :=
  congrArg (word.least + ·) (h.sub_right word.least)

/-- Words that were cast are subtracted like the integers they were cast from. -/
theorem wrapped_sub (word : Word) (x y : Int) :
    word.wrapped (word.wrapped x - word.wrapped y) = word.wrapped (x - y) :=
  wrapped_of_modEq ((word.wrapped_modEq x).sub (word.wrapped_modEq y))

/-- A cast forgets whether a word had wrapped around before. -/
theorem unsigned_wrapped_long (x : Int) :
    unsigned.wrapped (long.wrapped x) = unsigned.wrapped x :=
  wrapped_of_modEq (long.wrapped_modEq x)

/-- A limit that saturates still separates what its word can hold. -/
theorem saturated_lt_iff {limit : Int} (h : word.Holds x) (hlimit : word.least ≤ limit) :
    word.saturated limit < x ↔ limit < x := by
  obtain ⟨-, hgreatest⟩ := h
  unfold saturated
  omega

end Word

variable (a b n : Number)

theorem distance_holds : Word.unsigned.Holds (a.distance b) := by
  have ha := a.minRaw_le
  have ha' := a.le_maxRaw
  have hb := b.minRaw_le
  have hb' := b.le_maxRaw
  unfold minRaw maxRaw at *
  unfold Word.Holds Word.unsigned distance
  dsimp only
  omega

theorem magnitude_holds : Word.unsigned.Holds n.magnitude := by
  have hleast := n.minRaw_le
  have hgreatest := n.le_maxRaw
  unfold minRaw maxRaw at *
  unfold Word.Holds Word.unsigned magnitude
  dsimp only
  omega

/-- The distance by steps is the distance. -/
theorem distanceSteps_eq : distanceSteps a b = a.distance b := by
  have hholds := distance_holds a b
  unfold distanceSteps
  split
  · rename_i hless
    have hdistance : b.raw - a.raw = a.distance b := by
      rw [lt_iff] at hless
      unfold distance
      omega
    rw [Word.wrapped_sub, hdistance, Word.wrapped_of_holds hholds]
  · rename_i hless
    have hdistance : a.raw - b.raw = a.distance b := by
      rw [lt_iff] at hless
      unfold distance
      omega
    rw [Word.wrapped_sub, hdistance, Word.wrapped_of_holds hholds]

/-- The magnitude by steps is the magnitude, also of the least number. -/
theorem magnitudeSteps_eq : magnitudeSteps n = n.magnitude := by
  have hholds := magnitude_holds n
  unfold magnitudeSteps
  split
  · rename_i hnegative
    have hmagnitude : -n.raw = n.magnitude := by
      unfold magnitude
      omega
    rw [Word.unsigned_wrapped_long, hmagnitude, Word.wrapped_of_holds hholds]
  · rename_i hnegative
    have hmagnitude : n.raw = n.magnitude := by
      unfold magnitude
      omega
    rw [hmagnitude, Word.wrapped_of_holds hholds]

end Number

namespace Loop

variable {start stop step : Number} {span : Nat}

namespace Stack

variable (loops : Stack) (start stop step : Number)

/-- A range passes the check if and only if it is sound. -/
theorem rangeIsSound_iff :
    loops.rangeIsSound start stop step = true ↔
      SoundRange loops.limits.maxRangeSpan start stop step := by
  have hwidth : start.distance stop = (stop.raw - start.raw).natAbs := by
    unfold Number.distance
    omega
  simp only [rangeIsSound, hwidth, Number.isZero, Number.lt_iff, Bool.and_eq_true,
    Bool.not_eq_true', beq_eq_false_iff_ne, decide_eq_true_eq, Bool.and_eq_false_imp,
    decide_eq_false_iff_not, not_lt]
  constructor
  · rintro ⟨⟨⟨⟨hne, hwidth⟩, hlength⟩, hup⟩, hdown⟩
    exact ⟨hne, hwidth, hlength, hup, hdown⟩
  · rintro ⟨hne, hwidth, hlength, hup, hdown⟩
    exact ⟨⟨⟨⟨hne, hwidth⟩, hlength⟩, hup⟩, hdown⟩

/-- The check by steps is the check. -/
theorem rangeIsSoundSteps_eq :
    loops.rangeIsSoundSteps start stop step = loops.rangeIsSound start stop step := by
  have hspan : Number.Word.unsigned.least ≤ (loops.limits.maxRangeSpan * 1000000 : Int) := by
    unfold Number.Word.unsigned
    dsimp only
    omega
  have hzero : Number.zero.raw = 0 := rfl
  have hlimit (d : Nat) : ¬(loops.limits.maxRangeSpan * 1000000 : Int) < d ↔
      d ≤ loops.limits.maxRangeSpan * 1000000 := by omega
  rw [Bool.eq_iff_iff]
  simp only [rangeIsSoundSteps, rangeIsSound, Number.distanceSteps_eq, Number.magnitudeSteps_eq,
    Number.lt_iff, hzero,
    Number.Word.saturated_lt_iff (Number.distance_holds start stop) hspan,
    Number.Word.saturated_lt_iff (Number.magnitude_holds step) hspan]
  simp [hlimit, and_assoc]

end Stack

namespace SoundRange

/-- The first value of a sound range has not passed the end. -/
theorem withinRange (h : SoundRange span start stop step) :
    Eval.withinRange start stop step = true := by
  rw [Loop.withinRange_iff (turnValue_zero start step).symm, HasTurn, turnValue_zero]
  rcases Int.lt_or_gt_of_ne h.step_ne with hdown | hup
  · exact .inr ⟨hdown, h.downwards hdown⟩
  · exact .inl ⟨hup, h.upwards hup⟩

/-- A sound range has a turn for its start, and one more for each time that the step fits into its
width. -/
theorem turnCount_eq (h : SoundRange span start stop step) :
    turnCount start stop step = (stop.raw - start.raw).natAbs / step.raw.natAbs + 1 := by
  have hstep : step.isZero = false := by simpa [Number.isZero] using h.step_ne
  rw [turnCount, if_neg (by simp [hstep])]
  have hquotient : (stop.raw - start.raw).fdiv step.raw =
      ((stop.raw - start.raw).natAbs / step.raw.natAbs : Nat) := by
    -- Width and step have the same sign, so that the floor of their quotient is that of magnitudes.
    rcases Int.lt_or_gt_of_ne h.step_ne with hdown | hup
    · have hwidth : ((stop.raw - start.raw).natAbs : Int) = -(stop.raw - start.raw) := by
        have hends := h.downwards hdown
        omega
      have hlength : (step.raw.natAbs : Int) = -step.raw := by omega
      rw [Int.natCast_div, hwidth, hlength, ← Int.neg_fdiv_neg,
        Int.fdiv_eq_ediv_of_nonneg _ (by omega)]
    · have hwidth : ((stop.raw - start.raw).natAbs : Int) = stop.raw - start.raw := by
        have hends := h.upwards hup
        omega
      have hlength : (step.raw.natAbs : Int) = step.raw := by omega
      rw [Int.natCast_div, hwidth, hlength, Int.fdiv_eq_ediv_of_nonneg _ (by omega)]
  rw [hquotient, Int.toNat_natCast_add_one]

end SoundRange

end Loop

namespace Eval

section

variable {name : String} {start stop step current : Number} {body : Eval Flow}
  {limit line taken : Nat} {m : Machine} {inside : List Machine} {outcome : Outcome Flow}

/-- A turn that is run is below the number of turns, and below the limit. -/
theorem RunsIn.lt_turnCount {machine : Machine}
    (h : RunsIn (enterRange name stop step) limit taken current m machine)
    (hvalue : current.raw = Loop.turnValue start step taken) :
    taken < min (Loop.turnCount start stop step) limit := by
  obtain ⟨hturn, hroom⟩ := h.hasTurn hvalue
  exact Nat.lt_min.mpr ⟨(Loop.lt_turnCount_iff start stop step taken).mpr hturn, hroom⟩

/-- No more turns are run than the range has and the limit allows. -/
theorem LoopRuns.length_le
    (h : LoopRuns (enterRange name stop step) (·.add? step) body limit line taken current m inside
      outcome)
    (hvalue : current.raw = Loop.turnValue start step taken) :
    taken + inside.length ≤ max taken (min (Loop.turnCount start stop step) limit) := by
  induction h with
  | finished | broken | refused => exact Nat.le_max_left _ _
  | stopped hruns | left hruns | gaveBack hruns | last hruns =>
    have hlt := hruns.lt_turnCount hvalue
    rw [List.length_singleton]
    omega
  | turn hruns _ hnext _ ih =>
    have hlt := hruns.lt_turnCount hvalue
    have hle := ih (Loop.turnValue_of_add hvalue hnext)
    rw [List.length_cons]
    omega

/-- The first turn is run if the range has it and the limit allows it. -/
theorem LoopRuns.length_pos
    (h : LoopRuns (enterRange name stop step) (·.add? step) body limit line taken current m inside
      outcome)
    (hwithin : withinRange current stop step = true) (hroom : taken < limit) :
    0 < inside.length := by
  cases h with
  | finished hentered | broken hentered =>
    rw [enterRange_of_within hwithin] at hentered
    cases hentered
  | refused => exact absurd hroom (Nat.lt_irrefl _)
  | stopped | left | gaveBack | last => exact Nat.one_pos
  | turn => exact Nat.succ_pos _

/-- If each body ends so that the next turn follows, all turns of the range are run as far as the
limit allows. -/
theorem LoopRuns.length_eq
    (h : LoopRuns (enterRange name stop step) (·.add? step) body limit line taken current m inside
      outcome)
    (hvalue : current.raw = Loop.turnValue start step taken)
    (hgoes : ∀ machine ∈ inside, ∃ after, GoesOn body machine after) :
    taken + inside.length = max taken (min (Loop.turnCount start stop step) limit) := by
  induction h with
  | finished hentered =>
    obtain ⟨-, hsame⟩ | ⟨hpassed, hsame⟩ := enterRange_cases hentered
    · cases hsame
    · rw [Loop.withinRange_iff hvalue, ← Loop.lt_turnCount_iff] at hpassed
      rw [List.length_nil]
      omega
  | broken hentered =>
    obtain ⟨-, hsame⟩ | ⟨-, hsame⟩ := enterRange_cases hentered
    · cases hsame
    · cases hsame
  -- A refusal says that the limit has been reached, so nothing is missing.
  | refused =>
    rw [List.length_nil]
    omega
  | stopped _ hends | left _ hends | gaveBack _ hends =>
    obtain ⟨after, hnormal | hnext⟩ := hgoes _ List.mem_cons_self
    · cases hends.symm.trans hnormal
    · cases hends.symm.trans hnext
  | last hruns _ hnext =>
    have hlt := hruns.lt_turnCount hvalue
    have hlast := hruns.turnCount_eq hvalue hnext
    rw [List.length_singleton]
    omega
  | turn hruns _ hnext _ ih =>
    have hlt := hruns.lt_turnCount hvalue
    have hlater := ih (Loop.turnValue_of_add hvalue hnext) fun machine hmachine =>
      hgoes machine (List.mem_cons_of_mem _ hmachine)
    rw [List.length_cons]
    omega

/-- Each run of the body sees the value of its turn in the loop variable. -/
theorem LoopRuns.get?_name
    (h : LoopRuns (enterRange name stop step) (·.add? step) body limit line taken current m inside
      outcome)
    (hvalue : current.raw = Loop.turnValue start step taken) {turn : Nat} {machine : Machine}
    (hmachine : inside[turn]? = some machine) :
    ∃ value : Number, machine.env.get? name = some (.number value) ∧
      value.raw = Loop.turnValue start step (taken + turn) := by
  induction h generalizing turn with
  | finished | broken | refused => cases hmachine
  | stopped hruns | left hruns | gaveBack hruns | last hruns =>
    cases turn with
    | zero =>
      cases hmachine
      exact ⟨_, hruns.turnBegins.2.get?_name, hvalue⟩
    | succ turn => cases hmachine
  | turn hruns _ hnext _ ih =>
    cases turn with
    | zero =>
      cases hmachine
      exact ⟨_, hruns.turnBegins.2.get?_name, hvalue⟩
    | succ turn =>
      rw [← Nat.add_assoc, Nat.add_right_comm]
      exact ih (Loop.turnValue_of_add hvalue hnext) hmachine

end

/-- The check of a range is exact, and tells what the loop over the range does. On words of 64 bits
it finds that a range is sound if and only if it is, in unbounded integers. Then, where another loop
may be nested and may take a turn, the body is run once at least, whatever it does, and at most once
more than the step fits into the width of the range. Each run sees the value of its turn in the loop
variable, and if none of them ends the loop, only the limit makes them fewer than that. The loops of
a program are such loops, if their bounds have these values. -/
theorem range_check_predicts_turns :
    (∀ (loops : Loop.Stack) (start stop step : Number),
      loops.rangeIsSoundSteps start stop step = loops.rangeIsSound start stop step ∧
      (loops.rangeIsSound start stop step = true ↔
        Loop.SoundRange loops.limits.maxRangeSpan start stop step)) ∧
    ∀ (depth : Nat) (name : String) (start stop step : Number) (body : Block) (line : Nat)
      (m : Machine), m.loops.rangeIsSound start stop step = true →
      m.loops.depth < m.loops.limits.maxDepth → 0 < m.loops.limits.maxIterations →
        let run : JobRunner := fun job => Job.perform depth job
        let count := (stop.raw - start.raw).natAbs / step.raw.natAbs + 1
        ∃ loops inside ran, m.loops.push (.begin name start stop step line) = .ok loops ∧
          LoopRuns (enterRange name stop step) (·.add? step) (executeBlock run body)
            m.loops.limits.maxIterations line 0 start { m with loops } inside ran ∧
          executeRange run name start stop step body line m =
            Outcome.mapMachine (fun after => { after with loops := after.loops.pop }) ran ∧
          0 < inside.length ∧ inside.length ≤ count ∧
          (∀ (turn : Nat) (machine : Machine), inside[turn]? = some machine →
            ∃ value : Number, machine.env.get? name = some (.number value) ∧
              value.raw = start.raw + turn * step.raw) ∧
          ((∀ machine ∈ inside, ∃ after, GoesOn (executeBlock run body) machine after) →
            inside.length = min count m.loops.limits.maxIterations) ∧
          ∀ iteration before, rangeBounds run iteration before = .ok (some (start, stop, step)) m →
            executeFor run name iteration body line before =
              executeRange run name start stop step body line m := by
  constructor
  · intro loops start stop step
    exact ⟨loops.rangeIsSoundSteps_eq start stop step, loops.rangeIsSound_iff start stop step⟩
  · intro depth name start stop step body line m hcheck hroom hlimit run count
    have hsound := (m.loops.rangeIsSound_iff start stop step).mp hcheck
    have hstep : step.isZero = false := by simpa [Number.isZero] using hsound.step_ne
    obtain ⟨loops, inside, ran, hpush, hruns, hran⟩ :=
      loopRuns_executeRange depth name start stop hstep body line hroom
    have hstart := (Loop.turnValue_zero start step).symm
    have hcount : Loop.turnCount start stop step = count := hsound.turnCount_eq
    refine ⟨loops, inside, ran, hpush, hruns, hran, hruns.length_pos hsound.withinRange hlimit, ?_,
      fun turn machine hmachine => ?_, fun hgoes => ?_,
      fun iteration before hbounds => executeFor_of_rangeBounds hbounds⟩
    · have hle := hruns.length_le hstart
      omega
    · obtain ⟨value, hsees, hraw⟩ := hruns.get?_name hstart hmachine
      rw [Nat.zero_add] at hraw
      exact ⟨value, hsees, hraw⟩
    · have hall := hruns.length_eq hstart hgoes
      omega

/-- From the greatest number to the least one with a step of the least one, where the span cannot be
told in millionths: the check passes, and the loop takes two turns. The body keeps the value of its
turn, so that of the second turn is there in the end. With the greatest span that can be told the
check does not pass. -/
theorem least_step_passes_check :
    let greatest : Number := { raw := 9223372036854775807 }
    let least : Number := { raw := -9223372036854775808 }
    let m : Machine := { loops := { limits := { maxRangeSpan := 18446744073709551615 } } }
    let narrower : Loop.Stack := { limits := { maxRangeSpan := 18446744073709 } }
    let body : Block := [.assign 1 "last" (.var 1 "i")]
    let run : JobRunner := fun job => Job.perform 2 job
    let outcome := executeRange run "i" greatest least least body 1 m
    m.loops.rangeIsSoundSteps greatest least least = true ∧
      narrower.rangeIsSoundSteps greatest least least = false ∧
      (∃ loops inside ran, inside.length = 2 ∧
        LoopRuns (enterRange "i" least least) (·.add? least) (executeBlock run body)
          1000000 1 0 greatest { m with loops } inside ran ∧
        outcome = Outcome.mapMachine (fun after => { after with loops := after.loops.pop }) ran) ∧
      ((Outcome.machine outcome).env.get? "last").map Value.display =
        some "-0.000001" := by
  intro greatest least m narrower body run outcome
  obtain ⟨hexact, hpredicts⟩ := range_check_predicts_turns
  have hcheck : m.loops.rangeIsSound greatest least least = true := by decide
  obtain ⟨loops, inside, ran, -, hruns, hran, -, -, hsees, hall, -⟩ :=
    hpredicts 2 "i" greatest least least body 1 m hcheck (by decide) (by decide)
  have hgoes : ∀ machine ∈ inside, ∃ after, GoesOn (executeBlock run body) machine after := by
    intro machine hmachine
    obtain ⟨turn, hturn⟩ := List.mem_iff_getElem?.mp hmachine
    obtain ⟨value, hvalue, -⟩ := hsees turn machine hturn
    have hassign : run (.execute (.assign 1 "last" (.var 1 "i"))) machine = .ok .normal _ :=
      bind_of_ok (Job.perform_var hvalue 1 0)
    exact ⟨_, .inl (bind_of_ok hassign)⟩
  refine ⟨(hexact _ _ _ _).1.trans hcheck, ?_, ⟨loops, inside, ran, ?_, hruns, hran⟩, ?_⟩
  · rw [(hexact _ _ _ _).1]
    decide
  · rw [hall hgoes]
    decide
  · decide +kernel

end Eval

end DecimalScript
