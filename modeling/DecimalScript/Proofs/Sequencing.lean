import DecimalScript.Proofs.Comparison

/-!
# Composing compared evaluations

Agreement is closed under sequencing, under reading the parts of a machine in which
related machines do not differ, and under the operations at the console. These lemmas
let a comparison follow the shape of an evaluation without opening its definition.
-/

namespace DecimalScript

namespace Criteria.Holds

variable {C : Comparison} {α β : Type} {reach : Reach} {hits : Bool} {good : α → Prop}
  {good' : β → Prop} {x y : Eval α}

/-- An agreement from a changed machine is one from the machine before the change. -/
theorem after {m m' : Machine} {r r' : Outcome α} (hchange : C.change reach m m')
    (h : C.Agree (C.change reach) hits good m' r r') : C.Agree (C.change reach) hits good m r r' :=
  h.after (C.hit_of_also hchange.2) fun _ => C.trans hchange

/-- A value without an effect. -/
protected theorem pure {a : α} (ha : good a) : C.Holds reach hits good (pure a) (pure a) :=
  fun m _ hm => .returned ha hm (C.refl reach m)

/-- One evaluation after another, from given machines. -/
theorem bindFrom {reach' : Reach} {f g : α → Eval β} {m m' : Machine}
    (hwider : ∀ after, C.change reach' m after → C.change reach m after)
    (hx : C.Agree (C.change reach') false good m (x m) (y m'))
    (hf : ∀ a after after', good a → C.related after after' → C.change reach' m after →
      C.Agree (C.change reach) hits good' after (f a after) (g a after')) :
    C.Agree (C.change reach) hits good' m ((x >>= f) m) ((y >>= g) m') := by
  show C.Agree _ hits good' m (EStateM.bind x f m) (EStateM.bind y g m')
  unfold EStateM.bind
  generalize x m = r at hx ⊢
  generalize y m' = r' at hx ⊢
  cases hx with
  | returned hgood hrel hchange =>
    exact after (hwider _ hchange) (hf _ _ _ hgood hrel hchange)
  | stopped hallows hrel hchange => exact .stopped hallows hrel (hwider _ hchange)
  | released h => exact .released h
  | hit hhits h => exact absurd hhits (by decide)

/-- One evaluation after another that agrees from all machines. -/
theorem bindAt {f g : α → Eval β} {m m' : Machine}
    (hx : C.Agree (C.change reach) false good m (x m) (y m'))
    (hf : ∀ a, good a → C.Holds reach hits good' (f a) (g a)) :
    C.Agree (C.change reach) hits good' m ((x >>= f) m) ((y >>= g) m') :=
  bindFrom (fun _ => id) hx fun a after after' ha hrel _ => hf a ha after after' hrel

/-- One evaluation after another. -/
protected theorem bind {f g : α → Eval β} (hx : C.Holds reach false good x y)
    (hf : ∀ a, good a → C.Holds reach hits good' (f a) (g a)) :
    C.Holds reach hits good' (x >>= f) (y >>= g) :=
  fun m m' hm => bindAt (hx m m' hm) hf

/-- What holds without hits holds where they count. -/
theorem loud (h : C.Holds reach false good x y) : C.Holds reach hits good x y :=
  fun m m' hm => (h m m' hm).loud

/-- An expression changes no more than a statement may. -/
theorem stmt (h : C.Holds .value hits good x y) : C.Holds .stmt hits good x y :=
  fun m m' hm => (h m m' hm).mono (fun _ h => ⟨h.1.stmt_of_value, h.2⟩) fun _ => id

/-- A statement changes no more than a turn may. -/
theorem turn (h : C.Holds .stmt hits good x y) : C.Holds .turn hits good x y :=
  fun m m' hm => (h m m' hm).mono (fun _ h => ⟨h.1.turn_of_stmt, h.2⟩) fun _ => id

/-- An expression changes as little as anything does. -/
theorem ofValue (h : C.Holds .value hits good x y) : C.Holds reach hits good x y :=
  fun m m' hm => (h m m' hm).mono (fun _ h => ⟨h.1.of_value, h.2⟩) fun _ => id

/-- A fault that the program can handle. -/
theorem raise {fault : Fault} (h : fault.isFatal = false) :
    C.Holds reach hits good (Eval.raise fault) (Eval.raise fault) :=
  fun m _ hm => .stopped (C.allows_fault h) hm (C.refl reach m)

/-- A result of operators and built-in functions. -/
theorem ofExcept {result : Except Fault α} (h : Meets good result) :
    C.Holds reach hits good (Eval.ofExcept result) (Eval.ofExcept result) := by
  cases result with
  | ok a => exact .pure h
  | error fault => exact .raise h

/-- What reads the machine agrees if it agrees from each pair of related machines. -/
theorem getAt {f g : Machine → Eval α}
    (h : ∀ m m', C.related m m' → C.Agree (C.change reach) hits good m (f m m) (g m' m')) :
    C.Holds reach hits good (get >>= f) (get >>= g) :=
  h

/-- What reads the machine agrees if it agrees whatever machines were read. -/
protected theorem get {f g : Machine → Eval α}
    (h : ∀ m m', C.related m m' → C.Holds reach hits good (f m) (g m')) :
    C.Holds reach hits good (get >>= f) (get >>= g) :=
  getAt fun m m' hm => h m m' hm m m' hm

/-- A change that keeps machines related. -/
protected theorem modify {f g : Machine → Machine}
    (h : ∀ m m', C.related m m' → C.related (f m) (g m') ∧ C.change reach m (f m)) :
    C.Holds reach hits (fun _ => True) (modify f) (modify g) :=
  fun m m' hm => .returned trivial (h m m' hm).1 (h m m' hm).2

/-- Printing. -/
theorem write (text : String) :
    C.Holds reach hits (fun _ => True) (Eval.write text) (Eval.write text) := by
  refine ofValue fun m m' hm => ?_
  obtain ⟨loops, maxCalls, rfl⟩ := C.view hm
  have hwritten (output : Sink) (h : output.toDevice = m.output.toDevice) :=
    C.console ⟨output, m.errors, m.input, m.draws, m.nextLambda⟩ hm h rfl
  rw [Eval.write_eq, Eval.write_eq]
  cases h : m.output.fits text with
  | true =>
    obtain ⟨hrelated, hchange⟩ := hwritten (m.output.append text) rfl
    simp only [if_true]
    exact .returned trivial hrelated hchange
  | false =>
    obtain ⟨hrelated, hchange⟩ := hwritten (m.output.tear text) rfl
    have hrefused : m.output.MayRefuse m.output.refusal := Sink.mayRefuse_of_not_fits h
    simp only [Bool.false_eq_true, if_false]
    exact .stopped (C.allows_io (.inl (.inl hrefused))) hrelated hchange

/-- Flushing. -/
theorem flush : C.Holds reach hits (fun _ => True) Eval.flush Eval.flush := by
  refine ofValue fun m m' hm => ?_
  obtain ⟨loops, maxCalls, rfl⟩ := C.view hm
  unfold Eval.flush
  cases h : m.output.flush with
  | none =>
    exact .returned trivial hm (C.refl _ m)
  | some fault =>
    exact .stopped (C.allows_io (.inl (Sink.mayFail_of_flush h))) hm (C.refl _ m)

/-- Writing to the reports. -/
theorem writeError (text : String) :
    C.Holds reach hits (fun _ => True) (Eval.writeError text) (Eval.writeError text) := by
  refine ofValue fun m m' hm => ?_
  obtain ⟨loops, maxCalls, rfl⟩ := C.view hm
  have hwritten (errors : Sink) (h : errors.toDevice = m.errors.toDevice) :=
    C.console ⟨m.output, errors, m.input, m.draws, m.nextLambda⟩ hm rfl h
  rw [Eval.writeError_eq, Eval.writeError_eq]
  cases h : m.errors.fits text with
  | true =>
    obtain ⟨hrelated, hchange⟩ := hwritten (m.errors.append text) rfl
    simp only [if_true]
    exact .returned trivial hrelated hchange
  | false =>
    obtain ⟨hrelated, hchange⟩ := hwritten (m.errors.tear text) rfl
    have hrefused : m.errors.MayRefuse m.errors.refusal := Sink.mayRefuse_of_not_fits h
    simp only [Bool.false_eq_true, if_false]
    exact .stopped (C.allows_io (.inr hrefused)) hrelated hchange

/-- Reporting. -/
theorem report (line : Nat) (message : String) :
    C.Holds reach hits (fun _ => True) (Eval.report line message) (Eval.report line message) := by
  refine .get fun m m' hm => ?_
  obtain ⟨loops, maxCalls, rfl⟩ := C.view hm
  exact writeError _

/-- Drawing a random number. -/
theorem random (bound : Nat) :
    C.Holds reach hits (fun _ => True) (Eval.random bound) (Eval.random bound) := by
  refine ofValue fun m m' hm => ?_
  obtain ⟨loops, maxCalls, rfl⟩ := C.view hm
  have hc := C.console ⟨m.output, m.errors, m.input, m.draws.rest, m.nextLambda⟩ hm rfl rfl
  exact .returned trivial hc.1 hc.2

/-- Making a lambda. -/
theorem newLambda {params : List String} {body : Expr} (h : C.legalExpr body) :
    C.Holds reach hits C.good (Eval.newLambda params body) (Eval.newLambda params body) := by
  refine ofValue fun m m' hm => ?_
  obtain ⟨loops, maxCalls, rfl⟩ := C.view hm
  have hc := C.console ⟨m.output, m.errors, m.input, m.draws, m.nextLambda + 1⟩ hm rfl rfl
  exact .returned (C.lambda.mpr h) hc.1 hc.2

/-- Taking a line off the input. -/
theorem takeLine (line : Nat) :
    C.Holds reach hits (fun _ => True) (Eval.takeLine line) (Eval.takeLine line) := by
  refine ofValue fun m m' hm => ?_
  obtain ⟨loops, maxCalls, rfl⟩ := C.view hm
  unfold Eval.takeLine
  by_cases h : m.input.isEmpty = true
  · simp only [h, if_true]
    exact .stopped (C.allows_fault rfl) hm (C.refl _ m)
  · have hc := C.console ⟨m.output, m.errors, (m.input.span (· != Token.code '\n')).2.drop 1,
      m.draws, m.nextLambda⟩ hm rfl rfl
    simp only [h]
    exact .returned trivial hc.1 hc.2

end Criteria.Holds

end DecimalScript
