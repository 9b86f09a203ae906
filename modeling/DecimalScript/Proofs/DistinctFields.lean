import DecimalScript.Proofs.Observation
import DecimalScript.Value.Parts

/-!
# Distinct fields

Objects are lists of fields that are written in several ways: by literals with repeated
names, by assignments of elements and of properties, and by built-ins that build values
from others. All of them set fields by name, so no object anywhere names a field twice.
Then reading, counting and iterating agree on what the fields are.
-/

namespace DecimalScript

namespace Value

/-- What reading, counting and iterating say of the fields of one object. -/
structure OneView (fields : List (String × Value)) : Prop where
  /-- No name stands for two fields. -/
  names : (NameTable.names fields).Nodup
  /-- The properties that can be read are the fields. -/
  property : ∀ name value line,
    member (object fields) name line = .ok value ↔ (name, value) ∈ fields
  /-- An index that is a text reads the property of that name. -/
  index : ∀ name line,
    element (object fields) (text name) line = member (object fields) name line
  /-- A loop runs over every name that can be read, once each. -/
  items : ∀ line, ∃ names : List String,
    loopItems (object fields) line = .ok (names.map text) ∧
    names.Nodup ∧ ∀ name, name ∈ names ↔ ∃ value, member (object fields) name line = .ok value
  /-- The length counts what a loop runs over. -/
  length : ∀ line looped, loopItems (object fields) line = .ok looped →
    Builtin.length (object fields) line = .ok (ofCount looped.length)

/-- In every object that is a part of a value, the different ways to its fields agree. -/
def FieldsAgree (value : Value) : Prop := ∀ fields, Part (object fields) value → OneView fields

/-- A property is what the table of fields has by its name. -/
theorem member_object {fields : List (String × Value)} {name : String} {line : Nat}
    {value : Value} :
    member (object fields) name line = .ok value ↔ NameTable.get? fields name = some value := by
  simp only [member]
  cases NameTable.get? fields name with
  | none => simp
  | some found => simp

/-- If no name stands for two fields, all ways to the fields agree. -/
theorem oneView_of_nodup {fields : List (String × Value)}
    (h : (NameTable.names fields).Nodup) : OneView fields where
  names := h
  property := by
    intro name value line
    rw [member_object]
    exact NameTable.get?_eq_some_iff h
  index := fun _ _ => rfl
  items := by
    intro line
    refine ⟨NameTable.names fields, ?_, h, fun name => ?_⟩
    · simp [loopItems, NameTable.names]
    · simp only [member_object, NameTable.get?_eq_some_iff h]
      simp [NameTable.names]
  length := by
    intro line looped hlooped
    cases hlooped
    simp [Builtin.length]

/-- In a value with distinct fields, all ways to the fields agree. -/
theorem fieldsAgree_of_distinctFields {value : Value} (h : value.distinctFields = true) :
    value.FieldsAgree :=
  fun fields hpart => oneView_of_nodup (distinctFields_iff.mp h fields hpart)

/-- Distinct fields are kept by every operation on values. -/
theorem distinctFields_class : ValueClass (·.distinctFields = true) where
  number _ := rfl
  text _ := rfl
  boolean _ := rfl
  nothing := rfl
  array := distinctFields_array
  empty := rfl
  field h hget := (distinctFields_object.mp h).2 _ (NameTable.mem_of_get? hget)
  set := by
    intro fields name value h hvalue
    obtain ⟨hnames, hvalues⟩ := distinctFields_object.mp h
    refine distinctFields_object.mpr ⟨NameTable.nodup_set hnames name value, ?_⟩
    intro field hfield
    rcases NameTable.mem_of_mem_set hfield with hold | hnew
    · exact hvalues field hold
    · rw [hnew]
      exact hvalue

end Value

namespace Machine

/-- Whether all variables hold values with distinct fields. -/
def distinctFields (m : Machine) : Bool := m.env.bindings.all (·.value.distinctFields)

theorem distinctFields_iff {m : Machine} :
    m.distinctFields = true ↔ m.HoldsOnly (·.distinctFields = true) :=
  List.all_eq_true

/-- The machines that runs lead to from one that has run nothing. Between two runs the files, the
input and the sinks may be exchanged, as they are between the entries of a session. -/
inductive Reachable : Machine → Prop
  | fresh {m : Machine} (h : m.IsFresh) : Reachable m
  | program {m : Machine} (program : Block) (h : Reachable m) :
      Reachable (Outcome.machine (Eval.runProgram program m))
  | block {m : Machine} (block : Block) (h : Reachable m) :
      Reachable (Outcome.machine (Eval.runBlock block m))
  | expr {m : Machine} (expr : Expr) (h : Reachable m) :
      Reachable (Outcome.machine (Eval.runExpr expr m))
  | library {m : Machine} {library : Library} {name : String} {arguments : List Expr}
      {line : Nat} {called : Eval Value}
      (hcalled : Eval.runLibrary? library name arguments line = some called) (h : Reachable m) :
      Reachable (Outcome.machine (called m))
  | surroundings {m : Machine} (files : FileTree) (input : List UInt8) (output errors : Sink)
      (h : Reachable m) : Reachable { m with files, input, output, errors }

/-- A class of values that lambdas are in and operations keep is not left by any run. -/
theorem Reachable.holdsOnly {m : Machine} (h : m.Reachable) {good : Value → Prop}
    (law : ValueClass good)
    (hlambda : ∀ identity params body, good (.lambda identity params body)) :
    m.HoldsOnly good := by
  induction h with
  | fresh hfresh => exact hfresh.holdsOnly good
  | program program _ ih =>
    have haccepts := Observation.accepts_all good
    exact (Observation.settled_runProgram law hlambda haccepts program ih).2.machine
  | block block _ ih => exact (Observation.settled_runBlock law hlambda block ih).machine
  | expr expr _ ih => exact (Observation.settled_runExpr law hlambda expr ih).machine
  | library hcalled _ ih =>
    exact (Observation.settled_runLibrary law hlambda hcalled ih).machine
  | surroundings files input output errors _ ih => exact ih

end Machine

/-- The observer that refuses a job if the machine before or after it, or the value it gives, holds
an object that names a field twice. -/
def Observer.distinctFields : Observer := fun job m outcome =>
  m.distinctFields && outcome.machine.distinctFields &&
    match outcome with
    | .ok result _ => (job.value? result).all (·.distinctFields)
    | .error _ _ => true

/-- A value that a job gives has distinct fields if the result of the job does. -/
theorem Observation.accepts_distinctFields :
    Observation.Accepts (·.distinctFields = true) Observer.distinctFields := by
  intro α job m outcome hm hsettled
  have hbefore : m.distinctFields = true := Machine.distinctFields_iff.mpr hm
  have hafter : outcome.machine.distinctFields = true :=
    Machine.distinctFields_iff.mpr hsettled.machine
  have hreturned := hsettled.returned
  unfold Observer.distinctFields
  simp only [hbefore, hafter, Bool.true_and]
  cases outcome with
  | error stop after => rfl
  | ok result after =>
    have hresult := hreturned result after rfl
    cases job with
    | evaluate expr =>
      simp only [Job.value?, Option.all_some]
      exact hresult
    | execute stmt =>
      cases result with
      | normal | leave | next => rfl
      | giveBack value =>
        simp only [Job.value?, Option.all_some]
        exact hresult

/-- In every machine that can be reached, and in every value that an expression or a built-in
function gives there, all ways to the fields of an object agree, at every depth of nesting. On the
way of any program and any job from there, no machine and no value, at whatever nesting, holds an
object that names a field twice. -/
theorem fields_agree {m : Machine} (h : m.Reachable) :
    (∀ bound ∈ m.env.bindings, bound.value.FieldsAgree) ∧
    (∀ expr value after, Eval.runExpr expr m = .ok value after → value.FieldsAgree) ∧
    (∀ library name arguments line called value after,
      Eval.runLibrary? library name arguments line = some called →
      called m = .ok value after → value.FieldsAgree) ∧
    (∀ program, Eval.runObserved Observer.distinctFields program m = Eval.runProgram program m) ∧
    (∀ (depth : Nat) {α : Type} (job : Job α),
      Job.performObserved Observer.distinctFields depth job m = Job.perform depth job m) ∧
    ∀ value : Value, value.distinctFields = true ↔
      ∀ fields, Value.Part (.object fields) value → (NameTable.names fields).Nodup := by
  have law := Value.distinctFields_class
  have hlambda : ∀ identity params body,
      (Value.lambda identity params body).distinctFields = true := fun _ _ _ => rfl
  have hm := h.holdsOnly law hlambda
  have haccepts := Observation.accepts_distinctFields
  refine ⟨?_, ?_, ?_, ?_, ?_, fun value => Value.distinctFields_iff⟩
  · intro bound hbound
    exact Value.fieldsAgree_of_distinctFields (hm bound hbound)
  · intro expr value after hvalue
    have hsettled := Observation.settled_runExpr law hlambda expr hm
    exact Value.fieldsAgree_of_distinctFields (hsettled.returned value after hvalue)
  · intro library name arguments line called value after hcalled hvalue
    have hsettled := Observation.settled_runLibrary law hlambda hcalled hm
    exact Value.fieldsAgree_of_distinctFields (hsettled.returned value after hvalue)
  · intro program
    exact (Observation.settled_runProgram law hlambda haccepts program hm).1
  · intro depth α job
    exact (Observation.settled_perform law hlambda haccepts depth job hm).1

/-- An object from a literal that repeats a name, with a field set by its index and one set in an
object that a chain of properties makes. -/
theorem fields_agree_of_written_object :
    let one : Expr := .literal 1 (.number .one)
    let program : Block := [
      .assign 1 "a" (.object 1 [("x", one), ("y", one), ("x", .array 1 [one])]),
      .assignIndex 2 "a" (.literal 2 (.text "y")) (.object 2 [("z", one), ("z", one)]),
      .assignProperty 3 ⟨"a", "w", ["v"], by decide⟩ one,
      .assignProperty 4 ⟨"a", "w", ["v"], by decide⟩ one]
    let m := Outcome.machine (Eval.runProgram program {})
    m.Reachable ∧ (∀ bound ∈ m.env.bindings, bound.value.FieldsAgree) ∧
      m.env.bindings.map (fun bound => Builtin.length bound.value 5) =
        [.ok (.ofCount 3)] :=
  have hreachable := Machine.Reachable.program _
    (.fresh ⟨rfl, rfl, rfl, rfl, rfl, rfl, rfl⟩)
  ⟨hreachable, (fields_agree hreachable).1, rfl⟩

end DecimalScript
