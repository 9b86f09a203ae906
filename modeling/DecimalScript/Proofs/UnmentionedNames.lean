import DecimalScript.Eval.Import
import DecimalScript.Proofs.Scopes
import DecimalScript.Proofs.Values
import DecimalScript.Syntax.Mentions
import DecimalScript.Value.Parts

/-!
# Names that a machine does not mention

A machine can only ever look up names that stand in the syntax it is given and in the syntax that it
holds: the bodies of its functions, the bodies of the lambdas among its values and the programs in
its files. A name that none of them mentions stays unmentioned, because syntax is only handed on.
-/

namespace DecimalScript

/-- No lambda in a value mentions a name. -/
def Value.Avoids (name : String) (value : Value) : Prop :=
  ∀ identity params body, Part (lambda identity params body) value → body.Avoids name

namespace Value

variable {name : String}

/-- A lambda avoids the names that its body does not mention. -/
theorem avoids_lambda {identity : Nat} {params : List String} {body : Expr} :
    (lambda identity params body).Avoids name ↔ body.Avoids name := by
  constructor
  · exact fun h => h identity params body .whole
  · intro h _ _ _ hpart
    cases hpart
    exact h

/-- An array avoids what each of its elements does. -/
theorem avoids_array {items : List Value} :
    (array items).Avoids name ↔ ∀ item ∈ items, item.Avoids name := by
  constructor
  · exact fun h item hitem _ _ _ hpart => h _ _ _ (.item hitem hpart)
  · intro h _ _ _ hpart
    cases hpart with
    | item hitem hpart => exact h _ hitem _ _ _ hpart

/-- An object avoids what each of its fields does. -/
theorem avoids_object {fields : List (String × Value)} :
    (object fields).Avoids name ↔ ∀ field ∈ fields, field.2.Avoids name := by
  constructor
  · exact fun h field hfield _ _ _ hpart => h _ _ _ (.field hfield hpart)
  · intro h _ _ _ hpart
    cases hpart with
    | field hfield hpart => exact h _ hfield _ _ _ hpart

/-- Operators and built-in functions make no lambdas. -/
theorem avoids_class (name : String) : ValueClass (Avoids name) where
  number _ := nofun
  text _ := nofun
  boolean _ := nofun
  nothing := nofun
  array := avoids_array
  empty := avoids_object.mpr (List.forall_mem_nil _)
  field h hget := avoids_object.mp h _ (NameTable.mem_of_get? hget)
  set := by
    intro fields title value h hvalue
    refine avoids_object.mpr fun field hfield => ?_
    rcases NameTable.mem_of_mem_set hfield with hold | hnew
    · exact avoids_object.mp h field hold
    · rw [hnew]
      exact hvalue

end Value

/-- The variables of an environment hold values that do not mention a name. -/
def Environment.Avoids (name : String) (env : Environment) : Prop :=
  ∀ bound ∈ env.bindings, bound.value.Avoids name

/-- Nothing in a machine mentions a name. -/
structure Machine.Avoids (name : String) (m : Machine) : Prop where
  values : m.env.Avoids name
  functions : ∀ title function, m.functions.get? title = some function →
    Block.Avoids name function.body
  files : ∀ path program, Block.ofFile m.files path = .ok program → Block.Avoids name program

namespace Environment.Avoids

variable {name other : String} {env : Environment} {value : Value}

/-- What a variable is read as avoids what the environment does. -/
theorem of_get? (h : env.Avoids name) (hget : env.get? other = some value) : value.Avoids name := by
  obtain ⟨bound, hbound, rfl⟩ := Environment.exists_of_get? hget
  exact h bound hbound

/-- An environment in which a value was defined or written. -/
theorem changed {changed : Environment} (h : env.Avoids name) (hvalue : value.Avoids name)
    (hchanged : changed = env.define other value ∨ changed = env.write other value) :
    changed.Avoids name := by
  intro bound hbound
  rcases Environment.mem_changed hchanged hbound with hold | hnew
  · exact h bound hold
  · rw [hnew]
    exact hvalue

/-- A new variable may hold any value that avoids the name. -/
theorem define (h : env.Avoids name) (other : String) (hvalue : value.Avoids name) :
    (env.define other value).Avoids name :=
  h.changed hvalue (.inl rfl)

/-- So may one that is there already. -/
theorem write (h : env.Avoids name) (other : String) (hvalue : value.Avoids name) :
    (env.write other value).Avoids name :=
  h.changed hvalue (.inr rfl)

/-- An assignment does one or the other. -/
theorem assign (h : env.Avoids name) (other : String) (hvalue : value.Avoids name) :
    (env.assign other value).Avoids name := by
  unfold Environment.assign
  split
  · exact h.write other hvalue
  · exact h.define other hvalue

/-- So does a declaration. -/
theorem declare (h : env.Avoids name) (other : String) (hvalue : value.Avoids name) :
    (env.declare other value).Avoids name := by
  unfold Environment.declare
  split
  · exact h.write other hvalue
  · exact h.define other hvalue

/-- A scope is opened for parameters. -/
theorem opened (h : env.Avoids name) (params : List String) {values : List Value}
    (hvalues : ∀ value ∈ values, value.Avoids name) :
    (env.pushScope.defineAll params values).Avoids name := by
  intro bound hbound
  rcases (Environment.defineAll_spec env.pushScope params values).2.2 bound hbound with hold | hnew
  · exact h bound hold
  · exact hvalues _ hnew

/-- What a mark brings back was there before. -/
theorem restore (h : env.Avoids name) (mark : Environment.Mark) : (env.restore mark).Avoids name :=
  fun bound hbound => h bound (Environment.mem_restore hbound)

/-- So was what is left when a scope is closed. -/
theorem popScope (h : env.Avoids name) {closed : Environment} (hclosed : env.popScope? = some closed) :
    closed.Avoids name := by
  unfold Environment.popScope? at hclosed
  split at hclosed
  · cases hclosed
  · cases hclosed
    exact fun bound hbound => h bound ((keepOldest_suffix _ _).subset hbound)

end Environment.Avoids

/-- A function is registered. -/
theorem Machine.Avoids.register {name : String} {m : Machine} (h : m.Avoids name) (title : String)
    (function : Function) (hbody : Block.Avoids name function.body) :
    Machine.Avoids name { m with functions := m.functions.set title function } where
  values := h.values
  functions := by
    intro other found hfound
    by_cases hother : other = title
    · rw [hother, NameTable.get?_set_self] at hfound
      cases hfound
      exact hbody
    · exact h.functions other found ((NameTable.get?_set_of_ne _ hother _).symm.trans hfound)
  files := h.files

/-- The functions of a module are registered. -/
theorem Machine.Avoids.registerFunctions {name : String} {m : Machine} (h : m.Avoids name)
    (aliasName : String) {program : Block} (hprogram : Block.Avoids name program) :
    Machine.Avoids name
      { m with functions := Eval.registerFunctions aliasName program m.functions } := by
  induction program generalizing m with
  | nil => exact h
  | cons stmt rest ih =>
    obtain ⟨hfirst, hrest⟩ := List.forall_mem_cons.mp hprogram
    cases stmt with
    | define line title params returnType body =>
      have hbody : Block.Avoids name body := hfirst.definitionBody
      let function : Function := ⟨title, params, returnType, body⟩
      exact ih ((h.register (Eval.qualified aliasName title) function hbody).register title function
        hbody) hrest
    | _ => exact ih h hrest

end DecimalScript
