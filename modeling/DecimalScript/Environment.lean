import DecimalScript.Value.Basic

/-!
# Environments

An environment is one table of bindings, newest first, with a stack of watermarks: each
open scope remembers how many bindings there were when it was opened. A name means its
newest binding anywhere in the table, so callees see the variables of their callers.
Closing a scope drops the bindings made since it was opened. A mark remembers both
sizes, and restoring it drops whatever is newer.
-/

namespace DecimalScript

/-- A variable and its value. -/
structure Binding where
  /-- The name of the variable. -/
  name : String
  /-- Its value. -/
  value : Value

/-- The bindings and the open scopes. -/
structure Environment where
  /-- The bindings, newest first. -/
  bindings : List Binding := []
  /-- The number of bindings below each open scope, innermost first. -/
  scopes : List Nat := []

/-- The sizes of an environment at some moment. -/
structure Environment.Mark where
  /-- The number of bindings. -/
  bindings : Nat
  /-- The number of open scopes. -/
  scopes : Nat
  deriving DecidableEq, Repr

/-- The bindings with another value for the newest one of a name. -/
def rebind (name : String) (value : Value) : List Binding → List Binding
  | [] => []
  | b :: rest => if b.name == name then ⟨b.name, value⟩ :: rest else b :: rebind name value rest

/-- Drops entries at the front until at most a given number is left. -/
def keepOldest {α : Type} (count : Nat) (entries : List α) : List α :=
  entries.drop (entries.length - count)

namespace Environment

/-- The number of bindings. -/
def size (env : Environment) : Nat := env.bindings.length

/-- The number of open scopes. -/
def depth (env : Environment) : Nat := env.scopes.length

/-- The names of the bindings, newest first. -/
def names (env : Environment) : List String := env.bindings.map (·.name)

/-- The value a name means. -/
def get? (env : Environment) (name : String) : Option Value :=
  (env.bindings.find? (·.name == name)).map (·.value)

/-- Whether a name means anything. -/
def binds (env : Environment) (name : String) : Bool := env.bindings.any (·.name == name)

/-- Gives the newest binding of a name another value; a name without bindings stays so. -/
def write (env : Environment) (name : String) (value : Value) : Environment :=
  { env with bindings := rebind name value env.bindings }

/-- Makes a new binding, which shadows the others of its name. -/
def define (env : Environment) (name : String) (value : Value) : Environment :=
  { env with bindings := ⟨name, value⟩ :: env.bindings }

/-- The bindings made since the innermost scope was opened. -/
def frame (env : Environment) : List Binding :=
  env.bindings.take (env.size - env.scopes.headD 0)

/-- Writes the newest binding of a name if the innermost scope made it, and else makes one. -/
def declare (env : Environment) (name : String) (value : Value) : Environment :=
  if env.frame.any (·.name == name) then env.write name value else env.define name value

/-- Writes the newest binding of a name if there is one, and else makes one. -/
def assign (env : Environment) (name : String) (value : Value) : Environment :=
  if env.binds name then env.write name value else env.define name value

/-- Opens a scope. -/
def pushScope (env : Environment) : Environment :=
  { env with scopes := env.size :: env.scopes }

/-- Closes the innermost scope, if one is open. -/
def popScope? (env : Environment) : Option Environment :=
  match env.scopes with
  | [] => none
  | watermark :: rest => some ⟨keepOldest watermark env.bindings, rest⟩

/-- The sizes of an environment. -/
def mark (env : Environment) : Mark := ⟨env.size, env.depth⟩

/-- Drops bindings and scopes beyond a mark. -/
def restore (env : Environment) (mark : Mark) : Environment :=
  ⟨keepOldest mark.bindings env.bindings, keepOldest mark.scopes env.scopes⟩

/-- Binds names to values one after the other; surplus names or values are left out. -/
def defineAll (env : Environment) : List String → List Value → Environment
  | name :: names, value :: values => (env.define name value).defineAll names values
  | _, _ => env

end Environment

end DecimalScript
