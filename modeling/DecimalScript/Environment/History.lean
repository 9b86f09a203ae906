import DecimalScript.Environment.Frames

/-!
# Histories of variables

A table of variables is used through operations that answer something. Taking a mark only
reads the table, so every state of a history stands for the mark taken then, and a mark
is named by the number of operations since. It may be restored as long as neither the
bindings nor the scopes have been fewer than they were at that time.
-/

namespace DecimalScript

namespace Scoping

/-- What can be done with variables. -/
inductive Operation where
  /-- Makes a binding. -/
  | define (name : String) (value : Value)
  /-- Writes a variable of the current scope, or makes one. -/
  | declare (name : String) (value : Value)
  /-- Writes a variable of any scope, or makes one. -/
  | assign (name : String) (value : Value)
  /-- Writes a variable of any scope if there is one. -/
  | write (name : String) (value : Value)
  /-- Looks up a name. -/
  | get (name : String)
  /-- Opens a scope. -/
  | push
  /-- Closes a scope. -/
  | pop
  /-- Restores the mark taken a number of operations ago. -/
  | restore (age : Nat)

/-- What an operation answers. -/
inductive Reply where
  | done
  /-- The value that was looked up. -/
  | found (value : Option Value)
  /-- Whether the operation did what it was asked for. -/
  | answer (holds : Bool)

/-- What is seen of an operation. -/
structure Observation where
  /-- Its answer. -/
  reply : Reply
  /-- The number of bindings after it. -/
  size : Nat
  /-- The number of open scopes after it. -/
  depth : Nat

end Scoping

/-- The states that there were. -/
structure History (σ : Type) where
  /-- The state at present. -/
  now : σ
  /-- The states before, latest first. -/
  past : List σ := []

namespace History

variable {σ τ : Type}

/-- All states, latest first. -/
def states (history : History σ) : List σ := history.now :: history.past

/-- The state a number of operations ago. -/
def ago? (history : History σ) (age : Nat) : Option σ := history.states[age]?

/-- The history when another state follows. -/
def next (history : History σ) (state : σ) : History σ := ⟨state, history.states⟩

/-- The history of what the states stand for. -/
def map (f : σ → τ) (history : History σ) : History τ := ⟨f history.now, history.past.map f⟩

end History

/-- A way of keeping variables. -/
structure Scoping (σ : Type) where
  /-- The state after an operation, and its answer. -/
  respond : History σ → Scoping.Operation → σ × Scoping.Reply
  /-- The number of bindings. -/
  size : σ → Nat
  /-- The number of open scopes. -/
  depth : σ → Nat

namespace Scoping

variable {σ : Type} (table : Scoping σ)

/-- Whether a state has been undercut in none of some states: they have at least as many bindings
and open scopes. -/
def reaches (old : σ) (states : List σ) : Bool :=
  states.all fun state =>
    table.size old ≤ table.size state && table.depth old ≤ table.depth state

/-- Whether an operation may be performed: a mark has to be one that was taken and that has not
been undercut since. -/
def permits (history : History σ) : Operation → Bool
  | .restore age =>
    (history.ago? age).any fun old => table.reaches old (history.states.take (age + 1))
  | _ => true

/-- Whether operations may be performed one after the other. -/
def allows (history : History σ) : List Operation → Bool
  | [] => true
  | op :: rest =>
    table.permits history op && allows (history.next (table.respond history op).1) rest

/-- What is seen of operations that are performed one after the other. -/
def observe (history : History σ) : List Operation → List Observation
  | [] => []
  | op :: rest =>
    let (state, reply) := table.respond history op
    ⟨reply, table.size state, table.depth state⟩ :: observe (history.next state) rest

/-- The history after operations. -/
def run (history : History σ) : List Operation → History σ
  | [] => history
  | op :: rest => run (history.next (table.respond history op).1) rest

end Scoping

/-- What an operation does to an environment. Restoring a mark answers whether the environment has
that mark afterwards. -/
def Environment.respond (history : History Environment) :
    Scoping.Operation → Environment × Scoping.Reply
  | .define name value => (history.now.define name value, .done)
  | .declare name value => (history.now.declare name value, .done)
  | .assign name value => (history.now.assign name value, .done)
  | .write name value => (history.now.write name value, .answer (history.now.binds name))
  | .get name => (history.now, .found (history.now.get? name))
  | .push => (history.now.pushScope, .done)
  | .pop =>
    match history.now.popScope? with
    | some env => (env, .answer true)
    | none => (history.now, .answer false)
  | .restore age =>
    match history.ago? age with
    | some old =>
      let env := history.now.restore old.mark
      (env, .answer (env.mark == old.mark))
    | none => (history.now, .answer false)

/-- What an operation does to a stack of frames. -/
def Frames.respond (history : History Frames) : Scoping.Operation → Frames × Scoping.Reply
  | .define name value => (history.now.define name value, .done)
  | .declare name value => (history.now.declare name value, .done)
  | .assign name value => (history.now.assign name value, .done)
  | .write name value => (history.now.write name value, .answer (history.now.binds name))
  | .get name => (history.now, .found (history.now.get? name))
  | .push => (history.now.push, .done)
  | .pop =>
    match history.now.pop? with
    | some frames => (frames, .answer true)
    | none => (history.now, .answer false)
  | .restore age =>
    match history.ago? age with
    | some old => (history.now.restore old.mark, .answer true)
    | none => (history.now, .answer false)

/-- Variables in one table with watermarks. -/
def Scoping.flat : Scoping Environment := ⟨Environment.respond, Environment.size, Environment.depth⟩

/-- Variables in a stack of frames. -/
def Scoping.stacked : Scoping Frames := ⟨Frames.respond, Frames.size, Frames.depth⟩

end DecimalScript
