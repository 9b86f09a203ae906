import DecimalScript.Environment

/-!
# Stacks of frames

Each open scope has a frame with the bindings made in it, and an outermost frame belongs
to no scope. A name is looked up from the innermost frame outwards, and in a frame from
the newest binding on. Closing a scope drops its frame. This is what an environment with
one table and watermarks is meant to be.
-/

namespace DecimalScript

/-- A stack of frames. -/
structure Frames where
  /-- The innermost frame, newest binding first. -/
  top : List Binding := []
  /-- The frames around it, innermost first. -/
  below : List (List Binding) := []

/-- The place in a stack of frames at some moment. -/
structure Frames.Mark where
  /-- The number of bindings in the innermost frame. -/
  top : Nat
  /-- The number of frames around it. -/
  below : Nat
  deriving DecidableEq, Repr

/-- Whether a frame binds a name. -/
def holdsName (name : String) (frame : List Binding) : Bool := frame.any (·.name == name)

/-- Writes a name in the first frame that binds it. -/
def writeFirst (name : String) (value : Value) : List (List Binding) → List (List Binding)
  | [] => []
  | frame :: rest =>
    if holdsName name frame then rebind name value frame :: rest
    else frame :: writeFirst name value rest

namespace Frames

/-- All frames, innermost first. -/
def all (frames : Frames) : List (List Binding) := frames.top :: frames.below

/-- The number of bindings. -/
def size (frames : Frames) : Nat := frames.all.flatten.length

/-- The number of open scopes. -/
def depth (frames : Frames) : Nat := frames.below.length

/-- The value of the newest binding of a name in the innermost frame that binds it. -/
def get? (frames : Frames) (name : String) : Option Value :=
  frames.all.findSome? fun frame => (frame.find? (·.name == name)).map (·.value)

/-- Whether a frame binds a name. -/
def binds (frames : Frames) (name : String) : Bool := frames.all.any (holdsName name)

/-- Makes a binding in the innermost frame. -/
def define (frames : Frames) (name : String) (value : Value) : Frames :=
  { frames with top := ⟨name, value⟩ :: frames.top }

/-- Writes a name in the innermost frame that binds it, if there is one. -/
def write (frames : Frames) (name : String) (value : Value) : Frames :=
  if holdsName name frames.top then { frames with top := rebind name value frames.top }
  else { frames with below := writeFirst name value frames.below }

/-- Writes a name in the innermost frame if that binds it, and else makes a binding there. -/
def declare (frames : Frames) (name : String) (value : Value) : Frames :=
  if holdsName name frames.top then { frames with top := rebind name value frames.top }
  else frames.define name value

/-- Writes a name in the innermost frame that binds it, and else makes a binding. -/
def assign (frames : Frames) (name : String) (value : Value) : Frames :=
  if frames.binds name then frames.write name value else frames.define name value

/-- Opens a scope with an empty frame. -/
def push (frames : Frames) : Frames := ⟨[], frames.all⟩

/-- Closes the innermost scope, if one is open. -/
def pop? (frames : Frames) : Option Frames :=
  match frames.below with
  | [] => none
  | frame :: rest => some ⟨frame, rest⟩

/-- The place in a stack. -/
def mark (frames : Frames) : Mark := ⟨frames.top.length, frames.depth⟩

/-- Leaves the frames inside a marked one, and its newer bindings. -/
def restore (frames : Frames) (mark : Mark) : Frames :=
  match keepOldest (mark.below + 1) frames.all with
  | [] => {}
  | frame :: rest => ⟨keepOldest mark.top frame, rest⟩

end Frames

end DecimalScript
