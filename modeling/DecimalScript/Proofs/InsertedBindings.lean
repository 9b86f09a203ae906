import DecimalScript.Proofs.PlainNames
import DecimalScript.Proofs.Variables

/-!
# Environments with one binding more

Two environments that differ in one binding are alike in all that other names mean. They stay so
under every operation that does not name it: a scope that was opened above the binding begins one
binding later, and a scope that was opened below it is not closed before the binding is gone.
-/

namespace DecimalScript

/-- No scope was opened when there were more bindings than now. -/
def Environment.Nested (env : Environment) : Prop := ∀ mark ∈ env.scopes, mark ≤ env.size

/-- A binding that one of two environments has and the other has not. -/
structure Insertion where
  /-- The binding. -/
  binding : Binding
  /-- Its name is not that of a constant of a module. -/
  plain : PlainName binding.name
  /-- The number of bindings below it. -/
  height : Nat
  /-- The number of scopes that were open when it was made. -/
  depth : Nat

namespace Insertion

/-- The second environment has the binding besides those of the first. -/
inductive Env (I : Insertion) : Environment → Environment → Prop
  | intro {newer older : List Binding} {inner outer : List Nat}
      (hheight : older.length = I.height) (hdepth : outer.length = I.depth)
      (hinner : ∀ mark ∈ inner, I.height ≤ mark) (houter : ∀ mark ∈ outer, mark ≤ I.height) :
      Env I ⟨newer ++ older, inner ++ outer⟩
        ⟨newer ++ I.binding :: older, inner.map (· + 1) ++ outer⟩

/-- Writing a name leaves a binding of another name between newer and older ones. -/
theorem exists_rebind_insert {name : String} {b : Binding} (h : name ≠ b.name) (value : Value)
    (newer older : List Binding) :
    ∃ newer' older', newer'.length = newer.length ∧ older'.length = older.length ∧
      rebind name value (newer ++ older) = newer' ++ older' ∧
      rebind name value (newer ++ b :: older) = newer' ++ b :: older' := by
  by_cases hnewer : name ∈ newer.map (·.name)
  · exact ⟨rebind name value newer, older, length_rebind _ _ _, rfl,
      rebind_append_of_mem hnewer, rebind_append_of_mem hnewer⟩
  · have hb : ¬ b.name = name := fun heq => h heq.symm
    refine ⟨newer, rebind name value older, rfl, length_rebind _ _ _,
      rebind_append_of_not_mem hnewer, ?_⟩
    rw [rebind_append_of_not_mem hnewer]
    simp [rebind, hb]

/-- A binding of another name does not matter for what bindings bind a name. -/
theorem any_insert {name : String} {b : Binding} (h : name ≠ b.name) (newer older : List Binding) :
    (newer ++ b :: older).any (·.name == name) = (newer ++ older).any (·.name == name) := by
  have hb : (b.name == name) = false := beq_eq_false_iff_ne.mpr h.symm
  rw [List.any_append, List.any_append, List.any_cons, hb, Bool.false_or]

namespace Env

variable {I : Insertion} {env env' after after' : Environment} {name : String} {value : Value}

/-- The second environment has one binding more. -/
theorem size_eq (h : I.Env env env') : env'.size = env.size + 1 := by
  cases h
  simp [Environment.size]
  omega

/-- The binding is not below the bottom. -/
theorem height_le (h : I.Env env env') : I.height ≤ env.size := by
  cases h with
  | intro hheight _ _ _ => simp [Environment.size, ← hheight]

/-- As many scopes are open. -/
theorem depth_eq (h : I.Env env env') : env'.depth = env.depth := by
  cases h
  simp [Environment.depth]

theorem depth_le (h : I.Env env env') : I.depth ≤ env.depth := by
  cases h with
  | intro _ hdepth _ _ => simp [Environment.depth, ← hdepth]

/-- Other names mean the same. -/
theorem get? (h : I.Env env env') (hname : name ≠ I.binding.name) :
    env'.get? name = env.get? name := by
  cases h with
  | @intro newer older inner outer =>
    have hb : (I.binding.name == name) = false := beq_eq_false_iff_ne.mpr hname.symm
    simp only [Environment.get?, List.find?_append, List.find?_cons, hb]

theorem binds (h : I.Env env env') (hname : name ≠ I.binding.name) :
    env'.binds name = env.binds name := by
  rw [Environment.binds_eq_isSome, Environment.binds_eq_isSome, h.get? hname]

/-- A new binding is in front of it, whatever its name. -/
theorem define (h : I.Env env env') (name : String) (value : Value) :
    I.Env (env.define name value) (env'.define name value) := by
  cases h with
  | @intro newer older inner outer hheight hdepth hinner houter =>
    exact @intro I (⟨name, value⟩ :: newer) older inner outer hheight hdepth hinner houter

theorem defineAll (h : I.Env env env') (names : List String) (values : List Value) :
    I.Env (env.defineAll names values) (env'.defineAll names values) := by
  induction names generalizing env env' values with
  | nil => exact h
  | cons name names ih =>
    cases values with
    | nil => exact h
    | cons value values => exact ih (h.define name value) values

theorem write (h : I.Env env env') (hname : name ≠ I.binding.name) (value : Value) :
    I.Env (env.write name value) (env'.write name value) := by
  cases h with
  | @intro newer older inner outer hheight hdepth hinner houter =>
    obtain ⟨newer', older', -, holder, hwritten, hwritten'⟩ :=
      exists_rebind_insert hname value newer older
    simp only [Environment.write, hwritten, hwritten']
    exact .intro (holder.trans hheight) hdepth hinner houter

theorem assign (h : I.Env env env') (hname : name ≠ I.binding.name) (value : Value) :
    I.Env (env.assign name value) (env'.assign name value) := by
  unfold Environment.assign
  rw [h.binds hname]
  split
  · exact h.write hname value
  · exact h.define name value

/-- The innermost scope binds the same other names, whether it was opened above the binding or
below. -/
theorem frame (h : I.Env env env') (hname : name ≠ I.binding.name) :
    env'.frame.any (·.name == name) = env.frame.any (·.name == name) := by
  cases h with
  | @intro newer older inner outer hheight hdepth hinner houter =>
    cases inner with
    | cons mark inner =>
      -- The scope was opened above the binding, and so is all that it binds.
      have hmark : I.height ≤ mark := hinner mark List.mem_cons_self
      have hlength : (newer ++ older).length - mark ≤ newer.length := by
        simp [hheight]
        omega
      have hsame : (newer ++ I.binding :: older).length - (mark + 1) =
          (newer ++ older).length - mark := by
        simp
        omega
      simp only [Environment.frame, Environment.size, List.map_cons, List.cons_append,
        List.headD_cons, hsame, List.take_append_of_le_length hlength]
    | nil =>
      -- The scope was opened below the binding, which is among those that it binds.
      have hmark : outer.headD 0 ≤ I.height := by
        cases outer with
        | nil => exact Nat.zero_le _
        | cons mark rest => exact houter mark List.mem_cons_self
      have hcount : (newer ++ older).length - outer.headD 0 =
          newer.length + (I.height - outer.headD 0) := by
        rw [List.length_append]
        omega
      have hcount' : (newer ++ I.binding :: older).length - outer.headD 0 =
          newer.length + (I.height - outer.headD 0 + 1) := by
        rw [List.length_append, List.length_cons]
        omega
      simp only [Environment.frame, Environment.size, List.map_nil, List.nil_append, hcount, hcount',
        List.take_length_add_append, List.take_succ_cons]
      exact any_insert hname _ _

theorem declare (h : I.Env env env') (hname : name ≠ I.binding.name) (value : Value) :
    I.Env (env.declare name value) (env'.declare name value) := by
  unfold Environment.declare
  rw [h.frame hname]
  split
  · exact h.write hname value
  · exact h.define name value

/-- A scope is opened above the binding. -/
theorem pushScope (h : I.Env env env') : I.Env env.pushScope env'.pushScope := by
  have hsize := h.size_eq
  have hheight := h.height_le
  cases h with
  | @intro newer older inner outer hlength hdepth hinner houter =>
    simp only [Environment.pushScope, hsize]
    exact @intro I newer older (Environment.size ⟨newer ++ older, inner ++ outer⟩ :: inner) outer
      hlength hdepth (List.forall_mem_cons.mpr ⟨hheight, hinner⟩) houter

/-- A scope that was opened above the binding is closed. -/
theorem popScope (h : I.Env env env') (hopen : I.depth < env.depth) :
    ∃ closed closed', env.popScope? = some closed ∧ env'.popScope? = some closed' ∧
      I.Env closed closed' := by
  cases h with
  | @intro newer older inner outer hheight hdepth hinner houter =>
    cases inner with
    | nil =>
      simp only [Environment.depth, List.nil_append] at hopen
      omega
    | cons mark inner =>
      obtain ⟨hmark, hothers⟩ := List.forall_mem_cons.mp hinner
      obtain ⟨above, rfl⟩ := Nat.exists_eq_add_of_le' hmark
      refine ⟨_, _, rfl, rfl, ?_⟩
      have hlonger : above + I.height + 1 = above + (I.binding :: older).length := by
        rw [List.length_cons]
        omega
      show I.Env ⟨keepOldest (above + I.height) (newer ++ older), inner ++ outer⟩
        ⟨keepOldest (above + I.height + 1) (newer ++ I.binding :: older),
          inner.map (· + 1) ++ outer⟩
      rw [hlonger, keepOldest_append, ← hheight, keepOldest_append]
      exact .intro hheight hdepth hothers houter

/-- A mark that was set above the binding is restored. -/
theorem restore (h : I.Env env env') (hafter : I.Env after after') :
    I.Env (after.restore env.mark) (after'.restore env'.mark) := by
  obtain ⟨above, habove⟩ := Nat.exists_eq_add_of_le' h.height_le
  obtain ⟨within, hwithin⟩ := Nat.exists_eq_add_of_le' h.depth_le
  have hsize := h.size_eq
  have hscopes := h.depth_eq
  cases hafter with
  | @intro newer older inner outer hheight hdepth hinner houter =>
    have hlonger : above + I.height + 1 = above + (I.binding :: older).length := by
      rw [List.length_cons]
      omega
    simp only [Environment.restore, Environment.mark, hsize, hscopes, habove, hwithin]
    rw [hlonger, keepOldest_append, ← hheight, keepOldest_append, ← hdepth, keepOldest_append,
      keepOldest_append, ← map_keepOldest]
    exact .intro hheight hdepth
      (fun mark hmark => hinner mark ((keepOldest_suffix _ _).subset hmark)) houter

/-- Where the binding is the newest one and no scope was opened since, it was just made. -/
theorem eq_define (h : I.Env env env') (hheight : env.size = I.height) (hdepth : env.depth = I.depth) :
    env' = env.define I.binding.name I.binding.value := by
  cases h with
  | @intro newer older inner outer hlength hcount hinner houter =>
    simp only [Environment.size, Environment.depth, List.length_append] at hheight hdepth
    obtain rfl : newer = [] := List.length_eq_zero_iff.mp (by omega)
    obtain rfl : inner = [] := List.length_eq_zero_iff.mp (by omega)
    rfl

end Env

/-- The insertion of a new binding on top of an environment. -/
def onTop (env : Environment) {name : String} (hplain : PlainName name) (value : Value) :
    Insertion where
  binding := ⟨name, value⟩
  plain := hplain
  height := env.size
  depth := env.depth

theorem env_onTop {env : Environment} (h : env.Nested) {name : String} (hplain : PlainName name)
    (value : Value) : (onTop env hplain value).Env env (env.define name value) :=
  @Env.intro (onTop env hplain value) [] env.bindings [] env.scopes rfl rfl (List.forall_mem_nil _) h

end Insertion

end DecimalScript
