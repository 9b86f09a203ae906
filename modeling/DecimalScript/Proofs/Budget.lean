import DecimalScript.Eval.Bound
import DecimalScript.Proofs.Values
import DecimalScript.Syntax.Parts

/-!
# Budgets for nested evaluation

A budget bounds the syntax that can run and the calls and module loads that can still be
nested. A call uses up a level because only so many may be in progress, and a module
load because no module is loaded while it is being loaded already.
-/

namespace DecimalScript

namespace Value

theorem lambdaSizeAll_le {items : List Value} {n : Nat} :
    lambdaSizeAll items ≤ n ↔ ∀ item ∈ items, item.lambdaSize ≤ n := by
  induction items with
  | nil => simp [lambdaSizeAll]
  | cons item rest ih => rw [lambdaSizeAll, Nat.max_le, ih, List.forall_mem_cons]

theorem lambdaSizeFields_le {fields : NameTable Value} {n : Nat} :
    lambdaSizeFields fields ≤ n ↔ ∀ field ∈ fields, field.2.lambdaSize ≤ n := by
  induction fields with
  | nil => simp [lambdaSizeFields]
  | cons field rest ih =>
    obtain ⟨name, value⟩ := field
    rw [lambdaSizeFields, Nat.max_le, ih, List.forall_mem_cons]

/-- Values with lambdas of bounded size are a class. -/
theorem lambdaSize_class (n : Nat) : ValueClass (fun value => value.lambdaSize ≤ n) where
  number _ := Nat.zero_le n
  text _ := Nat.zero_le n
  boolean _ := Nat.zero_le n
  nothing := Nat.zero_le n
  array := by
    intro items
    simp only [lambdaSize]
    exact lambdaSizeAll_le
  empty := Nat.zero_le n
  field := by
    intro fields name value h hget
    simp only [lambdaSize] at h
    exact lambdaSizeFields_le.mp h (name, value) (NameTable.mem_of_get? hget)
  set := by
    intro fields name value h hvalue
    simp only [lambdaSize] at h ⊢
    refine lambdaSizeFields_le.mpr fun field hfield => ?_
    rcases NameTable.mem_of_mem_set hfield with hold | hnew
    · exact lambdaSizeFields_le.mp h field hold
    · rw [hnew]
      exact hvalue

end Value

/-- What is in each of some classes of values is a class. -/
theorem ValueClass.all {ι : Type} {among : ι → Prop} {good : ι → Value → Prop}
    (h : ∀ i, ValueClass (good i)) : ValueClass (fun value => ∀ i, among i → good i value) where
  number n i _ := (h i).number n
  text s i _ := (h i).text s
  boolean b i _ := (h i).boolean b
  nothing i _ := (h i).nothing
  array := by
    intro items
    constructor
    · exact fun hall item hitem i hi => (h i).array.mp (hall i hi) item hitem
    · exact fun hall i hi => (h i).array.mpr fun item hitem => hall item hitem i hi
  empty i _ := (h i).empty
  field hall hget i hi := (h i).field (hall i hi) hget
  set hall hvalue i hi := (h i).set (hall i hi) (hvalue i hi)

namespace FileTree

/-- Whether a program can be loaded by a path of given canonical spelling. -/
def Loads (files : FileTree) (canonical : Path) : Prop :=
  ∃ path program, path.canonical = canonical ∧ Block.ofFile files path = .ok program

/-- At most so many modules can be loaded besides those being loaded. -/
def HasRoom (files : FileTree) (loading : List Path) (room : Nat) : Prop :=
  ∀ paths : List Path, paths.Nodup → (∀ path ∈ paths, files.Loads path ∧ path ∉ loading) →
    paths.length ≤ room

/-- Loading a module leaves room for one less. -/
theorem HasRoom.load {files : FileTree} {loading : List Path} {room : Nat}
    (h : files.HasRoom loading room) {path : Path} (hloads : files.Loads path)
    (hnew : path ∉ loading) : 0 < room ∧ files.HasRoom (path :: loading) (room - 1) := by
  have hone := h [path] (by simp) fun p hp => by
    rw [List.mem_singleton.mp hp]
    exact ⟨hloads, hnew⟩
  refine ⟨hone, fun paths hnodup hpaths => ?_⟩
  have hmore := h (path :: paths) (List.nodup_cons.mpr
    ⟨fun hmem => (hpaths path hmem).2 List.mem_cons_self, hnodup⟩) fun p hp => by
      rcases List.mem_cons.mp hp with rfl | hp
      · exact ⟨hloads, hnew⟩
      · exact ⟨(hpaths p hp).1, fun hmem => (hpaths p hp).2 (List.mem_cons_of_mem _ hmem)⟩
  rw [List.length_cons] at hmore
  omega

end FileTree

/-- What bounds nested evaluation. -/
structure Budget where
  /-- The size of the largest tree that can run. -/
  size : Nat
  /-- More than the calls and module loads that can still be nested. -/
  levels : Nat
  /-- Whether an import can run. -/
  imports : Bool

namespace Budget

/-- The budget inside a call or a module load. -/
def nested (b : Budget) : Budget := { b with levels := b.levels - 1 }

/-- The nesting that a tree of a given size may need. The tree takes one level, and every further
level the largest tree. -/
def bound (b : Budget) (size : Nat) : Nat := size + (b.levels - 1) * (b.size + 1)

/-- Inside a call or a module load, a tree may need less than any tree outside. -/
theorem bound_nested {b : Budget} {size inside : Nat} (hpos : 0 < size) (hinside : inside ≤ b.size)
    (hlevels : 0 < b.nested.levels) : b.nested.bound inside < b.bound size := by
  have hsome : 0 < b.levels - 1 := hlevels
  obtain ⟨levels, hmore⟩ : ∃ levels, b.levels = levels + 2 := ⟨b.levels - 2, by omega⟩
  have hproduct : (levels + 1) * (b.size + 1) = levels * (b.size + 1) + (b.size + 1) :=
    Nat.succ_mul _ _
  unfold bound nested
  simp only [hmore, Nat.add_sub_cancel, show levels + 2 - 1 = levels + 1 from rfl]
  omega

/-- Whether a budget is made for a statement. -/
def Covers (b : Budget) (stmt : Stmt) : Prop :=
  stmt.size ≤ b.size ∧ (b.imports = false → stmt.imports = false)

/-- Whether a budget is made for a machine. -/
structure Fits (b : Budget) (m : Machine) : Prop where
  function : ∀ {name function}, m.functions.get? name = some function →
    ∀ stmt ∈ function.body, b.Covers stmt
  binding : ∀ bound ∈ m.env.bindings, bound.value.lambdaSize ≤ b.size
  file : b.imports = true → ∀ {path program}, Block.ofFile m.files path = .ok program →
    Stmt.sizeAll program ≤ b.size
  room : ∃ room, (b.imports = true → m.files.HasRoom m.loading room) ∧
    m.maxCallDepth - m.callDepth + room < b.levels

/-- A statement inside one that a budget covers is covered, if it is smaller. -/
theorem Covers.definition {b : Budget} {line : Nat} {name : String} {params : List Parameter}
    {returnType : Option TypeName} {body : Block}
    (h : b.Covers (.define line name params returnType body)) : ∀ stmt ∈ body, b.Covers stmt := by
  intro stmt hstmt
  have hsize := Stmt.size_le_of_mem hstmt
  refine ⟨?_, fun hoff => ?_⟩
  · have := h.1
    simp only [Stmt.size] at this
    omega
  · have himports := h.2 hoff
    simp only [Stmt.imports] at himports
    exact Stmt.importsAny_eq_false.mp himports stmt hstmt

/-- A budget that covers an import is made for imports. -/
theorem Covers.imports_of_use {b : Budget} {line : Nat} {target : ModuleRef} {aliasName : String}
    (h : b.Covers (.use line target aliasName)) : b.imports = true := by
  cases hoff : b.imports with
  | true => rfl
  | false => exact absurd (h.2 hoff) (by simp [Stmt.imports])

namespace Fits

variable {b : Budget} {m : Machine}

/-- Variables that hold new values of bounded size. -/
theorem withEnv (h : b.Fits m) {env : Environment}
    (henv : ∀ bound ∈ env.bindings, bound ∈ m.env.bindings ∨ bound.value.lambdaSize ≤ b.size) :
    b.Fits { m with env } where
  function := h.function
  binding := fun bound hbound => (henv bound hbound).elim (h.binding bound) id
  file := h.file
  room := h.room

/-- A new function with a body that is covered. -/
theorem register (h : b.Fits m) (name : String) {function : Function}
    (hbody : ∀ stmt ∈ function.body, b.Covers stmt) :
    b.Fits { m with functions := m.functions.set name function } where
  function := by
    intro other found hfound
    by_cases hname : other = name
    · subst hname
      have hset := NameTable.get?_set_self m.functions other function
      rw [show m.functions.set other function = _ from rfl] at hset
      rw [hset] at hfound
      cases hfound
      exact hbody
    · have hset := NameTable.get?_set_of_ne m.functions hname function
      exact h.function (hset ▸ hfound)
  binding := h.binding
  file := h.file
  room := h.room

/-- Inside a call there is one level less. -/
theorem call (h : b.Fits m) (hcalls : m.callDepth < m.maxCallDepth) {env : Environment}
    (henv : ∀ bound ∈ env.bindings, bound ∈ m.env.bindings ∨ bound.value.lambdaSize ≤ b.size) :
    b.nested.Fits { m with env, callDepth := m.callDepth + 1 } where
  function := h.function
  binding := (h.withEnv henv).binding
  file := h.file
  room := by
    obtain ⟨room, hroom, hlevels⟩ := h.room
    refine ⟨room, hroom, ?_⟩
    show m.maxCallDepth - (m.callDepth + 1) + room < b.levels - 1
    omega

/-- Inside a module load there is one level less. -/
theorem load (h : b.Fits m) (himports : b.imports = true) {path : Path}
    (hloads : m.files.Loads path) (hnew : path ∉ m.loading) :
    b.nested.Fits { m with loading := path :: m.loading } where
  function := h.function
  binding := h.binding
  file := h.file
  room := by
    obtain ⟨room, hroom, hlevels⟩ := h.room
    obtain ⟨hpos, hrest⟩ := (hroom himports).load hloads hnew
    refine ⟨room - 1, fun _ => hrest, ?_⟩
    show m.maxCallDepth - m.callDepth + (room - 1) < b.levels - 1
    omega

/-- Back from a call or a module load there is as much room as before. -/
theorem back (h : b.Fits m) {inside after : Machine} (hinside : b.nested.Fits inside)
    (hfunctions : after.functions = inside.functions)
    (hbindings : ∀ bound ∈ after.env.bindings, bound ∈ inside.env.bindings)
    (hfiles : after.files = m.files) (hloading : after.loading = m.loading)
    (hcalls : after.callDepth = m.callDepth) (hmax : after.maxCallDepth = m.maxCallDepth) :
    b.Fits after where
  function := by
    rw [hfunctions]
    exact hinside.function
  binding := fun bound hbound => hinside.binding bound (hbindings bound hbound)
  file := by
    rw [hfiles]
    exact h.file
  room := by
    rw [hfiles, hloading, hcalls, hmax]
    exact h.room

end Fits

end Budget

end DecimalScript
