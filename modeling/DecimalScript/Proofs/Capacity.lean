import DecimalScript.Proofs.Budget
import Mathlib.Data.List.Nodup
import Mathlib.Data.Nat.Digits.Defs
import Mathlib.Tactic.Choose

/-!
# Budgets of machines

The bound on nested evaluation that is computed from a machine is that of a budget which
fits the machine. For the modules being loaded this counts paths: a path that can be read
is a text of bounded length, and texts of bounded length are numbers of bounded length.
-/

namespace DecimalScript

/-- A text has no more characters than bytes. -/
theorem length_le_size_of_chars (chars : List Char) : chars.length ≤ chars.utf8Encode.size := by
  induction chars with
  | nil => exact Nat.zero_le _
  | cons c rest ih =>
    have hpos : 0 < [c].utf8Encode.size := by
      rw [List.utf8Encode_singleton]
      simpa using Char.utf8Size_pos c
    rw [List.utf8Encode_cons, ByteArray.size_append, List.length_cons]
    omega

namespace Path

/-- The base that paths are written as numbers in. -/
def base : Nat := 2 ^ 21

theorem base_pow (n : Nat) : base ^ n = 1 <<< (21 * n) := by
  rw [Nat.one_shiftLeft, Nat.pow_mul, base]

/-- A path as a number. No digit is zero, so no character is lost. -/
def encode (path : Path) : Nat := Nat.ofDigits base (path.chars.map fun c => c.toNat + 1)

theorem digit_lt_base (c : Char) : c.toNat + 1 < base := by
  have hvalid : c.toNat < 0xd800 ∨ 0xdfff < c.toNat ∧ c.toNat < 0x110000 := c.valid
  unfold base
  omega

/-- The digits of a path are its characters. -/
theorem digits_encode (path : Path) :
    base.digits path.encode = path.chars.map fun c => c.toNat + 1 := by
  refine Nat.digits_ofDigits base (by decide) _ ?_ fun hne => ?_
  · intro digit hdigit
    obtain ⟨c, _, rfl⟩ := List.mem_map.mp hdigit
    exact digit_lt_base c
  · obtain ⟨c, _, hc⟩ := List.mem_map.mp (List.getLast_mem hne)
    omega

/-- Different paths are different numbers. -/
theorem encode_injective {path other : Path} (h : path.encode = other.encode) :
    path = other := by
  have hdigits : path.chars.map (fun c => c.toNat + 1) = other.chars.map fun c => c.toNat + 1 := by
    rw [← digits_encode, ← digits_encode, h]
  have hchars : path.chars = other.chars :=
    List.map_injective_iff.mpr (fun c d hcd => Char.toNat_inj.mp (Nat.succ.inj hcd)) hdigits
  exact congrArg Path.mk (String.toList_inj.mp hchars)

/-- A path of bounded length is a bounded number. -/
theorem encode_lt {path : Path} {n : Nat} (h : path.text.utf8ByteSize ≤ n) :
    path.encode < base ^ n := by
  have hlength : path.chars.length ≤ n := by
    have hsize := length_le_size_of_chars path.chars
    rw [show path.chars.utf8Encode = path.text.toByteArray from String.utf8Encode_toList] at hsize
    exact Nat.le_trans hsize h
  have hencode : path.encode < base ^ (path.chars.map fun c => c.toNat + 1).length := by
    refine Nat.ofDigits_lt_base_pow_length (by decide) fun digit hdigit => ?_
    obtain ⟨c, _, rfl⟩ := List.mem_map.mp hdigit
    exact digit_lt_base c
  rw [List.length_map] at hencode
  exact Nat.lt_of_lt_of_le hencode (Nat.pow_le_pow_right (by decide) hlength)

end Path

namespace FileTree

/-- A file with contents is in the tree. -/
theorem mem_of_contents {files : FileTree} {place : Place} {found : List UInt8}
    (h : files.contents place = .ok found) : (place, .file found) ∈ files.entries := by
  unfold contents entry? at h
  cases hlookup : files.entries.lookup place with
  | some entry =>
    rw [hlookup] at h
    cases entry with
    | directory => cases h
    | file contents =>
      cases h
      obtain ⟨before, after, hentries, _⟩ := List.lookup_eq_some_iff.mp hlookup
      rw [hentries]
      exact List.mem_append_right _ List.mem_cons_self
  | none =>
    rw [hlookup] at h
    dsimp only at h
    split at h
    · cases h
    · cases h
    · rename_i hentry
      split at hentry
      · cases hentry
      · cases hentry

/-- A file that can be read is in the tree, by a path of bounded length. -/
theorem of_read {files : FileTree} {path : Path} {contents : List UInt8}
    (h : files.read path = .ok contents) :
    path.text.utf8ByteSize ≤ maxPath ∧ ∃ place, (place, .file contents) ∈ files.entries := by
  unfold read at h
  split at h
  · cases h
  split at h
  · cases h
  split at h
  · cases h
  rename_i hlong
  refine ⟨Nat.le_of_not_lt hlong, ?_⟩
  cases hplace : files.follow (if path.isAbsolute then [] else files.home) path.parts with
  | error fault =>
    rw [hplace] at h
    cases h
  | ok place =>
    rw [hplace] at h
    exact ⟨place, mem_of_contents h⟩

/-- The modules being loaded at a time are at most as many as there are paths. -/
theorem hasRoom_loadBound (files : FileTree) (loading : List Path) :
    files.HasRoom loading files.loadBound := by
  intro paths hnodup hpaths
  have hloads : ∀ path ∈ paths, ∃ source : Path, source.canonical = path ∧
      source.text.utf8ByteSize ≤ maxPath ∧ files.fileCount ≠ 0 := by
    intro path hpath
    obtain ⟨source, program, hcanonical, hfile⟩ := (hpaths path hpath).1
    unfold Block.ofFile at hfile
    split at hfile
    · cases hfile
    · rename_i contents hread
      obtain ⟨hlength, place, hplace⟩ := of_read hread
      refine ⟨source, hcanonical, hlength, fun hnone => ?_⟩
      have hnil := List.eq_nil_of_length_eq_zero hnone
      exact List.filter_eq_nil_iff.mp hnil _ hplace rfl
  choose! source hcanonical hlength hfiles using hloads
  unfold loadBound
  split
  · rename_i hnone
    cases paths with
    | nil => exact Nat.le_refl _
    | cons path rest => exact absurd hnone (hfiles path List.mem_cons_self)
  · have hdistinct : (paths.map fun path => (source path).encode).Nodup := by
      refine hnodup.map_on fun path hpath other hother heq => ?_
      rw [← hcanonical path hpath, ← hcanonical other hother, Path.encode_injective heq]
    have hbounded : (paths.map fun path => (source path).encode) ⊆
        List.range (Path.base ^ maxPath) := by
      intro n hn
      obtain ⟨path, hpath, rfl⟩ := List.mem_map.mp hn
      exact List.mem_range.mpr (Path.encode_lt (hlength path hpath))
    have hcount := hdistinct.length_le_of_subset hbounded
    rw [List.length_map, List.length_range, Path.base_pow] at hcount
    exact hcount

end FileTree

theorem le_greatest {α : Type} (measure : α → Nat) {item : α} {items : List α}
    (h : item ∈ items) : measure item ≤ greatest measure items := by
  induction items with
  | nil => cases h
  | cons first rest ih =>
    unfold greatest
    rcases List.mem_cons.mp h with rfl | hrest
    · exact Nat.le_max_left _ _
    · exact Nat.le_trans (ih hrest) (Nat.le_max_right _ _)

/-- A program that can be loaded is at most as large as the largest program in the files. -/
theorem FileTree.sizeAll_le_programSize {files : FileTree} {path : Path} {program : Block}
    (h : Block.ofFile files path = .ok program) : Stmt.sizeAll program ≤ files.programSize := by
  unfold Block.ofFile at h
  split at h
  · cases h
  · rename_i contents hread
    obtain ⟨_, place, hplace⟩ := of_read hread
    have hle : ((Block.ofSource contents).toOption.map Stmt.sizeAll).getD 0 ≤
        files.programSize :=
      le_greatest (fun entry : Place × FileEntry => entry.2.programSize) hplace
    rw [h] at hle
    exact hle

namespace Machine

/-- The budget of a machine for syntax of a given size, which may import or not. -/
def budget (m : Machine) (size : Nat) (importing : Bool) : Budget :=
  if importing || m.imports then
    { size := max (max size m.storedSize) m.files.programSize
      levels := m.maxCallDepth + m.files.loadBound + 1
      imports := true }
  else
    { size := max size m.storedSize
      levels := m.maxCallDepth + 1
      imports := false }

variable (m : Machine) (size : Nat) (importing : Bool)

/-- The bound on nesting allows every level a tree of the largest size. -/
theorem nestingBound_eq :
    m.nestingBound size importing =
      (m.budget size importing).levels * ((m.budget size importing).size + 1) := by
  unfold nestingBound budget
  split <;> rfl

/-- A budget is made for all syntax that it was asked for and for all that the machine holds. -/
theorem size_le_budget : max size m.storedSize ≤ (m.budget size importing).size := by
  unfold budget
  split
  · exact Nat.le_max_left _ _
  · exact Nat.le_refl _

theorem imports_budget :
    (m.budget size importing).imports = (importing || m.imports) := by
  unfold budget
  split
  · rename_i h
    exact h.symm
  · rename_i h
    exact (Bool.eq_false_of_not_eq_true h).symm

/-- The budget of a machine fits it. -/
theorem fits_budget : (m.budget size importing).Fits m where
  function := by
    intro name function hget stmt hstmt
    have hmem := NameTable.mem_of_get? hget
    have hsize := m.size_le_budget size importing
    constructor
    · have hbody : Stmt.sizeAll function.body ≤ m.storedSize :=
        Nat.le_trans (le_greatest (fun entry : String × Function => Stmt.sizeAll entry.2.body) hmem)
          (Nat.le_max_left _ _)
      have hstmt := Stmt.size_le_of_mem hstmt
      omega
    · intro hoff
      rw [imports_budget, Bool.or_eq_false_iff] at hoff
      have hbody : Stmt.importsAny function.body = false :=
        Bool.eq_false_of_not_eq_true (List.any_eq_false.mp hoff.2 _ hmem)
      exact Stmt.importsAny_eq_false.mp hbody stmt hstmt
  binding := by
    intro bound hbound
    have hle : bound.value.lambdaSize ≤ m.storedSize :=
      Nat.le_trans (le_greatest (fun bound : Binding => bound.value.lambdaSize) hbound)
        (Nat.le_max_right _ _)
    have hsize := m.size_le_budget size importing
    omega
  file := by
    intro himports path program hfile
    have hle := FileTree.sizeAll_le_programSize hfile
    unfold budget at himports ⊢
    split at himports
    · rename_i h
      rw [if_pos h]
      exact Nat.le_trans hle (Nat.le_max_right _ _)
    · cases himports
  room := by
    unfold budget
    split
    · refine ⟨m.files.loadBound, fun _ => m.files.hasRoom_loadBound m.loading, ?_⟩
      dsimp only
      omega
    · refine ⟨0, nofun, ?_⟩
      dsimp only
      omega

/-- The bound on nesting is enough for all syntax that the machine's budget was asked for. -/
theorem bound_le_nestingBound {inside : Nat} (h : inside ≤ size) :
    (m.budget size importing).bound inside ≤ m.nestingBound size importing := by
  have hsize := m.size_le_budget size importing
  have hlevels : 0 < (m.budget size importing).levels := by
    unfold budget
    split <;> exact Nat.succ_pos _
  obtain ⟨levels, hlevels⟩ := Nat.exists_eq_add_of_lt hlevels
  rw [nestingBound_eq, Budget.bound, hlevels, Nat.zero_add, Nat.add_sub_cancel, Nat.succ_mul]
  omega

/-- The budget of a machine for a program covers its statements. -/
theorem covers_budget {program : Block} {stmt : Stmt} (h : stmt ∈ program) :
    (m.budget (Stmt.sizeAll program) (Stmt.importsAny program)).Covers stmt := by
  have hsize := m.size_le_budget (Stmt.sizeAll program) (Stmt.importsAny program)
  refine ⟨?_, fun hoff => ?_⟩
  · have := Stmt.size_le_of_mem h
    omega
  · rw [imports_budget, Bool.or_eq_false_iff] at hoff
    exact Stmt.importsAny_eq_false.mp hoff.1 stmt h

end Machine

end DecimalScript
