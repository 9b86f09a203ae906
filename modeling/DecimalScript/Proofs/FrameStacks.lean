import DecimalScript.Environment.History
import DecimalScript.Proofs.Scopes
import Mathlib.Data.List.Forall2

/-!
# One table stands for a stack of frames

A stack of frames is laid out flat by joining its frames and noting how many bindings
there are below each. Every operation on the table is the operation on the frames. For
marks this takes an invariant of histories: as long as a state has not been undercut, the
frames around its innermost frame are still there with as many bindings, and the frame
that was innermost then has at least as many.
-/

namespace DecimalScript

/-- The numbers of bindings in each of some frames and those after it. -/
def watermarks : List (List Binding) → List Nat
  | [] => []
  | frame :: rest => (frame :: rest).flatten.length :: watermarks rest

/-- A stack of frames laid out in one table. -/
def Frames.flat (frames : Frames) : Environment := ⟨frames.all.flatten, watermarks frames.below⟩

/-- There is one watermark for each frame. -/
@[simp] theorem length_watermarks (frames : List (List Binding)) :
    (watermarks frames).length = frames.length := by
  induction frames with
  | nil => rfl
  | cons frame rest ih => simp [watermarks, ih]

/-- The watermarks of outer frames are the outer ones of all. -/
theorem watermarks_suffix {frames rest : List (List Binding)} (h : rest <:+ frames) :
    watermarks rest <:+ watermarks frames := by
  induction frames with
  | nil =>
    cases List.suffix_nil.mp h
    exact List.suffix_refl _
  | cons frame others ih =>
    rcases List.suffix_cons_iff.mp h with rfl | hothers
    · exact List.suffix_refl _
    · exact (ih hothers).trans (List.suffix_cons _ _)

/-- The first watermark counts all bindings in the frames. -/
theorem headD_watermarks (frames : List (List Binding)) :
    (watermarks frames).headD 0 = frames.flatten.length := by
  cases frames with
  | nil => rfl
  | cons frame rest => rfl

/-- Frames with the same lengths have as many bindings in all. -/
theorem length_flatten_of_lengths {frames others : List (List Binding)}
    (h : frames.map List.length = others.map List.length) :
    frames.flatten.length = others.flatten.length := by
  simp only [List.length_flatten, h]

/-- Watermarks depend on the numbers of bindings only. -/
theorem watermarks_congr {frames others : List (List Binding)}
    (h : frames.map List.length = others.map List.length) :
    watermarks frames = watermarks others := by
  induction frames generalizing others with
  | nil =>
    rw [List.map_eq_nil_iff.mp h.symm]
  | cons frame rest ih =>
    cases others with
    | nil => cases h
    | cons other others =>
      have htotal := length_flatten_of_lengths h
      have hrest := ih (List.cons.inj h).2
      simp only [watermarks, htotal, hrest]

/-- Watermarks decrease outwards, from the number of all bindings on. -/
theorem watermarks_sorted (frame : List Binding) (rest : List (List Binding)) :
    ((frame :: rest).flatten.length :: watermarks rest).Pairwise (· ≥ ·) := by
  induction rest generalizing frame with
  | nil => simp [watermarks]
  | cons inner rest ih =>
    have hrest := ih inner
    have hle : (inner :: rest).flatten.length ≤ (frame :: inner :: rest).flatten.length := by
      simp
    refine List.pairwise_cons.mpr ⟨fun mark hmark => ?_, hrest⟩
    rcases List.mem_cons.mp hmark with rfl | hmark
    · exact hle
    · exact Nat.le_trans (List.rel_of_pairwise_cons hrest hmark) hle

theorem holdsName_iff {name : String} {frame : List Binding} :
    holdsName name frame = true ↔ name ∈ frame.map (·.name) := by
  simp [holdsName]

/-- Writing in the first frame that binds a name writes the newest binding of the name. -/
theorem flatten_writeFirst (name : String) (value : Value) (frames : List (List Binding)) :
    (writeFirst name value frames).flatten = rebind name value frames.flatten := by
  induction frames with
  | nil => rfl
  | cons frame rest ih =>
    unfold writeFirst
    split
    · rename_i h
      simp [rebind_append_of_mem (holdsName_iff.mp h)]
    · rename_i h
      simp [rebind_append_of_not_mem (mt holdsName_iff.mpr h), ih]

/-- Writing changes the length of no frame. -/
theorem lengths_writeFirst (name : String) (value : Value) (frames : List (List Binding)) :
    (writeFirst name value frames).map List.length = frames.map List.length := by
  induction frames with
  | nil => rfl
  | cons frame rest ih =>
    unfold writeFirst
    split
    · simp
    · simp [ih]

namespace Frames

variable (frames : Frames) (name : String) (value : Value)

/-- The bindings in the innermost frame are those made in the current scope. -/
theorem frame_flat : frames.flat.frame = frames.top := by
  have hsize : frames.flat.size - frames.flat.scopes.headD 0 = frames.top.length := by
    have hhead : frames.flat.scopes.headD 0 = frames.below.flatten.length :=
      headD_watermarks frames.below
    have hall : frames.flat.size = frames.top.length + frames.below.flatten.length := by
      simp [flat, Environment.size, all]
    omega
  unfold Environment.frame
  rw [hsize]
  simp [flat, all]

/-- The table finds what the frames find. -/
theorem get?_flat : frames.flat.get? name = frames.get? name := by
  simp only [flat, Environment.get?, get?, List.find?_flatten, List.map_findSome?]
  rfl

/-- It binds the names that they bind. -/
theorem binds_flat : frames.flat.binds name = frames.binds name := by
  simp only [flat, Environment.binds, binds, List.any_flatten]
  rfl

/-- It has as many bindings as all frames together. -/
theorem size_flat : frames.flat.size = frames.size := rfl

/-- It has as many scopes as there are frames around the innermost one. -/
theorem depth_flat : frames.flat.depth = frames.depth := length_watermarks frames.below

/-- A definition goes into the innermost frame. -/
theorem define_flat : frames.flat.define name value = (frames.define name value).flat := rfl

/-- The table writes the binding that the innermost frame with the name has. -/
theorem write_flat : frames.flat.write name value = (frames.write name value).flat := by
  unfold write
  split
  · rename_i h
    simp [flat, Environment.write, all, rebind_append_of_mem (holdsName_iff.mp h)]
  · rename_i h
    have hmarks : watermarks (writeFirst name value frames.below) = watermarks frames.below :=
      watermarks_congr (lengths_writeFirst name value frames.below)
    simp [flat, Environment.write, all, rebind_append_of_not_mem (mt holdsName_iff.mpr h),
      flatten_writeFirst, hmarks]

/-- A declaration writes or defines as in the frames. -/
theorem declare_flat : frames.flat.declare name value = (frames.declare name value).flat := by
  unfold Environment.declare declare
  rw [frame_flat]
  by_cases h : holdsName name frames.top = true
  · have hwrite : frames.write name value = { frames with top := rebind name value frames.top } :=
      if_pos h
    rw [if_pos h, write_flat, hwrite]
    exact if_pos h
  · rw [if_neg h, define_flat]
    exact if_neg h

/-- So does an assignment. -/
theorem assign_flat : frames.flat.assign name value = (frames.assign name value).flat := by
  unfold Environment.assign assign
  rw [binds_flat, write_flat, define_flat]
  split
  · rfl
  · rfl

/-- A new scope is an empty frame. -/
theorem push_flat : frames.flat.pushScope = frames.push.flat := rfl

/-- Closing a scope keeps what is in the frames around the innermost one. -/
theorem pop?_flat : frames.flat.popScope? = frames.pop?.map flat := by
  obtain ⟨top, below⟩ := frames
  cases below with
  | nil => rfl
  | cons frame rest =>
    have hkept : keepOldest (frame :: rest).flatten.length (top ++ (frame :: rest).flatten) =
        (frame :: rest).flatten := keepOldest_of_suffix (List.suffix_append _ _)
    show some (Environment.mk (keepOldest _ (top ++ (frame :: rest).flatten)) _) = _
    rw [hkept]
    rfl

/-- The number of bindings in each frame, innermost first. -/
def lengths : List Nat := frames.all.map List.length

/-- Frames of the same lengths have the same size. -/
theorem size_eq_of_lengths {frames other : Frames} (h : frames.lengths = other.lengths) :
    frames.size = other.size :=
  length_flatten_of_lengths h

/-- They have the same depth as well. -/
theorem depth_eq_of_lengths {frames other : Frames} (h : frames.lengths = other.lengths) :
    frames.depth = other.depth := by
  have hlength := congrArg List.length h
  simpa [lengths, all, depth] using hlength

/-- Writing a variable keeps the lengths of all frames. -/
theorem lengths_write : (frames.write name value).lengths = frames.lengths := by
  unfold write
  split
  · simp [lengths, all]
  · simp [lengths, all, lengths_writeFirst]

/-- A stack that still has the frames around the innermost frame of an older one, with as many
bindings in them, and at least as many in the frame that was innermost. -/
def Grown (old frames : Frames) : Prop :=
  ∃ newer count, frames.lengths = newer ++ count :: old.below.map List.length ∧
    old.top.length ≤ count

namespace Grown

variable {old frames other : Frames} {name : String} {value : Value}

/-- Frames have grown from themselves by nothing. -/
theorem refl (frames : Frames) : Grown frames frames := ⟨[], _, rfl, Nat.le_refl _⟩

/-- What has grown are frames that can be told apart from the newer ones. -/
theorem split (h : Grown old frames) : ∃ newer frame rest, frames.all = newer ++ frame :: rest ∧
    rest.map List.length = old.below.map List.length ∧ old.top.length ≤ frame.length := by
  obtain ⟨newer, count, hlengths, hcount⟩ := h
  obtain ⟨inner, outer, hall, _, houter⟩ := List.map_eq_append_iff.mp hlengths
  obtain ⟨frame, rest, rfl, rfl, hrest⟩ := List.map_eq_cons_iff.mp houter
  exact ⟨inner, frame, rest, hall, hrest, hcount⟩

/-- A mark leads back to the frame that was innermost, as far as it was filled. -/
theorem restore_eq {newer rest : List (List Binding)} {frame : List Binding}
    (hall : frames.all = newer ++ frame :: rest)
    (hrest : rest.map List.length = old.below.map List.length) :
    frames.restore old.mark = ⟨keepOldest old.top.length frame, rest⟩ := by
  have hcount : old.mark.below + 1 = (frame :: rest).length := by
    have hlength := congrArg List.length hrest
    simpa [mark, depth] using hlength.symm
  unfold restore
  rw [hall, hcount, keepOldest_of_suffix (List.suffix_append _ _)]
  rfl

/-- Restoring a mark in the table restores it in the frames. -/
theorem restore_flat (h : Grown old frames) :
    frames.flat.restore old.flat.mark = (frames.restore old.mark).flat := by
  obtain ⟨newer, frame, rest, hall, hrest, hcount⟩ := h.split
  have hsize : old.flat.size = old.top.length + rest.flatten.length := by
    rw [length_flatten_of_lengths hrest]
    simp [flat, Environment.size, all]
  have hbindings : keepOldest old.flat.size frames.all.flatten =
      keepOldest old.top.length frame ++ rest.flatten := by
    rw [hall, hsize, List.flatten_append, List.flatten_cons, ← List.append_assoc,
      keepOldest_append, keepOldest_append_of_le hcount]
  have hbelow : rest <:+ frames.below := by
    have hsuffix : frame :: rest <:+ frames.top :: frames.below := ⟨newer, hall.symm⟩
    rcases List.suffix_cons_iff.mp hsuffix with heq | hinner
    · exact (List.cons.inj heq).2 ▸ List.suffix_refl _
    · exact (List.suffix_cons frame rest).trans hinner
  have hscopes : keepOldest old.flat.depth (watermarks frames.below) = watermarks rest := by
    have hdepth : old.flat.depth = (watermarks rest).length := by
      have hlength := congrArg List.length hrest
      rw [depth_flat, length_watermarks]
      simpa [depth] using hlength.symm
    rw [hdepth, keepOldest_of_suffix (watermarks_suffix hbelow)]
  rw [restore_eq hall hrest]
  show Environment.mk (keepOldest old.flat.size frames.all.flatten)
    (keepOldest old.flat.depth (watermarks frames.below)) = _
  rw [hbindings, hscopes]
  rfl

/-- A mark leads back to the lengths that the frames had. -/
theorem lengths_restore (h : Grown old frames) :
    (frames.restore old.mark).lengths = old.lengths := by
  obtain ⟨newer, frame, rest, hall, hrest, hcount⟩ := h.split
  rw [restore_eq hall hrest]
  simp [lengths, all, hrest, length_keepOldest hcount]

/-- A restored mark is the mark afterwards. -/
theorem mark_restore (h : Grown old frames) :
    (frames.restore old.mark).flat.mark = old.flat.mark := by
  have hlengths := h.lengths_restore
  show Environment.Mark.mk _ _ = Environment.Mark.mk _ _
  rw [size_flat, depth_flat, size_flat, depth_flat, size_eq_of_lengths hlengths,
    depth_eq_of_lengths hlengths]

/-- Whether frames have grown depends on their lengths only. -/
theorem of_lengths (h : Grown old frames) (hlengths : other.lengths = frames.lengths) :
    Grown old other := by
  obtain ⟨newer, count, hframes, hcount⟩ := h
  exact ⟨newer, count, hlengths.trans hframes, hcount⟩

/-- Frames grow by a definition. -/
theorem define (h : Grown old frames) (name : String) (value : Value) :
    Grown old (frames.define name value) := by
  obtain ⟨newer, count, hlengths, hcount⟩ := h
  cases newer with
  | nil =>
    obtain ⟨htop, hbelow⟩ := List.cons.inj hlengths
    refine ⟨[], count + 1, ?_, Nat.le_succ_of_le hcount⟩
    simp [lengths, all, Frames.define, htop, hbelow]
  | cons first newer =>
    obtain ⟨htop, hbelow⟩ := List.cons.inj hlengths
    refine ⟨(first + 1) :: newer, count, ?_, hcount⟩
    simp [lengths, all, Frames.define, htop, hbelow]

/-- They grow by a scope. -/
theorem push (h : Grown old frames) : Grown old frames.push := by
  obtain ⟨newer, count, hlengths, hcount⟩ := h
  refine ⟨0 :: newer, count, ?_, hcount⟩
  rw [List.cons_append, ← hlengths]
  rfl

/-- Closing a scope leaves the frames that were there before it was opened. -/
theorem pop (h : Grown old frames) (hpop : frames.pop? = some other)
    (hdepth : old.depth ≤ other.depth) : Grown old other := by
  obtain ⟨top, below⟩ := frames
  obtain ⟨newer, count, hlengths, hcount⟩ := h
  cases below with
  | nil => cases hpop
  | cons frame rest =>
    cases hpop
    cases newer with
    | nil =>
      have hsame := congrArg List.length (List.cons.inj hlengths).2
      have hdepth : old.below.length ≤ rest.length := hdepth
      simp at hsame
      omega
    | cons first newer => exact ⟨newer, count, (List.cons.inj hlengths).2, hcount⟩

/-- Restoring one mark leaves the frames of another, unless that one is undercut by it. -/
theorem restore (h : Grown old frames) (hother : Grown other frames)
    (hdepth : old.depth ≤ (frames.restore other.mark).depth)
    (hsize : old.size ≤ (frames.restore other.mark).size) :
    Grown old (frames.restore other.mark) := by
  have hback := hother.lengths_restore
  rw [depth_eq_of_lengths hback] at hdepth
  rw [size_eq_of_lengths hback] at hsize
  obtain ⟨newer, count, hlengths, hcount⟩ := h
  obtain ⟨newer', count', hlengths', _⟩ := hother
  have hsuffix : count :: old.below.map List.length <:+ count' :: other.below.map List.length := by
    refine List.suffix_of_suffix_length_le ⟨newer, hlengths.symm⟩ ⟨newer', hlengths'.symm⟩ ?_
    simpa [depth] using hdepth
  rcases List.suffix_cons_iff.mp hsuffix with hsame | ⟨inner, hinner⟩
  · have hbelow : old.below.map List.length = other.below.map List.length := (List.cons.inj hsame).2
    have htotal := length_flatten_of_lengths hbelow
    refine ⟨[], other.top.length, ?_, ?_⟩
    · rw [hback, hbelow]
      rfl
    · simp only [size, all, List.flatten_cons, List.length_append] at hsize
      omega
  · refine ⟨other.top.length :: inner, count, ?_, hcount⟩
    rw [hback, List.cons_append, hinner]
    rfl

end Grown

/-- Every operation leaves the frames of an older state, unless that state is undercut by it. -/
theorem Grown.respond {history : History Frames} {operation : Scoping.Operation} {old : Frames}
    (h : Grown old history.now)
    (hmark : ∀ age other, operation = .restore age → history.ago? age = some other →
      Grown other history.now)
    (hdepth : old.depth ≤ (Frames.respond history operation).1.depth)
    (hsize : old.size ≤ (Frames.respond history operation).1.size) :
    Grown old (Frames.respond history operation).1 := by
  cases operation with
  | define name value => exact h.define name value
  | declare name value =>
    show Grown old (history.now.declare name value)
    unfold Frames.declare
    split
    · exact h.of_lengths (by simp [lengths, all])
    · exact h.define name value
  | assign name value =>
    show Grown old (history.now.assign name value)
    unfold Frames.assign
    split
    · exact h.of_lengths (lengths_write _ name value)
    · exact h.define name value
  | write name value => exact h.of_lengths (lengths_write _ name value)
  | get name => exact h
  | push => exact h.push
  | pop =>
    simp only [Frames.respond] at hdepth ⊢
    cases hpop : history.now.pop? with
    | none => exact h
    | some closed =>
      rw [hpop] at hdepth
      exact h.pop hpop hdepth
  | restore age =>
    simp only [Frames.respond] at hdepth hsize ⊢
    cases hold : history.ago? age with
    | none => exact h
    | some other =>
      rw [hold] at hdepth hsize
      exact h.restore (hmark age other rfl hold) hdepth hsize

end Frames

namespace Scoping

/-- In a history that is settled, a state that was not undercut has its frames still there. -/
def Settled (history : History Frames) : Prop :=
  ∀ age old, history.ago? age = some old →
    stacked.reaches old (history.states.take (age + 1)) = true → Frames.Grown old history.now

theorem settled_start (frames : Frames) : Settled ⟨frames, []⟩ := by
  intro age old hold _
  cases age with
  | zero =>
    cases hold
    exact .refl frames
  | succ age => simp [History.ago?, History.states] at hold

/-- A mark that may be restored is that of a state whose frames are still there. -/
theorem Settled.grown {history : History Frames} (h : Settled history) {age : Nat} {old : Frames}
    (hpermits : stacked.permits history (.restore age) = true)
    (hold : history.ago? age = some old) : Frames.Grown old history.now := by
  refine h age old hold ?_
  simpa [permits, hold] using hpermits

/-- Histories stay settled. -/
theorem Settled.next {history : History Frames} (h : Settled history) {operation : Operation}
    (hpermits : stacked.permits history operation = true) :
    Settled (history.next (Frames.respond history operation).1) := by
  intro age old hold hreaches
  cases age with
  | zero =>
    cases hold
    exact .refl _
  | succ age =>
    have hreaches : stacked.reaches old ((Frames.respond history operation).1 ::
        history.states.take (age + 1)) = true := hreaches
    simp only [reaches, List.all_cons, Bool.and_eq_true, decide_eq_true_eq] at hreaches
    obtain ⟨⟨hsize, hdepth⟩, hbefore⟩ := hreaches
    have hnow : Frames.Grown old history.now := h age old hold hbefore
    refine hnow.respond (fun older other hrestore hother => ?_) hdepth hsize
    subst hrestore
    exact h.grown hpermits hother

variable {history : History Frames}

theorem states_map (f : Frames → Environment) : (history.map f).states = history.states.map f := rfl

theorem ago?_map (f : Frames → Environment) (age : Nat) :
    (history.map f).ago? age = (history.ago? age).map f := by
  simp [History.ago?, states_map]

/-- Tables permit what frames permit. -/
theorem permits_flat (operation : Operation) :
    flat.permits (history.map Frames.flat) operation = stacked.permits history operation := by
  cases operation with
  | restore age =>
    simp only [permits, ago?_map, states_map, ← List.map_take, reaches, List.all_map]
    cases history.ago? age with
    | none => rfl
    | some old =>
      simp only [Option.map_some, Option.any_some, flat, stacked, Function.comp_def,
        Frames.size_flat, Frames.depth_flat]
      rfl
  | define | declare | assign | write | get | push | pop => rfl

/-- An operation on the table is the operation on the frames, with the same answer. -/
theorem respond_flat (h : Settled history) {operation : Operation}
    (hpermits : stacked.permits history operation = true) :
    Environment.respond (history.map Frames.flat) operation =
      ((Frames.respond history operation).1.flat, (Frames.respond history operation).2) := by
  have hnow : (history.map Frames.flat).now = history.now.flat := rfl
  cases operation with
  | define name value => simp only [Environment.respond, Frames.respond, hnow, Frames.define_flat]
  | declare name value => simp only [Environment.respond, Frames.respond, hnow, Frames.declare_flat]
  | assign name value => simp only [Environment.respond, Frames.respond, hnow, Frames.assign_flat]
  | write name value =>
    simp only [Environment.respond, Frames.respond, hnow, Frames.write_flat, Frames.binds_flat]
  | get name => simp only [Environment.respond, Frames.respond, hnow, Frames.get?_flat]
  | push => simp only [Environment.respond, Frames.respond, hnow, Frames.push_flat]
  | pop =>
    simp only [Environment.respond, Frames.respond, hnow, Frames.pop?_flat]
    cases history.now.pop? with
    | none => rfl
    | some closed => rfl
  | restore age =>
    simp only [Environment.respond, Frames.respond, hnow, ago?_map]
    cases hold : history.ago? age with
    | none =>
      simp [permits, hold] at hpermits
    | some old =>
      have hgrown := h.grown hpermits hold
      simp only [Option.map_some, hgrown.restore_flat, hgrown.mark_restore, beq_self_eq_true]

/-- Tables and frames are seen to do the same, and the tables remain those of the frames. -/
theorem observe_flat (h : Settled history) {operations : List Operation}
    (hallows : flat.allows (history.map Frames.flat) operations = true) :
    flat.observe (history.map Frames.flat) operations = stacked.observe history operations ∧
      flat.run (history.map Frames.flat) operations =
        (stacked.run history operations).map Frames.flat ∧
      Settled (stacked.run history operations) := by
  induction operations generalizing history with
  | nil => exact ⟨rfl, rfl, h⟩
  | cons operation rest ih =>
    simp only [allows, Bool.and_eq_true, permits_flat] at hallows
    obtain ⟨hpermits, hrest⟩ := hallows
    have hrespond : flat.respond (history.map Frames.flat) operation =
        ((stacked.respond history operation).1.flat, (stacked.respond history operation).2) :=
      respond_flat h hpermits
    have hnext : (history.map Frames.flat).next (stacked.respond history operation).1.flat =
        (history.next (stacked.respond history operation).1).map Frames.flat := rfl
    have hsettled : Settled (history.next (stacked.respond history operation).1) :=
      h.next hpermits
    rw [hrespond, hnext] at hrest
    obtain ⟨hobserve, hrun, hend⟩ := ih hsettled hrest
    refine ⟨?_, ?_, hend⟩
    · simp only [observe, hrespond, hnext, hobserve]
      have hsizes := Frames.depth_flat (stacked.respond history operation).1
      simp only [flat, stacked, Frames.size_flat] at hsizes ⊢
      rw [hsizes]
    · simp only [run, hrespond, hnext, hrun]

end Scoping

/-- A table of bindings with watermarks does what a stack of frames does, over operations of any
number and order, where a mark is restored only if neither the bindings nor the scopes have been
fewer since it was taken. All lookups, answers, sizes and depths are the same; among the answers
is that a restored mark is the mark afterwards. In every state on the way all names mean the same,
and the watermarks decrease outwards from the number of bindings on. -/
theorem one_table_refines_frames (operations : List Scoping.Operation)
    (h : Scoping.flat.allows { now := {} } operations = true) :
    let tables := Scoping.flat.run { now := {} } operations
    let framed := Scoping.stacked.run { now := {} } operations
    Scoping.flat.observe { now := {} } operations =
        Scoping.stacked.observe { now := {} } operations ∧
      List.Forall₂ (fun env frames => ∀ name, Environment.get? env name = Frames.get? frames name)
        tables.states framed.states ∧
      (∀ env ∈ tables.states, (env.size :: env.scopes).Pairwise (· ≥ ·)) ∧
      ∀ age old, tables.ago? age = some old →
        Scoping.flat.permits tables (.restore age) = true →
        (tables.now.restore old.mark).mark = old.mark := by
  intro tables framed
  obtain ⟨hobserve, hrun, hsettled⟩ := Scoping.observe_flat (Scoping.settled_start {}) h
  have htables : tables = framed.map Frames.flat := hrun
  rw [htables]
  refine ⟨hobserve, ?_, ?_, ?_⟩
  · rw [Scoping.states_map, List.forall₂_map_left_iff, List.forall₂_same]
    intro frames _ name
    exact frames.get?_flat name
  · intro env henv
    rw [Scoping.states_map] at henv
    obtain ⟨frames, _, rfl⟩ := List.mem_map.mp henv
    exact watermarks_sorted frames.top frames.below
  · intro age old hold hpermits
    rw [Scoping.ago?_map] at hold
    obtain ⟨frames, hframes, rfl⟩ := Option.map_eq_some_iff.mp hold
    rw [Scoping.permits_flat] at hpermits
    have hgrown : Frames.Grown frames framed.now := hsettled.grown hpermits hframes
    show (framed.now.flat.restore frames.flat.mark).mark = frames.flat.mark
    rw [hgrown.restore_flat, hgrown.mark_restore]

/-- A callee that shadows and writes a variable of its caller, and a mark restored in between. -/
theorem frames_of_shadowing_call :
    let operations : List Scoping.Operation :=
      [.define "x" (.boolean true), .push, .define "x" (.boolean false), .assign "y" .nothing,
        .push, .declare "x" .nothing, .restore 2, .write "x" .nothing, .pop, .get "x"]
    Scoping.flat.allows { now := {} } operations = true ∧
      Scoping.flat.observe { now := {} } operations =
        Scoping.stacked.observe { now := {} } operations :=
  ⟨by decide, (one_table_refines_frames _ (by decide)).1⟩

end DecimalScript
