import DecimalScript.Files.Place

/-!
# Places and canonical paths

The canonical spelling of a path has its components and leads to its place. An import adds
the parts of its module name to the components of a directory, and the parent of what it
names is that path without the file. So below one directory, where nothing leads up, the
place decides the canonical spelling, and a chain of imports that leads back to its start
spells the start as before exactly if no import in it climbs.
-/

namespace DecimalScript

/-- No part has what a list was split at. -/
theorem notMem_of_mem_splitOn {α : Type} [BEq α] [LawfulBEq α] {mark : α} {items part : List α}
    (h : part ∈ items.splitOn mark) : mark ∉ part := by
  induction items generalizing part with
  | nil =>
    rw [List.splitOn_nil, List.mem_singleton] at h
    exact h ▸ List.not_mem_nil
  | cons item rest ih =>
    rw [List.splitOn_cons_eq_if_modifyHead] at h
    split at h
    · rcases List.mem_cons.mp h with rfl | hrest
      · exact List.not_mem_nil
      · exact ih hrest
    · rename_i hitem
      obtain ⟨first, others, hsplit⟩ := List.exists_cons_of_ne_nil (List.splitOn_ne_nil mark rest)
      rw [hsplit, List.modifyHead_cons] at h
      rcases List.mem_cons.mp h with rfl | hothers
      · have hfirst : mark ∉ first := ih (hsplit ▸ List.mem_cons_self)
        rw [List.mem_cons, not_or]
        exact ⟨fun heq => hitem (beq_iff_eq.mpr heq.symm), hfirst⟩
      · exact ih (hsplit ▸ List.mem_cons_of_mem _ hothers)

/-- An end without the mark stays with the last part. -/
theorem splitOn_append_of_notMem {α : Type} [BEq α] [LawfulBEq α] {mark : α} {tail : List α}
    (htail : mark ∉ tail) (items : List α) :
    ∃ lead last, (items ++ tail).splitOn mark = lead ++ [last ++ tail] := by
  induction items with
  | nil => exact ⟨[], [], List.splitOn_eq_singleton htail⟩
  | cons item rest ih =>
    obtain ⟨lead, last, hsplit⟩ := ih
    rw [List.cons_append, List.splitOn_cons_eq_if_modifyHead, hsplit]
    split
    · exact ⟨[] :: lead, last, rfl⟩
    · cases lead with
      | nil => exact ⟨[], item :: last, rfl⟩
      | cons first others => exact ⟨(item :: first) :: others, last, rfl⟩

namespace Path

variable {path base : Path}

theorem parts_ne_nil (path : Path) : path.parts ≠ [] := List.splitOn_ne_nil _ _

theorem slash_notMem (path : Path) {part : List Char} (h : part ∈ path.parts) : '/' ∉ part :=
  notMem_of_mem_splitOn h

/-- The parts that a text was put together from. -/
theorem parts_mk {parts : List (List Char)} (hparts : parts ≠ [])
    (hslash : ∀ part ∈ parts, '/' ∉ part) :
    Path.parts ⟨String.ofList (['/'].intercalate parts)⟩ = parts := by
  rw [Path.parts, chars, String.toList_ofList]
  exact List.splitOn_intercalate '/' hslash hparts

/-- A path starts at the root if its first part is empty and not the only one. -/
theorem isAbsolute_iff : path.isAbsolute = true ↔ ∃ rest, path.parts = [] :: rest ∧ rest ≠ [] := by
  unfold isAbsolute parts
  cases path.chars with
  | nil => simp
  | cons c rest =>
    rw [List.splitOn_cons_eq_if_modifyHead, List.head?_cons, beq_iff_eq, Option.some.injEq]
    split
    · rename_i hslash
      refine ⟨fun _ => ⟨_, rfl, List.splitOn_ne_nil _ _⟩, fun _ => beq_iff_eq.mp hslash⟩
    · rename_i hslash
      obtain ⟨first, others, hsplit⟩ := List.exists_cons_of_ne_nil (List.splitOn_ne_nil '/' rest)
      rw [hsplit, List.modifyHead_cons]
      refine ⟨fun h => absurd (beq_iff_eq.mpr h) hslash, ?_⟩
      rintro ⟨_, heq, _⟩
      cases heq

theorem components_of_parts {first : List Char} {rest : List (List Char)}
    (h : path.parts = first :: rest) :
    path.components = (if first.isEmpty then [] else [first]) ++ rest.filter (!isVoid ·) := by
  rw [components, h]

/-- The components of parts that go on behind the first one. -/
theorem components_append {front back trail : List (List Char)} (hfront : front ≠ [])
    (hpath : path.parts = front ++ back) (hbase : base.parts = front ++ trail)
    (htrail : ∀ part ∈ trail, isVoid part = true) :
    path.components = base.components ++ back.filter (!isVoid ·) := by
  obtain ⟨first, rest, rfl⟩ := List.exists_cons_of_ne_nil hfront
  have hvoid : trail.filter (!isVoid ·) = [] := by
    rw [List.filter_eq_nil_iff]
    exact fun part hpart => by simp [htrail part hpart]
  rw [List.cons_append] at hpath hbase
  rw [components_of_parts hpath, components_of_parts hbase, List.filter_append, List.filter_append,
    hvoid, List.append_nil, List.append_assoc]

theorem filter_filter_void (parts : List (List Char)) :
    (parts.filter (!isVoid ·)).filter (!isVoid ·) = parts.filter (!isVoid ·) := by
  rw [List.filter_filter]
  exact List.filter_congr fun part _ => Bool.and_self _

/-- The canonical spelling keeps the start and the components. -/
theorem canonical_spec (path : Path) :
    path.canonical.isAbsolute = path.isAbsolute ∧ path.canonical.components = path.components := by
  obtain ⟨first, rest, hparts⟩ := List.exists_cons_of_ne_nil path.parts_ne_nil
  have hslash : ∀ part ∈ rest.filter (!isVoid ·), '/' ∉ part := fun part hpart =>
    slash_notMem path (hparts ▸ List.mem_cons_of_mem _ (List.mem_filter.mp hpart).1)
  have hcomponents := components_of_parts hparts
  cases habsolute : path.isAbsolute with
  | true =>
    obtain ⟨_, heq, -⟩ := isAbsolute_iff.mp habsolute
    obtain ⟨rfl, -⟩ := List.cons.inj (hparts.symm.trans heq)
    -- A root without components is still followed by an empty part.
    obtain ⟨tail, htail, hne, hkept⟩ : ∃ tail, path.canonical.parts = [] :: tail ∧ tail ≠ [] ∧
        tail.filter (!isVoid ·) = rest.filter (!isVoid ·) := by
      cases hnames : rest.filter (!isVoid ·) with
      | nil =>
        refine ⟨[[]], ?_, List.cons_ne_nil _ _, rfl⟩
        rw [canonical, habsolute, hcomponents, hnames]
        rfl
      | cons name others =>
        rw [hnames] at hslash
        refine ⟨name :: others, ?_, List.cons_ne_nil _ _, ?_⟩
        · have hwhole : path.canonical =
              ⟨String.ofList (['/'].intercalate ([] :: name :: others))⟩ := by
            rw [canonical, habsolute, hcomponents, hnames]
            rfl
          rw [hwhole]
          exact parts_mk (List.cons_ne_nil _ _)
            (List.forall_mem_cons.mpr ⟨List.not_mem_nil, hslash⟩)
        · rw [← hnames, filter_filter_void]
    exact ⟨isAbsolute_iff.mpr ⟨tail, htail, hne⟩, by rw [components_of_parts htail, hkept, hcomponents]⟩
  | false =>
    cases first with
    | nil =>
      cases rest with
      | nil =>
        rw [canonical, habsolute, hcomponents]
        exact ⟨rfl, rfl⟩
      | cons second others =>
        have htrue := isAbsolute_iff.mpr ⟨_, hparts, List.cons_ne_nil second others⟩
        exact absurd (habsolute.symm.trans htrue) Bool.false_ne_true
    | cons c others =>
      have hwhole : path.canonical =
          ⟨String.ofList (['/'].intercalate ((c :: others) :: rest.filter (!isVoid ·)))⟩ := by
        rw [canonical, habsolute, hcomponents]
        rfl
      have hkept : path.canonical.parts = (c :: others) :: rest.filter (!isVoid ·) := by
        rw [hwhole]
        exact parts_mk (List.cons_ne_nil _ _) (List.forall_mem_cons.mpr
          ⟨slash_notMem path (hparts ▸ List.mem_cons_self), hslash⟩)
      constructor
      · rw [Bool.eq_false_iff, Ne, isAbsolute_iff]
        rintro ⟨_, heq, -⟩
        rw [hkept] at heq
        cases heq
      · rw [components_of_parts hkept, hcomponents, filter_filter_void]

/-- Paths with the same start and components have the same canonical spelling. -/
theorem canonical_eq_iff {other : Path} :
    path.canonical = other.canonical ↔
      path.isAbsolute = other.isAbsolute ∧ path.components = other.components := by
  constructor
  · intro h
    rw [← path.canonical_spec.1, ← path.canonical_spec.2, h]
    exact other.canonical_spec
  · rintro ⟨hstart, hcomponents⟩
    rw [canonical, canonical, hstart, hcomponents]

/-- A path that consists of a directory and names below it. -/
def Under (base path : Path) (names : List (List Char)) : Prop :=
  path.isAbsolute = base.isAbsolute ∧ path.components = base.components ++ names

/-- Whether a part names a file or directory of the directory it is in. -/
def Plain (part : List Char) : Prop := isVoid part = false ∧ part ≠ up

namespace Under

variable {other : Path} {names more : List (List Char)}

theorem refl (path : Path) : Under path path [] := ⟨rfl, (List.append_nil _).symm⟩

theorem trans (h : Under base path names) (hother : Under path other more) :
    Under base other (names ++ more) :=
  ⟨hother.1.trans h.1, by rw [hother.2, h.2, List.append_assoc]⟩

/-- The directory that some of the names lead to. -/
theorem cancel (h : Under base other (names ++ more)) (hother : Under path other more) :
    Under base path names := by
  refine ⟨hother.1.symm.trans h.1, (List.append_left_inj more).mp ?_⟩
  rw [← hother.2, h.2, List.append_assoc]

/-- Below one directory, the names decide the canonical spelling. -/
theorem canonical_eq_iff (h : Under base path names) (hother : Under base other more) :
    path.canonical = other.canonical ↔ names = more := by
  rw [Path.canonical_eq_iff, h.1, hother.1, h.2, hother.2]
  exact ⟨fun heq => List.append_cancel_left heq.2, fun heq => ⟨rfl, heq ▸ rfl⟩⟩

end Under

/-- What is joined to a directory is below it. -/
theorem join_spec {name : List Char} (hbase : base.text ≠ "") (hrelative : name.head? ≠ some '/') :
    ∃ front, front ≠ [] ∧
      (base.join (String.ofList name)).parts = front ++ name.splitOn '/' ∧
      Under base (base.join (String.ofList name)) ((name.splitOn '/').filter (!isVoid ·)) := by
  have hchars : base.chars ≠ [] := fun h => hbase (String.toList_eq_nil_iff.mp h)
  obtain ⟨first, others, hfirst⟩ := List.exists_cons_of_ne_nil hchars
  have hsome : base.text.isEmpty = false := by
    rw [Bool.eq_false_iff, Ne, String.isEmpty_iff]
    exact hbase
  unfold join
  rw [String.toList_ofList, if_neg (fun h => hrelative (beq_iff_eq.mp h)), hsome, Bool.false_or]
  split
  · rename_i hslash
    obtain ⟨before, hbefore⟩ := List.getLast?_eq_some_iff.mp (beq_iff_eq.mp hslash)
    have hjoined : Path.chars ⟨base.text ++ String.ofList name⟩ = before ++ '/' :: name := by
      rw [chars, String.toList_append, String.toList_ofList, ← chars, hbefore]
      simp
    have hparts : base.parts = before.splitOn '/' ++ [[]] := by
      rw [parts, hbefore, List.splitOn_append_cons_self, List.splitOn_nil]
    have hmore : Path.parts ⟨base.text ++ String.ofList name⟩ =
        before.splitOn '/' ++ name.splitOn '/' := by
      rw [parts, hjoined, List.splitOn_append_cons_self]
    refine ⟨before.splitOn '/', List.splitOn_ne_nil _ _, hmore, ?_,
      components_append (List.splitOn_ne_nil _ _) hmore hparts (by decide)⟩
    rw [isAbsolute, isAbsolute, hjoined, hbefore]
    cases before <;> rfl
  · have hjoined : Path.chars ⟨base.text ++ "/" ++ String.ofList name⟩ =
        base.chars ++ '/' :: name := by
      rw [chars, String.toList_append, String.toList_append, String.toList_ofList, ← chars]
      simp
    have hmore : Path.parts ⟨base.text ++ "/" ++ String.ofList name⟩ =
        base.parts ++ name.splitOn '/' := by
      rw [parts, hjoined, List.splitOn_append_cons_self, ← parts]
    refine ⟨base.parts, base.parts_ne_nil, hmore, ?_,
      components_append base.parts_ne_nil hmore (List.append_nil _).symm (List.forall_mem_nil _)⟩
    rw [isAbsolute, isAbsolute, hjoined, hfirst]
    rfl

/-- Void parts at the end are dropped, save the first part. -/
theorem dropVoidEnd_spec {parts : List (List Char)} (h : parts ≠ []) :
    dropVoidEnd parts ≠ [] ∧
      ∃ trail, parts = dropVoidEnd parts ++ trail ∧ ∀ part ∈ trail, isVoid part = true := by
  obtain ⟨first, rest, rfl⟩ := List.exists_cons_of_ne_nil h
  refine ⟨List.cons_ne_nil _ _, (rest.reverse.takeWhile isVoid).reverse, ?_, fun part hpart => ?_⟩
  · rw [dropVoidEnd, List.cons_append, ← List.reverse_append, List.takeWhile_append_dropWhile,
      List.reverse_reverse]
  · exact List.all_eq_true.mp List.all_takeWhile part (List.mem_reverse.mp hpart)

theorem dropVoidEnd_of_last {lead : List (List Char)} {last : List Char} (hlead : lead ≠ [])
    (hlast : isVoid last = false) : dropVoidEnd (lead ++ [last]) = lead ++ [last] := by
  obtain ⟨first, rest, rfl⟩ := List.exists_cons_of_ne_nil hlead
  rw [List.cons_append, dropVoidEnd, List.reverse_append, List.reverse_singleton,
    List.singleton_append, List.dropWhile_cons_of_neg (by rw [hlast]; exact Bool.false_ne_true)]
  simp

/-- The parent of a path whose last part names something is what is kept of the parts before. -/
theorem parent_eq {lead : List (List Char)} {last : List Char} (hparts : path.parts = lead ++ [last])
    (hlead : lead ≠ []) (hlast : isVoid last = false) :
    dropVoidEnd lead = [[]] ∧ path.parent = ⟨"/"⟩ ∨
      dropVoidEnd lead ≠ [[]] ∧ path.parent.parts = dropVoidEnd lead := by
  obtain ⟨hkept, trail, htrail, -⟩ := dropVoidEnd_spec hlead
  have hwhole : path.parts = dropVoidEnd lead ++ (trail ++ [last]) := by
    rw [hparts, ← List.append_assoc, ← htrail]
  have hlast : dropVoidEnd ((dropVoidEnd path.parts).dropLast) = dropVoidEnd lead := by
    rw [hparts, dropVoidEnd_of_last hlead hlast, List.dropLast_concat]
  by_cases hroot : dropVoidEnd lead = [[]]
  · rw [hroot] at hwhole hlast
    rw [parent, hlast, isAbsolute_iff.mpr ⟨_, hwhole, by simp⟩]
    exact .inl ⟨hroot, rfl⟩
  · refine .inr ⟨hroot, ?_⟩
    rw [parent, hlast]
    split
    · rename_i heq
      exact absurd heq hroot
    · exact parts_mk hkept fun part hpart =>
        slash_notMem path (hwhole ▸ List.mem_append_left _ hpart)

/-- A path whose last part names something is below its parent. -/
theorem parent_spec {lead : List (List Char)} {last : List Char} (hparts : path.parts = lead ++ [last])
    (hlead : lead ≠ []) (hlast : isVoid last = false) :
    path.parent.text ≠ "" ∧ Under path.parent path [last] := by
  obtain ⟨hkept, trail, htrail, hvoid⟩ := dropVoidEnd_spec hlead
  have hwhole : path.parts = dropVoidEnd lead ++ (trail ++ [last]) := by
    rw [hparts, ← List.append_assoc, ← htrail]
  have hnames : (trail ++ [last]).filter (!isVoid ·) = [last] := by
    rw [List.filter_append, List.filter_eq_nil_iff.mpr fun part hpart => by simp [hvoid part hpart]]
    simp [hlast]
  rcases parent_eq hparts hlead hlast with ⟨hroot, hparent⟩ | ⟨hroot, hparent⟩
  · rw [hroot] at hwhole
    rw [hparent]
    refine ⟨by decide, (isAbsolute_iff.mpr ⟨_, hwhole, by simp⟩).trans rfl, ?_⟩
    rw [← hnames]
    exact components_append (List.cons_ne_nil _ _) hwhole rfl (by decide)
  · refine ⟨fun hempty => hroot ?_, ?_, ?_⟩
    · rw [← hparent, parts, chars, hempty]
      rfl
    · -- Both start at the root if the first part is empty, since others follow it.
      obtain ⟨first, rest, hfirst⟩ := List.exists_cons_of_ne_nil hkept
      rw [hfirst] at hroot hwhole hparent
      rw [Bool.eq_iff_iff, isAbsolute_iff, isAbsolute_iff, hwhole, hparent, List.cons_append]
      constructor
      · rintro ⟨_, heq, -⟩
        obtain ⟨rfl, -⟩ := List.cons.inj heq
        exact ⟨rest, rfl, fun h => hroot (h ▸ rfl)⟩
      · rintro ⟨_, heq, -⟩
        obtain ⟨rfl, -⟩ := List.cons.inj heq
        exact ⟨_, rfl, by simp⟩
    · rw [← hnames]
      exact components_append hkept hwhole (hparent.trans (List.append_nil _).symm)
        (List.forall_mem_nil _)

/-- The path of a module is joined from a directory and the name of the module. -/
theorem ofModule_eq (base : Path) (target : String) :
    ofModule base target = base.join (String.ofList (moduleName target)) := by
  unfold ofModule moduleName
  dsimp only
  split
  · rfl
  · rw [String.ofList_append, String.ofList_toList]

/-- The name of a module ends with the extension. -/
theorem moduleName_spec (target : String) :
    ∃ lead file, (moduleName target).splitOn '/' = lead ++ [file] ∧ Plain file := by
  obtain ⟨front, hfront⟩ : ∃ front, moduleName target = front ++ extension.toList := by
    unfold moduleName
    dsimp only
    split
    · rename_i hsuffix
      obtain ⟨front, hfront⟩ := List.isSuffixOf_iff_suffix.mp hsuffix
      exact ⟨front, hfront.symm⟩
    · exact ⟨_, rfl⟩
  obtain ⟨lead, stem, hsplit⟩ := splitOn_append_of_notMem
    (show '/' ∉ extension.toList by decide) front
  have hlong : 5 ≤ (stem ++ extension.toList).length := by
    rw [List.length_append]
    exact Nat.le_add_left _ _
  refine ⟨lead, stem ++ extension.toList, hfront ▸ hsplit, ?_, ?_⟩
  · rw [Bool.eq_false_iff]
    intro hvoid
    rw [isVoid, Bool.or_eq_true, List.isEmpty_iff, beq_iff_eq] at hvoid
    rcases hvoid with heq | heq
    · rw [heq] at hlong
      exact absurd hlong (by decide)
    · rw [heq] at hlong
      exact absurd hlong (by decide)
  · intro heq
    rw [heq] at hlong
    exact absurd hlong (by decide)

/-- The path of a module is below the directory of the import, and below its own parent. -/
theorem ofModule_spec {target : String} (hbase : base.text ≠ "")
    (hrelative : isRelative target = true) :
    ∃ lead file, Plain file ∧ (∀ name ∈ lead, isVoid name = false) ∧
      (up ∈ lead ↔ climbs target = true) ∧
      (ofModule base target).parent.text ≠ "" ∧
      Under (ofModule base target).parent (ofModule base target) [file] ∧
      Under base (ofModule base target).parent lead := by
  obtain ⟨lead, file, hsplit, hfile⟩ := moduleName_spec target
  obtain ⟨front, hfront, hparts, hunder⟩ := join_spec hbase (bne_iff_ne.mp hrelative)
  rw [hsplit] at hparts hunder
  rw [← ofModule_eq] at hparts hunder
  rw [← List.append_assoc] at hparts
  obtain ⟨hparent, hbelow⟩ := parent_spec hparts (by simp [hfront]) hfile.1
  have hnames : (lead ++ [file]).filter (!isVoid ·) = lead.filter (!isVoid ·) ++ [file] := by
    simp [hfile.1]
  rw [hnames] at hunder
  refine ⟨lead.filter (!isVoid ·), file, hfile, fun name hname => ?_, ?_, hparent, hbelow,
    hunder.cancel hbelow⟩
  · simpa using (List.mem_filter.mp hname).2
  · rw [climbs, List.contains_iff_mem, hsplit, List.mem_append, List.mem_singleton,
      or_iff_left (Ne.symm hfile.2), List.mem_filter]
    exact and_iff_left rfl

/-- A chain of imports leads from the directory of a module through names, one of which goes up
exactly if an import climbs. -/
theorem under_chain {file : List Char} (hparent : path.parent.text ≠ "")
    (hunder : Under path.parent path [file]) (hfile : Plain file) {targets : List String}
    (htargets : ∀ target ∈ targets, isRelative target = true) :
    ∃ names, Under path.parent (chain path targets) names ∧
      (∀ name ∈ names, isVoid name = false) ∧
      (up ∈ names ↔ ∃ target ∈ targets, climbs target = true) := by
  induction targets generalizing path file with
  | nil =>
    refine ⟨[file], hunder, fun name hname => List.mem_singleton.mp hname ▸ hfile.1, ?_⟩
    simpa using Ne.symm hfile.2
  | cons target rest ih =>
    obtain ⟨htarget, hrest⟩ := List.forall_mem_cons.mp htargets
    obtain ⟨lead, next, hnext, hlead, hclimbs, hparent', hunder', hdown⟩ :=
      ofModule_spec hparent htarget
    obtain ⟨names, hnames, hnamed, hup⟩ := ih hparent' hunder' hnext hrest
    refine ⟨lead ++ names, hdown.trans hnames, List.forall_mem_append.mpr ⟨hlead, hnamed⟩, ?_⟩
    rw [List.mem_append, hclimbs, hup]
    simp

end Path

namespace FileTree

/-- A place depends on the start of a path and its components. -/
theorem place_eq (tree : FileTree) (path : Path) :
    tree.place path = path.components.foldl advance (tree.start path) := by
  obtain ⟨first, rest, hparts⟩ := List.exists_cons_of_ne_nil path.parts_ne_nil
  have hskip : ∀ (parts : List (List Char)) (place : Place),
      (parts.filter (!Path.isVoid ·)).foldl advance place = parts.foldl advance place := by
    intro parts
    induction parts with
    | nil => exact fun _ => rfl
    | cons part others ih =>
      intro place
      cases hvoid : Path.isVoid part with
      | true => simp [hvoid, ih, advance]
      | false => simp [hvoid, ih]
  rw [place, hparts, Path.components_of_parts hparts, List.foldl_append, hskip, List.foldl_cons]
  cases first with
  | nil => rfl
  | cons c others => rfl

/-- The canonical spelling leads to the same place. -/
theorem place_canonical (tree : FileTree) (path : Path) :
    tree.place path.canonical = tree.place path := by
  rw [place_eq, place_eq, path.canonical_spec.2, start, path.canonical_spec.1, start]

/-- Names that do not lead up are added to a place. -/
theorem foldl_advance_of_plain {names : List (List Char)} (h : ∀ name ∈ names, Path.Plain name)
    (place : Place) : names.foldl advance place = place ++ names := by
  induction names generalizing place with
  | nil => exact (List.append_nil place).symm
  | cons name rest ih =>
    obtain ⟨⟨hvoid, hup⟩, hrest⟩ := List.forall_mem_cons.mp h
    rw [List.foldl_cons, ih hrest, advance, hvoid, if_neg Bool.false_ne_true,
      if_neg (fun heq => hup (beq_iff_eq.mp heq)), List.append_assoc, List.singleton_append]

/-- The place of a path below a directory. -/
theorem place_of_under {tree : FileTree} {base path : Path} {names : List (List Char)}
    (h : Path.Under base path names) (hnames : ∀ name ∈ names, Path.Plain name) :
    tree.place path = tree.place base ++ names := by
  rw [place_eq, place_eq, h.2, List.foldl_append, foldl_advance_of_plain hnames, start, h.1, start]

/-- Below one directory, where nothing leads up, the place decides the canonical spelling. -/
theorem canonical_eq_of_place {tree : FileTree} {base path other : Path}
    {names more : List (List Char)} (hpath : Path.Under base path names)
    (hnames : ∀ name ∈ names, Path.Plain name) (hother : Path.Under base other more)
    (hmore : ∀ name ∈ more, Path.Plain name) (hplace : tree.place path = tree.place other) :
    path.canonical = other.canonical := by
  rw [place_of_under hpath hnames, place_of_under hother hmore] at hplace
  exact (hpath.canonical_eq_iff hother).mpr (List.append_cancel_left hplace)

/-- A chain of imports that leads back to the place of a module spells its path as before exactly if
none of the imports climbs. -/
theorem canonical_chain_iff {tree : FileTree} {path : Path} {file : List Char}
    (hparent : path.parent.text ≠ "") (hunder : Path.Under path.parent path [file])
    (hfile : Path.Plain file) {targets : List String}
    (htargets : ∀ target ∈ targets, Path.isRelative target = true)
    (hplace : tree.place (path.chain targets) = tree.place path) :
    (path.chain targets).canonical = path.canonical ↔
      ∀ target ∈ targets, Path.climbs target = false := by
  obtain ⟨names, hnames, hnamed, hup⟩ := Path.under_chain hparent hunder hfile htargets
  have hnone : Path.up ∉ names ↔ ∀ target ∈ targets, Path.climbs target = false := by
    rw [hup]
    simp
  rw [← hnone]
  constructor
  · intro heq
    rw [(hnames.canonical_eq_iff hunder).mp heq, List.mem_singleton]
    exact Ne.symm hfile.2
  · intro hplain
    have hnames' : ∀ name ∈ names, Path.Plain name := fun name hname =>
      ⟨hnamed name hname, fun heq => hplain (heq ▸ hname)⟩
    exact canonical_eq_of_place hnames hnames' hunder
      (fun name hname => List.mem_singleton.mp hname ▸ hfile) hplace

/-- A path that can be followed leads to its place. -/
theorem follow_eq {tree : FileTree} {parts : List (List Char)} {place found : Place}
    (h : tree.follow place parts = .ok found) : found = parts.foldl advance place := by
  induction parts generalizing place with
  | nil =>
    cases h
    rfl
  | cons part rest ih =>
    rw [follow] at h
    rw [List.foldl_cons, advance]
    split at h
    · cases h
    · cases h
    · split at h
      · rename_i hvoid
        rw [if_pos hvoid]
        exact ih h
      · rename_i hvoid
        rw [if_neg hvoid]
        split at h
        · rename_i hup
          rw [if_pos (show (part == Path.up) = true from hup)]
          exact ih h
        · rename_i hup
          rw [if_neg (show ¬ (part == Path.up) = true from hup)]
          split at h
          · cases h
          · exact ih h

/-- What is read by a path is the file at its place. -/
theorem contents_of_read {tree : FileTree} {path : Path} {contents : List UInt8}
    (h : tree.read path = .ok contents) : tree.contents (tree.place path) = .ok contents := by
  unfold read at h
  split at h
  · cases h
  split at h
  · cases h
  split at h
  · cases h
  cases hfollow : tree.follow (if path.isAbsolute then [] else tree.home) path.parts with
  | error fault =>
    rw [hfollow] at h
    cases h
  | ok found =>
    rw [hfollow] at h
    rw [place, start, ← follow_eq hfollow]
    exact h

end FileTree

end DecimalScript
