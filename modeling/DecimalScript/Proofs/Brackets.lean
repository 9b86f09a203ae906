import DecimalScript.Proofs.Sequencing

/-!
# Comparing what is undone at its end

A scope, a directory, a call, a module load, a guarded block and a loop change the
machine at their start and undo the change at their end, however the body ended. Since
the body keeps what it found, the undoing leads back to the machine before.
-/

namespace DecimalScript

section

variable {C inner : Comparison} {α : Type} {hits : Bool} {good : α → Prop}
  (hallows : ∀ stop after, inner.allows stop after → C.allows stop after)
  (hreleases : ∀ stop, inner.releases stop → C.releases stop)

include hallows hreleases

/-- A change at the end, whether or not the body succeeded. -/
theorem Criteria.Agree.afterwards {before change : Machine → Machine → Prop}
    {x y : Eval α} {m entered entered' : Machine} {undo undo' : Machine → Machine}
    (h : inner.Agree before hits good entered (x entered) (y entered'))
    (hhits : hits = true → ∀ stop after, inner.hit entered stop after →
      C.hit m stop (undo after))
    (hsinks : ∀ after, (undo after).output = after.output ∧ (undo after).errors = after.errors)
    (hundo : ∀ after after', inner.related after after' → before entered after →
      C.related (undo after) (undo' after') ∧ change m (undo after)) :
    C.Agree change hits good m (Eval.afterwards x undo entered)
      (Eval.afterwards y undo' entered') := by
  unfold Eval.afterwards
  generalize x entered = r at h ⊢
  generalize y entered' = r' at h ⊢
  cases h with
  | returned hgood hrel hchange =>
    obtain ⟨hrel, hchange⟩ := hundo _ _ hrel hchange
    exact .returned hgood hrel hchange
  | @stopped stop after after' hallowed hrel hchange =>
    obtain ⟨hrel, hchange⟩ := hundo _ _ hrel hchange
    exact .stopped (C.allows_of_sinks (hsinks after).1 (hsinks after).2 (hallows _ _ hallowed))
      hrel hchange
  | released h => exact .released (hreleases _ h)
  | @hit r r' hcount h =>
    refine .hit hcount ?_
    cases r with
    | ok value after => exact hhits hcount _ _ h
    | error stop after => exact hhits hcount _ _ h

/-- A scope that was opened is closed at the end, which loses the names bound in it. -/
theorem Criteria.Agree.leaveScope {m entered : Machine} {detail : String}
    {line calls : Nat} {r r' : Outcome α}
    (h : inner.Agree (inner.change .stmt) false good entered r r')
    (hscopes : entered.env.scopes = m.env.pushScope.scopes)
    (hnames : m.env.names <:+ entered.env.names)
    (hleave : ∀ after after' closed, inner.related after after' →
      inner.change .stmt entered after → closed.scopes = m.env.scopes →
      closed.names = m.env.names → (∀ b ∈ closed.bindings, b ∈ after.env.bindings) →
      C.related { after with env := closed, callDepth := after.callDepth - calls }
          { after' with env := closed, callDepth := after'.callDepth - calls } ∧
        C.change .value m { after with env := closed, callDepth := after.callDepth - calls }) :
    C.Agree (C.change .value) hits good m (Eval.leaveScope detail line calls r)
      (Eval.leaveScope detail line calls r') := by
  have hclose : ∀ after after', inner.related after after' → inner.change .stmt entered after →
      ∃ closed, after.env.popScope? = some closed ∧ after'.env.popScope? = some closed ∧
        C.related { after with env := closed, callDepth := after.callDepth - calls }
          { after' with env := closed, callDepth := after'.callDepth - calls } ∧
        C.change .value m { after with env := closed, callDepth := after.callDepth - calls } := by
    intro after after' hrel hchange
    obtain ⟨closed, hclosed, hkept, hold, hbindings⟩ := Environment.popScope_of_pushed
      (hchange.1.1.scopes.trans hscopes) (hnames.trans hchange.1.2.1)
    have henv : after'.env = after.env := by
      obtain ⟨loops, maxCalls, rfl⟩ := inner.view hrel
      rfl
    exact ⟨closed, hclosed, henv ▸ hclosed,
      hleave after after' closed hrel hchange hkept hold hbindings⟩
  unfold Eval.leaveScope
  cases h with
  | @returned value after after' hgood hrel hchange =>
    obtain ⟨closed, hclosed, hclosed', hrel, hchange⟩ := hclose after after' hrel hchange
    simp only [hclosed, hclosed']
    exact .returned hgood hrel hchange
  | @stopped stop after after' hallowed hrel hchange =>
    obtain ⟨closed, hclosed, hclosed', hrel, hchange⟩ := hclose after after' hrel hchange
    simp only [hclosed, hclosed']
    refine .stopped (C.allows_of_sinks ?_ ?_ (hallows _ after hallowed)) hrel hchange
    · rfl
    · rfl
  | @released stop after result h =>
    -- Nothing is known of the machine here, not even that a scope is open.
    dsimp only
    split
    · exact .released (hreleases _ h)
    · exact .released (C.releases_badMemory (hreleases _ h))
  | hit hhits h => exact absurd hhits (by decide)

end

namespace Comparison

variable {C inner : Comparison} {α : Type} {hits : Bool} {good : α → Prop} {x y : Eval α}

/-- Directories are entered and left. -/
theorem inDirectory {dir : Path} (hdir : C.directory dir) (h : C.Holds .stmt false good x y) :
    C.Holds .stmt false good (Eval.inDirectory dir x) (Eval.inDirectory dir y) := by
  intro m m' hm
  have hbase : m'.baseDir = m.baseDir := by
    obtain ⟨loops, maxCalls, rfl⟩ := C.view hm
    rfl
  unfold Eval.inDirectory
  rw [hbase]
  refine (h _ _ (C.related_directory hm hdir)).afterwards (fun _ _ => id) (fun _ => id) nofun
    (fun _ => ⟨rfl, rfl⟩) fun after after' hrel hchange => ?_
  obtain ⟨⟨hkept, hnames, hcontexts⟩, halso⟩ := hchange
  refine ⟨C.related_directory hrel (C.base hm), ⟨{ hkept with baseDir := rfl }, hnames, hcontexts⟩, ?_⟩
  have hbegin : C.also m { m with baseDir := dir } := C.also_of_errors rfl
  exact C.also_trans hbegin (C.also_trans halso (C.also_of_errors rfl))

/-- Scopes are opened and closed. -/
theorem scope (h : C.Holds .stmt false good x y) :
    C.Holds .value false good (Eval.inScope x) (Eval.inScope y) := by
  intro m m' hm
  have henv : m'.env = m.env := by
    obtain ⟨loops, maxCalls, rfl⟩ := C.view hm
    rfl
  have hpush : C.related { m with env := m.env.pushScope } { m' with env := m.env.pushScope } :=
    C.related_env hm fun bound hbound => .inl hbound
  unfold Eval.inScope
  rw [henv]
  refine (h _ _ hpush).leaveScope (fun _ _ => id) (fun _ => id) rfl (List.suffix_refl _)
    fun after after' closed hrel hchange hscopes hnames hbindings => ?_
  obtain ⟨⟨hkept, _, hcontexts⟩, halso⟩ := hchange
  refine ⟨C.related_env hrel fun b hb => .inl (hbindings b hb),
    ⟨{ hkept with scopes := hscopes }, hnames, hcontexts⟩, ?_⟩
  have hbegin : C.also m { m with env := m.env.pushScope } := C.also_of_errors rfl
  exact C.also_trans hbegin (C.also_trans halso (C.also_of_errors rfl))

/-- Back from a call or a module load, the machine is related to what the other one is then. -/
theorem Opens.return (hopens : C.Opens inner) {m m' entered after after' : Machine}
    (hm : C.related m m') (hrel : inner.related after after')
    (hchange : inner.change .stmt entered after) (hfiles : entered.files = m.files)
    (hmax : entered.maxCallDepth = m.maxCallDepth)
    (halso : C.also m entered) :
    C.related { after with callDepth := m.callDepth, loading := m.loading }
        { after' with callDepth := m.callDepth, loading := m.loading } ∧
      C.also m { after with callDepth := m.callDepth, loading := m.loading } := by
  obtain ⟨⟨hkept, _, _⟩, hinner⟩ := hchange
  refine ⟨hopens.back hm hrel (hkept.files.trans hfiles) (hkept.maxCallDepth.trans hmax), ?_⟩
  exact C.also_trans halso (C.also_trans (hopens.also hinner) (C.also_of_errors rfl))

/-- A call runs its body inside. -/
theorem Opens.invoke (hopens : C.Opens inner) {params : List String} {values : List Value}
    {line : Nat} {body body' : Eval Value} (hvalues : ∀ value ∈ values, C.good value)
    (h : inner.Holds .stmt false inner.good body body') :
    C.Holds .value true C.good (Eval.invoke params values line body)
      (Eval.invoke params values line body') := by
  intro m m' hm
  obtain ⟨loops, maxCalls, hview⟩ := C.view hm
  have hcalls : m'.callDepth = m.callDepth := by rw [hview]
  have henv : m'.env = m.env := by rw [hview]
  unfold Eval.invoke
  rw [hcalls, henv]
  by_cases hlimit : m.maxCallDepth ≤ m.callDepth
  · rw [if_pos hlimit]
    rcases hopens.recursion line hm hlimit with hequal | hhit
    · rw [hequal, if_pos hlimit]
      exact .stopped (C.allows_fault rfl) hm (C.refl .value m)
    · exact .hit rfl hhit
  · have hallowed : m.callDepth < m.maxCallDepth := Nat.lt_of_not_le hlimit
    rw [if_neg hlimit, if_neg (Nat.not_le_of_lt (hopens.allowed hm hallowed))]
    obtain ⟨hscopes, hnames, hbindings⟩ :=
      Environment.defineAll_spec m.env.pushScope params values
    have hentered : inner.related
        { m with
          env := m.env.pushScope.defineAll params values
          callDepth := m.callDepth + 1 }
        { m' with
          env := m.env.pushScope.defineAll params values
          callDepth := m.callDepth + 1 } := by
      refine inner.related_env (hopens.begin hm hallowed) fun bound hbound => ?_
      rcases hbindings bound hbound with hold | hnew
      · exact .inl hold
      · exact .inr (hopens.good.mpr (hvalues _ hnew))
    refine ((h _ _ hentered).mono (fun _ => id) fun _ => hopens.good.mp).leaveScope
      (fun _ _ => hopens.allows) (fun _ => hopens.releases) hscopes hnames
      fun after after' closed hrel hchange hclosed hold hkept => ?_
    obtain ⟨hrelated, halso⟩ := hopens.return hm hrel hchange rfl rfl (C.also_of_errors rfl)
    obtain ⟨⟨hstays, _, hcontexts⟩, _⟩ := hchange
    have hdown : after.callDepth - 1 = m.callDepth := by
      rw [hstays.callDepth]
      rfl
    obtain ⟨loops, maxCalls, rfl⟩ := inner.view hrel
    rw [hdown]
    rw [← hstays.loading] at hrelated halso
    constructor
    · exact C.related_env hrelated fun b hb => .inl (hkept b hb)
    · exact ⟨⟨{ hstays with scopes := hclosed, callDepth := rfl }, hold, hcontexts⟩,
        C.also_trans halso (C.also_of_errors rfl)⟩

/-- A module is loaded inside, and counts as being loaded meanwhile. -/
theorem Opens.whileLoading (hopens : C.Opens inner) {m m' : Machine} (hm : C.related m m')
    {line : Nat} {target : ModuleRef} {aliasName : String} {path : Path} {program : Block}
    (hlegal : C.legalStmt (.use line target aliasName))
    (hpath : path = Path.ofModule m.baseDir target.text) (hnew : path.canonical ∉ m.loading)
    (hfile : Block.ofFile m.files path = .ok program)
    {x y : Eval Unit} (h : inner.Holds .stmt false (fun _ => True) x y) :
    C.Agree (C.change .stmt) false (fun _ => True) m (Eval.whileLoading path x m)
      (Eval.whileLoading path y m') := by
  have hloading : m'.loading = m.loading := by
    obtain ⟨loops, maxCalls, rfl⟩ := C.view hm
    rfl
  unfold Eval.whileLoading
  rw [hloading]
  refine (h _ _ (hopens.load hm hlegal hpath hnew hfile)).afterwards (fun _ _ => hopens.allows)
    (fun _ => hopens.releases) nofun (fun _ => ⟨rfl, rfl⟩) fun after after' hrel hchange => ?_
  obtain ⟨hrelated, halso⟩ := hopens.return hm hrel hchange rfl rfl (C.also_of_errors rfl)
  obtain ⟨⟨hstays, hnames, hcontexts⟩, _⟩ := hchange
  have htail : after.loading.tail = m.loading := by rw [hstays.loading, List.tail_cons]
  obtain ⟨loops, maxCalls, rfl⟩ := inner.view hrel
  rw [htail]
  rw [← hstays.callDepth] at hrelated halso
  exact ⟨hrelated, ⟨{ hstays with loading := rfl }, hnames, hcontexts⟩, halso⟩

/-- Restoring the variables leads back to the names there were. -/
theorem restore {m m' after after' : Machine} (hm : C.related m m')
    (hrel : C.related after after') (hchange : C.change .stmt m after) :
    C.related { after with env := after.env.restore m.env.mark }
        { after' with env := after'.env.restore m'.env.mark } ∧
      C.change .stmt m { after with env := after.env.restore m.env.mark } := by
  obtain ⟨loops, maxCalls, rfl⟩ := C.view hm
  obtain ⟨loops, maxCalls, rfl⟩ := C.view hrel
  obtain ⟨⟨hkept, hnames, hcontexts⟩, halso⟩ := hchange
  refine ⟨C.related_env hrel fun bound hbound => .inl (Environment.mem_restore hbound),
    ⟨{ hkept with scopes := Environment.scopes_restore hkept.scopes }, ?_, hcontexts⟩,
    C.also_trans halso (C.also_of_errors rfl)⟩
  exact Environment.names_restore hnames ▸ List.suffix_refl _

/-- A handler starts from the variables at the start of the guarded block and the failure. The
loops and calls are those at the start already. -/
theorem recover {m m' after after' : Machine} (hm : C.related m m')
    (hrel : C.related after after') (hchange : C.change .stmt m after) (failure : String)
    (fault : Fault) :
    C.related
        { after with
          env := (after.env.restore m.env.mark).define failure (.text fault.description)
          loops := after.loops.unwindTo m.loops.depth
          callDepth := m.callDepth }
        { after' with
          env := (after'.env.restore m'.env.mark).define failure (.text fault.description)
          loops := after'.loops.unwindTo m'.loops.depth
          callDepth := m'.callDepth } ∧
      C.change .stmt m
        { after with
          env := (after.env.restore m.env.mark).define failure (.text fault.description)
          loops := after.loops.unwindTo m.loops.depth
          callDepth := m.callDepth } := by
  obtain ⟨hrestored, hstart⟩ := restore hm hrel hchange
  have hdepth : after.loops.depth = m.loops.depth := congrArg List.length hchange.1.2.2
  have hdepth' : after'.loops.depth = m'.loops.depth := by
    rw [C.depth hrel, C.depth hm, hdepth]
  have hcalls := hchange.1.1.callDepth
  rw [Loop.Stack.unwindTo_of_depth hdepth, Loop.Stack.unwindTo_of_depth hdepth', ← hcalls]
  have hdefine := bind failure hrestored (C.values.text fault.description) (.inl rfl)
  obtain ⟨loops, maxCalls, rfl⟩ := C.view hm
  obtain ⟨loops, maxCalls, rfl⟩ := C.view hrel
  rw [← hcalls]
  exact ⟨hdefine.1, C.trans hstart hdefine.2⟩

/-- Guarded blocks are rolled back. -/
theorem attempt {run run' : JobRunner} {body handler : Block} (failure : String)
    (hbody : C.Holds .stmt false C.goodFlow (Eval.executeBlock run body)
      (Eval.executeBlock run' body))
    (hhandler : C.Holds .stmt false C.goodFlow (Eval.executeBlock run handler)
      (Eval.executeBlock run' handler)) :
    C.Holds .stmt false C.goodFlow (Eval.executeTry run body failure handler)
      (Eval.executeTry run' body failure handler) := by
  intro m m' hm
  have h := hbody m m' hm
  unfold Eval.executeTry
  dsimp only
  generalize Eval.executeBlock run body m = r at h ⊢
  generalize Eval.executeBlock run' body m' = r' at h ⊢
  cases h with
  | returned hgood hrel hchange =>
    obtain ⟨hrestored, hend⟩ := restore hm hrel hchange
    exact .returned hgood hrestored hend
  | @stopped stop after after' hallows hrel hchange =>
    obtain ⟨hrestored, hend⟩ := restore hm hrel hchange
    have hend' : C.Agree (C.change .stmt) false C.goodFlow m
        (.error stop { after with env := after.env.restore m.env.mark })
        (.error stop { after' with env := after'.env.restore m'.env.mark }) := by
      refine .stopped (C.allows_of_sinks ?_ ?_ hallows) hrestored hend
      · rfl
      · rfl
    cases stop with
    | exhausted => exact hend'
    | failed failure =>
      cases failure with
      | io _ | lexical _ | syntactic _ | loop _ => exact hend'
      | running fault =>
        dsimp only
        split
        · exact hend'
        · obtain ⟨hstart, hto⟩ := recover hm hrel hchange _ fault
          refine (hhandler _ _ hstart).afterwards (fun _ _ => id) (fun _ => id) nofun
            (fun _ => ⟨rfl, rfl⟩) fun _ _ hrel' hchange' => ?_
          exact restore hm hrel' (C.trans hto hchange')
  | @released stop after result h =>
    cases stop with
    | exhausted => exact .released h
    | failed failure =>
      cases failure with
      | io _ | lexical _ | syntactic _ | loop _ => exact .released h
      | running fault =>
        dsimp only
        rw [if_pos (C.releases_fatal h)]
        exact .released h
  | hit hhits h => exact absurd hhits (by decide)

end Comparison

end DecimalScript
