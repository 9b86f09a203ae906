import DecimalScript.Eval.ItemTurns
import DecimalScript.Library.Apply
import DecimalScript.Proofs.RangeTurns
import DecimalScript.Proofs.Variables
import DecimalScript.Value.Elements

/-!
# Elements by number, by position and by turn

Length, indexing, reversal, assignment and loops are told of the elements of a value, whether it is
an array or a text. A number is the index of an element exactly if it is the position of one.
-/

namespace DecimalScript

namespace Value

variable {value : Value} {items : List Value} {index : Number} {line : Nat}

/-! ### Positions -/

/-- A number means a position if it is the number of that position. -/
theorem position_of_raw {position length : Nat} (hlt : position < length)
    (h : index.raw = position * Number.scale) :
    Value.position index length line = .ok position := by
  have hintegral : index.isIntegral = true := by
    rw [Number.isIntegral, h, Int.mul_tmod_left]
    rfl
  have hwhole : index.whole = position := by
    rw [Number.whole, h]
    exact Int.mul_tdiv_cancel _ (by decide)
  rw [Value.position, hintegral, hwhole, if_pos (by simpa using hlt), Int.toNat_natCast]

/-- A number that is not that of a position means none. -/
theorem position_of_ne {length : Nat}
    (h : ∀ position < length, index.raw ≠ position * Number.scale) :
    Value.position index length line = .error (.outOfBounds index.text length line) := by
  refine if_neg fun hposition => ?_
  simp only [Bool.and_eq_true, decide_eq_true_eq] at hposition
  obtain ⟨⟨hintegral, hnonneg⟩, hlt⟩ := hposition
  have hexact : index.raw.tmod Number.scale = 0 := by simpa [Number.isIntegral] using hintegral
  refine h index.whole.toNat (by omega) ?_
  rw [Int.toNat_of_nonneg hnonneg, Number.whole]
  exact (Int.tdiv_mul_cancel_of_tmod_eq_zero hexact).symm

/-! ### Elements -/

/-- An element is read by the number of its position. -/
theorem HasElements.element (h : HasElements value items) {position : Nat} {item : Value}
    (hitem : items[position]? = some item) (hindex : index.raw = position * Number.scale) :
    value.element (.number index) line = .ok item := by
  have hlt := (List.getElem?_eq_some_iff.mp hitem).1
  cases h with
  | array =>
    show (Value.position index items.length line >>= fun i => .ok (items.getD i nothing)) = _
    rw [position_of_raw hlt hindex]
    show Except.ok (items.getD position nothing) = _
    rw [List.getD_eq_getElem?_getD, hitem]
    rfl
  | text s =>
    show (Value.position index s.toList.length line >>=
      fun i => .ok (ofChar (s.toList.getD i ' '))) = _
    rw [List.length_map] at hlt
    rw [position_of_raw hlt hindex]
    rw [List.getElem?_map] at hitem
    obtain ⟨c, hc, rfl⟩ := Option.map_eq_some_iff.mp hitem
    show Except.ok (ofChar (s.toList.getD position ' ')) = _
    rw [List.getD_eq_getElem?_getD, hc]
    rfl

/-- No element is read by any other number. -/
theorem HasElements.element_of_ne (h : HasElements value items)
    (hindex : ∀ position < items.length, index.raw ≠ position * Number.scale) :
    value.element (.number index) line = .error (.outOfBounds index.text items.length line) := by
  cases h with
  | array =>
    show (Value.position index items.length line >>= fun i => .ok (items.getD i nothing)) = _
    rw [position_of_ne hindex]
    rfl
  | text s =>
    show (position index s.toList.length line >>=
      fun i => .ok (ofChar (s.toList.getD i ' '))) = _
    rw [List.length_map] at hindex ⊢
    rw [position_of_ne hindex]
    rfl

/-- Both ways of asking for the length count the elements. -/
theorem HasElements.length (h : HasElements value items) :
    Builtin.length value line = .ok (.ofCount items.length) ∧
      value.member "length" line = .ok (.ofCount items.length) := by
  cases h with
  | array => exact ⟨rfl, rfl⟩
  | text s =>
    rw [List.length_map, String.length_toList]
    exact ⟨rfl, rfl⟩

/-- Reversal reverses the elements. -/
theorem HasElements.reverse (h : HasElements value items) :
    ∃ reversed, (∀ line, Builtin.reverse value line = .ok reversed) ∧
      HasElements reversed items.reverse := by
  cases h with
  | array => exact ⟨_, fun _ => rfl, .array _⟩
  | text s =>
    refine ⟨_, fun _ => rfl, ?_⟩
    have helements := HasElements.text (String.ofList s.toList.reverse)
    rwa [String.toList_ofList, List.map_reverse] at helements

/-- A loop runs over the elements. -/
theorem HasElements.loopItems (h : HasElements value items) : value.loopItems line = .ok items := by
  cases h with
  | array => rfl
  | text s => rfl

/-- Where another value was put, it is read, and the other elements are as before. -/
theorem withElement_eq_ok {new changed : Value}
    (h : (array items).withElement (.number index) new line = .ok changed) :
    ∃ position < items.length, index.raw = position * Number.scale ∧
      changed = array (items.set position new) := by
  have hread : (array items).withElement (.number index) new line =
      (position index items.length line >>= fun i => .ok (array (items.set i new))) := rfl
  by_cases hindex : ∃ position < items.length, index.raw = position * Number.scale
  · obtain ⟨position, hlt, hraw⟩ := hindex
    rw [hread, position_of_raw hlt hraw] at h
    exact ⟨position, hlt, hraw, (Except.ok.inj h).symm⟩
  · rw [hread, position_of_ne fun position hlt hraw => hindex ⟨position, hlt, hraw⟩] at h
    cases h

/-- Where a value was put, it is read. -/
theorem element_set_self {position : Nat} (hlt : position < items.length)
    (hraw : index.raw = position * Number.scale) (new : Value) :
    (array (items.set position new)).element (.number index) line = .ok new :=
  (HasElements.array _).element (List.getElem?_set_self hlt) hraw

/-- What is read by another number stays, also where it is no position. -/
theorem element_set_of_ne {position : Nat} {other : Number}
    (hraw : index.raw = position * Number.scale) (hne : other ≠ index) (new : Value) :
    (array (items.set position new)).element (.number other) line =
      (array items).element (.number other) line := by
  -- A number that is no position of the array is none of the changed one, which is as long.
  by_cases hother : ∃ p < items.length, other.raw = p * Number.scale
  · obtain ⟨p, hlt, hp⟩ := hother
    have hapart : position ≠ p := by
      rintro rfl
      exact hne (Number.ext_raw (hp.trans hraw.symm))
    have hitem : items[p]? = some items[p] := List.getElem?_eq_getElem hlt
    rw [(HasElements.array items).element hitem hp,
      (HasElements.array _).element ((List.getElem?_set_ne hapart).trans hitem) hp]
  · have hnone : ∀ p < items.length, other.raw ≠ p * Number.scale :=
      fun p hlt hp => hother ⟨p, hlt, hp⟩
    rw [(HasElements.array items).element_of_ne hnone,
      (HasElements.array _).element_of_ne (by rwa [List.length_set]), List.length_set]

end Value

namespace Eval

/-! ### Turns -/

/-- A turn over an item sees it in the loop variable. -/
theorem ItemBegins.get?_name {name : String} {position : Nat} {item : Value} {m inside : Machine}
    (h : ItemBegins name position item m inside) : inside.env.get? name = some item := by
  obtain ⟨loops, -, rfl⟩ := h
  exact Environment.get?_declare _ _ _

/-- Each run of the body sees its item in the loop variable, in order. -/
theorem ItemTurns.get?_name {name : String} {body : Eval Flow} {position : Nat}
    {items : List Value} {m : Machine} {inside : List Machine} {outcome : Outcome Flow}
    (h : ItemTurns name body position items m inside outcome) {turn : Nat} {machine : Machine}
    (hmachine : inside[turn]? = some machine) : machine.env.get? name = items[turn]? := by
  induction h generalizing turn with
  | finished | refused => cases hmachine
  | turn hbegins _ _ ih =>
    cases turn with
    | zero =>
      cases hmachine
      exact hbegins.get?_name
    | succ turn => exact ih hmachine
  | left hbegins | gaveBack hbegins | stopped hbegins =>
    cases turn with
    | zero =>
      cases hmachine
      exact hbegins.get?_name
    | succ turn => cases hmachine

/-- The last of the machines in which the body was run did not go on to the next turn. -/
def LeavesLast (body : Eval Flow) (inside : List Machine) : Prop :=
  ∃ last, inside.getLast? = some last ∧ ∀ after, ¬GoesOn body last after

/-- What a loop over items does from a machine on when it has taken some turns: it takes one for
each item that is left, unless a body leaves the loop or the limit refuses a turn. -/
def RunsItems (name : String) (body : Eval Flow) (limit taken : Nat) (items : List Value)
    (m : Machine) (outcome : Outcome Flow) : Prop :=
  ∃ inside, ItemTurns name body taken items m inside outcome ∧
    (inside.length < items.length → taken + inside.length = limit ∨ LeavesLast body inside)

namespace RunsItems

variable {name : String} {body : Eval Flow} {limit taken : Nat} {item : Value}
  {rest : List Value} {m inside after : Machine} {outcome : Outcome Flow}

/-- A turn is taken, and the loop runs on from the next one. -/
theorem turn (hbegins : ItemBegins name taken item m inside) (hends : GoesOn body inside after)
    (hrest : RunsItems name body limit (taken + 1) rest after outcome) :
    RunsItems name body limit taken (item :: rest) m outcome := by
  obtain ⟨later, hturns, hfewer⟩ := hrest
  refine ⟨inside :: later, .turn hbegins hends hturns, fun hlt => ?_⟩
  rcases hfewer (Nat.lt_of_succ_lt_succ hlt) with hlimit | ⟨last, hlast, hleaves⟩
  · exact .inl (by rw [List.length_cons]; omega)
  · exact .inr ⟨last, by rw [List.getLast?_cons, hlast]; rfl, hleaves⟩

/-- A turn is taken that is the last one. -/
theorem last (hturns : ItemTurns name body taken (item :: rest) m [inside] outcome)
    (hends : ∀ after, body inside ≠ .ok .normal after ∧ body inside ≠ .ok .next after) :
    RunsItems name body limit taken (item :: rest) m outcome := by
  refine ⟨[inside], hturns, fun _ => .inr ⟨inside, rfl, fun after hgoes => ?_⟩⟩
  rcases hgoes with hnormal | hnext
  · exact (hends after).1 hnormal
  · exact (hends after).2 hnext

end RunsItems

/-- The turn of an item is entered, and none if no item is left. -/
theorem enterItems_cases {name : String} {position : Nat} {items : List Value} {m : Machine}
    {entered : Outcome Bool} (h : enterItems name (position, items) m = entered) :
    (∃ item rest, items = item :: rest ∧ entered = .ok true { m with
      loops := m.loops.advance (.ofCount position), env := m.env.declare name item }) ∨
    items = [] ∧ entered = .ok false m := by
  cases items with
  | nil => exact .inr ⟨rfl, h.symm⟩
  | cons item rest => exact .inl ⟨item, rest, rfl, h.symm⟩

/-- A turn that is run is that of the first item that is left. -/
theorem RunsIn.itemBegins {name : String} {limit taken position : Nat} {items : List Value}
    {m inside : Machine} (h : RunsIn (enterItems name) limit taken (position, items) m inside) :
    ∃ item rest, items = item :: rest ∧ ItemBegins name position item m inside := by
  obtain ⟨-, entered, loops, hentered, htick, rfl⟩ := h
  obtain ⟨item, rest, rfl, hsame⟩ | ⟨-, hsame⟩ := enterItems_cases hentered
  · cases hsame
    exact ⟨item, rest, rfl, loops, htick, rfl⟩
  · cases hsame

/-- A run of a loop over items takes its turns, one item after the other. -/
theorem runsItems_of_loopRuns {name : String} {body : Eval Flow} {limit line taken : Nat}
    {cursor : Nat × List Value} {items : List Value} {m : Machine} {inside : List Machine}
    {outcome : Outcome Flow}
    (h : LoopRuns (enterItems name) (fun (position, items) => some (position + 1, items.tail)) body
      limit line taken cursor m inside outcome)
    (hcursor : cursor = (taken, items)) : RunsItems name body limit taken items m outcome := by
  induction h generalizing items with
  | finished hentered =>
    subst hcursor
    obtain ⟨item, rest, -, hsame⟩ | ⟨rfl, hsame⟩ := enterItems_cases hentered
    · cases hsame
    · cases hsame
      exact ⟨[], .finished, fun h => absurd h (Nat.lt_irrefl 0)⟩
  | broken hentered =>
    subst hcursor
    obtain ⟨item, rest, -, hsame⟩ | ⟨-, hsame⟩ := enterItems_cases hentered
    · cases hsame
    · cases hsame
  | refused hentered htick =>
    subst hcursor
    obtain ⟨item, rest, rfl, hsame⟩ | ⟨-, hsame⟩ := enterItems_cases hentered
    · cases hsame
      exact ⟨[], .refused htick, fun _ => .inl rfl⟩
    · cases hsame
  | stopped hruns hends =>
    subst hcursor
    obtain ⟨item, rest, rfl, hbegins⟩ := hruns.itemBegins
    exact .last (.stopped hbegins hends) fun _ => by rw [hends]; exact ⟨nofun, nofun⟩
  | left hruns hends =>
    subst hcursor
    obtain ⟨item, rest, rfl, hbegins⟩ := hruns.itemBegins
    exact .last (.left hbegins hends) fun _ => by rw [hends]; exact ⟨nofun, nofun⟩
  | gaveBack hruns hends =>
    subst hcursor
    obtain ⟨item, rest, rfl, hbegins⟩ := hruns.itemBegins
    exact .last (.gaveBack hbegins hends) fun _ => by rw [hends]; exact ⟨nofun, nofun⟩
  | last _ _ hnext => cases hnext
  | turn hruns hends hnext _ ih =>
    subst hcursor
    obtain ⟨item, rest, rfl, hbegins⟩ := hruns.itemBegins
    cases hnext
    exact .turn hbegins hends (ih rfl)

/-- A loop over items, where another loop may be nested, is entered, takes its turns and is left. -/
theorem runsItems_executeItems (depth : Nat) (name : String) (items : List Value) (body : Block)
    (line : Nat) {m : Machine} (hroom : m.loops.depth < m.loops.limits.maxDepth) :
    ∃ loops ran, m.loops.push (.begin name .zero (.ofCount items.length) .one line) = .ok loops ∧
      RunsItems name (executeBlock (fun job => Job.perform depth job) body)
        m.loops.limits.maxIterations 0 items { m with loops } ran ∧
      executeItems (fun job => Job.perform depth job) name items body line m =
        ran.mapMachine fun after => { after with loops := after.loops.pop } := by
  have hturns : (Loop.Context.begin name .zero (.ofCount items.length) .one line).turns = 0 := rfl
  obtain ⟨loops, inside, ran, hpush, hruns, hran⟩ :=
    loopRuns_executeLoop (changed_enterItems name) (changed_executeBlock depth body) hturns hroom
  exact ⟨loops, ran, hpush, runsItems_of_loopRuns hruns rfl, hran⟩

/-- A loop over items where no other one may be nested is refused. -/
theorem executeItems_of_full {run : JobRunner} {name : String} {items : List Value} {body : Block}
    {line : Nat} {m : Machine} (hfull : m.loops.limits.maxDepth ≤ m.loops.depth) :
    executeItems run name items body line m =
      refuse (.depthExceeded m.loops.limits.maxDepth line) .normal m :=
  executeLoop_of_refusal (Loop.Stack.push_of_full hfull)

/-- A loop over what an expression evaluates to is the loop over its elements. -/
theorem executeFor_of_elements {run : JobRunner} {name : String} {target : Expr} {body : Block}
    {line : Nat} {before m : Machine} {value : Value} {items : List Value}
    (hvalue : value.HasElements items) (h : run (.evaluate target) before = .ok value m) :
    executeFor run name (.items target) body line before =
      executeItems run name items body line m := by
  refine (bind_of_ok h).trans ?_
  rw [hvalue.loopItems]
  rfl

/-- Assigning an element of an array that succeeds puts the value there. -/
theorem execute_assignIndex_ok {run : JobRunner} {line : Nat} {name : String} {index expr : Expr}
    {before read computed after : Machine} {number : Number} {new : Value} {items : List Value}
    {flow : Flow} (hindex : run (.evaluate index) before = .ok (.number number) read)
    (hnew : run (.evaluate expr) read = .ok new computed)
    (hname : computed.env.get? name = some (.array items))
    (h : execute run (.assignIndex line name index expr) before = .ok flow after) :
    ∃ position < items.length, number.raw = position * Number.scale ∧
      after.env.get? name = some (.array (items.set position new)) := by
  have hassign : (assignElement name (.number number) new line >>= fun _ => pure Flow.normal)
      computed = .ok flow after := by
    rw [← h]
    exact ((bind_of_ok hindex).trans (bind_of_ok hnew)).symm
  cases hset : (Value.array items).withElement (.number number) new line with
  | error fault =>
    have hfails : assignElement name (.number number) new line computed =
        .error (.failed (.running fault)) computed := by
      rw [assignElement, get_bind, hname]
      dsimp only
      rw [hset]
      rfl
    rw [bind_of_error hfails] at hassign
    cases hassign
  | ok changed =>
    have hputs : assignElement name (.number number) new line computed =
        .ok () { computed with env := computed.env.write name changed } := by
      rw [assignElement, get_bind, hname]
      dsimp only
      rw [hset]
      rfl
    rw [bind_of_ok hputs] at hassign
    cases hassign
    obtain ⟨position, hlt, hraw, rfl⟩ := Value.withElement_eq_ok hset
    exact ⟨position, hlt, hraw, Environment.get?_write_self (Environment.binds_of_get? hname) _⟩

end Eval

/-- What is told of a value by its length, by indexing, by reversal, by assignment and by loops is
told of the same elements. -/
structure Value.ElementsAgree (value : Value) (items : List Value) : Prop where
  /-- The length is their number, however it is asked for. -/
  length : ∃ count : Number, count.raw = items.length * Number.scale ∧
    Library.core.Answers "len" [value] (.number count) ∧
    Library.util.Answers "len" [value] (.number count) ∧
    ∀ line, value.member "length" line = .ok (.number count)
  /-- Each is read by the number of its position. -/
  element : ∀ (index : Number) (line position : Nat) (item : Value),
    items[position]? = some item → index.raw = position * Number.scale →
      value.element (.number index) line = .ok item
  /-- Any other number is an invalid index. -/
  outside : ∀ (index : Number) (line : Nat),
    (∀ position < items.length, index.raw ≠ position * Number.scale) →
      ∃ detail, value.element (.number index) line = .error (.invalidOperation detail line)
  /-- The reversed value has them in reverse order. -/
  reverse : ∃ reversed, Library.util.Answers "reverse" [value] reversed ∧
    ∀ (index other : Number) (line position : Nat), position < items.length →
      index.raw = position * Number.scale →
      other.raw = (items.length - 1 - position : Nat) * Number.scale →
        reversed.element (.number index) line = value.element (.number other) line
  /-- An assignment to an element of an array, once its index and the new value have been
  evaluated, changes that element and nothing else of the array, if it succeeds. -/
  assign : ∀ (run : JobRunner) (name : String) (index expr : Expr) (line : Nat)
    (before read computed after : Machine) (number : Number) (new : Value) (flow : Flow),
    value = .array items → run (.evaluate index) before = .ok (.number number) read →
    run (.evaluate expr) read = .ok new computed → computed.env.get? name = some value →
    Eval.execute run (.assignIndex line name index expr) before = .ok flow after →
      ∃ changed : List Value, after.env.get? name = some (.array changed) ∧
        changed.length = items.length ∧
        (∀ line, (Value.array changed).element (.number number) line = .ok new) ∧
        ∀ other ≠ number, ∀ line, (Value.array changed).element (.number other) line =
          value.element (.number other) line
  /-- A loop is refused where too many are nested. -/
  refused : ∀ (run : JobRunner) (name : String) (target : Expr) (body : Block) (line : Nat)
    (before m : Machine), run (.evaluate target) before = .ok value m →
    m.loops.limits.maxDepth ≤ m.loops.depth →
      Eval.executeFor run name (.items target) body line before =
        Eval.refuse (.depthExceeded m.loops.limits.maxDepth line) .normal m
  /-- Otherwise it binds them one after the other and runs its body each time, whatever that does,
  and comes to an end before the last one only if the limit refuses a turn or a body leaves. -/
  loop : ∀ (depth : Nat) (name : String) (target : Expr) (body : Block) (line : Nat)
    (before m : Machine), Job.perform depth (.evaluate target) before = .ok value m →
    m.loops.depth < m.loops.limits.maxDepth →
      let run : JobRunner := fun job => Job.perform depth job
      ∃ loops inside ran,
        m.loops.push (.begin name .zero (.ofCount items.length) .one line) = .ok loops ∧
        Eval.ItemTurns name (Eval.executeBlock run body) 0 items { m with loops } inside ran ∧
        Eval.executeFor run name (.items target) body line before =
          Outcome.mapMachine (fun after => { after with loops := after.loops.pop }) ran ∧
        (∀ (turn : Nat) (machine : Machine), inside[turn]? = some machine →
          machine.env.get? name = items[turn]?) ∧
        (inside.length < items.length → inside.length = m.loops.limits.maxIterations ∨
          Eval.LeavesLast (Eval.executeBlock run body) inside)

/-- Length, indexing, reversal, assignment and loops agree on the elements of an array or text. -/
theorem elements_agree {value : Value} {items : List Value} (hvalue : value.HasElements items)
    (hlength : items.length * Number.scale ≤ Number.maxRaw) : value.ElementsAgree items where
  length := by
    refine ⟨.ofCount items.length, Number.raw_ofCount hlength, ?_, ?_, fun line => ?_⟩
    · exact Library.answers_unary rfl fun line => hvalue.length.1
    · exact Library.answers_unary rfl fun line => hvalue.length.1
    · exact hvalue.length.2
  element index line position item hitem hindex := hvalue.element hitem hindex
  outside index line hindex := ⟨_, hvalue.element_of_ne hindex⟩
  reverse := by
    obtain ⟨reversed, hreverse, helements⟩ := hvalue.reverse
    refine ⟨reversed, Library.answers_unary rfl hreverse,
      fun index other line position hlt hindex hother => ?_⟩
    have hitem := List.getElem?_reverse hlt
    have hback : items.length - 1 - position < items.length := by omega
    rw [List.getElem?_eq_getElem hback] at hitem
    rw [helements.element hitem hindex,
      hvalue.element (List.getElem?_eq_getElem hback) hother]
  assign run name index expr line before read computed after number new flow := by
    rintro rfl hindex hnew hname hexecute
    obtain ⟨position, hlt, hraw, hafter⟩ :=
      Eval.execute_assignIndex_ok hindex hnew hname hexecute
    exact ⟨_, hafter, List.length_set, fun line => Value.element_set_self hlt hraw new,
      fun other hne line => Value.element_set_of_ne hraw hne new⟩
  refused run name target body line before m htarget hfull :=
    (Eval.executeFor_of_elements hvalue htarget).trans (Eval.executeItems_of_full hfull)
  loop depth name target body line before m htarget hroom := by
    obtain ⟨loops, ran, hpush, ⟨inside, hturns, hfewer⟩, hran⟩ :=
      Eval.runsItems_executeItems depth name items body line hroom
    refine ⟨loops, inside, ran, hpush, hturns, ?_, fun turn machine => hturns.get?_name, ?_⟩
    · exact (Eval.executeFor_of_elements hvalue htarget).trans hran
    · rwa [Nat.zero_add] at hfewer

/-- A text of two-byte characters has three elements. Minus one half is no index of it, and a loop
over the variable that holds it goes through its characters though the body assigns that variable.
In an array, an element is assigned. -/
theorem elements_of_greek_letters :
    let word : Value := .text "αβγ"
    let letters : List Value := [.text "α", .text "β", .text "γ"]
    let m : Machine := { env := Environment.define {} "word" word }
    let run : JobRunner := fun job => Job.perform 1 job
    let body : Block := [.assign 1 "word" (.literal 1 (.number .zero))]
    (∃ count : Number, count.raw = 3 * Number.scale ∧
      Library.core.Answers "len" [word] (.number count)) ∧
    word.element (.number { raw := 2000000 }) 1 = .ok (.text "γ") ∧
    (∃ detail, word.element (.number { raw := -500000 }) 1 =
      .error (.invalidOperation detail 1)) ∧
    (∃ reversed, Library.util.Answers "reverse" [word] reversed ∧
      reversed.element (.number .zero) 1 = word.element (.number { raw := 2000000 }) 1) ∧
    (∃ loops inside ran,
      Eval.ItemTurns "letter" (Eval.executeBlock run body) 0 letters { m with loops } inside ran ∧
      Eval.executeFor run "letter" (.items (.var 1 "word")) body 1 m =
        Outcome.mapMachine (fun after => { after with loops := after.loops.pop }) ran) ∧
    ∃ (after : Machine) (changed : List Value),
      after.env.get? "list" = some (.array changed) ∧ changed.length = 3 ∧
      (Value.array changed).element (.number .one) 1 = .ok word := by
  intro word letters m run body
  have hword : word.ElementsAgree letters := elements_agree (.text "αβγ") (by decide)
  have hletters : (Value.array letters).ElementsAgree letters :=
    elements_agree (.array letters) (by decide)
  refine ⟨?_, ?_, ?_, ?_, ?_, ?_⟩
  · obtain ⟨count, hcount, hanswer, -⟩ := hword.length
    exact ⟨count, hcount, hanswer⟩
  · exact hword.element _ 1 2 _ rfl (by decide)
  · exact hword.outside _ 1 (by decide)
  · obtain ⟨reversed, hanswer, hread⟩ := hword.reverse
    exact ⟨reversed, hanswer, hread _ _ 1 0 (by decide) (by decide) (by decide)⟩
  · obtain ⟨loops, inside, ran, -, hturns, hran, -⟩ :=
      hword.loop 1 "letter" (.var 1 "word") body 1 m m rfl (by decide)
    exact ⟨loops, inside, ran, hturns, hran⟩
  · let holding : Machine := { env := Environment.define {} "list" (.array letters) }
    obtain ⟨changed, hchanged, hcount, hread, -⟩ :=
      hletters.assign run "list" (.literal 1 (.number .one)) (.literal 1 (.text "αβγ")) 1
        holding holding holding _ .one word .normal rfl rfl rfl rfl rfl
    exact ⟨_, changed, hchanged, hcount, hread 1⟩

end DecimalScript
