import Whitespace.Proofs.Layout
import Whitespace.Proofs.Runs

/-!
# Programs that end prematurely

A step leaves the program when it is to go on to the next node and there is none, or when it returns
from a call behind which there was none.  The first happens only at the last node, which has done
its work by then.  For the second the last node must be a call, because every other call has a node
behind it.

The invariant of a run is about what it has saved: a call that has nothing to go on to was made by
the last node (`Machine.saved_of_step`, `Machine.endsWithCall_of_step`).  So a program whose last
node is a stop, a jump or a return never ends prematurely (`premature_end_of_history`).

## Main definitions

* `Instruction.goesOn i` — the instruction may go on to the next node.
* `Program.last? p` — the last node of a program.
* `Program.EndsWithCall p` — the last node is a call.
* `Program.LeftAt p site` — a place where a program may be left.
* `Machine.FallsOff config program m streams node` — the next step leaves the program behind its
  last node, which has done its work.
-/

namespace Whitespace

/-- The last node of a program. -/
def Program.last? (p : Program) : Option Node :=
  p.node? (p.size - 1)

/-- The last node of a program is a call. -/
def Program.EndsWithCall (p : Program) : Prop :=
  ∃ node name, p.last? = some node ∧ node.instruction = .label .call name

/-- Whether an instruction may go on to the next node. -/
def Instruction.goesOn : Instruction → Bool
  | .label .call _ | .label .jump _ | .plain .ret | .plain .stop => false
  | _ => true

/-- A place where a program may be left: its last node, if that may go on, or a return, if the last
node is a call. -/
def Program.LeftAt (p : Program) (site : Site) : Prop :=
  (∃ node, p.last? = some node ∧ node.instruction.goesOn = true ∧
      site = ⟨node.instruction, node.index⟩) ∨
    site.instruction = .plain .ret ∧ p.EndsWithCall

/-! ## Which effects leave the program -/

theorem NumberOp.effect_ne_prematureEnd (op : NumberOp) (operand : Int64) (w : World) :
    (op.effect operand w).1 ≠ .error .prematureEnd := by
  cases op with
  | push => simp [effect]
  | copy =>
    simp only [effect]
    split
    · simp
    · split <;> simp
  | slide =>
    simp only [effect]
    split
    · simp
    · split
      · simp
      · split <;> simp

theorem World.leave_ne_prematureEnd (w : World) (target : Option Nat) :
    (w.leave target).1 ≠ .error .prematureEnd := by
  cases target <;> simp [leave]

theorem LabelOp.effect_ne_prematureEnd (op : LabelOp) (follow target : Option Nat) (w : World) :
    (op.effect follow target w).1 ≠ .error .prematureEnd := by
  cases op with
  | define => simp [effect]
  | call => cases target <;> simp [effect, World.leave]
  | jump => exact w.leave_ne_prematureEnd target
  | jumpIf condition =>
    simp only [effect]
    split
    · simp
    · split
      · exact World.leave_ne_prematureEnd _ target
      · simp

theorem Format.print_ne_prematureEnd (format : Format) (word : Int64) :
    format.print word ≠ .error .prematureEnd := by
  cases format with
  | number => simp [print]
  | character =>
    simp only [print]
    split <;> simp

theorem Format.reading_ne_prematureEnd (format : Format) (input rest : Input) :
    format.reading input ≠ .error .prematureEnd rest := by
  intro failed
  cases format.reading_fails input .prematureEnd rest failed

theorem PlainOp.effect_ne_prematureEnd {op : PlainOp} (no_return : op ≠ .ret) (w : World) :
    (op.effect w).1 ≠ .error .prematureEnd := by
  rcases w with ⟨stack, calls, heap, streams⟩
  cases op with
  | ret => exact absurd rfl no_return
  | duplicate | discard | load => cases stack <;> simp [effect]
  | swap | store => rcases stack with _ | ⟨top, _ | ⟨below, stack⟩⟩ <;> simp [effect]
  | calculate calculation =>
    rcases stack with _ | ⟨right, _ | ⟨left, stack⟩⟩
    · simp [effect]
    · simp [effect]
    · simp only [effect]
      split <;> simp
  | stop =>
    simp only [effect]
    split <;> simp
  | print format =>
    simp only [effect]
    split
    · simp
    · simp
    · next word below _ =>
      split
      · next cause failed =>
        have other := format.print_ne_prematureEnd word
        rw [failed] at other
        simpa using other
      · split <;> simp
  | read format =>
    simp only [effect]
    split
    · simp
    · simp
    · next input address below _ =>
      split
      · simp
      · split
        · next cause rest failed =>
          have other := format.reading_ne_prematureEnd input rest
          rw [failed] at other
          simpa using other
        · simp

/-- **Only a return leaves the program by its effect**, if the call that it returns from has nothing
to go on to. -/
theorem Instruction.effect_prematureEnd {i : Instruction} {follow target : Option Nat} {w : World}
    (left : (i.effect follow target w).1 = .error .prematureEnd) :
    i = .plain .ret ∧ none ∈ w.calls := by
  cases i with
  | number op operand => exact absurd left (op.effect_ne_prematureEnd operand w)
  | label op name => exact absurd left (op.effect_ne_prematureEnd follow target w)
  | plain op =>
    by_cases ret : op = .ret
    · subst ret
      refine ⟨rfl, ?_⟩
      simp only [effect, PlainOp.effect] at left
      split at left
      · cases left
      · cases left
      · next calls saved =>
        rw [saved]
        exact List.mem_cons_self
    · exact absurd left (PlainOp.effect_ne_prematureEnd ret w)

/-- Only such instructions go on to the next node. -/
theorem Instruction.effect_next {i : Instruction} {follow target : Option Nat} {w : World}
    (onward : (i.effect follow target w).1 = .ok .next) : i.goesOn = true := by
  cases i with
  | number op operand => rfl
  | label op name =>
    cases op with
    | define | jumpIf condition => rfl
    | call | jump => cases target <;> cases onward
  | plain op =>
    cases op with
    | ret =>
      simp only [effect, PlainOp.effect] at onward
      split at onward <;> cases onward
    | stop =>
      simp only [effect, PlainOp.effect] at onward
      split at onward <;> cases onward
    | duplicate | swap | discard | calculate _ | store | load | print _ | read _ => rfl

/-! ## The last node -/

section Last

variable {p : Program} {slot : Nat} {node : Node}

/-- A node that nothing follows is the last. -/
theorem size_of_next (sequential : Linking.Sequential p) (stands : p.node? slot = some node)
    (ended : node.next = none) : slot + 1 = p.size := by
  have bound : slot < p.size := (Array.getElem?_eq_some_iff.mp stands).1
  have successor := sequential slot node stands
  rw [ended] at successor
  by_contra other
  rw [if_pos (by omega)] at successor
  cases successor

theorem last?_of_next (sequential : Linking.Sequential p) (stands : p.node? slot = some node)
    (ended : node.next = none) : p.last? = some node := by
  rw [Program.last?, ← size_of_next sequential stands ended, Nat.add_sub_cancel]
  exact stands

/-- The last node of a linked program has the last instruction that does something. -/
theorem last?_of_link {is : List Instruction} {l : Linking} (h : link is = .ok l) :
    l.program.last?.map Node.instruction = (is.filter Instruction.isExecutable).getLast? := by
  have row : l.program.nodes.toList.map Node.instruction = is.filter Instruction.isExecutable := by
    rw [Linking.nodes_of_link h, List.map_map, ← List.zipIdx_map_fst 0 is, List.filter_map,
      List.zipIdx_map_fst]
    rfl
  rw [← row, List.getLast?_map, List.getLast?_eq_getElem?, Array.getElem?_toList]
  rfl

end Last

namespace Machine

variable {config : Config} {program : Program} {m : Machine} {streams : Streams} {node : Node}

/-- The next step leaves the program behind its last node.  The instruction has done its work by
then: the machine and the streams are as it has left them. -/
structure FallsOff (config : Config) (program : Program) (m : Machine) (streams : Streams)
    (node : Node) : Prop where
  last : program.last? = some node
  goesOn : node.instruction.goesOn = true
  current : m.current + 1 = program.size
  done : ∃ w, node.execute (m.workspace streams) = .ok .next w ∧
    (m.step config program streams).machine = ofWorkspace w m.current .faulted (m.steps + 1) ∧
    (m.step config program streams).streams = w.streams

/-! ## Steps -/

/-- Only a node that is executed leaves the program, and the fault names it. -/
theorem executes_of_prematureEnd {f : Fault}
    (failed : (m.step config program streams).result = .error f) (left : f.cause = .prematureEnd) :
    ∃ node, m.Executes program node ∧ f.site = some ⟨node.instruction, node.index⟩ := by
  by_cases running : m.state = .running
  · cases stands : program.node? m.current with
    | none =>
      simp only [step, running, stands] at failed
      cases failed
      cases left
    | some node =>
      have executes : m.Executes program node := ⟨running, stands⟩
      exact ⟨node, executes, executes.site failed⟩
  · rw [step_of_not_running config program streams running] at failed
    cases failed

/-- **How a step leaves the program**: by a return while a call is saved that has nothing to go on
to, or by going on behind the last node. -/
theorem Executes.prematureEnd_cases {f : Fault} (sequential : Linking.Sequential program)
    (executes : m.Executes program node)
    (failed : (m.step config program streams).result = .error f) (left : f.cause = .prematureEnd) :
    node.instruction = .plain .ret ∧ none ∈ m.calls ∨ FallsOff config program m streams node := by
  have turned := turn_workspace m streams node
  have step := executes.step_eq config streams
  -- Either the instruction fails with this cause, or it goes on where nothing follows.
  cases ended : node.execute (m.workspace streams) with
  | error cause w =>
    left
    rw [ended] at step turned
    rw [step] at failed
    cases failed
    obtain rfl : cause = .prematureEnd := left
    have effect := Instruction.effect_prematureEnd (congrArg Prod.fst turned).symm
    rwa [walker_id_calls] at effect
  | ok move w =>
    right
    rw [ended] at step
    rw [step] at failed
    cases move with
    | halt => cases failed
    | branch slot => cases failed
    | next =>
      cases follows : node.next with
      | some slot =>
        rw [follows] at failed
        cases failed
      | none =>
        rw [follows] at step
        rw [ended] at turned
        exact {
          last := last?_of_next sequential executes.stands follows
          goesOn := Instruction.effect_next (congrArg Prod.fst turned).symm
          current := size_of_next sequential executes.stands follows
          done := ⟨w, ended, by rw [step]; rfl, by rw [step]; rfl⟩ }

/-- **What is saved behind a step** was saved before, or is what stands behind a call that the step
has executed. -/
theorem saved_of_step {saved : Option Nat}
    (member : saved ∈ (m.step config program streams).machine.calls) :
    saved ∈ m.calls ∨
      ∃ node name, m.Executes program node ∧ node.instruction = .label .call name ∧
        saved = node.next := by
  obtain same | ⟨node, name, executes, call, more⟩ | ⟨_, _, -, -, taken, -⟩ :=
    step_calls config program m streams
  · exact .inl (same ▸ member)
  · rw [more] at member
    cases List.mem_cons.mp member with
    | inl behind => exact .inr ⟨node, name, executes, call, behind⟩
    | inr earlier => exact .inl earlier
  · rw [taken]
    exact .inl (List.mem_cons_of_mem _ member)

/-- **A call that has nothing to go on to was made by the last node**: a step keeps it so. -/
theorem endsWithCall_of_step (sequential : Linking.Sequential program)
    (before : none ∈ m.calls → program.EndsWithCall)
    (saved : none ∈ (m.step config program streams).machine.calls) : program.EndsWithCall := by
  cases saved_of_step saved with
  | inl earlier => exact before earlier
  | inr made =>
    obtain ⟨node, name, executes, call, ended⟩ := made
    exact ⟨node, name, last?_of_next sequential executes.stands ended.symm, call⟩

/-- The next step leaves the program only at such a place. -/
theorem leftAt_of_step (sequential : Linking.Sequential program)
    (made : none ∈ m.calls → program.EndsWithCall) {f : Fault}
    (failed : (m.step config program streams).result = .error f) (left : f.cause = .prematureEnd) :
    ∃ node, m.Executes program node ∧ f.site = some ⟨node.instruction, node.index⟩ ∧
      (FallsOff config program m streams node ∨
        node.instruction = .plain .ret ∧ program.EndsWithCall) := by
  obtain ⟨node, executes, site⟩ := executes_of_prematureEnd failed left
  refine ⟨node, executes, site, ?_⟩
  cases executes.prematureEnd_cases sequential failed left with
  | inl returns => exact .inr ⟨returns.1, made returns.2⟩
  | inr falls => exact .inl falls

end Machine

/-- What ends with a stop, a return or a jump is left nowhere. -/
theorem not_leftAt {p : Program} {node : Node} (last : p.last? = some node)
    (ends : node.instruction.goesOn = false)
    (no_call : ∀ name, node.instruction ≠ .label .call name)
    (site : Site) : ¬p.LeftAt site := by
  rintro (⟨node', last', onward, -⟩ | ⟨-, node', name, last', call⟩)
  · obtain rfl := Option.some.inj (last.symm.trans last')
    rw [ends] at onward
    cases onward
  · obtain rfl := Option.some.inj (last.symm.trans last')
    exact no_call name call

/-- **When a program ends prematurely.**  Let a machine of a linked program have any history.  If
its next step faults because the program has ended, then its node is the last one, which has done
its work, or it is a return, and the last node is a call.  All faults that were returned before for
this reason name such a place.

So a program that ends with a stop, a return or a jump has never been left in this way, and the next
step does not leave it either. -/
theorem premature_end_of_history {is : List Instruction} {l : Linking} (h : link is = .ok l)
    {config : Config} {calls : List Call} {faults : List Fault} {m : Machine}
    (history : Machine.History config l.program calls faults m) :
    (∀ streams f, (m.step config l.program streams).result = .error f →
      f.cause = .prematureEnd →
      ∃ node, m.Executes l.program node ∧ f.site = some ⟨node.instruction, node.index⟩ ∧
        (Machine.FallsOff config l.program m streams node ∨
          node.instruction = .plain .ret ∧ l.program.EndsWithCall)) ∧
    (∀ f ∈ faults, f.cause = .prematureEnd →
      ∃ site, f.site = some site ∧ l.program.LeftAt site) ∧
    ∀ i, (is.filter Instruction.isExecutable).getLast? = some i →
      (i = .plain .stop ∨ i = .plain .ret ∨ ∃ name, i = .label .jump name) →
      (∀ f ∈ faults, f.cause ≠ .prematureEnd) ∧
      ∀ streams f, (m.step config l.program streams).result = .error f →
        f.cause ≠ .prematureEnd := by
  have sequential := Linking.sequential_of_link h
  have site : ∀ (m : Machine) (streams : Streams) (f : Fault),
      (none ∈ m.calls → l.program.EndsWithCall) →
      (m.step config l.program streams).result = .error f → f.cause = .prematureEnd →
      ∃ site, f.site = some site ∧ l.program.LeftAt site := by
    intro m streams f made failed left
    obtain ⟨node, -, site, falls | returns⟩ := Machine.leftAt_of_step sequential made failed left
    · exact ⟨_, site, .inl ⟨node, falls.last, falls.goesOn, rfl⟩⟩
    · exact ⟨_, site, .inr returns⟩
  obtain ⟨made, returned⟩ := history.induction
    (P := fun m => none ∈ m.calls → l.program.EndsWithCall)
    (Q := fun f => f.cause = .prematureEnd → ∃ site, f.site = some site ∧ l.program.LeftAt site)
    (by simp [Machine.start])
    (fun m streams made => Machine.endsWithCall_of_step sequential made) site
  refine ⟨fun streams f => Machine.leftAt_of_step sequential made, returned, ?_⟩
  intro i last ends
  rw [← last?_of_link h] at last
  obtain ⟨node, stands, rfl⟩ := Option.map_eq_some_iff.mp last
  have nowhere : ∀ site, ¬l.program.LeftAt site := by
    apply not_leftAt stands
    · obtain stop | ret | ⟨name, jump⟩ := ends
      · rw [stop]
        rfl
      · rw [ret]
        rfl
      · rw [jump]
        rfl
    · intro name call
      simp [call] at ends
  constructor
  · intro f member left
    obtain ⟨site, -, leaves⟩ := returned f member left
    exact nowhere site leaves
  · intro streams f failed left
    obtain ⟨site, -, leaves⟩ := site m streams f made failed left
    exact nowhere site leaves

/-- A call by the last node: the subroutine returns to where there is nothing. -/
theorem premature_end_of_history_last_call :
    let is := [.label .jump ⟨[' ']⟩, .label .define ⟨[]⟩, .plain .ret, .label .define ⟨[' ']⟩,
      .label .call ⟨[]⟩]
    ∃ l, link is = .ok l ∧ l.program.EndsWithCall ∧
      (((Machine.start l.program).perform {} l.program (.run 3 {})).1 =
        some ⟨.prematureEnd, some ⟨.plain .ret, 2⟩⟩) := by
  intro is
  let l : Linking := ⟨⟨#[⟨0, .label .jump ⟨[' ']⟩, some 1, some 2⟩, ⟨2, .plain .ret, some 2, none⟩,
    ⟨4, .label .call ⟨[]⟩, none, some 1⟩]⟩, 2, 5⟩
  have linked : link is = .ok l := rfl
  have returned : ((Machine.start l.program).perform {} l.program (.run 3 {})).1 =
      some ⟨.prematureEnd, some ⟨.plain .ret, 2⟩⟩ := rfl
  have history : Machine.History {} l.program [.run 3 {}]
      [⟨.prematureEnd, some ⟨.plain .ret, 2⟩⟩] _ := .call (.run 3 {}) .new
  obtain ⟨-, left, -⟩ := premature_end_of_history linked history
  obtain ⟨site, named, falls | ends⟩ := left _ (List.mem_singleton_self _) rfl
  · obtain ⟨node, last, -, rfl⟩ := falls
    cases last
    cases named
  · exact ⟨l, linked, ends.2, returned⟩

end Whitespace
