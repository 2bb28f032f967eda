import Mathlib.Data.Nat.Find
import Whitespace.Proofs.Lockstep
import Whitespace.Proofs.OutputText

/-!
# Missing streams

Either stream of a program may be left out, or both.  Compare the run that has both, whose output
keeps everything.  The two are in lockstep until a print has no output or a read has no input
(`Machine.stepsAlike_of_attached`); nothing else minds, and a read and the stop simply have no
output to flush.  The print or the read fails before it touches anything
(`Machine.Misses.step_without`).

## Main definitions

* `Streams.without gone s` — the streams but for those that are left out.
* `Instruction.stream?` — the stream that a print or a read cannot do without.
* `Machine.Misses gone program m node direction` — the next step executes a node that cannot do
  without a stream that is left out.
-/

namespace Whitespace

/-- The streams but for those that are left out. -/
def Streams.without (gone : Direction → Bool) (s : Streams) : Streams where
  input := if gone .input then none else s.input
  output := if gone .output then none else s.output

/-- The stream that an instruction cannot do without. -/
def Instruction.stream? : Instruction → Option Direction
  | .plain (.print _) => some .output
  | .plain (.read _) => some .input
  | _ => none

variable {gone : Direction → Bool} {streams : Streams} {written : ByteArray}

/-- With the input there, only the output is replaced. -/
theorem Streams.without_eq_withOutput (attached : gone .input = false) :
    Streams.without gone = .withOutput fun output => if gone .output then none else output := by
  funext s
  rw [Streams.without, attached]
  rfl

/-- With the output there, only the input is replaced. -/
theorem Streams.without_eq_withInput (attached : gone .output = false) :
    Streams.without gone = .withInput fun input => if gone .input then none else input := by
  funext s
  rw [Streams.without, attached]
  rfl

/-- With the output that keeps everything left out, flushing fails as little as before. -/
theorem Streams.Collects.flush_without (collects : streams.Collects written)
    (gone : Direction → Bool) :
    (streams.without gone).flush = (streams.flush.1, streams.flush.2.without gone) := by
  obtain ⟨⟨_, transcript⟩, output, rfl, -⟩ := collects
  rcases streams with ⟨input, _⟩
  obtain rfl : _ = some _ := output
  rw [Streams.without]
  cases missing : gone .output with
  | true => simp [Streams.flush, Streams.without, missing, Sink.flush, Device.collecting]
  | false => simp [Streams.flush, Streams.without, missing]

namespace Machine

variable {config : Config} {program : Program} {m : Machine} {node : Node} {direction : Direction}

/-- The next step executes a node that cannot do without a stream that is left out. -/
structure Misses (gone : Direction → Bool) (program : Program) (m : Machine) (node : Node)
    (direction : Direction) : Prop extends m.Executes program node where
  uses : node.instruction.stream? = some direction
  missing : gone direction = true

/-- **A node fails for want of a stream** before it does anything else. -/
theorem Misses.step_without (misses : m.Misses gone program node direction) (config : Config)
    (streams : Streams) :
    let last := m.step config program (streams.without gone)
    last.result = .error ⟨.noStream direction, some ⟨node.instruction, node.index⟩⟩ ∧
      last.machine = { m with state := .faulted, steps := m.steps + 1 } ∧
      last.streams = streams.without gone := by
  have failed : node.execute (m.workspace (streams.without gone)) =
      .error (.noStream direction) (m.workspace (streams.without gone)) := by
    have uses := misses.uses
    have missing := misses.missing
    rw [node.execute_eq]
    unfold Instruction.stream? at uses
    split at uses
    · next format print =>
      cases uses
      rw [print, workspace, Streams.without, missing]
      rfl
    · next format read =>
      cases uses
      rw [read, workspace, Streams.without, missing]
      rfl
    · cases uses
  rw [misses.toExecutes.step_of_error failed config]
  exact ⟨rfl, rfl, rfl⟩

/-- **A step does not notice that streams are left out** which its node can do without. -/
theorem stepsAlike_of_attached (collects : streams.Collects written) (config : Config)
    (attached : ∀ node direction, ¬m.Misses gone program node direction) :
    StepsAlike (.without gone) config program (m, streams) := by
  apply stepsAlike_of_execute config
  intro node executes
  have needs : ∀ direction, node.instruction.stream? = some direction → gone direction = false := by
    intro direction uses
    by_contra missing
    exact attached node direction ⟨executes, uses, Bool.of_not_eq_false missing⟩
  apply Node.execute_via
  · intro _
    exact PlainOp.execute_stop_via m.stack m.calls m.heap streams (collects.flush_without gone)
  · intro format print
    have output : gone .output = false := needs .output (by rw [print]; rfl)
    rw [Streams.without_eq_withInput output]
    exact PlainOp.execute_print_via format m.stack m.calls m.heap streams _
  · intro format read
    have input : gone .input = false := needs .input (by rw [read]; rfl)
    have flushes := collects.flush_without gone
    rw [Streams.without_eq_withOutput input] at flushes ⊢
    exact PlainOp.execute_read_via format m.stack m.calls m.heap streams flushes

/-- Before a stream is missed, no step notices that it is left out. -/
theorem stepsAlike_after_of_attached (collects : streams.Collects written) {n : Nat}
    (attached : ∀ k < n, ∀ node direction,
      ¬(after config program k m streams).1.Misses gone program node direction) :
    ∀ k < n, StepsAlike (.without gone) config program (after config program k m streams) :=
  fun k less =>
    stepsAlike_of_attached (collects_of_steps config program k m collects) config (attached k less)

/-- **A missing stream is an error only when it is used.**  Let a program run without some of its
streams, and compare the run that has both, whose output keeps everything.  Before the first print
whose output is left out, or read whose input is, both have come to the same machine and the same
streams but for those that are left out, and have returned and reported the same.  If there is no
such step, the runs are the same to the end.

Else that step fails for want of the stream, whatever is on the stack.  It leaves stack, calls and
heap as they were, and the streams as well: nothing is read, written or flushed.  This ends the
run. -/
theorem missing_streams (config : Config) (program : Program) (m : Machine)
    (gone : Direction → Bool) (input : Input) :
    let full : Streams := ⟨some input, some {}⟩
    let lacking := full.without gone
    let now n := after config program n m full
    let misses n := ∃ node direction, (now n).1.Misses gone program node direction
    (∀ n, (∀ k < n, ¬misses k) →
      after config program n m lacking = ((now n).1, (now n).2.without gone) ∧
        results config program n m lacking = results config program n m full ∧
        log config program n m lacking = log config program n m full) ∧
    ((∀ k, ¬misses k) → ∀ fuel,
      resume config program fuel m lacking #[] =
        (resume config program fuel m full #[]).map (Run.via (.without gone))) ∧
    ((∀ k, ¬misses k) ∨ ∃ n, misses n ∧ ∀ k < n, ¬misses k) ∧
    ∀ n node direction, (∀ k < n, ¬misses k) →
      (now n).1.Misses gone program node direction →
      FaultsAt config program n m lacking
        ⟨.noStream direction, some ⟨node.instruction, node.index⟩⟩ ∧
      let last := outcome config program n m lacking
      last.machine = { (now n).1 with state := .faulted, steps := (now n).1.steps + 1 } ∧
      last.streams = (now n).2.without gone := by
  intro full lacking now misses
  have start : full.Collects .empty := ⟨{}, rfl, rfl, rfl⟩
  have alike : ∀ n, (∀ k < n, ¬misses k) → ∀ k < n,
      StepsAlike (.without gone) config program (now k) :=
    fun n attached => stepsAlike_after_of_attached start fun k less node direction misses =>
      attached k less ⟨node, direction, misses⟩
  refine ⟨fun n attached => after_via (alike n attached), fun attached fuel => ?_, ?_,
    fun n node direction attached missing => ?_⟩
  · exact resume_via fuel #[] fun k =>
      alike (k + 1) (fun k _ => attached k) k (Nat.lt_succ_self k)
  · by_cases attached : ∀ k, ¬misses k
    · exact .inl attached
    · right
      classical
      have ever : ∃ n, misses n := not_forall_not.mp attached
      exact ⟨Nat.find ever, Nat.find_spec ever, fun k => Nat.find_min ever⟩
  · obtain ⟨result, machine, streams⟩ := missing.step_without config (now n).2
    rw [← outcome_via (alike n attached)] at result machine streams
    exact ⟨faultsAt_via (alike n attached) missing.running result, machine, streams⟩

/-- A letter is printed without an input.  Then a number is to be read, to an address that is not
there either. -/
theorem missing_streams_read :
    let is := [.number .push 72, .plain (.print .character), .plain (.read .number), .plain .stop]
    let input : Input := .ofBytes "5".toUTF8.toList
    let lacking : Streams := ⟨none, some {}⟩
    ∃ l, link is = .ok l ∧
      FaultsAt {} l.program 2 (start l.program) lacking
        ⟨.noStream .input, some ⟨.plain (.read .number), 2⟩⟩ ∧
      (outcome {} l.program 2 (start l.program) lacking).streams.output =
        (after {} l.program 2 (start l.program) ⟨some input, some {}⟩).2.output := by
  intro is input lacking
  let l : Linking := ⟨⟨#[⟨0, .number .push 72, some 1, none⟩,
    ⟨1, .plain (.print .character), some 2, none⟩, ⟨2, .plain (.read .number), some 3, none⟩,
    ⟨3, .plain .stop, none, none⟩]⟩, 0, 4⟩
  have linked : link is = .ok l := rfl
  let gone : Direction → Bool := fun direction => direction = .input
  let now k := after {} l.program k (start l.program) ⟨some input, some {}⟩
  obtain ⟨-, -, -, ends⟩ := missing_streams {} l.program (start l.program) gone input
  have attached : ∀ k < 2, ¬∃ node direction, (now k).1.Misses gone l.program node direction := by
    rintro k less ⟨node, direction, misses⟩
    have stands : l.program.node? (now k).1.current = some node := misses.stands
    match k, less with
    | 0, _ =>
      cases stands
      cases misses.uses
    | 1, _ =>
      obtain rfl : node = ⟨1, .plain (.print .character), some 2, none⟩ :=
        Option.some.inj (stands.symm.trans (by decide +kernel))
      cases misses.uses
      cases misses.missing
  have missing : (now 2).1.Misses gone l.program ⟨2, .plain (.read .number), some 3, none⟩ .input :=
    ⟨⟨by decide +kernel, by decide +kernel⟩, rfl, rfl⟩
  obtain ⟨faults, -, streams⟩ := ends 2 _ _ attached missing
  have output := congrArg Streams.output streams
  exact ⟨l, linked, faults, output⟩

end Machine

end Whitespace
