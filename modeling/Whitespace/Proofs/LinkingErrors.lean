import Mathlib.Order.Bounds.Basic
import Whitespace.Interpreter
import Whitespace.Proofs.Acceptance
import Whitespace.Proofs.Layout

/-!
# Which error linking returns

Instructions may be unfit for linking in several ways at once.  The label definitions are looked at
first, and then the calls and jumps; within each of the two, what stands first in the source counts.
`Ends` lists the ways in which linking may end, and `link_ends` says that it always ends in one of
them.  They exclude each other, so it is known which error is returned (`link_error_exact`).

A source is decoded before it is linked.  Decoding has refused labels that are defined twice, so no
source is refused for that reason by linking; and there is nothing to be linked exactly if the
source has no significant bytes.

## Main definitions

* `Repeats is place name`, `LeadsNowhere is place name` — what may be wrong with the definition of a
  label.
* `Dangling is place name` — what may be wrong with a call or a jump.
* `Ends is result` — linking the instructions may end with the result.
-/

namespace Whitespace

namespace Linking

/-- A label is defined at a place. -/
def DefinesAt (is : List Instruction) (place : Nat) (name : Label) : Prop :=
  is[place]? = some (.label .define name)

/-- A label is defined at a place, and at an earlier one. -/
def Repeats (is : List Instruction) (place : Nat) (name : Label) : Prop :=
  DefinesAt is place name ∧ ∃ earlier < place, DefinesAt is earlier name

/-- A label is defined at a place, and only label definitions follow. -/
def LeadsNowhere (is : List Instruction) (place : Nat) (name : Label) : Prop :=
  DefinesAt is place name ∧
    ∀ later i, place < later → is[later]? = some i → ∃ other, i = .label .define other

/-- Something is wrong with the definition of a label. -/
def Faulty (is : List Instruction) (place : Nat) : Prop :=
  ∃ name, Repeats is place name ∨ LeadsNowhere is place name

/-- A call or a jump refers to a label that is defined nowhere. -/
def Dangling (is : List Instruction) (place : Nat) (name : Label) : Prop :=
  (∃ op, op ≠ .define ∧ is[place]? = some (.label op name)) ∧ ∀ other, ¬DefinesAt is other name

variable {is before rest : List Instruction} {place : Nat} {name other : Label}

theorem DefinesAt.unique (h : DefinesAt is place name) (h' : DefinesAt is place other) :
    name = other := by
  have same := h.symm.trans h'
  simpa using same

theorem Dangling.unique (h : Dangling is place name) (h' : Dangling is place other) :
    name = other := by
  obtain ⟨⟨op, -, here⟩, -⟩ := h
  obtain ⟨⟨op', -, here'⟩, -⟩ := h'
  have same := here.symm.trans here'
  simp only [Option.some.injEq, Instruction.label.injEq] at same
  exact same.2

theorem Faulty.defines (h : Faulty is place) : ∃ name, DefinesAt is place name := by
  obtain ⟨name, repeated | leads⟩ := h
  · exact ⟨name, repeated.1⟩
  · exact ⟨name, leads.1⟩

/-- A place with a property is the least one if no earlier place has it. -/
theorem isLeast_of_first {P : Nat → Prop} (here : P place) (first : ∀ earlier < place, ¬P earlier) :
    IsLeast {place | P place} place :=
  ⟨here, fun other there => Nat.le_of_not_lt fun earlier => first other earlier there⟩

/-! ## The pass over the labels -/

/-- A label is found exactly if some instruction defines it. -/
theorem definition?_isSome : (definition? is name).isSome ↔ ∃ place, DefinesAt is place name := by
  rw [definition?, List.findIdx?_isSome, List.any_eq_true]
  constructor
  · rintro ⟨i, member, defines⟩
    obtain ⟨place, here⟩ := List.mem_iff_getElem?.mp member
    obtain rfl := Instruction.defined?_eq_some_iff.mp (of_decide_eq_true defines)
    exact ⟨place, here⟩
  · rintro ⟨place, here⟩
    exact ⟨_, List.mem_of_getElem? here, by simp [Instruction.defined?]⟩

/-- Only label definitions follow one exactly if all nodes stand before it. -/
theorem leadsNowhere_iff (here : DefinesAt is place name) :
    LeadsNowhere is place name ↔ slotAt is place = nodeCount is := by
  have same : slotAt is (place + 1) = slotAt is place := slotAt_succ here
  rw [← same, ← placeFrom_eq_none]
  constructor
  · rintro ⟨-, follow⟩
    cases found : placeFrom is (place + 1) with
    | none => rfl
    | some later =>
      obtain ⟨behind, ⟨i, there, executable⟩, -⟩ := placeFrom_eq_some found
      obtain ⟨other, rfl⟩ := follow later i behind there
      cases executable
  · intro ended
    refine ⟨here, fun later i behind there => ?_⟩
    by_contra executable
    have executable : ExecutableAt is later i :=
      ⟨there, by simpa [← Instruction.isExecutable_eq_false_iff] using executable⟩
    have := executable.slotAt_lt
    have := slotAt_mono is (show place + 1 ≤ later from behind)
    have := placeFrom_eq_none.mp ended
    omega

/-- A label is in the table exactly if it is defined among the instructions gone over. -/
theorem Covers.lookup_isSome {table : LabelTable} (split : is = before ++ rest)
    (known : Covers is table before) :
    (table.lookup name).isSome ↔ ∃ earlier < before.length, DefinesAt is earlier name := by
  rw [known.lookup, Option.isSome_map, definition?_isSome]
  constructor
  · rintro ⟨earlier, there⟩
    obtain ⟨bound, -⟩ := List.getElem?_eq_some_iff.mp there
    exact ⟨earlier, bound, by rw [DefinesAt, split, List.getElem?_append_left bound]; exact there⟩
  · rintro ⟨earlier, bound, there⟩
    rw [DefinesAt, split, List.getElem?_append_left bound] at there
    exact ⟨earlier, there⟩

/-- **How the pass over the labels ends**: no definition is at fault, or the first that is gives the
error. -/
theorem collectLabels_cases {table : LabelTable} (split : is = before ++ rest)
    (known : Covers is table before) (sound : ∀ earlier < before.length, ¬Faulty is earlier) :
    let result := collectLabels (nodeCount is) before.length (slotAt is before.length) table rest
    ((∃ table', result = .ok table') ∧ ∀ place, ¬Faulty is place) ∨
      ∃ place name, IsLeast {place | Faulty is place} place ∧ DefinesAt is place name ∧
        (Repeats is place name ∧ result = .error (.duplicateLabel name place) ∨
          ¬Repeats is place name ∧ result = .error (.labelToNothing name place)) := by
  induction rest generalizing before table with
  | nil =>
    obtain rfl : is = before := by simpa using split
    refine .inl ⟨⟨table, rfl⟩, fun place faulty => ?_⟩
    obtain ⟨name, here⟩ := faulty.defines
    exact sound place (List.getElem?_eq_some_iff.mp here).1 faulty
  | cons i rest ih =>
    have here : is[before.length]? = some i := by simp [split]
    have split' : is = (before ++ [i]) ++ rest := by simp [split]
    have length : (before ++ [i]).length = before.length + 1 := by simp
    have slot := slotAt_succ here
    have sound' : ¬Faulty is before.length →
        ∀ earlier < (before ++ [i]).length, ¬Faulty is earlier := by
      intro fit
      rw [length, Nat.forall_lt_succ_right]
      exact ⟨sound, fit⟩
    rw [collectLabels]
    rcases defined : i.defined? with _ | label
    · have executable : i.isExecutable = true := by simp [Instruction.isExecutable, defined]
      have fit : ¬Faulty is before.length := by
        intro faulty
        obtain ⟨name, defines⟩ := faulty.defines
        obtain rfl := Option.some.inj (here.symm.trans defines)
        cases defined
      have more := ih split' (known.skip defined) (sound' fit)
      rw [executable, if_pos rfl] at slot
      rwa [length, slot] at more
    · obtain rfl := Instruction.defined?_eq_some_iff.mp defined
      have slot : slotAt is (before.length + 1) = slotAt is before.length := slot
      have repeated : (table.lookup label).isSome ↔ Repeats is before.length label :=
        (known.lookup_isSome split).trans ⟨fun earlier => ⟨here, earlier⟩, And.right⟩
      by_cases again : Repeats is before.length label
      · have least := isLeast_of_first ⟨label, .inl again⟩ sound
        refine .inr ⟨before.length, label, least, here, .inl ⟨again, ?_⟩⟩
        simp [repeated.mpr again]
      · by_cases last : slotAt is before.length = nodeCount is
        · have leads := (leadsNowhere_iff here).mpr last
          have least := isLeast_of_first ⟨label, .inr leads⟩ sound
          refine .inr ⟨before.length, label, least, here, .inr ⟨again, ?_⟩⟩
          simp [repeated, again, last]
        · have fit : ¬Faulty is before.length := by
            rintro ⟨name, repeats | leads⟩
            · rw [DefinesAt.unique here repeats.1] at again
              exact again repeats
            · exact last ((leadsNowhere_iff leads.1).mp leads)
          have room : slotAt is (before.length + 1) < nodeCount is := by
            have := slotAt_le is before.length
            omega
          obtain ⟨target, found⟩ := exists_placeFrom room
          have fresh : table.lookup label = none :=
            Option.not_isSome_iff_eq_none.mp (mt repeated.mp again)
          have more := ih split' (known.define defined fresh found) (sound' fit)
          rw [length, slot] at more
          simpa [Instruction.defined?, fresh, last] using more

/-! ## The pass over the nodes -/

/-- An instruction has no branch slot to be given exactly if it dangles. -/
theorem branch_eq_error {table : LabelTable} {i : Instruction} {e : LinkError}
    (known : Covers is table is) (here : is[place]? = some i) :
    branch table place i = .error e ↔
      ∃ name, Dangling is place name ∧ e = .undefinedLabel name place := by
  have unknown : ∀ name, table.lookup name = none ↔ ∀ other, ¬DefinesAt is other name := by
    intro name
    rw [known.lookup, Option.map_eq_none_iff, ← Option.not_isSome_iff_eq_none, definition?_isSome,
      not_exists]
  have dangles : ∀ name, Dangling is place name ↔
      i.target? = some name ∧ table.lookup name = none := by
    intro name
    rw [unknown, Instruction.target?_eq_some_iff, Dangling, here]
    simp
  simp only [dangles, branch]
  cases refers : i.target? with
  | none => simp
  | some name =>
    dsimp only
    cases found : table.lookup name with
    | none =>
      constructor
      · rintro ⟨⟩
        exact ⟨name, ⟨rfl, found⟩, rfl⟩
      · rintro ⟨other, ⟨⟨⟩, -⟩, rfl⟩
        rfl
    | some slot =>
      constructor
      · intro failed
        cases failed
      · rintro ⟨other, ⟨⟨⟩, unknown⟩, -⟩
        rw [found] at unknown
        cases unknown

/-- **How the pass over the nodes ends**: no call and no jump dangles, or the first that does gives
the error. -/
theorem addNodes_cases {table : LabelTable} (nodes : Array Node)
    (split : is = before ++ rest) (known : Covers is table is)
    (sound : ∀ earlier < before.length, ¬∃ name, Dangling is earlier name) :
    let result := addNodes (nodeCount is) table before.length nodes rest
    ((∃ nodes', result = .ok nodes') ∧ ∀ place, ¬∃ name, Dangling is place name) ∨
      ∃ place name, IsLeast {place | ∃ name, Dangling is place name} place ∧
        Dangling is place name ∧ result = .error (.undefinedLabel name place) := by
  induction rest generalizing before nodes with
  | nil =>
    obtain rfl : is = before := by simpa using split
    refine .inl ⟨⟨nodes, rfl⟩, fun place dangling => ?_⟩
    have ⟨_, ⟨_, _, here⟩, _⟩ := dangling
    exact sound place (List.getElem?_eq_some_iff.mp here).1 dangling
  | cons i rest ih =>
    have here : is[before.length]? = some i := by simp [split]
    have split' : is = (before ++ [i]) ++ rest := by simp [split]
    have length : (before ++ [i]).length = before.length + 1 := by simp
    have sound' : (¬∃ name, Dangling is before.length name) →
        ∀ earlier < (before ++ [i]).length, ¬∃ name, Dangling is earlier name := by
      intro fit
      rw [length, Nat.forall_lt_succ_right]
      exact ⟨sound, fit⟩
    rw [addNodes]
    by_cases executable : i.isExecutable = true
    · rw [if_pos executable]
      have dangles := fun e => branch_eq_error (e := e) known here
      cases found : branch table before.length i with
      | ok slot =>
        have fit : ¬∃ name, Dangling is before.length name := by
          rintro ⟨name, dangling⟩
          have failed := (dangles _).mpr ⟨name, dangling, rfl⟩
          simp [found] at failed
        have more := ih (nodes.push ⟨before.length, i,
          if nodes.size + 1 < nodeCount is then some (nodes.size + 1) else none, slot⟩)
          split' (sound' fit)
        rwa [length] at more
      | error e =>
        obtain ⟨name, dangling, rfl⟩ := (dangles e).mp found
        have least := isLeast_of_first ⟨name, dangling⟩ sound
        exact .inr ⟨before.length, name, least, dangling, rfl⟩
    · rw [if_neg executable]
      have fit : ¬∃ name, Dangling is before.length name := by
        rintro ⟨name, ⟨op, call, there⟩, -⟩
        obtain rfl := Option.some.inj (here.symm.trans there)
        cases op with
        | define => exact call rfl
        | call | jump | jumpIf condition => exact executable rfl
      have more := ih nodes split' (sound' fit)
      rwa [length] at more

/-! ## Both passes -/

/-- The ways in which linking may end. -/
inductive Ends (is : List Instruction) : Except LinkError Linking → Prop where
  | empty (nothing : is = []) : Ends is (.error .emptyProgram)
  | duplicate {place : Nat} {name : Label} (least : IsLeast {place | Faulty is place} place)
      (repeated : Repeats is place name) : Ends is (.error (.duplicateLabel name place))
  | toNothing {place : Nat} {name : Label} (least : IsLeast {place | Faulty is place} place)
      (here : DefinesAt is place name) (fresh : ¬Repeats is place name) :
      Ends is (.error (.labelToNothing name place))
  | undefined {place : Nat} {name : Label} (sound : ∀ place, ¬Faulty is place)
      (least : IsLeast {place | ∃ name, Dangling is place name} place)
      (dangling : Dangling is place name) : Ends is (.error (.undefinedLabel name place))
  | linked (l : Linking) (nonempty : is ≠ []) (sound : ∀ place, ¬Faulty is place)
      (resolved : ∀ place, ¬∃ name, Dangling is place name) : Ends is (.ok l)

/-- **Linking ends in one of these ways.** -/
theorem link_ends (is : List Instruction) : Ends is (link is) := by
  by_cases empty : is = []
  · subst empty
    exact .empty rfl
  · have whole : is = [] ++ is := rfl
    have labels := collectLabels_cases whole (covers_nil is) (by simp)
    simp only [List.length_nil, slotAt_zero] at labels
    obtain ⟨⟨table, collected⟩, sound⟩ |
      ⟨place, name, least, here, ⟨repeated, failed⟩ | ⟨fresh, failed⟩⟩ := labels
    · have known := collectLabels_spec whole (covers_nil is) collected
      have nodes := addNodes_cases #[] whole known (by simp)
      simp only [List.length_nil] at nodes
      obtain ⟨⟨nodes, added⟩, resolved⟩ | ⟨place, name, least, dangling, failed⟩ := nodes
      · simp [link, empty, collected, added, bind, Except.bind, pure, Except.pure,
          Ends.linked _ empty sound resolved]
      · simp [link, empty, collected, failed, bind, Except.bind,
          Ends.undefined sound least dangling]
    · simp [link, empty, failed, bind, Except.bind, Ends.duplicate least repeated]
    · simp [link, empty, failed, bind, Except.bind, Ends.toNothing least here fresh]

/-- There is nothing to be linked if and only if there are no instructions. -/
theorem link_eq_empty_iff : link is = .error .emptyProgram ↔ is = [] := by
  have ends := link_ends is
  constructor
  · intro failed
    rw [failed] at ends
    cases ends with
    | empty nothing => exact nothing
  · rintro rfl
    rfl

/-- The first definition at fault is the error, for its repetition first. -/
theorem link_of_faulty (least : IsLeast {place | Faulty is place} place)
    (here : DefinesAt is place name) :
    (Repeats is place name → link is = .error (.duplicateLabel name place)) ∧
      (¬Repeats is place name → link is = .error (.labelToNothing name place)) := by
  have ends := link_ends is
  generalize link is = result at ends ⊢
  cases ends with
  | empty nothing =>
    subst nothing
    cases here
  | duplicate least' repeated =>
    obtain rfl := least.unique least'
    obtain rfl := here.unique repeated.1
    exact ⟨fun _ => rfl, fun fresh => absurd repeated fresh⟩
  | toNothing least' here' fresh =>
    obtain rfl := least.unique least'
    obtain rfl := here.unique here'
    exact ⟨fun repeated => absurd repeated fresh, fun _ => rfl⟩
  | undefined sound | linked _ _ sound => exact absurd least.1 (sound place)

/-- If no definition is at fault, the first call or jump that dangles is the error. -/
theorem link_of_dangling (sound : ∀ place, ¬Faulty is place)
    (least : IsLeast {place | ∃ name, Dangling is place name} place)
    (dangling : Dangling is place name) : link is = .error (.undefinedLabel name place) := by
  have ends := link_ends is
  generalize link is = result at ends ⊢
  cases ends with
  | empty nothing =>
    subst nothing
    have ⟨⟨_, _, here⟩, _⟩ := dangling
    cases here
  | @duplicate there _ least' | @toNothing there _ least' => exact absurd least'.1 (sound there)
  | undefined _ least' dangling' =>
    obtain rfl := least.unique least'
    obtain rfl := dangling.unique dangling'
    rfl
  | linked _ _ _ resolved => exact absurd least.1 (resolved place)

/-- If nothing is wrong, linking succeeds. -/
theorem link_of_resolved (nonempty : is ≠ []) (sound : ∀ place, ¬Faulty is place)
    (resolved : ∀ place, ¬∃ name, Dangling is place name) : ∃ l, link is = .ok l := by
  have ends := link_ends is
  generalize link is = result at ends ⊢
  cases ends with
  | empty nothing => exact absurd nothing nonempty
  | @duplicate there _ least | @toNothing there _ least => exact absurd least.1 (sound there)
  | @undefined there _ _ least => exact absurd least.1 (resolved there)
  | linked l => exact ⟨l, rfl⟩

/-- **What can be linked**: something, in which nothing is wrong. -/
theorem exists_link_iff : (∃ l, link is = .ok l) ↔
    is ≠ [] ∧ (∀ place, ¬Faulty is place) ∧ ∀ place, ¬∃ name, Dangling is place name := by
  constructor
  · rintro ⟨l, linked⟩
    have ends := link_ends is
    rw [linked] at ends
    cases ends with
    | linked _ nonempty sound resolved => exact ⟨nonempty, sound, resolved⟩
  · rintro ⟨nonempty, sound, resolved⟩
    exact link_of_resolved nonempty sound resolved

/-- Labels that are all different are not defined again. -/
theorem not_repeats (distinct : (definedLabels is).Nodup) : ¬Repeats is place name := by
  rintro ⟨here, earlier, before, there⟩
  have same := definition_unique distinct there here
  omega

end Linking

/-! ## Loading -/

open Linking

variable {source : Input}

/-- Loading fails to decode exactly where decoding fails. -/
theorem load_eq_decode_error {e : DecodeError} :
    (load source).result = .error (.decode e) ↔ decode source = .error e := by
  rw [load]
  cases decode source with
  | error e' => simp
  | ok decoding => cases linked : link decoding.instructions <;> simp [linked]

/-- Loading fails to link exactly where linking fails on what has been decoded. -/
theorem load_eq_link_error {e : LinkError} :
    (load source).result = .error (.link e) ↔
      ∃ is, (decode source).map Decoding.instructions = .ok is ∧ link is = .error e := by
  rw [load]
  cases decode source with
  | error e' => simp [Except.map]
  | ok decoding => cases linked : link decoding.instructions <;> simp [Except.map, linked]

/-- A source is decoded to nothing exactly if it has no significant bytes. -/
theorem decode_eq_nil_iff (reliable : source.Reliable) :
    (decode source).map Decoding.instructions = .ok [] ↔ ∀ t : Token, t.byte ∉ source.bytes := by
  have silent : significant source.bytes = [] ↔ ∀ t : Token, t.byte ∉ source.bytes := by
    rw [significant, List.filterMap_eq_nil_iff]
    constructor
    · intro comment t member
      have := comment _ member
      simp at this
    · intro comment b member
      cases found : Token.ofByte? b with
      | none => rfl
      | some t =>
        rw [Token.ofByte?_eq_some_iff.mp found] at member
        exact absurd member (comment t)
  rw [← silent]
  constructor
  · intro decoded
    obtain ⟨⟨words, spelled, flat⟩, -⟩ := words_of_decode reliable decoded
    cases spelled
    exact flat.symm
  · intro nothing
    exact decode_of_words reliable .nil nothing.symm List.nodup_nil

/-- **Which error linking and loading return.**  Nothing to be linked is an error.  Else the first
definition that repeats another or leads nowhere is, and it is told for which of the two reasons,
the former first.  Else the first call or jump is whose label is not defined; and if there is none,
linking succeeds.

Loading never returns the error of a repeated label from linking.  It finds nothing to be linked
exactly if a source has no significant bytes, and it fails to decode exactly where decoding
fails. -/
theorem link_error_exact (is : List Instruction) (source : Input) :
    ((link is = .error .emptyProgram ↔ is = []) ∧
      (is ≠ [] →
        (∀ place name, IsLeast {place | Faulty is place} place → DefinesAt is place name →
          (Repeats is place name → link is = .error (.duplicateLabel name place)) ∧
          (¬Repeats is place name → link is = .error (.labelToNothing name place))) ∧
        ((∀ place, ¬Faulty is place) →
          (∀ place name, IsLeast {place | ∃ name, Dangling is place name} place →
            Dangling is place name → link is = .error (.undefinedLabel name place)) ∧
          ((∀ place, ¬∃ name, Dangling is place name) → ∃ l, link is = .ok l)))) ∧
    (∀ name place, (load source).result ≠ .error (.link (.duplicateLabel name place))) ∧
    (source.Reliable → ((load source).result = .error (.link .emptyProgram) ↔
      ∀ t : Token, t.byte ∉ source.bytes)) ∧
    ∀ e, (load source).result = .error (.decode e) ↔ decode source = .error e := by
  refine ⟨⟨link_eq_empty_iff, fun nonempty => ⟨?_, fun sound => ⟨?_, ?_⟩⟩⟩, ?_, ?_, ?_⟩
  · exact fun place name least here => link_of_faulty least here
  · exact fun place name least dangling => link_of_dangling sound least dangling
  · exact link_of_resolved nonempty sound
  · intro name place failed
    obtain ⟨is, decoded, failed⟩ := load_eq_link_error.mp failed
    have ends := link_ends is
    rw [failed] at ends
    cases ends with
    | duplicate least repeated => exact not_repeats (distinct_of_decode decoded) repeated
  · intro reliable
    rw [load_eq_link_error, ← decode_eq_nil_iff reliable]
    simp only [link_eq_empty_iff, exists_eq_right]
  · exact fun e => load_eq_decode_error

/-- A jump to a label that is not defined, and behind it a label that is defined again where nothing
follows: the repetition is what counts.  A source that is only a comment has nothing to be
linked. -/
theorem link_error_exact_repeated :
    let name : Label := ⟨['A']⟩
    let is : List Instruction := [.label .define name, .label .jump ⟨[]⟩, .label .define name]
    let source : Input := ⟨[], [.data [0x78], .interruption, .data [0x79]]⟩
    link is = .error (.duplicateLabel name 2) ∧
      (load source).result = .error (.link .emptyProgram) := by
  intro name is source
  have reliable : source.Reliable := by simp [source, Input.Reliable]
  obtain ⟨⟨-, faults⟩, -, comment, -⟩ := link_error_exact is source
  have repeated : Repeats is 2 name := ⟨rfl, 0, by decide, rfl⟩
  have first : ∀ earlier < 2, ¬Faulty is earlier := by
    intro earlier before faulty
    obtain rfl | rfl : earlier = 0 ∨ earlier = 1 := by omega
    · obtain ⟨_, ⟨-, sooner, before, -⟩ | ⟨-, follow⟩⟩ := faulty
      · omega
      · obtain ⟨_, wrong⟩ := follow 1 (.label .jump ⟨[]⟩) (by decide) rfl
        cases wrong
    · obtain ⟨_, wrong⟩ := faulty.defines
      cases wrong
  have least := isLeast_of_first (P := Faulty is) ⟨name, .inl repeated⟩ first
  refine ⟨((faults (List.cons_ne_nil _ _)).1 2 name least rfl).1 repeated,
    (comment reliable).mpr ?_⟩
  intro t
  cases t <;> decide

end Whitespace
