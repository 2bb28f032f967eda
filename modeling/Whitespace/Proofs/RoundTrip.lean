import Whitespace.Proofs.Acceptance
import Whitespace.Proofs.SignificantText

/-!
# Decoding undoes encoding

A label may have any characters but line feeds, and is encoded by them; only its spaces and tabs
come back (`Instruction.reduce`).  So a program that has been encoded is decoded to its reduction,
unless two labels have become the same: then decoding fails at the first that repeats another
(`decode_encode`).

The canonical source of an instruction is one of the spellings of its reduction
(`Instruction.isSpelling_source`), so all this is a case of what decoding accepts.
-/

namespace Whitespace

/-! ## Canonical sources as spellings -/

/-- An instruction whose label has been reduced to its spaces and tabs. -/
def Instruction.reduce : Instruction → Instruction
  | label op name => label op (.ofTokens name.tokens)
  | number op value => number op value
  | plain op => plain op

/-- The label of an instruction, if it has one, ends at the line feed behind it. -/
def Instruction.OneLine (i : Instruction) : Prop :=
  ∀ op name, i = .label op name → '\n' ∉ name.chars

/-- The label of an instruction, if it has one, consists of spaces and tabs. -/
def Instruction.Blank (i : Instruction) : Prop :=
  ∀ op name, i = .label op name → ∀ c ∈ name.chars, c = ' ' ∨ c = '\t'

/-- The significant characters of a label are its spaces and tabs. -/
theorem significantChars_label {name : Label} (oneLine : '\n' ∉ name.chars) :
    significantChars name.chars = name.tokens := by
  refine List.filterMap_congr fun c member => ?_
  have other : c ≠ '\n' := fun same => oneLine (same ▸ member)
  simp only [Token.ofChar?, other, if_false]

/-- **The canonical source of an instruction** spells its reduction. -/
theorem Instruction.isSpelling_source {i : Instruction} (oneLine : i.OneLine) :
    IsSpelling i.reduce (significantChars i.source) := by
  rw [source, significantChars_append, significantChars_map_char]
  cases i with
  | number op value =>
    rw [operandSource, significantChars_map_char]
    exact isSpelling_encode op value
  | label op name =>
    rw [operandSource, Label.source, significantChars_append,
      significantChars_label (oneLine op name rfl)]
    exact isSpelling_tokens op name
  | plain op =>
    have spelled := isSpelling_plain op
    rwa [← List.append_nil (Opcode.plain op).code] at spelled

/-- The canonical sources of some instructions, without their comments. -/
def sourceWords (is : List Instruction) : List (List Token) :=
  is.map fun i => significantChars i.source

theorem flatten_sourceWords (is : List Instruction) :
    (sourceWords is).flatten = significantChars (encode is) := by
  induction is with
  | nil => rfl
  | cons i is ih =>
    rw [sourceWords, List.map_cons, List.flatten_cons, encode, List.flatMap_cons,
      significantChars_append]
    exact congrArg (significantChars i.source ++ ·) ih

theorem spelled_sourceWords {is : List Instruction} (oneLine : ∀ i ∈ is, i.OneLine) :
    List.Forall₂ Instruction.IsSpelling (is.map Instruction.reduce) (sourceWords is) := by
  rw [sourceWords, List.forall₂_map_left_iff, List.forall₂_map_right_iff, List.forall₂_same]
  exact fun i member => Instruction.isSpelling_source (oneLine i member)

/-- Nothing is lost of a label over spaces and tabs. -/
theorem Instruction.reduce_of_blank {i : Instruction} (blank : i.Blank) : i.reduce = i := by
  cases i with
  | number op value => rfl
  | label op name => rw [reduce, Label.ofTokens_tokens (blank op name rfl)]
  | plain op => rfl

/-! ## The first repetition -/

/-- At place `k` a label is defined that has been defined before. -/
def RepeatsAt (is : List Instruction) (k : Nat) (name : Label) : Prop :=
  (is[k]?.bind Instruction.defined?) = some name ∧ name ∈ definedLabels (is.take k)

theorem definedLabels_take_succ (is : List Instruction) (k : Nat) :
    definedLabels (is.take (k + 1)) =
      definedLabels (is.take k) ++ (is[k]?.bind Instruction.defined?).toList := by
  rw [List.take_add_one]
  cases is[k]? with
  | none => simp
  | some i => exact definedLabels_concat _ i

/-- Where a label is defined twice, one definition is the first to repeat another. -/
theorem exists_first_repeat {is : List Instruction} {n : Nat}
    (h : ¬(definedLabels (is.take n)).Nodup) :
    ∃ k name, RepeatsAt is k name ∧ (definedLabels (is.take k)).Nodup := by
  induction n with
  | zero => exact absurd List.nodup_nil h
  | succ n ih =>
    by_cases distinct : (definedLabels (is.take n)).Nodup
    · rw [definedLabels_take_succ] at h
      cases found : is[n]?.bind Instruction.defined? with
      | none =>
        rw [found, Option.toList_none, List.append_nil] at h
        exact absurd distinct h
      | some name =>
        rw [found, Option.toList_some, ← List.concat_eq_append, List.nodup_concat] at h
        have known : name ∈ definedLabels (is.take n) := by
          by_contra unknown
          exact h ⟨unknown, distinct⟩
        exact ⟨n, name, ⟨found, known⟩, distinct⟩
    · exact ih distinct

/-- No definition repeats another among those that are all different. -/
theorem not_repeatsAt {is : List Instruction} {j k : Nat} {name : Label}
    (distinct : (definedLabels (is.take k)).Nodup) (earlier : j < k) : ¬RepeatsAt is j name := by
  rintro ⟨defined, known⟩
  have fewer : (is.take (j + 1)).Sublist (is.take k) := by
    rw [← Nat.min_eq_left (show j + 1 ≤ k from earlier), ← List.take_take]
    exact List.take_sublist _ _
  have distinct' := (fewer.filterMap Instruction.defined?).nodup distinct
  have same := definedLabels_take_succ is j
  rw [defined, Option.toList_some] at same
  rw [← definedLabels, same, ← List.concat_eq_append, List.nodup_concat] at distinct'
  exact distinct'.1 known

/-! ## Encoding and decoding -/

theorem significant_encode (is : List Instruction) :
    significant (Input.ofText (String.ofList (encode is))).bytes = (sourceWords is).flatten := by
  rw [significant_ofText, flatten_sourceWords]

/-- A program is decoded up to the place where it first repeats a label. -/
theorem decode_encode_of_repeatsAt {is : List Instruction} {k : Nat} {i : Instruction}
    {name : Label} (oneLine : ∀ i ∈ is, i.OneLine) (here : is[k]? = some i)
    (repeats : RepeatsAt (is.map Instruction.reduce) k name)
    (distinct : (definedLabels ((is.map Instruction.reduce).take k)).Nodup) :
    ∃ e, decode (.ofText (String.ofList (encode is))) = .error e ∧
      e.cause = .duplicateLabel name ∧
      e.position = (significantChars (encode (is.take (k + 1)))).length ∧
      e.context = significantChars i.source := by
  have split : is = is.take k ++ i :: is.drop (k + 1) := by
    obtain ⟨bound, rfl⟩ := List.getElem?_eq_some_iff.mp here
    rw [← List.drop_eq_getElem_cons bound, List.take_append_drop]
  have defined : i.reduce.defined? = some name := by
    have found := repeats.1
    rwa [List.getElem?_map, here] at found
  have known := repeats.2
  rw [← List.map_take] at known distinct
  have before : ∀ i ∈ is.take k, i.OneLine :=
    fun i member => oneLine i (List.mem_of_mem_take member)
  have last := Instruction.isSpelling_source (oneLine i (List.mem_of_getElem? here))
  have flat : significant (Input.ofText (String.ofList (encode is))).bytes =
      (sourceWords (is.take k)).flatten ++
        (significantChars i.source ++ (sourceWords (is.drop (k + 1))).flatten) := by
    have words : sourceWords is = sourceWords (is.take k) ++
        significantChars i.source :: sourceWords (is.drop (k + 1)) := by
      have whole := congrArg sourceWords split
      rwa [sourceWords, sourceWords, List.map_append, List.map_cons] at whole
    rw [significant_encode, words, List.flatten_append, List.flatten_cons]
  obtain ⟨e, failed, cause, position, context⟩ :=
    decode_of_repeated (Input.reliable_ofBytes _) (spelled_sourceWords before) distinct last defined
      known flat
  refine ⟨e, failed, cause, ?_, context⟩
  rw [position, ← flatten_sourceWords, List.take_add_one, here, sourceWords, sourceWords,
    List.map_append, List.flatten_append, List.length_append]
  simp

/-- **Decoding undoes encoding.**  A program whose labels have no line feeds is decoded to its
reduction, if no label is defined twice in that.  Otherwise the first definition that repeats
another is an error, which is met behind its canonical source. -/
theorem decode_encode {is : List Instruction} (oneLine : ∀ i ∈ is, i.OneLine) :
    let source := Input.ofText (String.ofList (encode is))
    let reduced := is.map Instruction.reduce
    ((definedLabels reduced).Nodup → (decode source).map Decoding.instructions = .ok reduced) ∧
    (¬(definedLabels reduced).Nodup →
      ∃ k i name e, is[k]? = some i ∧ RepeatsAt reduced k name ∧
        (∀ j < k, ∀ other, ¬RepeatsAt reduced j other) ∧
        decode source = .error e ∧ e.cause = .duplicateLabel name ∧
        e.position = (significantChars (encode (is.take (k + 1)))).length ∧
        e.context = significantChars i.source) ∧
    ((∀ i ∈ is, i.Blank) → reduced = is) := by
  intro source reduced
  refine ⟨?_, ?_, ?_⟩
  · intro distinct
    exact decode_of_words (Input.reliable_ofBytes _) (spelled_sourceWords oneLine)
      (significant_encode is).symm distinct
  · intro repeated
    have repeated : ¬(definedLabels (reduced.take reduced.length)).Nodup := by
      rwa [List.take_length]
    obtain ⟨k, name, repeats, distinct⟩ := exists_first_repeat repeated
    obtain ⟨i, here⟩ : ∃ i, is[k]? = some i := by
      obtain ⟨i', found, -⟩ := Option.bind_eq_some_iff.mp repeats.1
      rw [List.getElem?_map] at found
      obtain ⟨i, here, -⟩ := Option.map_eq_some_iff.mp found
      exact ⟨i, here⟩
    obtain ⟨e, failed, cause, position, context⟩ :=
      decode_encode_of_repeatsAt oneLine here repeats distinct
    exact ⟨k, i, name, e, here, repeats, fun _ earlier _ => not_repeatsAt distinct earlier, failed,
      cause, position, context⟩
  · intro blank
    have same := List.map_congr_left fun i member => Instruction.reduce_of_blank (blank i member)
    exact same.trans (List.map_id is)

/-- Two labels that differ in an accented letter alone: one is decoded, both are not. -/
theorem decode_encode_accent :
    let first := Instruction.label .define ⟨[' ', 'é']⟩
    let second := Instruction.label .define ⟨[' ']⟩
    (decode (.ofText (String.ofList (encode [first])))).map Decoding.instructions = .ok [second] ∧
      ∃ e name, decode (.ofText (String.ofList (encode [first, second]))) = .error e ∧
        e.cause = .duplicateLabel name := by
  intro first second
  have one : ∀ i ∈ [first], i.OneLine := by simp [first, Instruction.OneLine]
  have both : ∀ i ∈ [first, second], i.OneLine := by simp [first, second, Instruction.OneLine]
  obtain ⟨-, -, name, e, -, -, -, failed, cause, -, -⟩ := (decode_encode both).2.1 (by decide)
  exact ⟨(decode_encode one).1 (by decide), e, name, failed, cause⟩

end Whitespace
