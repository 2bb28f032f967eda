import Whitespace.Decoding.Decoder
import Whitespace.Instruction.Spelling
import Whitespace.Proofs.Signals

/-!
# One instruction and its grammar

Reading the rest of an instruction is a function of the signals that come (`finish_spec`):
`Progress.readFrom` says how it ends, which tokens belong to it and which signals are left.  An
instruction is read exactly when the signals begin with one of its spellings
(`readFrom_start_eq_complete`), whatever follows.

Since reading is a function, spellings can be told apart without looking ahead: no spelling begins
another, and no tokens spell two instructions (`IsSpelling.unique`).

The invariant is `Progress.Holds`, which says of what has been read so far how it was spelled.
-/

namespace Whitespace

namespace Progress

/-- How reading the rest of an instruction ends, the tokens read and the signals left. -/
structure Reading where
  outcome : Decoder.Outcome
  read : List Token
  rest : List Signal

/-- The same end with some tokens read before. -/
def Reading.after (read : List Token) (r : Reading) : Reading :=
  { r with read := read ++ r.read }

/-- How reading ends if the source ends here. -/
def ending (p : Progress) : Decoder.Outcome :=
  match p.unfinished? with
  | none => .finished
  | some cause => .failed cause

/-- Reads the rest of an instruction from signals. -/
def readFrom : Progress → List Signal → Reading
  | p, [] => ⟨p.ending, [], []⟩
  | p, .pause :: rest => ⟨p.ending, [], rest⟩
  | _, .failure message :: rest => ⟨.failed (.io message), [], rest⟩
  | p, .token t :: rest =>
    match p.feed t with
    | .complete i => ⟨.complete i, [t], rest⟩
    | .malformed cause => ⟨.failed cause, [t], rest⟩
    | .more p => (readFrom p rest).after [t]

/-- Goes on from what a token has made of an instruction. -/
def Advance.readFrom : Advance → List Signal → Reading
  | more p, signals => p.readFrom signals
  | complete i, signals => ⟨.complete i, [], signals⟩
  | malformed cause, signals => ⟨.failed cause, [], signals⟩

/-- At the end, or at a pause, the source is taken to end. -/
theorem readFrom_ends (p : Progress) {signals rest : List Signal}
    (ends : Signal.Ends signals rest) : p.readFrom signals = ⟨p.ending, [], rest⟩ := by
  cases ends <;> rfl

theorem readFrom_token (p : Progress) (t : Token) (signals : List Signal) :
    p.readFrom (.token t :: signals) = ((p.feed t).readFrom signals).after [t] := by
  rw [readFrom]
  cases p.feed t <;> rfl

end Progress

/-- **Reading the rest of an instruction** is reading it from the signals of the source. -/
theorem Decoder.finish_spec (p : Progress) (r : Reader) (context : Array Token) :
    let reading := p.readFrom r.signals
    let ended := finish p r context
    ended.1 = reading.outcome ∧ ended.2.1.signals = reading.rest ∧
      ended.2.1.position = r.position + reading.read.length ∧
      ended.2.2 = context ++ reading.read.toArray := by
  fun_induction finish p r context with
  | case1 p r context r' found complete =>
    obtain ⟨ends, position⟩ := Reader.signals_of_finished found
    rw [p.readFrom_ends ends, Progress.ending, complete]
    exact ⟨rfl, rfl, position, by simp⟩
  | case2 p r context r' found cause incomplete =>
    obtain ⟨ends, position⟩ := Reader.signals_of_finished found
    rw [p.readFrom_ends ends, Progress.ending, incomplete]
    exact ⟨rfl, rfl, position, by simp⟩
  | case3 p r context message r' found =>
    obtain ⟨signals, position⟩ := Reader.signals_of_failure found
    rw [signals, Progress.readFrom]
    exact ⟨rfl, rfl, position, by simp⟩
  | case4 p r context t r' found context' i complete =>
    obtain ⟨signals, position⟩ := Reader.signals_of_token found
    rw [signals, Progress.readFrom, complete]
    exact ⟨rfl, rfl, position, by simp [context']⟩
  | case5 p r context t r' found context' cause malformed =>
    obtain ⟨signals, position⟩ := Reader.signals_of_token found
    rw [signals, Progress.readFrom, malformed]
    exact ⟨rfl, rfl, position, by simp [context']⟩
  | case6 p r context t r' found context' q more ih =>
    obtain ⟨signals, position⟩ := Reader.signals_of_token found
    obtain ⟨outcome, rest, counted, all⟩ := ih
    rw [signals, Progress.readFrom_token, more]
    refine ⟨outcome, rest, ?_, ?_⟩
    · rw [counted, position]
      simp only [Progress.Advance.readFrom, Progress.Reading.after, List.length_append,
        List.length_singleton]
      omega
    · rw [all]
      simp [context', Progress.Advance.readFrom, Progress.Reading.after]

namespace Progress

/-! ## From spellings to instructions -/

variable (rest : List Signal)

/-- An opcode is read as a whole; its operand comes next. -/
theorem readFrom_code (op : Opcode) :
    start.readFrom (op.code.map Signal.token ++ rest) =
      ((ofOpcode op).readFrom rest).after op.code := by
  rcases op with op | op | op
  · cases op <;> rfl
  · rcases op with _ | _ | _ | condition
    · rfl
    · rfl
    · rfl
    · cases condition <;> rfl
  · rcases op with _ | _ | _ | calculation | _ | _ | _ | _ | format | format
    · rfl
    · rfl
    · rfl
    · cases calculation <;> rfl
    · rfl
    · rfl
    · rfl
    · rfl
    · cases format <;> rfl
    · cases format <;> rfl

/-- Digits go on with a number, and a line feed ends it. -/
theorem readFrom_digits (op : NumberOp) (negative : Bool) (m : Int64) (bits : List Bool) :
    (digits op negative m).readFrom
        ((bits.map Literal.digit ++ [Token.lineFeed]).map Signal.token ++ rest) =
      ⟨.complete (.number op (Literal.signed negative (bits.foldl Literal.shift m))),
        bits.map Literal.digit ++ [.lineFeed], rest⟩ := by
  induction bits generalizing m with
  | nil => rfl
  | cons bit bits ih =>
    have fed : (digits op negative m).feed (Literal.digit bit) =
        .more (digits op negative (Literal.shift m bit)) := by
      cases bit <;> rfl
    rw [List.map_cons, List.cons_append, List.map_cons, List.cons_append, readFrom_token, fed,
      Advance.readFrom, ih]
    rfl

/-- A literal is read as the word congruent to the integer it denotes. -/
theorem readFrom_literal (op : NumberOp) (negative : Bool) (bits : List Bool) :
    (sign op).readFrom ((Literal.spell negative bits).map Signal.token ++ rest) =
      ⟨.complete (.number op (.ofInt (Literal.value negative bits))),
        Literal.spell negative bits, rest⟩ := by
  have signed : ∀ more, (sign op).readFrom (.token (Literal.sign negative) :: more) =
      ((digits op negative 0).readFrom more).after [Literal.sign negative] := by
    intro more
    cases negative <;> rfl
  rw [Literal.spell, List.cons_append, List.map_cons, List.cons_append, signed, readFrom_digits,
    Literal.signed_foldl_shift]
  rfl

/-- Spaces and tabs go on with a label, and a line feed ends it. -/
theorem readFrom_name (op : LabelOp) (read : Array Token) (tokens : List Token)
    (closed : Token.lineFeed ∉ tokens) :
    (name op read).readFrom ((tokens ++ [Token.lineFeed]).map Signal.token ++ rest) =
      ⟨.complete (.label op (.ofTokens (read.toList ++ tokens))), tokens ++ [.lineFeed],
        rest⟩ := by
  induction tokens generalizing read with
  | nil =>
    rw [List.append_nil]
    rfl
  | cons t tokens ih =>
    obtain ⟨other, closed⟩ := List.ne_and_not_mem_of_not_mem_cons closed
    have fed : (name op read).feed t = .more (name op (read.push t)) := by
      cases t with
      | space => rfl
      | tab => rfl
      | lineFeed => exact absurd rfl other
    rw [List.cons_append, List.map_cons, List.cons_append, readFrom_token, fed, Advance.readFrom,
      ih _ closed]
    simp [Reading.after]

/-- A spelling is read as a whole, and no further. -/
theorem readFrom_spelling {i : Instruction} {word : List Token}
    (spelled : Instruction.IsSpelling i word) :
    start.readFrom (word.map Signal.token ++ rest) = ⟨.complete i, word, rest⟩ := by
  cases spelled with
  | number op negative bits =>
    rw [← Opcode.code_eq_spelling, List.map_append, List.append_assoc, readFrom_code, ofOpcode,
      Advance.readFrom, readFrom_literal]
    rfl
  | label op name closed =>
    rw [← Opcode.code_eq_spelling, List.map_append, List.append_assoc, readFrom_code, ofOpcode,
      Advance.readFrom, readFrom_name rest op #[] name closed]
    rfl
  | plain op =>
    rw [← Opcode.code_eq_spelling, readFrom_code]
    simp [ofOpcode, Advance.readFrom, Reading.after]

/-! ## From what was read to spellings -/

/-- How what has been read of an instruction was spelled. -/
inductive Holds : Progress → List Token → Prop where
  | lead (read : List Token) : Holds (.lead read) read
  | command (family : Family) (read : List Token) :
      Holds (.command family read) (family.lead ++ read)
  | sign (op : NumberOp) : Holds (.sign op) (Opcode.number op).code
  | digits (op : NumberOp) (negative : Bool) (bits : List Bool) :
      Holds (.digits op negative (bits.foldl Literal.shift 0))
        ((Opcode.number op).code ++ Literal.sign negative :: bits.map Literal.digit)
  | name (op : LabelOp) (read : Array Token) (closed : .lineFeed ∉ read.toList) :
      Holds (.name op read) ((Opcode.label op).code ++ read.toList)

/-- How what a token has made of an instruction was spelled. -/
def Advance.Holds : Advance → List Token → Prop
  | more p, word => p.Holds word
  | complete i, word => Instruction.IsSpelling i word
  | malformed _, _ => True

theorem holds_ofOpcode (op : Opcode) : (ofOpcode op).Holds op.code := by
  cases op with
  | number op => exact .sign op
  | label op =>
    have empty := Holds.name op #[] List.not_mem_nil
    rwa [List.append_nil] at empty
  | plain op => exact Instruction.isSpelling_plain op

/-- One more digit. -/
theorem holds_digits_append (op : NumberOp) (negative : Bool) (bits : List Bool) (bit : Bool) :
    Holds (.digits op negative (Literal.shift (bits.foldl Literal.shift 0) bit))
      (((Opcode.number op).code ++ Literal.sign negative :: bits.map Literal.digit) ++
        [Literal.digit bit]) := by
  have longer := Holds.digits op negative (bits ++ [bit])
  simpa using longer

/-- One more token of a label. -/
theorem holds_name_push (op : LabelOp) {read : Array Token} (closed : .lineFeed ∉ read.toList)
    {t : Token} (other : t ≠ .lineFeed) :
    Holds (.name op (read.push t)) (((Opcode.label op).code ++ read.toList) ++ [t]) := by
  have longer := Holds.name op (read.push t) (by simpa [closed] using Ne.symm other)
  simpa using longer

/-- **One more token** continues the spelling. -/
theorem Holds.feed {p : Progress} {word : List Token} (holds : p.Holds word) (t : Token) :
    (p.feed t).Holds (word ++ [t]) := by
  cases holds with
  | lead =>
    rw [Progress.feed]
    split
    · next family found =>
      have lead : family.lead = word ++ [t] := by simpa using List.find?_some found
      rw [← lead, ← List.append_nil family.lead]
      exact .command family []
    · exact .lead _
  | command family read =>
    rw [Progress.feed, List.append_assoc]
    split
    · next op found =>
      have member := Opcode.mem_ofFamily.mp (List.mem_of_find?_eq_some found)
      have command : op.command = read ++ [t] := by simpa using List.find?_some found
      rw [← member, ← command]
      exact holds_ofOpcode op
    · split
      · exact .command family _
      · trivial
  | sign op =>
    cases t with
    | space => exact .digits op false []
    | tab => exact .digits op true []
    | lineFeed => trivial
  | digits op negative bits =>
    cases t with
    | space => exact holds_digits_append op negative bits false
    | tab => exact holds_digits_append op negative bits true
    | lineFeed =>
      have spelled := Instruction.isSpelling_number op negative bits
      rw [← Literal.signed_foldl_shift] at spelled
      simpa [Literal.spell, Progress.feed, Advance.Holds] using spelled
  | name op read closed =>
    cases t with
    | space => exact holds_name_push op closed nofun
    | tab => exact holds_name_push op closed nofun
    | lineFeed =>
      have spelled := Instruction.isSpelling_label op read.toList closed
      simpa [Progress.feed, Advance.Holds] using spelled

/-- An instruction that has been read was spelled by what was read before and behind. -/
theorem Holds.of_complete {p : Progress} {before : List Token} {i : Instruction}
    {signals rest : List Signal} {read : List Token} (holds : p.Holds before)
    (h : p.readFrom signals = ⟨.complete i, read, rest⟩) :
    Instruction.IsSpelling i (before ++ read) ∧ signals = read.map Signal.token ++ rest := by
  induction signals generalizing p before read with
  | nil =>
    rw [readFrom, ending] at h
    split at h <;> cases h
  | cons signal signals ih =>
    cases signal with
    | failure message => cases h
    | pause =>
      rw [readFrom, ending] at h
      split at h <;> cases h
    | token t =>
      have fed := holds.feed t
      rw [readFrom_token] at h
      cases advance : p.feed t with
      | malformed cause =>
        rw [advance] at h
        cases h
      | complete j =>
        rw [advance] at h fed
        cases h
        exact ⟨fed, rfl⟩
      | more q =>
        rw [advance] at h fed
        rcases reading : q.readFrom signals with ⟨outcome, later, left⟩
        rw [Advance.readFrom, reading] at h
        cases h
        obtain ⟨spelled, split⟩ := ih fed reading
        rw [List.append_assoc] at spelled
        exact ⟨spelled, congrArg (Signal.token t :: ·) split⟩

/-- **An instruction is read** exactly if the signals begin with one of its spellings. -/
theorem readFrom_start_eq_complete {i : Instruction} {word : List Token}
    {signals rest : List Signal} :
    start.readFrom signals = ⟨.complete i, word, rest⟩ ↔
      Instruction.IsSpelling i word ∧ signals = word.map Signal.token ++ rest := by
  constructor
  · intro h
    exact (Holds.lead []).of_complete h
  · rintro ⟨spelled, rfl⟩
    exact readFrom_spelling rest spelled

theorem ofOpcode_ne_start (op : Opcode) : ofOpcode op ≠ .more start := by
  cases op <;> exact nofun

/-- No token leads back to the beginning of an instruction. -/
theorem feed_ne_start (p : Progress) (t : Token) : p.feed t ≠ .more start := by
  cases p with
  | lead read =>
    rw [feed]
    split
    · exact nofun
    · simp [start]
  | command family read =>
    rw [feed]
    split
    · exact ofOpcode_ne_start _
    · split <;> exact nofun
  | sign op => cases t <;> exact nofun
  | digits op negative m => cases t <;> exact nofun
  | name op read => cases t <;> exact nofun

theorem unfinished?_eq_none {p : Progress} (h : p.unfinished? = none) : p = start := by
  cases p with
  | lead read =>
    cases read with
    | nil => rfl
    | cons first read => exact nomatch h
  | command family read => exact nomatch h
  | sign op => exact nomatch h
  | digits op negative m => exact nomatch h
  | name op read => exact nomatch h

/-- A source ends without fault only between two instructions. -/
theorem ends_of_readFrom_finished {p : Progress} {signals rest : List Signal}
    {read : List Token} (h : p.readFrom signals = ⟨.finished, read, rest⟩) :
    p = start ∧ read = [] ∧ Signal.Ends signals rest := by
  induction signals generalizing p read with
  | nil =>
    rw [readFrom, ending] at h
    split at h
    · next finished =>
      cases h
      exact ⟨unfinished?_eq_none finished, rfl, .finished⟩
    · cases h
  | cons signal signals ih =>
    cases signal with
    | failure message => cases h
    | pause =>
      rw [readFrom, ending] at h
      split at h
      · next finished =>
        cases h
        exact ⟨unfinished?_eq_none finished, rfl, .pause _⟩
      · cases h
    | token t =>
      rw [readFrom_token] at h
      cases advance : p.feed t with
      | malformed cause =>
        rw [advance] at h
        cases h
      | complete i =>
        rw [advance] at h
        cases h
      | more q =>
        rw [advance] at h
        rcases reading : q.readFrom signals with ⟨outcome, later, left⟩
        rw [Advance.readFrom, reading] at h
        cases h
        obtain ⟨rfl, -⟩ := ih reading
        exact absurd advance (p.feed_ne_start t)

end Progress

namespace Instruction

/-- **Spellings can be told apart**: no spelling begins another, and no tokens spell two
instructions. -/
theorem IsSpelling.unique {i j : Instruction} {word word' more more' : List Token}
    (hi : IsSpelling i word) (hj : IsSpelling j word') (same : word ++ more = word' ++ more') :
    i = j ∧ word = word' ∧ more = more' := by
  have left := Progress.readFrom_spelling (more.map Signal.token) hi
  have right := Progress.readFrom_spelling (more'.map Signal.token) hj
  rw [← List.map_append] at left right
  rw [same, right] at left
  injection left with outcome word rest
  injection outcome with instruction
  obtain rfl := word
  exact ⟨instruction.symm, rfl, List.append_cancel_left same⟩

end Instruction

end Whitespace
