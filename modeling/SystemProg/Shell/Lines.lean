import SystemProg.Shell.Grammar

set_option autoImplicit false

-- `parser_pop_next` decides a line as `readTokens` decides its tokens, except where it skips the
-- line after a dangling redirection.

namespace SystemProg.Shell

-- `parse_token` reads these tokens one after the other and leaves `rest`.
inductive Tokens : Text → List Token → Text → Prop where
  | nil (rest : Text) : Tokens rest [] rest
  | cons {input rest : Text} {t : Token} {used : Nat} {tokens : List Token}
      (scanned : parseToken input = .token t used) (tail : Tokens (input.drop used) tokens rest) :
      Tokens input (t :: tokens) rest

-- The buffer holds new lines, then a line of these tokens with its new line, then `rest`.
def Line (buffer : Text) (tokens : List Token) (rest : Text) : Prop :=
  ∃ newLines newLine, Tokens buffer (newLines ++ (tokens ++ [newLine])) rest ∧
    (∀ t ∈ newLines, t.type = .newLine) ∧ tokens ≠ [] ∧ (∀ t ∈ tokens, t.type ≠ .newLine) ∧
    newLine.type = .newLine

def SkipsLine (input : Text) : Prop :=
  ∃ tokens newLine rest, Tokens input (tokens ++ [newLine]) rest ∧ newLine.type = .newLine

-- No assertion fails, a line comes out exactly for the grammar and holds its structure, and
-- otherwise an error.
def PopsLine (tokens : List Token) (buffer : Text) : Prop :=
  ∃ code line left, parserPopNext ⟨buffer⟩ = some (code, line, left) ∧
    (∀ l, line = some l ↔ Grammar tokens l) ∧ (code = .none ↔ ∃ l, Grammar tokens l)

def Scan.Typed (scan : Scan) : Prop := ∀ t used, scan = .token t used → t.type ≠ .none

theorem scanComment_typed (used : Nat) (input : Text) : (scanComment used input).Typed := by
  induction input generalizing used with
  | nil => intro t n scanned; cases scanned
  | cons c rest ih =>
      intro t n scanned
      simp only [scanComment] at scanned
      split at scanned
      · cases scanned
        simp
      · exact ih (used + 1) t n scanned

theorem scanWord_typed (used : Nat) (quote : Byte) (data input : Text) :
    (scanWord used quote data input).Typed := by
  induction length : input.length using Nat.strongRecOn generalizing used quote data input with
  | _ size ih =>
  intro t n scanned
  cases input with
  | nil =>
      rw [scanWord] at scanned
      cases scanned
  | cons c rest =>
      rw [List.length_cons] at length
      rw [scanWord_cons] at scanned
      cases move : wordMove quote data c rest.head? with
      | failed | incomplete =>
          rw [move] at scanned
          cases scanned
      | token type data' taken =>
          rw [move] at scanned
          cases scanned
          exact (wordMove_token move).2.1
      | comment =>
          rw [move] at scanned
          exact scanComment_typed (used + 1) rest t n scanned
      | one quote data =>
          rw [move] at scanned
          exact ih rest.length (by omega) (used + 1) quote data rest rfl t n scanned
      | two quote data =>
          rw [move] at scanned
          refine ih rest.tail.length ?_ (used + 2) quote data rest.tail rfl t n scanned
          rw [List.length_tail]
          omega

theorem scanToken_typed (used : Nat) (input : Text) : (scanToken used input).Typed := by
  induction input generalizing used with
  | nil => intro t n scanned; cases scanned
  | cons c rest ih =>
      intro t n scanned
      simp only [scanToken] at scanned
      split at scanned
      · split at scanned
        · cases scanned
          simp
        · exact ih (used + 1) t n scanned
      · exact scanWord_typed used 0 [] (c :: rest) t n scanned

theorem parseToken_typed {input : Text} {t : Token} {used : Nat}
    (scanned : parseToken input = .token t used) : t.type ≠ .none := by
  unfold parseToken at scanned
  cases found : scanToken 0 input with
  | failed | incomplete =>
      rw [found] at scanned
      cases scanned
  | token t' n =>
      rw [found] at scanned
      dsimp only at scanned
      split at scanned
      · cases scanned
      · cases scanned
        exact scanToken_typed 0 input _ n found

theorem Tokens.typed {input rest : Text} {tokens : List Token} (read : Tokens input tokens rest) :
    ∀ t ∈ tokens, t.type ≠ .none := by
  induction read with
  | nil rest => simp
  | cons scanned tail ih =>
      intro t mem
      rcases List.mem_cons.1 mem with rfl | mem
      · exact parseToken_typed scanned
      · exact ih t mem

theorem Tokens.head {input rest : Text} {t : Token} {tokens : List Token}
    (read : Tokens input (t :: tokens) rest) :
    ∃ used, parseToken input = .token t used ∧ Tokens (input.drop used) tokens rest := by
  cases read with
  | cons scanned tail => exact ⟨_, scanned, tail⟩

theorem parseToken_total {input : Text} {t : Token} {used : Nat}
    (scanned : parseToken input = .token t used) (pos : Nat) :
    pos + used + (input.drop used).length = pos + input.length := by
  obtain ⟨-, inside⟩ := parseToken_within scanned
  rw [List.length_drop]
  omega

theorem Tokens.none {input rest : Text} (read : Tokens input [] rest) : input = rest := by
  cases read
  rfl

theorem skipLine_skips (code : ParserError) (pos : Nat) {input : Text} (skips : SkipsLine input) :
    ∃ consumed, skipLine code pos input = .error code consumed := by
  obtain ⟨tokens, newLine, rest, read, ends⟩ := skips
  induction tokens generalizing pos input with
  | nil =>
      obtain ⟨used, scanned, -⟩ := read.head
      exact ⟨pos + used, by rw [skipLine_eq, scanned]; exact if_pos ends⟩
  | cons t tokens ih =>
      obtain ⟨used, scanned, tail⟩ := read.head
      rw [skipLine_eq, scanned]
      dsimp only
      split
      · exact ⟨_, rfl⟩
      · exact ih _ tail

theorem skipLine_error {code code' : ParserError} {pos consumed : Nat} {input : Text}
    (skipped : skipLine code pos input = .error code' consumed) : SkipsLine input := by
  induction length : input.length using Nat.strongRecOn generalizing pos input with
  | _ size ih =>
  rw [skipLine_eq] at skipped
  cases scanned : parseToken input with
  | failed | incomplete =>
      rw [scanned] at skipped
      cases skipped
  | token t used =>
      obtain ⟨positive, inside⟩ := parseToken_within scanned
      rw [scanned] at skipped
      dsimp only at skipped
      split at skipped
      · next ends => exact ⟨[], t, _, .cons scanned (.nil _), ends⟩
      · have shorter : (input.drop used).length < size := by
          rw [List.length_drop]
          omega
        obtain ⟨tokens, newLine, rest, read, ends⟩ := ih _ shorter skipped rfl
        exact ⟨t :: tokens, newLine, rest, .cons scanned read, ends⟩

theorem skipLine_noItem (code : ParserError) (pos : Nat) {input : Text} (stays : ¬SkipsLine input) :
    skipLine code pos input = .failed ∨ skipLine code pos input = .noLine := by
  cases skipped : skipLine code pos input with
  | failed => exact Or.inl rfl
  | noLine => exact Or.inr rfl
  | error code' consumed => exact absurd (skipLine_error skipped) stays
  | line line consumed =>
      -- The loop of `return_error` has no way out with a line.
      exfalso
      induction length : input.length using Nat.strongRecOn generalizing pos input with
      | _ size ih =>
      rw [skipLine_eq] at skipped
      cases scanned : parseToken input with
      | failed | incomplete =>
          rw [scanned] at skipped
          cases skipped
      | token t used =>
          obtain ⟨positive, inside⟩ := parseToken_within scanned
          rw [scanned] at skipped
          dsimp only at skipped
          split at skipped
          · cases skipped
          · refine ih (input.drop used).length (by rw [List.length_drop]; omega) _ ?_ skipped rfl
            rintro ⟨tokens, newLine, rest, read, ends⟩
            exact stays ⟨t :: tokens, newLine, rest, .cons scanned read, ends⟩

-- The outcome is the one the verdict stands for, and the line is consumed: `total` is the position
-- with the length of the input.
def Settles (outcome : Outcome) (total : Nat) (rest : Text) : Verdict → Prop
  | .failed => outcome = .failed
  | .line line => ∃ consumed, outcome = .line line consumed ∧ consumed + rest.length = total
  | .error code => ∃ consumed, outcome = .error code consumed ∧ consumed + rest.length = total
  | .dangling => ∃ pos, outcome = skipLine .outoutRedirectBadArg pos rest ∧ pos + rest.length = total

section Tail

variable {input rest : Text} {tokens more : List Token} {t newLine : Token}

theorem skipLine_endsLine (code : ParserError) (pos : Nat)
    (read : Tokens input (tokens ++ [newLine]) rest) (inner : ∀ t ∈ tokens, t.type ≠ .newLine)
    (ends : newLine.type = .newLine) :
    ∃ consumed, skipLine code pos input = .error code consumed ∧
      consumed + rest.length = pos + input.length := by
  induction tokens generalizing pos input with
  | nil =>
      obtain ⟨used, scanned, tail⟩ := read.head
      refine ⟨pos + used, ?_, ?_⟩
      · rw [skipLine_eq, scanned]
        exact if_pos ends
      · rw [← tail.none]
        exact parseToken_total scanned pos
  | cons t tokens ih =>
      obtain ⟨used, scanned, tail⟩ := read.head
      rw [skipLine_eq, scanned, ← parseToken_total scanned pos]
      dsimp only
      rw [if_neg (inner t (by simp))]
      exact ih _ tail fun t mem => inner t (by simp [mem])

theorem finishLine_settles (line : CommandLine) (pos : Nat) (read : Tokens input more rest)
    (queue : tokens ++ [newLine] = t :: more) (inner : ∀ t ∈ tokens, t.type ≠ .newLine)
    (ends : newLine.type = .newLine) :
    Settles (finishLine line pos input t) (pos + input.length) rest (finishTokens line tokens) := by
  cases tokens with
  | nil =>
      cases queue
      have whole := read.none
      rw [finishLine, if_pos ends, finishTokens]
      cases line.exprs.getLast? with
      | none => rfl
      | some last =>
          dsimp only
          split
          · exact ⟨pos, rfl, by rw [whole]⟩
          · exact ⟨pos, rfl, by rw [whole]⟩
  | cons first tokens =>
      cases queue
      rw [finishLine, if_neg (inner t (by simp))]
      exact skipLine_endsLine _ pos read (fun t mem => inner t (by simp [mem])) ends

theorem closeBackground_settles (line : CommandLine) (pos : Nat) (read : Tokens input more rest)
    (queue : tokens ++ [newLine] = t :: more) (inner : ∀ t ∈ tokens, t.type ≠ .newLine)
    (ends : newLine.type = .newLine) :
    Settles (closeBackground line pos input t) (pos + input.length) rest (backgroundTokens line tokens) := by
  cases tokens with
  | nil =>
      cases queue
      rw [closeBackground, if_neg (by simp [ends])]
      exact finishLine_settles line pos read rfl inner ends
  | cons first tokens =>
      cases queue
      rw [closeBackground, backgroundTokens]
      split
      · cases split : tokens ++ [newLine] with
        | nil => simp at split
        | cons next more =>
            rw [List.append_eq, split] at read
            obtain ⟨used, scanned, tail⟩ := read.head
            rw [scanned, ← parseToken_total scanned pos]
            exact finishLine_settles _ _ tail split (fun t mem => inner t (by simp [mem])) ends
      · exact finishLine_settles line pos read rfl inner ends

theorem closeLine_settles (line : CommandLine) (pos : Nat) (read : Tokens input more rest)
    (queue : tokens ++ [newLine] = t :: more) (inner : ∀ t ∈ tokens, t.type ≠ .newLine)
    (ends : newLine.type = .newLine) :
    Settles (closeLine line pos input t) (pos + input.length) rest (closeTokens line tokens) := by
  cases tokens with
  | nil =>
      cases queue
      rw [closeLine, if_neg (by simp [ends])]
      exact closeBackground_settles line pos read rfl inner ends
  | cons first tokens =>
      cases queue
      by_cases arrow : t.type = .outNew ∨ t.type = .outAppend
      · rw [closeLine, if_pos arrow]
        cases tokens with
        | nil =>
            obtain ⟨used, scanned, tail⟩ := read.head
            rw [scanned, closeTokens, if_pos arrow]
            dsimp only
            rw [if_pos (by simp [ends]), ← parseToken_total scanned pos, tail.none]
            exact ⟨_, rfl, rfl⟩
        | cons file tokens =>
            obtain ⟨used, scanned, tail⟩ := read.head
            rw [scanned, closeTokens, if_pos arrow]
            dsimp only
            split
            · rw [← parseToken_total scanned pos]
              exact skipLine_endsLine _ _ tail (fun t mem => inner t (by simp [mem])) ends
            · cases split : tokens ++ [newLine] with
              | nil => simp at split
              | cons next more =>
                  rw [List.append_eq, split] at tail
                  obtain ⟨used', scanned', tail⟩ := tail.head
                  rw [scanned', ← parseToken_total scanned pos,
                    ← parseToken_total scanned' (pos + used)]
                  exact closeBackground_settles _ _ tail split
                    (fun t mem => inner t (by simp [mem])) ends
      · have plain : closeTokens line (t :: tokens) = backgroundTokens line (t :: tokens) := by
          cases tokens <;> rw [closeTokens, if_neg arrow]
        rw [closeLine, if_neg arrow, plain]
        exact closeBackground_settles line pos read rfl inner ends

theorem readToken_started {exprs exprs' : List Expr} (line : t.type ≠ .newLine)
    (more : readToken exprs t = .more exprs') : exprs' ≠ [] := by
  have join {operator : Expr} (joined : operatorOf t.type = some operator) : exprs' ≠ [] := by
    rw [readToken_operator joined] at more
    rw [(pushOperator_more more).1]
    simp
  cases type : t.type with
  | str =>
      rw [readToken_str type] at more
      cases more
      unfold pushWord
      split <;> simp
  | newLine => exact absurd type line
  | pipe | and | or => exact join (by rw [type]; rfl)
  | none | outNew | outAppend | background => simp [readToken, type] at more

theorem parseLine_settles (exprs : List Expr) (pos : Nat)
    (read : Tokens input (tokens ++ [newLine]) rest) (inner : ∀ t ∈ tokens, t.type ≠ .newLine)
    (ends : newLine.type = .newLine) (started : tokens = [] → exprs ≠ []) :
    Settles (parseLine exprs pos input) (pos + input.length) rest (readTokens exprs tokens) := by
  induction tokens generalizing exprs pos input with
  | nil =>
      obtain ⟨used, scanned, tail⟩ := read.head
      rw [parseLine_eq, scanned, readTokens, ← parseToken_total scanned pos]
      dsimp only
      rw [readToken, ends]
      dsimp only
      rw [if_neg (started rfl)]
      exact closeLine_settles _ _ tail rfl inner ends
  | cons t tokens ih =>
      obtain ⟨used, scanned, tail⟩ := read.head
      rw [parseLine_eq, scanned, readTokens, ← parseToken_total scanned pos]
      dsimp only
      cases turn : readToken exprs t with
      | failed => rfl
      | more exprs' =>
          exact ih exprs' _ tail (fun t mem => inner t (by simp [mem]))
            fun _ => readToken_started (inner t (by simp)) turn
      | close => exact closeLine_settles _ _ tail rfl inner ends
      | error code =>
          exact skipLine_endsLine _ _ tail (fun t mem => inner t (by simp [mem])) ends

end Tail

theorem Line.settles {buffer rest : Text} {tokens : List Token} (line : Line buffer tokens rest)
    (pos : Nat) : Settles (parseLine [] pos buffer) (pos + buffer.length) rest
      (readTokens [] tokens) := by
  obtain ⟨newLines, newLine, read, blank, nonempty, inner, ends⟩ := line
  induction newLines generalizing buffer pos with
  | nil => exact parseLine_settles [] pos read inner ends fun none => absurd none nonempty
  | cons t newLines ih =>
      obtain ⟨used, scanned, tail⟩ := read.head
      have skips : readToken [] t = .more [] := by simp [readToken, blank t (by simp)]
      rw [parseLine_eq, scanned, ← parseToken_total scanned pos]
      dsimp only
      rw [skips]
      exact ih _ tail fun t mem => blank t (by simp [mem])

theorem Line.inner {buffer rest : Text} {tokens : List Token} (line : Line buffer tokens rest) :
    ∀ t ∈ tokens, t.type ≠ .newLine ∧ t.type ≠ .none := by
  obtain ⟨newLines, newLine, read, blank, nonempty, inner, ends⟩ := line
  exact fun t mem => ⟨inner t mem, read.typed t (by simp [mem])⟩

theorem parserConsume_isSome (p : Parser) {consumed : Nat} (inside : consumed ≤ p.buffer.length) :
    ∃ left, parserConsume p consumed = some left := by
  have smaller : uint32 consumed ≤ consumed := Nat.mod_le _ _
  exact ⟨_, if_pos (Nat.le_trans smaller inside)⟩

theorem parserPopNext_line {buffer : Text} {line : CommandLine} {consumed : Nat}
    (outcome : parseLine [] 0 buffer = .line line consumed) :
    ∃ left, parserPopNext ⟨buffer⟩ = some (.none, some line, left) := by
  have within := parseLine_within [] 0 buffer
  rw [outcome] at within
  obtain ⟨left, consumes⟩ := parserConsume_isSome ⟨buffer⟩ (by simpa using within.2)
  exact ⟨left, by simp [parserPopNext, outcome, consumes]⟩

theorem parserPopNext_error {buffer : Text} {code : ParserError} {consumed : Nat}
    (outcome : parseLine [] 0 buffer = .error code consumed) :
    ∃ left, parserPopNext ⟨buffer⟩ = some (code, none, left) := by
  have within := parseLine_within [] 0 buffer
  rw [outcome] at within
  obtain ⟨left, consumes⟩ := parserConsume_isSome ⟨buffer⟩ (by simpa using within.2)
  exact ⟨left, by simp [parserPopNext, outcome, consumes]⟩

theorem parserPopNext_failed {buffer : Text} (outcome : parseLine [] 0 buffer = .failed) :
    parserPopNext ⟨buffer⟩ = none := by
  simp [parserPopNext, outcome]

theorem parserPopNext_noLine {buffer : Text} (outcome : parseLine [] 0 buffer = .noLine) :
    parserPopNext ⟨buffer⟩ = some (.none, none, ⟨buffer⟩) := by
  simp [parserPopNext, outcome]

theorem popsLine_error {buffer : Text} {tokens : List Token} {code : ParserError} {consumed : Nat}
    (outcome : parseLine [] 0 buffer = .error code consumed) (coded : code ≠ .none)
    (wrong : ∀ l, ¬Grammar tokens l) : PopsLine tokens buffer := by
  obtain ⟨left, popped⟩ := parserPopNext_error outcome
  exact ⟨code, none, left, popped, fun l => ⟨nofun, fun grammar => absurd grammar (wrong l)⟩,
    fun none => absurd none coded, fun ⟨l, grammar⟩ => absurd grammar (wrong l)⟩

theorem popsLine_iff {buffer rest : Text} {tokens : List Token} (line : Line buffer tokens rest) :
    PopsLine tokens buffer ↔ ¬Bare tokens ∧ (Dangling tokens → SkipsLine rest) := by
  have settles := line.settles 0
  rcases readTokens_cases line.inner with ⟨l, grammar⟩ | bare | dangling | ⟨code, fault⟩
  · have verdict := grammar.readTokens
    rw [verdict] at settles
    obtain ⟨consumed, outcome, -⟩ := settles
    obtain ⟨left, popped⟩ := parserPopNext_line outcome
    refine iff_of_true ⟨.none, some l, left, popped, ?_, by simpa using ⟨l, grammar⟩⟩ ⟨?_, ?_⟩
    · intro l'
      constructor
      · rintro ⟨⟩
        exact grammar
      · intro grammar'
        have same := grammar'.readTokens
        rw [verdict] at same
        cases same
        rfl
    · intro bare
      rw [bare.readTokens] at verdict
      cases verdict
    · intro dangling
      rw [dangling.readTokens] at verdict
      cases verdict
  · rw [bare.readTokens] at settles
    refine iff_of_false ?_ fun holds => holds.1 bare
    rintro ⟨code, line, left, popped, -⟩
    rw [parserPopNext_failed settles] at popped
    cases popped
  · have verdict := dangling.readTokens
    have noGrammar (l : CommandLine) : ¬Grammar tokens l := by
      intro grammar
      rw [grammar.readTokens] at verdict
      cases verdict
    have notBare : ¬Bare tokens := by
      intro bare
      rw [bare.readTokens] at verdict
      cases verdict
    rw [verdict] at settles
    obtain ⟨pos, outcome, -⟩ := settles
    by_cases skips : SkipsLine rest
    · obtain ⟨consumed, skipped⟩ := skipLine_skips .outoutRedirectBadArg pos skips
      exact iff_of_true (popsLine_error (outcome.trans skipped) (by decide) noGrammar)
        ⟨notBare, fun _ => skips⟩
    · refine iff_of_false ?_ fun holds => skips (holds.2 dangling)
      rintro ⟨code, line, left, popped, -, coded⟩
      rcases skipLine_noItem .outoutRedirectBadArg pos skips with stops | waits
      · rw [parserPopNext_failed (outcome.trans stops)] at popped
        cases popped
      · rw [parserPopNext_noLine (outcome.trans waits)] at popped
        cases popped
        obtain ⟨l, grammar⟩ := coded.1 rfl
        exact noGrammar l grammar
  · have wrong := fault.readTokens
    rw [wrong] at settles
    obtain ⟨consumed, outcome, -⟩ := settles
    have coded : code ≠ .none := fun none =>
      parseLine_coded [] 0 buffer consumed (none ▸ outcome)
    refine iff_of_true (popsLine_error outcome coded ?_) ⟨?_, ?_⟩
    · intro l grammar
      rw [grammar.readTokens] at wrong
      cases wrong
    · intro bare
      rw [bare.readTokens] at wrong
      cases wrong
    · intro dangling
      rw [dangling.readTokens] at wrong
      cases wrong

def pipelineText : Text :=
  [byte 'a', byte ' ', byte '|', byte ' ', byte 'b', byte '>', byte 'f', byte ' ', byte '&', byte '\n']

def pipelineTokens : List Token :=
  [⟨.str, [byte 'a']⟩, ⟨.pipe, []⟩, ⟨.str, [byte 'b']⟩, ⟨.outNew, []⟩, ⟨.str, [byte 'f']⟩,
    ⟨.background, []⟩]

theorem popsLine_pipeline : PopsLine pipelineTokens pipelineText := by
  have first : parseToken pipelineText = .token ⟨.str, [byte 'a']⟩ 2 := by decide +kernel
  have pipe : parseToken (pipelineText.drop 2) = .token ⟨.pipe, []⟩ 1 := by decide +kernel
  have second : parseToken (pipelineText.drop 3) = .token ⟨.str, [byte 'b']⟩ 2 := by decide +kernel
  have arrow : parseToken (pipelineText.drop 5) = .token ⟨.outNew, []⟩ 1 := by decide +kernel
  have file : parseToken (pipelineText.drop 6) = .token ⟨.str, [byte 'f']⟩ 2 := by decide +kernel
  have mark : parseToken (pipelineText.drop 8) = .token ⟨.background, []⟩ 1 := by decide +kernel
  have ends : parseToken (pipelineText.drop 9) = .token ⟨.newLine, []⟩ 1 := by decide +kernel
  have line : Line pipelineText pipelineTokens [] :=
    ⟨[], ⟨.newLine, []⟩, .cons first (.cons pipe (.cons second (.cons arrow (.cons file
      (.cons mark (.cons ends (.nil _))))))), by simp, by simp [pipelineTokens],
      by simp [pipelineTokens], rfl⟩
  refine (popsLine_iff line).2 ⟨fun bare => ?_, fun dangling => ?_⟩
  · exact absurd bare.readTokens (by decide)
  · exact absurd dangling.readTokens (by decide)

theorem bareRedirection_fails :
    Line [byte '>', byte ' ', byte 'f', byte '\n'] [⟨.outNew, []⟩, ⟨.str, [byte 'f']⟩] [] ∧
      ¬PopsLine [⟨.outNew, []⟩, ⟨.str, [byte 'f']⟩] [byte '>', byte ' ', byte 'f', byte '\n'] := by
  have arrow : parseToken [byte '>', byte ' ', byte 'f', byte '\n'] = .token ⟨.outNew, []⟩ 1 := by
    decide +kernel
  have file : parseToken [byte ' ', byte 'f', byte '\n'] = .token ⟨.str, [byte 'f']⟩ 2 := by
    decide +kernel
  have ends : parseToken [byte '\n'] = .token ⟨.newLine, []⟩ 1 := by decide +kernel
  refine ⟨⟨[], ⟨.newLine, []⟩, .cons arrow (.cons file (.cons ends (.nil _))), by simp, by simp,
    by simp, rfl⟩, ?_⟩
  rintro ⟨code, line, left, popped, -⟩
  have stops : parserPopNext ⟨[byte '>', byte ' ', byte 'f', byte '\n']⟩ = none := by
    decide +kernel
  rw [stops] at popped
  cases popped

end SystemProg.Shell
