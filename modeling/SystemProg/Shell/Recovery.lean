import SystemProg.Shell.Lines

set_option autoImplicit false

-- `return_error` reads on to the next new line. A redirection operator at the end of a line has
-- read that new line already, so the parser then drops the line after it.

namespace SystemProg.Shell

-- The tokens of a whole text, with lengths of any size.
inductive Lexes : Text → List Token → Prop where
  | nil : Lexes [] []
  | cons {input : Text} {t : Token} {used : Nat} {tokens : List Token}
      (scanned : scanToken 0 input = .token t used) (tail : Lexes (input.drop used) tokens) :
      Lexes input (t :: tokens)

def FaultyLine (text : Text) (tokens : List Token) : Prop :=
  ∃ newLines newLine, Lexes text (newLines ++ (tokens ++ [newLine])) ∧
    (∀ t ∈ newLines, t.type = .newLine) ∧ tokens ≠ [] ∧ (∀ t ∈ tokens, t.type ≠ .newLine) ∧
    newLine.type = .newLine ∧ ∀ line, ¬Grammar tokens line

-- The error is reported when the line is complete and not before it, and whatever follows the line
-- is left as if it had been fed to a new parser.
structure Recovers (text : Text) : Prop where
  reported : ∀ more, ∃ code, code ≠ .none ∧
    parserPopNext (parserFeed (parserFeed parserNew text) more) =
      some (code, none, parserFeed parserNew more)
  awaited : ∀ front, front <+: text → front ≠ text →
    parserPopNext (parserFeed parserNew front) = some (.none, none, parserFeed parserNew front)

def Scan.Behind (scan : Scan) (least : Nat) : Prop := ∀ t used, scan = .token t used → least ≤ used

theorem Scan.Behind.mono {scan : Scan} {least least' : Nat} (behind : scan.Behind least)
    (less : least' ≤ least) : scan.Behind least' :=
  fun t used scanned => Nat.le_trans less (behind t used scanned)

theorem scanComment_behind (used : Nat) (input : Text) : (scanComment used input).Behind used := by
  induction input generalizing used with
  | nil => intro t n scanned; cases scanned
  | cons c rest ih =>
      intro t n scanned
      simp only [scanComment] at scanned
      split at scanned
      · cases scanned
        omega
      · exact (ih (used + 1)).mono (by omega) t n scanned

theorem scanWord_behind (used : Nat) (quote : Byte) (data input : Text) :
    (scanWord used quote data input).Behind used := by
  induction length : input.length using Nat.strongRecOn generalizing used quote data input with
  | _ size ih =>
  intro t n scanned
  cases input with
  | nil =>
      rw [scanWord] at scanned
      cases scanned
  | cons c rest =>
      rw [List.length_cons] at length
      rw [scanWord_cons] at scanned
      cases move : wordMove quote data c rest.head? with
      | failed | incomplete =>
          rw [move] at scanned
          cases scanned
      | token type data' taken =>
          rw [move] at scanned
          cases scanned
          omega
      | comment =>
          rw [move] at scanned
          exact (scanComment_behind (used + 1) rest).mono (by omega) t n scanned
      | one quote data =>
          rw [move] at scanned
          exact (ih rest.length (by omega) (used + 1) quote data rest rfl).mono (by omega) t n scanned
      | two quote data =>
          rw [move] at scanned
          have shorter : rest.tail.length < size := by
            rw [List.length_tail]
            omega
          exact (ih _ shorter (used + 2) quote data rest.tail rfl).mono (by omega) t n scanned

theorem wordSwitch_start {quote c : Byte} {escape operator : Move} {type : TokenType} {data : Text}
    {length : Nat} (move : wordSwitch quote [] c escape operator = .token type data length) :
    0 < length ∨ escape = .token type data length ∨ operator = .token type data length := by
  unfold wordSwitch at move
  simp only [ne_eq, not_true_eq_false, if_false, if_true] at move
  split_ifs at move
  all_goals first
    | exact Or.inr (Or.inl move)
    | exact Or.inr (Or.inr move)
    | cases move; exact Or.inl (by omega)

theorem wordMove_start {quote c : Byte} {next : Option Byte} {type : TokenType} {data : Text}
    {length : Nat} (move : wordMove quote [] c next = .token type data length) : 0 < length := by
  rcases wordSwitch_start move with positive | escape | operator
  · exact positive
  · exfalso
    cases next with
    | none =>
        rw [escapeMove] at escape
        split at escape <;> cases escape
    | some d =>
        simp only [escapeMove] at escape
        split_ifs at escape
  · cases next with
    | none => cases operator
    | some d =>
        rw [operatorMove] at operator
        split at operator <;> cases operator <;> omega

theorem scanWord_starts (used : Nat) (input : Text) : (scanWord used 0 [] input).Behind (used + 1) := by
  intro t n scanned
  cases input with
  | nil =>
      rw [scanWord] at scanned
      cases scanned
  | cons c rest =>
      rw [scanWord_cons] at scanned
      cases move : wordMove 0 [] c rest.head? with
      | failed | incomplete =>
          rw [move] at scanned
          cases scanned
      | token type data taken =>
          have positive := wordMove_start move
          rw [move] at scanned
          cases scanned
          omega
      | comment =>
          rw [move] at scanned
          exact scanComment_behind (used + 1) rest t n scanned
      | one quote data =>
          rw [move] at scanned
          exact scanWord_behind (used + 1) quote data rest t n scanned
      | two quote data =>
          rw [move] at scanned
          exact (scanWord_behind (used + 2) quote data rest.tail).mono (by omega) t n scanned

theorem scanToken_starts (used : Nat) (input : Text) : (scanToken used input).Behind (used + 1) := by
  induction input generalizing used with
  | nil => intro t n scanned; cases scanned
  | cons c rest ih =>
      intro t n scanned
      simp only [scanToken] at scanned
      split at scanned
      · split at scanned
        · cases scanned
          omega
        · exact (ih (used + 1)).mono (by omega) t n scanned
      · exact scanWord_starts used (c :: rest) t n scanned

theorem parseToken_of_scan {input : Text} {t : Token} {used : Nat}
    (scanned : scanToken 0 input = .token t used) (bounded : used < 2 ^ 32) :
    parseToken input = .token t used := by
  have positive := scanToken_starts 0 input t used scanned
  have whole : uint32 used = used := Nat.mod_eq_of_lt bounded
  rw [parseToken, scanned]
  dsimp only
  rw [whole, if_neg (by omega)]

theorem Lexes.tokens {text : Text} {tokens : List Token} (lexes : Lexes text tokens)
    (bounded : text.length < 2 ^ 32) (more : Text) : Tokens (text ++ more) tokens more := by
  induction lexes with
  | nil => exact .nil more
  | @cons input t used tokens scanned tail ih =>
      have inside : used ≤ input.length := by
        simpa using scanToken_within 0 input t used scanned
      have token := parseToken_of_scan scanned (by omega)
      refine .cons (by rw [parseToken_append more (by simp [token]), token]) ?_
      rw [drop_append inside]
      exact ih (by rw [List.length_drop]; omega)

theorem FaultyLine.line {text : Text} {tokens : List Token} (faulty : FaultyLine text tokens)
    (bounded : text.length < 2 ^ 32) (more : Text) : Line (text ++ more) tokens more := by
  obtain ⟨newLines, newLine, lexes, blank, nonempty, inner, ends, -⟩ := faulty
  exact ⟨newLines, newLine, lexes.tokens bounded more, blank, nonempty, inner, ends⟩

-- At most `2 ^ 32 - 1` bytes are removed at a time.
theorem parserPopNext_left {p left : Parser} {code : ParserError} {line : Option CommandLine}
    (popped : parserPopNext p = some (code, line, left)) :
    p.buffer.length < left.buffer.length + 2 ^ 32 := by
  have consume {size : Nat} {q : Parser} (consumed : parserConsume p size = some q) :
      p.buffer.length < q.buffer.length + 2 ^ 32 := by
    have small : uint32 size < 2 ^ 32 := Nat.mod_lt _ (by decide)
    unfold parserConsume at consumed
    split at consumed
    · cases consumed
      rw [List.length_drop]
      omega
    · cases consumed
  unfold parserPopNext at popped
  cases outcome : parseLine [] 0 p.buffer with
  | failed =>
      rw [outcome] at popped
      cases popped
  | noLine =>
      rw [outcome] at popped
      cases popped
      omega
  | line | error =>
      rw [outcome] at popped
      obtain ⟨q, consumed, same⟩ := Option.map_eq_some_iff.1 popped
      cases same
      exact consume consumed

theorem parseLine_recovers {text : Text} {code : ParserError} (coded : code ≠ .none)
    (bounded : text.length < 2 ^ 32)
    (outcome : parseLine [] 0 text = .error code text.length) : Recovers text where
  reported more := by
    refine ⟨code, coded, ?_⟩
    have longer : parseLine [] 0 (text ++ more) = .error code text.length := by
      rw [parseLine_append more (by simp [outcome]), outcome]
    have whole : uint32 text.length = text.length := Nat.mod_eq_of_lt bounded
    simp [parserPopNext, parserFeed, parserNew, longer, parserConsume, whole]
  awaited front before shorter := by
    obtain ⟨more, rfl⟩ := before
    have waits : parseLine [] 0 front = .noLine := by
      by_contra settled
      have within := parseLine_within [] 0 front
      rw [← parseLine_append more settled, outcome] at within
      have none : more = [] := by
        have size := within.2
        rw [List.length_append] at size
        exact List.eq_nil_of_length_eq_zero (by omega)
      exact shorter (by rw [none, List.append_nil])
    rw [parserFeed, parserNew, List.nil_append]
    exact parserPopNext_noLine waits

theorem recovers_iff {text : Text} {tokens : List Token} (faulty : FaultyLine text tokens) :
    Recovers text ↔ ¬Bare tokens ∧ ¬Dangling tokens ∧ text.length < 2 ^ 32 := by
  constructor
  · intro recovers
    obtain ⟨code, coded, popped⟩ := recovers.reported []
    have bounded : text.length < 2 ^ 32 := by
      simpa [parserFeed, parserNew] using parserPopNext_left popped
    have settles := (faulty.line bounded []).settles 0
    rw [parserFeed, parserFeed, parserNew, List.nil_append] at popped
    refine ⟨fun bare => ?_, fun dangling => ?_, bounded⟩
    · rw [bare.readTokens] at settles
      rw [parserPopNext_failed settles] at popped
      cases popped
    · rw [dangling.readTokens] at settles
      obtain ⟨pos, outcome, -⟩ := settles
      -- With nothing behind the line, the parser waits for the next one.
      have waits : parseLine [] 0 (text ++ []) = .noLine := by
        rw [outcome, skipLine_eq]
        rfl
      rw [parserPopNext_noLine waits, Option.some.injEq, Prod.mk.injEq] at popped
      exact coded popped.1.symm
  · rintro ⟨notBare, notDangling, bounded⟩
    have line := faulty.line bounded []
    have settles := line.settles 0
    obtain ⟨-, -, -, -, -, -, -, wrong⟩ := faulty
    rcases readTokens_cases line.inner with ⟨l, grammar⟩ | bare | dangling | ⟨code, fault⟩
    · exact absurd grammar (wrong l)
    · exact absurd bare notBare
    · exact absurd dangling notDangling
    · rw [fault.readTokens, List.append_nil] at settles
      obtain ⟨consumed, outcome, total⟩ := settles
      have coded : code ≠ .none := fun none =>
        parseLine_coded [] 0 text consumed (none ▸ outcome)
      obtain rfl : consumed = text.length := by simpa using total
      exact parseLine_recovers coded bounded outcome

theorem recovers_pipe : Recovers [byte '|', byte ' ', byte 'a', byte '\n'] := by
  have pipe : scanToken 0 [byte '|', byte ' ', byte 'a', byte '\n'] = .token ⟨.pipe, []⟩ 1 := by
    decide +kernel
  have word : scanToken 0 [byte ' ', byte 'a', byte '\n'] = .token ⟨.str, [byte 'a']⟩ 2 := by
    decide +kernel
  have ends : scanToken 0 [byte '\n'] = .token ⟨.newLine, []⟩ 1 := by decide +kernel
  have verdict : readTokens [] [⟨.pipe, []⟩, ⟨.str, [byte 'a']⟩] =
      .error .pipeWithNoLeftArg := by decide
  have faulty : FaultyLine [byte '|', byte ' ', byte 'a', byte '\n']
      [⟨.pipe, []⟩, ⟨.str, [byte 'a']⟩] := by
    refine ⟨[], ⟨.newLine, []⟩, .cons pipe (.cons word (.cons ends .nil)), by simp, by simp, by simp,
      rfl, fun line grammar => ?_⟩
    rw [grammar.readTokens] at verdict
    cases verdict
  refine (recovers_iff faulty).2 ⟨fun bare => ?_, fun dangling => ?_, by decide⟩
  · rw [bare.readTokens] at verdict
    cases verdict
  · rw [dangling.readTokens] at verdict
    cases verdict

theorem dangling_swallows :
    FaultyLine [byte 'a', byte ' ', byte '>', byte '\n'] [⟨.str, [byte 'a']⟩, ⟨.outNew, []⟩] ∧
      parserPopNext (parserFeed (parserFeed parserNew [byte 'a', byte ' ', byte '>', byte '\n'])
        [byte 'b', byte '\n']) = some (.outoutRedirectBadArg, none, parserNew) ∧
      ¬Recovers [byte 'a', byte ' ', byte '>', byte '\n'] := by
  have word : scanToken 0 [byte 'a', byte ' ', byte '>', byte '\n'] =
      .token ⟨.str, [byte 'a']⟩ 2 := by decide +kernel
  have arrow : scanToken 0 [byte '>', byte '\n'] = .token ⟨.outNew, []⟩ 1 := by decide +kernel
  have ends : scanToken 0 [byte '\n'] = .token ⟨.newLine, []⟩ 1 := by decide +kernel
  have verdict : readTokens [] [⟨.str, [byte 'a']⟩, ⟨.outNew, []⟩] = .dangling := by decide
  have popped : parserPopNext (parserFeed (parserFeed parserNew
      [byte 'a', byte ' ', byte '>', byte '\n']) [byte 'b', byte '\n']) =
        some (.outoutRedirectBadArg, none, parserNew) := by decide +kernel
  refine ⟨⟨[], ⟨.newLine, []⟩, .cons word (.cons arrow (.cons ends .nil)), by simp, by simp, by simp,
    rfl, fun line grammar => ?_⟩, popped, fun recovers => ?_⟩
  · rw [grammar.readTokens] at verdict
    cases verdict
  · obtain ⟨code, -, left⟩ := recovers.reported [byte 'b', byte '\n']
    rw [popped] at left
    cases left

end SystemProg.Shell
