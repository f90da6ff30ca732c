import SystemProg.Shell.Lines

set_option autoImplicit false

-- A printed line has its words in double quotes. The parser reads it back, as long as its length
-- fits into the `uint32_t` in which the parser counts bytes.

namespace SystemProg.Shell

def escapeByte (c : Byte) : Text :=
  if c = byte '\\' ∨ c = byte '"' then [byte '\\', c] else [c]

def escape (word : Text) : Text := word.flatMap escapeByte

def quoted (word : Text) : Text := byte '"' :: (escape word ++ [byte '"'])

def printToken (t : Token) : Text :=
  match t.type with
  | .str => quoted t.data
  | .pipe => [byte '|']
  | .and => [byte '&', byte '&']
  | .or => [byte '|', byte '|']
  | .outNew => [byte '>']
  | .outAppend => [byte '>', byte '>']
  | .background => [byte '&']
  | .newLine => [byte '\n']
  | .none => []

def exprTokens : Expr → List Token
  | .command cmd => ⟨.str, cmd.exe⟩ :: cmd.args.map (⟨.str, ·⟩)
  | .pipe => [⟨.pipe, []⟩]
  | .and => [⟨.and, []⟩]
  | .or => [⟨.or, []⟩]

def redirectTokens (line : CommandLine) : List Token :=
  match line.outType with
  | .stdout => []
  | .fileNew => [⟨.outNew, []⟩, ⟨.str, line.outFile⟩]
  | .fileAppend => [⟨.outAppend, []⟩, ⟨.str, line.outFile⟩]

def backgroundTokensOf (line : CommandLine) : List Token :=
  if line.isBackground then [⟨.background, []⟩] else []

def lineTokens (line : CommandLine) : List Token :=
  line.exprs.flatMap exprTokens ++ (redirectTokens line ++ backgroundTokensOf line)

def printTokens : List Token → Text
  | [] => []
  | [t] => printToken t
  | t :: rest => printToken t ++ byte ' ' :: printTokens rest

def printLine (line : CommandLine) : Text := printTokens (lineTokens line) ++ [byte '\n']

inductive Alternates : List Expr → Prop where
  | command (cmd : Command) : Alternates [.command cmd]
  | chain {front : List Expr} {operator : Expr} (left : Alternates front)
      (joins : operator.isCommand = false) (cmd : Command) :
      Alternates (front ++ [operator, .command cmd])

def WellFormed (line : CommandLine) : Prop :=
  Alternates line.exprs ∧ (line.outType = .stdout → line.outFile = [])

def PopsLines : Parser → List CommandLine → Prop
  | p, [] => p.buffer = [] ∧ parserPopNext p = some (.none, none, p)
  | p, line :: rest =>
      ∃ left, parserPopNext p = some (.none, some line, left) ∧ PopsLines left rest

theorem Words.args {tokens : List Token} {cmd : Command} (words : Words tokens cmd)
    (args : List Text) :
    Words (tokens ++ args.map (⟨.str, ·⟩)) { cmd with args := cmd.args ++ args } := by
  induction args generalizing tokens cmd with
  | nil => simpa using words
  | cons arg args ih => simpa using ih (words.arg (t := ⟨.str, arg⟩) rfl)

theorem words_command (cmd : Command) : Words (exprTokens (.command cmd)) cmd :=
  (Words.exe (t := ⟨.str, cmd.exe⟩) rfl).args cmd.args

theorem Alternates.exprs {exprs : List Expr} (alternates : Alternates exprs) :
    Exprs (exprs.flatMap exprTokens) exprs := by
  induction alternates with
  | command cmd =>
      rw [List.flatMap_singleton]
      exact .command (words_command cmd)
  | @chain front operator left joins cmd ih =>
      have joined : ∃ t, exprTokens operator = [t] ∧ operatorOf t.type = some operator := by
        cases operator with
        | command => cases joins
        | pipe | and | or => exact ⟨_, rfl, rfl⟩
      obtain ⟨t, print, joined⟩ := joined
      have whole := Exprs.chain ih joined (words_command cmd)
      simpa [print] using whole

theorem lineTokens_grammar {line : CommandLine} (formed : WellFormed line) :
    Grammar (lineTokens line) line := by
  obtain ⟨exprs, outType, outFile, isBackground⟩ := line
  obtain ⟨alternates, file⟩ := formed
  refine ⟨_, _, rfl, alternates.exprs, redirectTokens _, backgroundTokensOf _, rfl, ?_, ?_⟩
  · cases outType with
    | stdout =>
        obtain rfl := file rfl
        exact .stdout
    | fileNew => exact .fileNew rfl rfl
    | fileAppend => exact .fileAppend rfl rfl
  · cases isBackground with
    | false => exact .foreground
    | true => exact .background rfl

def Printable (t : Token) : Prop :=
  t.type ≠ .none ∧ t.type ≠ .newLine ∧ (t.type ≠ .str → t.data = [])

theorem lineTokens_printable (line : CommandLine) : ∀ t ∈ lineTokens line, Printable t := by
  intro t mem
  rcases List.mem_append.mp mem with mem | mem
  · obtain ⟨e, -, mem⟩ := List.mem_flatMap.mp mem
    cases e with
    | command cmd =>
        have word : t.type = .str := by
          rcases List.mem_cons.mp mem with rfl | mem
          · rfl
          · obtain ⟨arg, -, rfl⟩ := List.mem_map.mp mem
            rfl
        simp [Printable, word]
    | pipe | and | or =>
        obtain rfl := List.mem_singleton.mp mem
        simp [Printable]
  · rcases List.mem_append.mp mem with mem | mem
    · unfold redirectTokens at mem
      split at mem <;> simp at mem <;> rcases mem with rfl | rfl <;> simp [Printable]
    · unfold backgroundTokensOf at mem
      split at mem <;> simp at mem
      subst mem
      simp [Printable]

theorem wordMove_plain {data : Text} {c : Byte} (plain : c ≠ byte '\\' ∧ c ≠ byte '"')
    (next : Option Byte) : wordMove (byte '"') data c next = .one (byte '"') (data ++ [c]) := by
  have inside : byte '"' ≠ 0 := by decide
  simp [wordMove, wordSwitch, inside, plain.1, Ne.symm plain.2]

theorem wordMove_escaped {data : Text} {c : Byte} (special : c = byte '\\' ∨ c = byte '"') :
    wordMove (byte '"') data (byte '\\') (some c) = .two (byte '"') (data ++ [c]) := by
  rcases special with rfl | rfl <;> rfl

theorem scanWord_quoted (used : Nat) (data word rest : Text) :
    scanWord used (byte '"') data (escape word ++ byte '"' :: rest) =
      .token ⟨.str, data ++ word⟩ (used + (escape word).length + 1) := by
  induction word generalizing used data with
  | nil =>
      rw [escape, List.flatMap_nil, List.nil_append, scanWord_cons]
      simp [wordMove, wordSwitch, byte]
  | cons c word ih =>
      have front : escape (c :: word) = escapeByte c ++ escape word := rfl
      rw [front]
      by_cases special : c = byte '\\' ∨ c = byte '"'
      · rw [escapeByte, if_pos special, List.append_assoc, List.cons_append, List.singleton_append,
          scanWord_cons, List.head?_cons, wordMove_escaped special]
        dsimp only [List.tail_cons]
        rw [ih]
        simp
        omega
      · have plain := not_or.mp special
        rw [escapeByte, if_neg special, List.singleton_append, List.cons_append, scanWord_cons,
          wordMove_plain plain]
        dsimp only
        rw [ih]
        simp
        omega

theorem scanToken_spaces (used n : Nat) (input : Text) :
    scanToken used (List.replicate n (byte ' ') ++ input) = scanToken (used + n) input := by
  induction n generalizing used with
  | zero => rfl
  | succ n ih =>
      have space : isSpace (byte ' ') = true ∧ byte ' ' ≠ byte '\n' := by decide
      rw [List.replicate_succ, List.cons_append, scanToken, if_pos space.1, if_neg space.2, ih]
      congr 1
      omega

-- What follows a token in a printed line.
def Separates (d : Byte) : Prop := d = byte ' ' ∨ d = byte '\n'

theorem scanToken_quoted (used : Nat) (word rest : Text) :
    scanToken used (quoted word ++ rest) = .token ⟨.str, word⟩ (used + (quoted word).length) := by
  have opens : isSpace (byte '"') = false := by decide
  have first : wordMove 0 [] (byte '"') ((escape word ++ byte '"' :: rest).head?) =
      .one (byte '"') [] := by
    simp [wordMove, wordSwitch]
  have text : quoted word ++ rest = byte '"' :: (escape word ++ byte '"' :: rest) := by
    simp [quoted]
  rw [text, scanToken, opens, if_neg (by simp), scanWord_cons, first]
  dsimp only
  rw [scanWord_quoted]
  simp [quoted]
  omega

theorem scanToken_operator (used : Nat) {d : Byte} (separates : Separates d) (rest : Text)
    {t : Token} (printable : Printable t) (notWord : t.type ≠ .str) :
    scanToken used (printToken t ++ d :: rest) = .token t (used + (printToken t).length) := by
  obtain ⟨type, data⟩ := t
  obtain ⟨some_, notNewLine, data_⟩ := printable
  obtain rfl := data_ notWord
  rcases separates with rfl | rfl <;> cases type <;> first
    | exact absurd rfl some_
    | exact absurd rfl notNewLine
    | exact absurd rfl notWord
    | simp [printToken, scanToken, scanWord_cons, isSpace, wordMove, wordSwitch, operatorMove,
        operatorType, byte]

theorem scanToken_print (used : Nat) {d : Byte} (separates : Separates d) (rest : Text) {t : Token}
    (printable : Printable t) :
    scanToken used (printToken t ++ d :: rest) = .token t (used + (printToken t).length) := by
  by_cases word : t.type = .str
  · obtain ⟨type, data⟩ := t
    cases word
    exact scanToken_quoted used data (d :: rest)
  · exact scanToken_operator used separates rest printable word

theorem printToken_length {t : Token} (printable : Printable t) : 0 < (printToken t).length := by
  unfold printToken
  cases type : t.type with
  | none => exact absurd type printable.1
  | _ => simp [quoted]

theorem parseToken_print {n : Nat} {d : Byte} (separates : Separates d) (rest : Text) {t : Token}
    (printable : Printable t) (bounded : n + (printToken t).length < 2 ^ 32) :
    parseToken (List.replicate n (byte ' ') ++ (printToken t ++ d :: rest)) =
      .token t (n + (printToken t).length) := by
  have whole : uint32 (n + (printToken t).length) = n + (printToken t).length :=
    Nat.mod_eq_of_lt bounded
  have positive := printToken_length printable
  rw [parseToken, scanToken_spaces, Nat.zero_add, scanToken_print n separates rest printable]
  dsimp only
  rw [whole, if_neg (by omega)]

theorem parseToken_newLine (rest : Text) :
    parseToken (byte '\n' :: rest) = .token ⟨.newLine, []⟩ 1 := rfl

theorem drop_printed (n : Nat) (printed rest : Text) :
    (List.replicate n (byte ' ') ++ (printed ++ rest)).drop (n + printed.length) = rest := by
  rw [← List.append_assoc]
  exact List.drop_left' (by simp)

theorem tokens_print {tokens : List Token} (nonempty : tokens ≠ []) {n : Nat} (rest : Text)
    (printable : ∀ t ∈ tokens, Printable t)
    (bounded : n + (printTokens tokens).length < 2 ^ 32) :
    Tokens (List.replicate n (byte ' ') ++ (printTokens tokens ++ byte '\n' :: rest))
      (tokens ++ [⟨.newLine, []⟩]) rest := by
  induction tokens generalizing n with
  | nil => exact absurd rfl nonempty
  | cons t tokens ih =>
      have first := printable t (by simp)
      cases tokens with
      | nil =>
          have text : printTokens [t] = printToken t := rfl
          rw [text] at bounded ⊢
          have scanned := parseToken_print (d := byte '\n') (Or.inr rfl) rest first bounded
          refine .cons scanned ?_
          rw [drop_printed]
          exact .cons (parseToken_newLine rest) (.nil rest)
      | cons next tokens =>
          have text : printTokens (t :: next :: tokens) =
              printToken t ++ byte ' ' :: printTokens (next :: tokens) := rfl
          rw [text, List.length_append, List.length_cons] at bounded
          rw [text, List.append_assoc, List.cons_append]
          have scanned := parseToken_print (d := byte ' ') (n := n) (Or.inl rfl)
            (printTokens (next :: tokens) ++ byte '\n' :: rest) first (by omega)
          refine .cons scanned ?_
          rw [drop_printed]
          -- The space before the next token is read with it.
          exact ih (n := 1) (by simp) (fun t mem => printable t (by simp [mem])) (by omega)

theorem lineTokens_nonempty {line : CommandLine} (formed : WellFormed line) :
    lineTokens line ≠ [] := by
  intro none
  have read := (lineTokens_grammar formed).readTokens
  rw [none] at read
  cases read

theorem printLine_line {line : CommandLine} (formed : WellFormed line)
    (bounded : (printLine line).length < 2 ^ 32) (rest : Text) :
    Line (printLine line ++ rest) (lineTokens line) rest := by
  have nonempty := lineTokens_nonempty formed
  have short : 0 + (printTokens (lineTokens line)).length < 2 ^ 32 := by
    rw [printLine, List.length_append] at bounded
    omega
  have read := tokens_print nonempty rest (lineTokens_printable line) short
  refine ⟨[], ⟨.newLine, []⟩, ?_, by simp, nonempty, ?_, rfl⟩
  · simpa [printLine] using read
  · exact fun t mem => (lineTokens_printable line t mem).2.1

theorem parserPopNext_print {line : CommandLine} (formed : WellFormed line)
    (bounded : (printLine line).length < 2 ^ 32) (rest : Text) :
    parserPopNext ⟨printLine line ++ rest⟩ = some (.none, some line, ⟨rest⟩) := by
  have settles := (printLine_line formed bounded rest).settles 0
  rw [(lineTokens_grammar formed).readTokens] at settles
  obtain ⟨consumed, outcome, total⟩ := settles
  have used : consumed = (printLine line).length := by
    rw [List.length_append] at total
    omega
  have whole : uint32 (printLine line).length = (printLine line).length := Nat.mod_eq_of_lt bounded
  rw [parserPopNext, outcome, used]
  simp [parserConsume, whole]

theorem printed_lines_popped {lines : List CommandLine} {chunks : List Text}
    (formed : ∀ line ∈ lines, WellFormed line)
    (bounded : ∀ line ∈ lines, (printLine line).length < 2 ^ 32)
    (fed : chunks.flatten = lines.flatMap printLine) :
    PopsLines (chunks.foldl parserFeed parserNew) lines := by
  have buffer : ∀ p : Parser, chunks.foldl parserFeed p = ⟨p.buffer ++ chunks.flatten⟩ := by
    clear fed
    induction chunks with
    | nil => simp
    | cons chunk chunks ih => simp [ih, parserFeed]
  rw [buffer, fed, parserNew, List.nil_append]
  clear buffer fed
  induction lines with
  | nil =>
      refine ⟨rfl, ?_⟩
      rw [List.flatMap_nil]
      exact parserPopNext_noLine (by rw [parseLine_eq]; rfl)
  | cons line lines ih =>
      rw [List.flatMap_cons]
      refine ⟨_, parserPopNext_print (formed line (by simp)) (bounded line (by simp)) _, ?_⟩
      exact ih (fun line mem => formed line (by simp [mem]))
        (fun line mem => bounded line (by simp [mem]))

def specialLine : CommandLine :=
  { exprs := [.command ⟨[byte '"', byte '\\', byte '\n'], [[byte '#', byte '\'']]⟩, .or,
      .command ⟨[], [[byte '&', byte '|']]⟩]
    outType := .fileAppend
    outFile := [byte '>', byte ' ']
    isBackground := true }

theorem printed_lines_popped_special :
    PopsLines ([(printLine specialLine).take 3, (printLine specialLine).drop 3].foldl parserFeed
      parserNew) [specialLine] := by
  have alternates : Alternates specialLine.exprs :=
    .chain (.command ⟨[byte '"', byte '\\', byte '\n'], [[byte '#', byte '\'']]⟩) rfl _
  refine printed_lines_popped ?_ ?_ ?_
  · intro line mem
    obtain rfl := List.mem_singleton.mp mem
    exact ⟨alternates, nofun⟩
  · intro line mem
    obtain rfl := List.mem_singleton.mp mem
    decide
  · simp

-- A word whose length with its quotes is not a `uint32_t`.
def longLine : CommandLine := lineOf [.command ⟨List.replicate (2 ^ 32 - 2) (byte 'a'), []⟩]

theorem escape_replicate (n : Nat) :
    escape (List.replicate n (byte 'a')) = List.replicate n (byte 'a') := by
  induction n with
  | zero => rfl
  | succ n ih =>
      have plain : escapeByte (byte 'a') = [byte 'a'] := by decide
      rw [List.replicate_succ, escape, List.flatMap_cons, plain]
      exact congrArg _ ih

theorem printed_long_line_waits : WellFormed longLine ∧
    ¬PopsLines (parserFeed parserNew ([longLine].flatMap printLine)) [longLine] := by
  refine ⟨⟨.command _, fun _ => rfl⟩, ?_⟩
  have text : [longLine].flatMap printLine =
      quoted (List.replicate (2 ^ 32 - 2) (byte 'a')) ++ [byte '\n'] := by
    rw [List.flatMap_singleton]
    rfl
  have length : (quoted (List.replicate (2 ^ 32 - 2) (byte 'a'))).length = 2 ^ 32 := by
    have two : 2 ^ 32 - 2 + 1 + 1 = 2 ^ 32 := by omega
    rw [quoted, escape_replicate, List.length_cons, List.length_append, List.length_replicate,
      List.length_singleton, two]
  have wraps : uint32 (0 + 2 ^ 32) = 0 := by decide
  have incomplete : parseToken ([longLine].flatMap printLine) = .incomplete := by
    rw [text, parseToken, scanToken_quoted, length]
    dsimp only
    rw [wraps, if_pos rfl]
  rintro ⟨left, popped, -⟩
  have waits : parserPopNext ⟨[longLine].flatMap printLine⟩ = _ :=
    parserPopNext_noLine (by rw [parseLine_eq, incomplete])
  rw [parserFeed, parserNew, List.nil_append, waits] at popped
  cases popped

end SystemProg.Shell
