import SystemProg.Shell.Chunks

set_option autoImplicit false

-- A line is `STR+ ((PIPE | AND | OR) STR+)* [(OUT_NEW | OUT_APPEND) STR] [BACKGROUND]`. The parser
-- reads its tokens one by one: `readTokens` is what it makes of them.

namespace SystemProg.Shell

def operatorOf : TokenType → Option Expr
  | .pipe => some .pipe
  | .and => some .and
  | .or => some .or
  | _ => none

def Expr.noLeftArg : Expr → ParserError
  | .and => .andWithNoLeftArg
  | .or => .orWithNoLeftArg
  | _ => .pipeWithNoLeftArg

def Expr.notACommand : Expr → ParserError
  | .and => .andWithLeftArgNotACommand
  | .or => .orWithLeftArgNotACommand
  | _ => .pipeWithLeftArgNotACommand

inductive Words : List Token → Command → Prop where
  | exe {t : Token} (word : t.type = .str) : Words [t] ⟨t.data, []⟩
  | arg {tokens : List Token} {cmd : Command} {t : Token} (front : Words tokens cmd)
      (word : t.type = .str) : Words (tokens ++ [t]) { cmd with args := cmd.args ++ [t.data] }

inductive Exprs : List Token → List Expr → Prop where
  | command {tokens : List Token} {cmd : Command} (words : Words tokens cmd) :
      Exprs tokens [.command cmd]
  | chain {front tokens : List Token} {exprs : List Expr} {t : Token} {operator : Expr}
      {cmd : Command} (left : Exprs front exprs) (joined : operatorOf t.type = some operator)
      (words : Words tokens cmd) :
      Exprs (front ++ t :: tokens) (exprs ++ [operator, .command cmd])

inductive Redirection : List Token → OutputType → Text → Prop where
  | stdout : Redirection [] .stdout []
  | fileNew {t file : Token} (arrow : t.type = .outNew) (word : file.type = .str) :
      Redirection [t, file] .fileNew file.data
  | fileAppend {t file : Token} (arrow : t.type = .outAppend) (word : file.type = .str) :
      Redirection [t, file] .fileAppend file.data

inductive Background : List Token → Bool → Prop where
  | foreground : Background [] false
  | background {t : Token} (mark : t.type = .background) : Background [t] true

def Ending (tokens : List Token) (line : CommandLine) : Prop :=
  ∃ redirection background, tokens = redirection ++ background ∧
    Redirection redirection line.outType line.outFile ∧ Background background line.isBackground

def Grammar (tokens : List Token) (line : CommandLine) : Prop :=
  ∃ front ending, tokens = front ++ ending ∧ Exprs front line.exprs ∧ Ending ending line

-- `dangling`: the line ends where the file of a redirection is missing.
inductive Verdict where
  | failed
  | line (line : CommandLine)
  | error (code : ParserError)
  | dangling
deriving DecidableEq, Repr

def finishTokens (line : CommandLine) : List Token → Verdict
  | [] =>
      match line.exprs.getLast? with
      | none => .failed
      | some last => if last.isCommand then .line line else .error .endsNotWithACommand
  | _ :: _ => .error .tooLateArguments

def backgroundTokens (line : CommandLine) : List Token → Verdict
  | [] => finishTokens line []
  | t :: rest =>
      if t.type = .background then finishTokens { line with isBackground := true } rest
      else finishTokens line (t :: rest)

def closeTokens (line : CommandLine) : List Token → Verdict
  | [] => backgroundTokens line []
  | t :: rest =>
      if t.type = .outNew ∨ t.type = .outAppend then
        match rest with
        | [] => .dangling
        | file :: rest =>
            if file.type ≠ .str then .error .outoutRedirectBadArg
            else
              let outType := if t.type = .outNew then .fileNew else .fileAppend
              backgroundTokens { line with outType := outType, outFile := file.data } rest
      else backgroundTokens line (t :: rest)

def readTokens (exprs : List Expr) : List Token → Verdict
  | [] => closeTokens (lineOf exprs) []
  | t :: rest =>
      match readToken exprs t with
      | .failed => .failed
      | .more exprs => readTokens exprs rest
      | .close => closeTokens (lineOf exprs) (t :: rest)
      | .error code => .error code

inductive Reading : List Token → List Expr → Prop where
  | start : Reading [] []
  | command {tokens : List Token} {exprs : List Expr} (read : Exprs tokens exprs) :
      Reading tokens exprs
  | operator {tokens : List Token} {exprs : List Expr} {t : Token} {operator : Expr}
      (read : Exprs tokens exprs) (joined : operatorOf t.type = some operator) :
      Reading (tokens ++ [t]) (exprs ++ [operator])

inductive Fault : List Token → ParserError → Prop where
  | noLeftArg {t : Token} {operator : Expr} (joined : operatorOf t.type = some operator)
      (more : List Token) : Fault (t :: more) operator.noLeftArg
  | notACommand {front : List Token} {exprs : List Expr} {t u : Token} {first operator : Expr}
      (read : Exprs front exprs) (joined : operatorOf t.type = some first)
      (again : operatorOf u.type = some operator) (more : List Token) :
      Fault (front ++ t :: u :: more) operator.notACommand
  | badArg {front : List Token} {exprs : List Expr} {t file : Token} (read : Reading front exprs)
      (arrow : t.type = .outNew ∨ t.type = .outAppend) (bad : file.type ≠ .str)
      (more : List Token) : Fault (front ++ t :: file :: more) .outoutRedirectBadArg
  | tooLate {front tail : List Token} {exprs : List Expr} {line : CommandLine} {t : Token}
      (read : Reading front exprs) (ending : Ending tail line) (nonempty : tail ≠ [])
      (late : ∀ line, ¬Ending (tail ++ [t]) line) (more : List Token) :
      Fault (front ++ (tail ++ t :: more)) .tooLateArguments
  | endsNotWithACommand {front tail : List Token} {exprs : List Expr} {line : CommandLine}
      {t : Token} {operator : Expr} (read : Exprs front exprs)
      (joined : operatorOf t.type = some operator) (ending : Ending tail line) :
      Fault (front ++ t :: tail) .endsNotWithACommand

-- The end of a line begins with a token that leaves the main loop.
def Closing (tokens : List Token) : Prop :=
  ∀ t, tokens.head? = some t → t.type = .outNew ∨ t.type = .outAppend ∨ t.type = .background

theorem operatorOf_notCommand {type : TokenType} {operator : Expr}
    (joined : operatorOf type = some operator) : operator.isCommand = false := by
  cases type <;> cases joined <;> rfl

theorem Exprs.last {tokens : List Token} {exprs : List Expr} (read : Exprs tokens exprs) :
    ∃ init cmd, exprs = init ++ [.command cmd] := by
  cases read with
  | command words => exact ⟨[], _, rfl⟩
  | chain left joined words => exact ⟨_, _, by rw [List.append_cons]⟩

theorem pushWord_command (init : List Expr) (cmd : Command) (word : Text) :
    pushWord (init ++ [.command cmd]) word =
      init ++ [.command { cmd with args := cmd.args ++ [word] }] := by
  simp [pushWord]

theorem pushWord_operator {init : List Expr} {operator : Expr}
    (notCommand : operator.isCommand = false) (word : Text) :
    pushWord (init ++ [operator]) word = init ++ [operator] ++ [.command ⟨word, []⟩] := by
  cases operator with
  | command cmd => cases notCommand
  | pipe | and | or => simp [pushWord]

theorem readToken_str {exprs : List Expr} {t : Token} (word : t.type = .str) :
    readToken exprs t = .more (pushWord exprs t.data) := by
  rw [readToken, word]

theorem readToken_operator {t : Token} {operator : Expr}
    (joined : operatorOf t.type = some operator) (exprs : List Expr) :
    readToken exprs t = pushOperator exprs operator operator.noLeftArg operator.notACommand := by
  cases type : t.type <;> rw [type] at joined <;> cases joined
  all_goals
    rw [readToken, type]
    rfl

theorem pushOperator_command (init : List Expr) (cmd : Command) (operator : Expr)
    (left right : ParserError) :
    pushOperator (init ++ [.command cmd]) operator left right =
      .more (init ++ [.command cmd] ++ [operator]) := by
  simp [pushOperator, Expr.isCommand]

theorem pushOperator_more {exprs exprs' : List Expr} {operator : Expr} {left right : ParserError}
    (more : pushOperator exprs operator left right = .more exprs') :
    exprs' = exprs ++ [operator] ∧ ∃ last, exprs.getLast? = some last ∧ last.isCommand = true := by
  unfold pushOperator at more
  split at more
  · cases more
  · next last found =>
      split at more
      · next isCommand =>
          cases more
          exact ⟨rfl, last, found, isCommand⟩
      · cases more

theorem pushOperator_turn (exprs : List Expr) (operator : Expr) (left right : ParserError) :
    (∃ exprs', pushOperator exprs operator left right = .more exprs') ∨
      ∃ code, pushOperator exprs operator left right = .error code := by
  unfold pushOperator
  split
  · exact Or.inr ⟨_, rfl⟩
  · split
    · exact Or.inl ⟨_, rfl⟩
    · exact Or.inr ⟨_, rfl⟩

theorem readToken_leaves {exprs : List Expr} {t : Token}
    (leaves : readToken exprs t = .failed ∨ readToken exprs t = .close)
    (inner : t.type ≠ .newLine ∧ t.type ≠ .none) :
    readToken exprs t = .close ∧
      (t.type = .outNew ∨ t.type = .outAppend ∨ t.type = .background) := by
  have join {operator : Expr} (joined : operatorOf t.type = some operator) : False := by
    rw [readToken_operator joined] at leaves
    rcases pushOperator_turn exprs operator operator.noLeftArg operator.notACommand with
      ⟨_, turn⟩ | ⟨_, turn⟩ <;> simp [turn] at leaves
  cases type : t.type with
  | str => simp [readToken_str type] at leaves
  | newLine => exact absurd type inner.1
  | none => exact absurd type inner.2
  | pipe | and | or => exact (join (by rw [type]; rfl)).elim
  | outNew | outAppend | background => simp [readToken, type]

theorem Exprs.word {tokens : List Token} {exprs : List Expr} {t : Token} (read : Exprs tokens exprs)
    (word : t.type = .str) : Exprs (tokens ++ [t]) (pushWord exprs t.data) := by
  cases read with
  | command words => exact .command (words.arg word)
  | chain left joined words =>
      rw [List.append_cons _ _ [_], pushWord_command, List.append_assoc, List.append_assoc]
      exact .chain left joined (words.arg word)

theorem Reading.step {tokens : List Token} {exprs exprs' : List Expr} {t : Token}
    (read : Reading tokens exprs) (line : t.type ≠ .newLine)
    (more : readToken exprs t = .more exprs') : Reading (tokens ++ [t]) exprs' := by
  have word (str : t.type = .str) : Reading (tokens ++ [t]) exprs' := by
    rw [readToken_str str] at more
    cases more
    cases read with
    | start => exact .command (.command (.exe str))
    | command read => exact .command (read.word str)
    | operator read joined =>
        rw [pushWord_operator (operatorOf_notCommand joined), List.append_assoc, List.append_assoc]
        exact .command (.chain read joined (.exe str))
  have join {operator : Expr} (joined : operatorOf t.type = some operator) :
      Reading (tokens ++ [t]) exprs' := by
    rw [readToken_operator joined] at more
    obtain ⟨rfl, last, found, isCommand⟩ := pushOperator_more more
    cases read with
    | start => cases found
    | command read => exact .operator read joined
    | operator read before =>
        rw [List.getLast?_concat] at found
        cases found
        rw [operatorOf_notCommand before] at isCommand
        cases isCommand
  cases type : t.type with
  | str => exact word type
  | newLine => exact absurd type line
  | pipe | and | or => exact join (by rw [type]; rfl)
  | none | outNew | outAppend | background => simp [readToken, type] at more

theorem Words.readTokens {tokens : List Token} {cmd : Command} (words : Words tokens cmd)
    {exprs : List Expr} (starts : ∀ word, pushWord exprs word = exprs ++ [.command ⟨word, []⟩])
    (rest : List Token) :
    readTokens exprs (tokens ++ rest) = readTokens (exprs ++ [.command cmd]) rest := by
  induction words generalizing rest with
  | exe word =>
      rw [List.singleton_append, Shell.readTokens, readToken_str word, starts]
  | arg front word ih =>
      rw [List.append_assoc, ih, List.singleton_append, Shell.readTokens, readToken_str word,
        pushWord_command]

theorem Exprs.readTokens {tokens : List Token} {exprs : List Expr} (read : Exprs tokens exprs)
    (rest : List Token) : readTokens [] (tokens ++ rest) = readTokens exprs rest := by
  induction read generalizing rest with
  | command words => exact words.readTokens (fun word => rfl) rest
  | @chain front tokens exprs t operator cmd left joined words ih =>
      obtain ⟨init, last, rfl⟩ := left.last
      rw [List.append_assoc, ih, List.cons_append, Shell.readTokens, readToken_operator joined,
        pushOperator_command]
      dsimp only
      rw [words.readTokens fun word => pushWord_operator (operatorOf_notCommand joined) word]
      rw [List.append_assoc (init ++ [_])]
      rfl

theorem Reading.readTokens {tokens : List Token} {exprs : List Expr} (read : Reading tokens exprs)
    (rest : List Token) : readTokens [] (tokens ++ rest) = readTokens exprs rest := by
  cases read with
  | start => rfl
  | command read => exact read.readTokens rest
  | operator read joined =>
      obtain ⟨init, last, rfl⟩ := read.last
      rw [List.append_assoc, read.readTokens, List.singleton_append, Shell.readTokens,
        readToken_operator joined, pushOperator_command]

theorem readTokens_closing (exprs : List Expr) {tokens : List Token} (closing : Closing tokens) :
    readTokens exprs tokens = closeTokens (lineOf exprs) tokens := by
  cases tokens with
  | nil => rfl
  | cons t rest =>
      have closes : readToken exprs t = .close := by
        rcases closing t rfl with type | type | type <;> simp [readToken, type]
      rw [readTokens, closes]

theorem Reading.exprs {tokens : List Token} {exprs : List Expr} {last : Expr}
    (read : Reading tokens exprs) (found : exprs.getLast? = some last)
    (isCommand : last.isCommand = true) : Exprs tokens exprs := by
  cases read with
  | start => cases found
  | command read => exact read
  | operator read joined =>
      rw [List.getLast?_concat] at found
      cases found
      rw [operatorOf_notCommand joined] at isCommand
      cases isCommand

theorem Reading.empty {tokens : List Token} (read : Reading tokens []) : tokens = [] := by
  generalize none : ([] : List Expr) = exprs at read
  cases read with
  | start => rfl
  | command read =>
      obtain ⟨init, cmd, rfl⟩ := read.last
      simp at none
  | operator read joined => simp at none

theorem Reading.ends {tokens : List Token} {exprs : List Expr} {last : Expr}
    (read : Reading tokens exprs) (found : exprs.getLast? = some last)
    (notCommand : ¬last.isCommand = true) : ∃ front exprs' t operator, tokens = front ++ [t] ∧
      Exprs front exprs' ∧ operatorOf t.type = some operator := by
  cases read with
  | start => cases found
  | command read =>
      obtain ⟨init, cmd, rfl⟩ := read.last
      rw [List.getLast?_concat] at found
      cases found
      exact absurd rfl notCommand
  | operator read joined => exact ⟨_, _, _, _, rfl, read, joined⟩

theorem readToken_error {front : List Token} {exprs : List Expr} {t : Token} {code : ParserError}
    (read : Reading front exprs) (wrong : readToken exprs t = .error code) (more : List Token) :
    Fault (front ++ t :: more) code := by
  have join {operator : Expr} (joined : operatorOf t.type = some operator) :
      Fault (front ++ t :: more) code := by
    rw [readToken_operator joined, pushOperator] at wrong
    split at wrong
    · next none =>
        cases wrong
        rw [List.getLast?_eq_none_iff] at none
        rw [none] at read
        rw [read.empty]
        exact .noLeftArg joined more
    · next last found =>
        split at wrong
        · cases wrong
        · next notCommand =>
            cases wrong
            obtain ⟨before, exprs', u, first, rfl, read', joined'⟩ := read.ends found notCommand
            rw [List.append_assoc]
            exact .notACommand read' joined' joined more
  cases type : t.type with
  | str => simp [readToken_str type] at wrong
  | newLine =>
      rw [readToken, type] at wrong
      dsimp only at wrong
      split at wrong <;> cases wrong
  | pipe | and | or => exact join (by rw [type]; rfl)
  | none | outNew | outAppend | background => simp [readToken, type] at wrong

theorem readTokens_split {front : List Token} {exprs : List Expr} {tokens : List Token}
    (read : Reading front exprs) (inner : ∀ t ∈ tokens, t.type ≠ .newLine ∧ t.type ≠ .none) :
    (∃ code, Fault (front ++ tokens) code) ∨
      ∃ middle exprs' tail, tokens = middle ++ tail ∧ Closing tail ∧
        Reading (front ++ middle) exprs' := by
  induction tokens generalizing front exprs with
  | nil =>
      exact Or.inr ⟨[], exprs, [], rfl, by simp [Closing], by simpa using read⟩
  | cons t rest ih =>
      have first := inner t (by simp)
      cases turn : readToken exprs t with
      | failed =>
          have closes := (readToken_leaves (Or.inl turn) first).1
          rw [turn] at closes
          cases closes
      | more exprs' =>
          rcases ih (read.step first.1 turn) fun t mem => inner t (by simp [mem]) with
            ⟨code, fault⟩ | ⟨middle, exprs'', tail, rfl, closing, read'⟩
          · exact Or.inl ⟨code, by simpa using fault⟩
          · exact Or.inr ⟨t :: middle, exprs'', tail, rfl, closing, by simpa using read'⟩
      | close =>
          refine Or.inr ⟨[], exprs, t :: rest, rfl, ?_, by simpa using read⟩
          rintro t' ⟨⟩
          exact (readToken_leaves (Or.inr turn) first).2
      | error code => exact Or.inl ⟨code, readToken_error read turn rest⟩

theorem Ending.closing {tokens : List Token} {line : CommandLine} (ending : Ending tokens line) :
    Closing tokens := by
  obtain ⟨redirection, background, rfl, redirects, marks⟩ := ending
  obtain ⟨exprs, outType, outFile, isBackground⟩ := line
  dsimp only at redirects marks
  rintro t first
  cases redirects with
  | stdout =>
      cases marks with
      | foreground => cases first
      | background mark =>
          cases first
          exact Or.inr (Or.inr mark)
  | fileNew arrow word =>
      cases first
      exact Or.inl arrow
  | fileAppend arrow word =>
      cases first
      exact Or.inr (Or.inl arrow)

theorem backgroundTokens_mark {tokens : List Token} {isBackground : Bool} (line : CommandLine)
    (marks : Background tokens isBackground) (foreground : line.isBackground = false) :
    backgroundTokens line tokens = finishTokens { line with isBackground := isBackground } [] := by
  cases marks with
  | foreground =>
      rw [backgroundTokens, ← foreground]
  | background mark => rw [backgroundTokens, if_pos mark]

theorem Ending.closeTokens {tokens : List Token} {line : CommandLine}
    (ending : Ending tokens line) : closeTokens (lineOf line.exprs) tokens = finishTokens line [] := by
  obtain ⟨redirection, background, rfl, redirects, marks⟩ := ending
  obtain ⟨exprs, outType, outFile, isBackground⟩ := line
  dsimp only at redirects marks ⊢
  cases redirects with
  | stdout =>
      have same := backgroundTokens_mark (lineOf exprs) marks rfl
      cases marks with
      | foreground => exact same
      | background mark =>
          rw [List.nil_append, Shell.closeTokens, if_neg (by simp [mark]), same]
          rfl
  | fileNew arrow word =>
      rw [List.cons_append, List.singleton_append, Shell.closeTokens, if_pos (Or.inl arrow),
        if_neg (by simp [word]), if_pos arrow, backgroundTokens_mark _ marks rfl]
      rfl
  | fileAppend arrow word =>
      rw [List.cons_append, List.singleton_append, Shell.closeTokens, if_pos (Or.inr arrow),
        if_neg (by simp [word]), if_neg (by simp [arrow]), backgroundTokens_mark _ marks rfl]
      rfl

theorem Ending.closeTokens_late {tail : List Token} {line : CommandLine} {t : Token}
    (ending : Ending tail line) (nonempty : tail ≠ []) (late : ∀ line, ¬Ending (tail ++ [t]) line)
    (exprs : List Expr) (more : List Token) :
    Shell.closeTokens (lineOf exprs) (tail ++ t :: more) = .error .tooLateArguments := by
  obtain ⟨redirection, background, rfl, redirects, marks⟩ := ending
  obtain ⟨exprs', outType, outFile, isBackground⟩ := line
  dsimp only at redirects marks
  have behind {outType : OutputType} {outFile : Text} (line : CommandLine)
      (redirects : Redirection redirection outType outFile) (redirected : redirection ≠ []) :
      backgroundTokens line (background ++ t :: more) = .error .tooLateArguments := by
    cases marks with
    | foreground =>
        rw [List.nil_append, backgroundTokens, if_neg]
        · rfl
        · intro mark
          refine late ⟨exprs', outType, outFile, true⟩ ⟨redirection, [t], ?_, redirects, .background mark⟩
          rw [List.append_nil]
    | background mark =>
        rw [List.singleton_append, backgroundTokens, if_pos mark]
        rfl
  cases redirects with
  | stdout =>
      cases marks with
      | foreground => exact absurd rfl nonempty
      | background mark =>
          rw [List.nil_append, List.singleton_append, Shell.closeTokens, if_neg (by simp [mark]),
            backgroundTokens, if_pos mark]
          rfl
  | fileNew arrow word =>
      rw [List.append_assoc, List.cons_append, List.singleton_append, Shell.closeTokens,
        if_pos (Or.inl arrow), if_neg (by simp [word])]
      exact behind _ (.fileNew arrow word) (by simp)
  | fileAppend arrow word =>
      rw [List.append_assoc, List.cons_append, List.singleton_append, Shell.closeTokens,
        if_pos (Or.inr arrow), if_neg (by simp [word])]
      exact behind _ (.fileAppend arrow word) (by simp)

theorem background_cases (tokens : List Token) :
    (∃ isBackground, Background tokens isBackground) ∨
      ∃ marks isBackground t more, tokens = marks ++ t :: more ∧ Background marks isBackground ∧
        ∀ isBackground, ¬Background (marks ++ [t]) isBackground := by
  cases tokens with
  | nil => exact Or.inl ⟨false, .foreground⟩
  | cons t rest =>
      by_cases mark : t.type = .background
      · cases rest with
        | nil => exact Or.inl ⟨true, .background mark⟩
        | cons next rest =>
            refine Or.inr ⟨[t], true, next, rest, rfl, .background mark, ?_⟩
            rintro isBackground ⟨⟩
      · refine Or.inr ⟨[], false, t, rest, rfl, .foreground, ?_⟩
        intro isBackground ended
        cases ended with
        | background mark' => exact mark mark'

theorem closing_cases {front tokens : List Token} {exprs : List Expr} (read : Reading front exprs)
    (closing : Closing tokens) :
    (∃ line, Ending tokens line ∧ line.exprs = exprs) ∨
      (∃ t, tokens = [t] ∧ (t.type = .outNew ∨ t.type = .outAppend)) ∨
        ∃ code, Fault (front ++ tokens) code := by
  cases tokens with
  | nil => exact Or.inl ⟨lineOf exprs, ⟨[], [], rfl, .stdout, .foreground⟩, rfl⟩
  | cons t rest =>
      by_cases arrow : t.type = .outNew ∨ t.type = .outAppend
      · cases rest with
        | nil => exact Or.inr (Or.inl ⟨t, rfl, arrow⟩)
        | cons file rest =>
            by_cases word : file.type = .str
            · obtain ⟨outType, redirects⟩ : ∃ outType, Redirection [t, file] outType file.data := by
                rcases arrow with arrow | arrow
                · exact ⟨.fileNew, .fileNew arrow word⟩
                · exact ⟨.fileAppend, .fileAppend arrow word⟩
              rcases background_cases rest with
                ⟨isBackground, marks⟩ | ⟨marks, isBackground, u, more, rfl, ended, late⟩
              · exact Or.inl ⟨⟨exprs, outType, file.data, isBackground⟩,
                  ⟨[t, file], rest, rfl, redirects, marks⟩, rfl⟩
              · have ending : Ending (t :: file :: marks) ⟨exprs, outType, file.data, isBackground⟩ :=
                  ⟨[t, file], marks, rfl, redirects, ended⟩
                refine Or.inr (Or.inr ⟨_, .tooLate read ending (by simp) ?_ more⟩)
                rintro ⟨exprs', outType', outFile', isBackground'⟩
                  ⟨redirection, background, split, redirects', ended'⟩
                dsimp only at redirects' ended'
                cases redirects' with
                | stdout =>
                    rw [List.nil_append] at split
                    rw [← split] at ended'
                    cases ended'
                | fileNew | fileAppend =>
                    cases split
                    exact late _ ended'
            · exact Or.inr (Or.inr ⟨_, .badArg read arrow word rest⟩)
      · have mark : t.type = .background := by
          have type := closing t rfl
          tauto
        rcases background_cases (t :: rest) with
          ⟨isBackground, marks⟩ | ⟨marks, isBackground, u, more, split, ended, late⟩
        · exact Or.inl ⟨⟨exprs, .stdout, [], isBackground⟩,
            ⟨[], t :: rest, rfl, .stdout, marks⟩, rfl⟩
        · have nonempty : marks ≠ [] := by
            rintro rfl
            cases split
            exact late true (.background mark)
          obtain ⟨t', marks', rfl⟩ := List.exists_cons_of_ne_nil nonempty
          cases split
          have ending : Ending (t :: marks') ⟨exprs, .stdout, [], isBackground⟩ :=
            ⟨[], t :: marks', rfl, .stdout, ended⟩
          refine Or.inr (Or.inr ⟨_, .tooLate read ending nonempty ?_ more⟩)
          rintro ⟨exprs', outType', outFile', isBackground'⟩
            ⟨redirection, background, split, redirects', ended'⟩
          dsimp only at redirects' ended'
          cases redirects' with
          | stdout =>
              rw [List.nil_append] at split
              exact late _ (split ▸ ended')
          | fileNew arrow' | fileAppend arrow' =>
              have same := congrArg List.head? split
              cases same
              exact arrow (by tauto)

-- A line without a command: a redirection or a background mark on its own.
def Bare (tokens : List Token) : Prop := ∃ line, Ending tokens line

-- A line that ends in a redirection operator, up to which the parser reads it.
def Dangling (tokens : List Token) : Prop :=
  ∃ front exprs t, tokens = front ++ [t] ∧ Reading front exprs ∧
    (t.type = .outNew ∨ t.type = .outAppend)

theorem Grammar.readTokens {tokens : List Token} {line : CommandLine}
    (grammar : Grammar tokens line) : readTokens [] tokens = .line line := by
  obtain ⟨front, tail, rfl, read, ending⟩ := grammar
  rw [read.readTokens, readTokens_closing _ ending.closing, ending.closeTokens, finishTokens]
  obtain ⟨init, cmd, same⟩ := read.last
  simp [same, Expr.isCommand]

theorem Bare.readTokens {tokens : List Token} (bare : Bare tokens) :
    readTokens [] tokens = .failed := by
  obtain ⟨line, ending⟩ := bare
  have ending' : Ending tokens { line with exprs := [] } := ending
  rw [readTokens_closing _ ending'.closing]
  exact ending'.closeTokens

theorem Dangling.readTokens {tokens : List Token} (dangling : Dangling tokens) :
    readTokens [] tokens = .dangling := by
  obtain ⟨front, exprs, t, rfl, read, arrow⟩ := dangling
  have closing : Closing [t] := by
    rintro t' ⟨⟩
    tauto
  rw [read.readTokens, readTokens_closing _ closing, closeTokens, if_pos arrow]

theorem Fault.readTokens {tokens : List Token} {code : ParserError} (fault : Fault tokens code) :
    readTokens [] tokens = .error code := by
  cases fault with
  | noLeftArg joined more => rw [Shell.readTokens, readToken_operator joined]; rfl
  | notACommand read joined again more =>
      have read' := Reading.operator read joined
      rw [List.append_cons, read'.readTokens, Shell.readTokens, readToken_operator again, pushOperator,
        List.getLast?_concat]
      simp [operatorOf_notCommand joined]
  | @badArg front exprs t file read arrow bad more =>
      have closing : Closing (t :: file :: more) := by
        rintro t' ⟨⟩
        tauto
      rw [read.readTokens, readTokens_closing _ closing, closeTokens, if_pos arrow]
      exact if_pos bad
  | @tooLate front tail exprs line t read ending nonempty late more =>
      have closing : Closing (tail ++ t :: more) := by
        intro t' first
        obtain ⟨u, tail', rfl⟩ := List.exists_cons_of_ne_nil nonempty
        exact ending.closing t' first
      rw [read.readTokens, readTokens_closing _ closing, ending.closeTokens_late nonempty late]
  | @endsNotWithACommand front tail exprs line t operator read joined ending =>
      have ending' : Ending tail { line with exprs := exprs ++ [operator] } := ending
      have read' := Reading.operator read joined
      rw [List.append_cons, read'.readTokens, readTokens_closing _ ending.closing]
      rw [ending'.closeTokens, finishTokens, List.getLast?_concat]
      simp [operatorOf_notCommand joined]

theorem readTokens_cases {tokens : List Token}
    (inner : ∀ t ∈ tokens, t.type ≠ .newLine ∧ t.type ≠ .none) :
    (∃ line, Grammar tokens line) ∨ Bare tokens ∨ Dangling tokens ∨ ∃ code, Fault tokens code := by
  rcases readTokens_split .start inner with wrong | ⟨middle, exprs, tail, rfl, closing, read⟩
  · exact Or.inr (Or.inr (Or.inr wrong))
  rw [List.nil_append] at read
  rcases closing_cases read closing with ⟨line, ending, rfl⟩ | ⟨t, rfl, arrow⟩ | wrong
  · cases found : line.exprs.getLast? with
    | none =>
        rw [List.getLast?_eq_none_iff] at found
        rw [found] at read
        rw [read.empty]
        exact Or.inr (Or.inl ⟨line, ending⟩)
    | some last =>
        by_cases isCommand : last.isCommand = true
        · exact Or.inl ⟨line, middle, tail, rfl, read.exprs found isCommand, ending⟩
        · obtain ⟨front, exprs, t, operator, rfl, read', joined⟩ := read.ends found isCommand
          refine Or.inr (Or.inr (Or.inr ⟨.endsNotWithACommand, ?_⟩))
          rw [List.append_assoc]
          exact .endsNotWithACommand read' joined ending
  · exact Or.inr (Or.inr (Or.inl ⟨middle, exprs, t, rfl, read, arrow⟩))
  · exact Or.inr (Or.inr (Or.inr wrong))

end SystemProg.Shell
