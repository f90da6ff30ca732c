import SystemProg.Lib.Stream
import SystemProg.Shell.Parser

set_option autoImplicit false

-- The parser keeps nothing but its buffer, so it reads an incomplete line again from its start.
-- What it decides about a buffer it decides about every longer one.

namespace SystemProg.Shell

theorem scanComment_append {used : Nat} {input : Text} (more : Text)
    (settled : scanComment used input ≠ .incomplete) :
    scanComment used (input ++ more) = scanComment used input := by
  induction input generalizing used with
  | nil => exact absurd rfl settled
  | cons c rest ih =>
      simp only [scanComment, List.cons_append] at settled ⊢
      split
      · rfl
      · next other => exact ih (by simpa [other] using settled)

-- The turns that do not look at the next byte.
inductive Plain : Move → Prop where
  | failed : Plain .failed
  | comment : Plain .comment
  | one (quote : Byte) (data : Text) : Plain (.one quote data)
  | word (data : Text) (length : Nat) (short : length ≤ 1) : Plain (.token .str data length)

inductive WordCase (quote : Byte) (data : Text) (c : Byte) : Prop where
  | escape (taken : ∀ escape operator, wordSwitch quote data c escape operator = escape)
  | operator (taken : ∀ escape operator, wordSwitch quote data c escape operator = operator)
  | plain (move : Move) (taken : ∀ escape operator, wordSwitch quote data c escape operator = move)
      (kind : Plain move)

theorem wordCase (quote : Byte) (data : Text) (c : Byte) : WordCase quote data c := by
  by_cases quoting : c = byte '\'' ∨ c = byte '"'
  · by_cases zero : quote = 0
    · exact .plain _ (fun _ _ => by rw [wordSwitch, if_pos quoting, if_pos zero]) (.one _ _)
    by_cases other : quote ≠ c
    · exact .plain _ (fun _ _ => by rw [wordSwitch, if_pos quoting, if_neg zero, if_pos other])
        (.one _ _)
    · exact .plain _ (fun _ _ => by rw [wordSwitch, if_pos quoting, if_neg zero, if_neg other])
        (.word _ _ (Nat.le_refl _))
  by_cases escaping : c = byte '\\'
  · by_cases single : quote = byte '\''
    · exact .plain _ (fun _ _ => by rw [wordSwitch, if_neg quoting, if_pos escaping, if_pos single])
        (.one _ _)
    · exact .escape fun _ _ => by rw [wordSwitch, if_neg quoting, if_pos escaping, if_neg single]
  by_cases operating : c = byte '&' ∨ c = byte '|' ∨ c = byte '>'
  · by_cases quoted : quote ≠ 0
    · exact .plain _ (fun _ _ => by
        rw [wordSwitch, if_neg quoting, if_neg escaping, if_pos operating, if_pos quoted]) (.one _ _)
    by_cases word : data ≠ []
    · exact .plain _ (fun _ _ => by
        rw [wordSwitch, if_neg quoting, if_neg escaping, if_pos operating, if_neg quoted,
          if_pos word]) (.word _ _ (by omega))
    · exact .operator fun _ _ => by
        rw [wordSwitch, if_neg quoting, if_neg escaping, if_pos operating, if_neg quoted, if_neg word]
  refine .plain _ (fun _ _ => by rw [wordSwitch, if_neg quoting, if_neg escaping, if_neg operating]) ?_
  split_ifs
  · exact .one _ _
  · exact .failed
  · exact .word _ _ (Nat.le_refl _)
  · exact .one _ _
  · exact .failed
  · exact .word _ _ (by omega)
  · exact .one _ _
  · exact .word _ _ (by omega)
  · exact .comment
  · exact .one _ _

theorem escapeMove_next {quote : Byte} {data : Text} (next : Option Byte)
    (settled : escapeMove quote data none ≠ .incomplete) :
    escapeMove quote data next = escapeMove quote data none := by
  cases next with
  | none => rfl
  | some d =>
      simp only [escapeMove] at settled ⊢
      by_cases known : quote = byte '"' ∨ quote = 0
      · rw [if_pos known] at settled
        exact absurd rfl settled
      · rw [if_neg fun double => known (Or.inl double), if_pos fun zero => known (Or.inr zero),
          if_neg known]

theorem wordMove_next {quote : Byte} {data : Text} {c : Byte} (next : Option Byte)
    (settled : wordMove quote data c none ≠ .incomplete) :
    wordMove quote data c next = wordMove quote data c none := by
  unfold wordMove at settled ⊢
  cases wordCase quote data c with
  | escape taken =>
      rw [taken] at settled
      rw [taken, taken, escapeMove_next next settled]
  | operator taken =>
      rw [taken] at settled
      exact absurd rfl settled
  | plain move taken kind => rw [taken, taken]

theorem wordMove_two {quote quote' : Byte} {data data' : Text} {c : Byte} {next : Option Byte}
    (move : wordMove quote data c next = .two quote' data') : next ≠ none := by
  rintro rfl
  unfold wordMove at move
  cases wordCase quote data c with
  | escape taken =>
      rw [taken, escapeMove] at move
      split at move <;> cases move
  | operator taken =>
      rw [taken] at move
      cases move
  | plain plain taken kind =>
      rw [taken] at move
      subst move
      cases kind

theorem wordMove_token {quote : Byte} {data data' : Text} {c : Byte} {next : Option Byte}
    {type : TokenType} {length : Nat} (move : wordMove quote data c next = .token type data' length) :
    (length ≤ 1 ∨ (length = 2 ∧ next ≠ none)) ∧ type ≠ .none ∧ type ≠ .newLine := by
  unfold wordMove at move
  cases wordCase quote data c with
  | escape taken =>
      rw [taken] at move
      cases next with
      | none =>
          simp only [escapeMove] at move
          split at move <;> cases move
      | some d =>
          simp only [escapeMove] at move
          split_ifs at move
  | operator taken =>
      rw [taken] at move
      cases next with
      | none => cases move
      | some d =>
          have types (doubled : Bool) :
              operatorType c doubled ≠ .none ∧ operatorType c doubled ≠ .newLine := by
            unfold operatorType
            split_ifs <;> simp
          simp only [operatorMove] at move
          split at move <;> cases move
          · exact ⟨Or.inr ⟨rfl, by simp⟩, types true⟩
          · exact ⟨Or.inl (Nat.le_refl _), types false⟩
  | plain plain taken kind =>
      rw [taken] at move
      subst move
      cases kind with
      | word data length short => exact ⟨Or.inl short, by simp⟩

theorem scanWord_cons (used : Nat) (quote : Byte) (data : Text) (c : Byte) (rest : Text) :
    scanWord used quote data (c :: rest) =
      match wordMove quote data c rest.head? with
      | .failed => .failed
      | .incomplete => .incomplete
      | .token type data length => .token ⟨type, data⟩ (used + length)
      | .comment => scanComment (used + 1) rest
      | .one quote data => scanWord (used + 1) quote data rest
      | .two quote data => scanWord (used + 2) quote data rest.tail := by
  cases move : wordMove quote data c rest.head? <;> simp only [scanWord, move]

theorem wordMove_append {quote : Byte} {data : Text} {c : Byte} {rest : Text} (more : Text)
    (settled : wordMove quote data c rest.head? ≠ .incomplete) :
    wordMove quote data c (rest ++ more).head? = wordMove quote data c rest.head? := by
  cases rest with
  | nil => exact wordMove_next _ settled
  | cons d rest => rfl

theorem scanWord_append {used : Nat} {quote : Byte} {data input : Text} (more : Text)
    (settled : scanWord used quote data input ≠ .incomplete) :
    scanWord used quote data (input ++ more) = scanWord used quote data input := by
  induction length : input.length using Nat.strongRecOn generalizing used quote data input with
  | _ size ih =>
  cases input with
  | nil => exact absurd (by rw [scanWord]) settled
  | cons c rest =>
      rw [List.cons_append, scanWord_cons, scanWord_cons]
      rw [scanWord_cons] at settled
      rw [List.length_cons] at length
      rw [wordMove_append more fun waits => by simp [waits] at settled]
      cases move : wordMove quote data c rest.head? with
      | failed => rfl
      | incomplete => rfl
      | token type data length => rfl
      | comment => exact scanComment_append more (by simpa [move] using settled)
      | one quote data => exact ih rest.length (by omega) (by simpa [move] using settled) rfl
      | two quote data =>
          obtain ⟨d, tail, rfl⟩ : ∃ d tail, rest = d :: tail := by
            cases rest with
            | nil => exact absurd rfl (wordMove_two move)
            | cons d tail => exact ⟨d, tail, rfl⟩
          simp only [List.length_cons] at length
          rw [move] at settled
          exact ih tail.length (by omega) settled rfl

theorem scanToken_append {used : Nat} {input : Text} (more : Text)
    (settled : scanToken used input ≠ .incomplete) :
    scanToken used (input ++ more) = scanToken used input := by
  induction input generalizing used with
  | nil => exact absurd rfl settled
  | cons c rest ih =>
      simp only [scanToken, List.cons_append] at settled ⊢
      split
      · next space =>
          rw [if_pos space] at settled
          split
          · rfl
          · next other => exact ih (by simpa [other] using settled)
      · next word =>
          rw [if_neg word] at settled
          exact scanWord_append more settled

theorem parseToken_append {input : Text} (more : Text) (settled : parseToken input ≠ .incomplete) :
    parseToken (input ++ more) = parseToken input := by
  have scanned : scanToken 0 input ≠ .incomplete := fun waits => settled (by rw [parseToken, waits])
  rw [parseToken, scanToken_append more scanned, parseToken]

def Scan.Within (scan : Scan) (limit : Nat) : Prop := ∀ t used, scan = .token t used → used ≤ limit

theorem scanComment_within (used : Nat) (input : Text) :
    (scanComment used input).Within (used + input.length) := by
  induction input generalizing used with
  | nil => intro t n scanned; cases scanned
  | cons c rest ih =>
      intro t n scanned
      simp only [scanComment] at scanned
      simp only [List.length_cons]
      split at scanned
      · cases scanned
        omega
      · have := ih (used + 1) t n scanned
        omega

theorem scanWord_within (used : Nat) (quote : Byte) (data input : Text) :
    (scanWord used quote data input).Within (used + input.length) := by
  induction length : input.length using Nat.strongRecOn generalizing used quote data input with
  | _ size ih =>
  intro t n scanned
  cases input with
  | nil =>
      rw [scanWord] at scanned
      cases scanned
  | cons c rest =>
      rw [List.length_cons] at length
      rw [scanWord_cons] at scanned
      cases move : wordMove quote data c rest.head? with
      | failed | incomplete =>
          rw [move] at scanned
          cases scanned
      | token type data' taken =>
          rw [move] at scanned
          cases scanned
          rcases (wordMove_token move).1 with short | ⟨rfl, there⟩
          · omega
          · cases rest with
            | nil => exact absurd rfl there
            | cons d tail =>
                rw [List.length_cons] at length
                omega
      | comment =>
          rw [move] at scanned
          have := scanComment_within (used + 1) rest t n scanned
          omega
      | one quote data =>
          rw [move] at scanned
          have := ih rest.length (by omega) (used + 1) quote data rest rfl t n scanned
          omega
      | two quote data =>
          rw [move] at scanned
          cases rest with
          | nil => exact absurd rfl (wordMove_two move)
          | cons d tail =>
              rw [List.length_cons] at length
              have := ih tail.length (by omega) (used + 2) quote data tail rfl t n scanned
              omega

theorem scanToken_within (used : Nat) (input : Text) :
    (scanToken used input).Within (used + input.length) := by
  induction input generalizing used with
  | nil => intro t n scanned; cases scanned
  | cons c rest ih =>
      intro t n scanned
      simp only [scanToken] at scanned
      split at scanned
      · simp only [List.length_cons]
        split at scanned
        · cases scanned
          omega
        · have := ih (used + 1) t n scanned
          omega
      · exact scanWord_within used 0 [] (c :: rest) t n scanned

theorem parseToken_within {input : Text} {t : Token} {used : Nat}
    (scanned : parseToken input = .token t used) : 0 < used ∧ used ≤ input.length := by
  unfold parseToken at scanned
  cases found : scanToken 0 input with
  | failed | incomplete =>
      rw [found] at scanned
      cases scanned
  | token t' n =>
      rw [found] at scanned
      dsimp only at scanned
      split at scanned
      · cases scanned
      · next positive =>
          cases scanned
          have inside := scanToken_within 0 input _ n found
          have smaller : uint32 n ≤ n := Nat.mod_le _ _
          omega

theorem drop_append {input : Text} {used : Nat} (inside : used ≤ input.length) (more : Text) :
    (input ++ more).drop used = input.drop used ++ more :=
  List.drop_append_of_le_length inside

def Outcome.Within (outcome : Outcome) (pos limit : Nat) : Prop :=
  match outcome with
  | .failed | .noLine => True
  | .line _ consumed | .error _ consumed => pos < consumed ∧ consumed ≤ limit

theorem Outcome.Within.mono {outcome : Outcome} {pos pos' limit limit' : Nat}
    (within : outcome.Within pos limit) (before : pos' ≤ pos) (after : limit ≤ limit') :
    outcome.Within pos' limit' := by
  cases outcome with
  | failed | noLine => exact True.intro
  | line | error => exact ⟨Nat.lt_of_le_of_lt before within.1, Nat.le_trans within.2 after⟩

theorem skipLine_eq (code : ParserError) (pos : Nat) (rest : Text) : skipLine code pos rest =
    match parseToken rest with
    | .failed => .failed
    | .incomplete => .noLine
    | .token t used =>
        if t.type = .newLine then .error code (pos + used)
        else skipLine code (pos + used) (rest.drop used) := by
  rw [skipLine]
  cases parseToken rest <;> rfl

theorem skipLine_append (code : ParserError) {pos : Nat} {rest : Text} (more : Text)
    (settled : skipLine code pos rest ≠ .noLine) :
    skipLine code pos (rest ++ more) = skipLine code pos rest := by
  induction length : rest.length using Nat.strongRecOn generalizing pos rest with
  | _ size ih =>
  rw [skipLine_eq] at settled
  rw [skipLine_eq, skipLine_eq]
  cases scanned : parseToken rest with
  | incomplete => simp [scanned] at settled
  | failed => rw [parseToken_append more (by simp [scanned]), scanned]
  | token t used =>
      obtain ⟨positive, inside⟩ := parseToken_within scanned
      rw [parseToken_append more (by simp [scanned]), scanned]
      rw [scanned] at settled
      dsimp only at settled ⊢
      split
      · rfl
      · next other =>
          rw [if_neg other] at settled
          rw [drop_append inside]
          exact ih (rest.drop used).length (by rw [List.length_drop]; omega) settled rfl

theorem skipLine_within (code : ParserError) (pos : Nat) (rest : Text) :
    (skipLine code pos rest).Within pos (pos + rest.length) := by
  induction length : rest.length using Nat.strongRecOn generalizing pos rest with
  | _ size ih =>
  rw [skipLine_eq]
  cases scanned : parseToken rest with
  | incomplete | failed => exact True.intro
  | token t used =>
      obtain ⟨positive, inside⟩ := parseToken_within scanned
      dsimp only
      split
      · exact ⟨by omega, by omega⟩
      · have shorter : (rest.drop used).length = size - used := by rw [List.length_drop, length]
        exact (ih (size - used) (by omega) (pos + used) (rest.drop used) shorter).mono
          (by omega) (by omega)

theorem finishLine_append {line : CommandLine} {pos : Nat} {rest : Text} {token : Token}
    (more : Text) (settled : finishLine line pos rest token ≠ .noLine) :
    finishLine line pos (rest ++ more) token = finishLine line pos rest token := by
  unfold finishLine at settled ⊢
  split
  · rfl
  · next other =>
      rw [if_neg other] at settled
      exact skipLine_append _ more settled

theorem finishLine_within (line : CommandLine) {before pos : Nat} (rest : Text) (token : Token)
    (past : before < pos) :
    (finishLine line pos rest token).Within before (pos + rest.length) := by
  unfold finishLine
  split
  · cases line.exprs.getLast? with
    | none => exact True.intro
    | some last =>
        dsimp only
        split <;> exact ⟨past, by omega⟩
  · exact (skipLine_within _ pos rest).mono (by omega) (Nat.le_refl _)

theorem closeBackground_append {line : CommandLine} {pos : Nat} {rest : Text} {token : Token}
    (more : Text) (settled : closeBackground line pos rest token ≠ .noLine) :
    closeBackground line pos (rest ++ more) token = closeBackground line pos rest token := by
  unfold closeBackground at settled ⊢
  split
  · next here =>
      rw [if_pos here] at settled
      cases scanned : parseToken rest with
      | incomplete => simp [scanned] at settled
      | failed => rw [parseToken_append more (by simp [scanned]), scanned]
      | token next used =>
          obtain ⟨-, inside⟩ := parseToken_within scanned
          rw [scanned] at settled
          rw [parseToken_append more (by simp [scanned]), scanned]
          dsimp only
          rw [drop_append inside]
          exact finishLine_append more settled
  · next other =>
      rw [if_neg other] at settled
      exact finishLine_append more settled

theorem closeBackground_within (line : CommandLine) {before pos : Nat} (rest : Text)
    (token : Token) (past : before < pos) :
    (closeBackground line pos rest token).Within before (pos + rest.length) := by
  unfold closeBackground
  split
  · cases scanned : parseToken rest with
    | incomplete | failed => exact True.intro
    | token next used =>
        obtain ⟨positive, inside⟩ := parseToken_within scanned
        refine (finishLine_within _ (rest.drop used) next (by omega)).mono (Nat.le_refl _) ?_
        rw [List.length_drop]
        omega
  · exact finishLine_within line rest token past

theorem closeLine_append {line : CommandLine} {pos : Nat} {rest : Text} {token : Token}
    (more : Text) (settled : closeLine line pos rest token ≠ .noLine) :
    closeLine line pos (rest ++ more) token = closeLine line pos rest token := by
  unfold closeLine at settled ⊢
  split
  · next here =>
      rw [if_pos here] at settled
      cases scanned : parseToken rest with
      | incomplete => simp [scanned] at settled
      | failed => rw [parseToken_append more (by simp [scanned]), scanned]
      | token file used =>
          obtain ⟨-, inside⟩ := parseToken_within scanned
          rw [scanned] at settled
          rw [parseToken_append more (by simp [scanned]), scanned]
          dsimp only at settled ⊢
          rw [drop_append inside]
          split
          · next bad =>
              rw [if_pos bad] at settled
              exact skipLine_append _ more settled
          · next word =>
              rw [if_neg word] at settled
              cases scanned' : parseToken (rest.drop used) with
              | incomplete => simp [scanned'] at settled
              | failed => rw [parseToken_append more (by simp [scanned']), scanned']
              | token next used' =>
                  obtain ⟨-, inside'⟩ := parseToken_within scanned'
                  rw [scanned'] at settled
                  rw [parseToken_append more (by simp [scanned']), scanned']
                  dsimp only
                  rw [drop_append inside']
                  exact closeBackground_append more settled
  · next other =>
      rw [if_neg other] at settled
      exact closeBackground_append more settled

theorem closeLine_within (line : CommandLine) {before pos : Nat} (rest : Text) (token : Token)
    (past : before < pos) : (closeLine line pos rest token).Within before (pos + rest.length) := by
  unfold closeLine
  split
  · cases scanned : parseToken rest with
    | incomplete | failed => exact True.intro
    | token file used =>
        obtain ⟨positive, inside⟩ := parseToken_within scanned
        dsimp only
        split
        · refine (skipLine_within _ _ _).mono (by omega) ?_
          rw [List.length_drop]
          omega
        · cases scanned' : parseToken (rest.drop used) with
          | incomplete | failed => exact True.intro
          | token next used' =>
              obtain ⟨-, inside'⟩ := parseToken_within scanned'
              rw [List.length_drop] at inside'
              refine (closeBackground_within _ _ next (by omega)).mono (Nat.le_refl _) ?_
              rw [List.length_drop, List.length_drop]
              omega
  · exact closeBackground_within line rest token past

theorem parseLine_eq (exprs : List Expr) (pos : Nat) (rest : Text) : parseLine exprs pos rest =
    match parseToken rest with
    | .failed => .failed
    | .incomplete => .noLine
    | .token t used =>
        match readToken exprs t with
        | .failed => .failed
        | .more exprs => parseLine exprs (pos + used) (rest.drop used)
        | .close => closeLine (lineOf exprs) (pos + used) (rest.drop used) t
        | .error code => skipLine code (pos + used) (rest.drop used) := by
  rw [parseLine]
  cases parseToken rest <;> rfl

theorem parseLine_append {exprs : List Expr} {pos : Nat} {rest : Text} (more : Text)
    (settled : parseLine exprs pos rest ≠ .noLine) :
    parseLine exprs pos (rest ++ more) = parseLine exprs pos rest := by
  induction length : rest.length using Nat.strongRecOn generalizing exprs pos rest with
  | _ size ih =>
  rw [parseLine_eq] at settled
  rw [parseLine_eq, parseLine_eq]
  cases scanned : parseToken rest with
  | incomplete => simp [scanned] at settled
  | failed => rw [parseToken_append more (by simp [scanned]), scanned]
  | token t used =>
      obtain ⟨positive, inside⟩ := parseToken_within scanned
      rw [scanned] at settled
      rw [parseToken_append more (by simp [scanned]), scanned]
      dsimp only at settled ⊢
      rw [drop_append inside]
      cases turn : readToken exprs t with
      | failed => rfl
      | more exprs' =>
          rw [turn] at settled
          exact ih (rest.drop used).length (by rw [List.length_drop]; omega) settled rfl
      | close =>
          rw [turn] at settled
          exact closeLine_append more settled
      | error code =>
          rw [turn] at settled
          exact skipLine_append code more settled

theorem parseLine_within (exprs : List Expr) (pos : Nat) (rest : Text) :
    (parseLine exprs pos rest).Within pos (pos + rest.length) := by
  induction length : rest.length using Nat.strongRecOn generalizing exprs pos rest with
  | _ size ih =>
  rw [parseLine_eq]
  cases scanned : parseToken rest with
  | incomplete | failed => exact True.intro
  | token t used =>
      obtain ⟨positive, inside⟩ := parseToken_within scanned
      have shorter : (rest.drop used).length = size - used := by rw [List.length_drop, length]
      dsimp only
      cases readToken exprs t with
      | failed => exact True.intro
      | more exprs' =>
          exact (ih (size - used) (by omega) exprs' (pos + used) (rest.drop used) shorter).mono
            (by omega) (by omega)
      | close => exact (closeLine_within _ _ t (by omega)).mono (Nat.le_refl _) (by omega)
      | error code => exact (skipLine_within code _ _).mono (by omega) (by omega)

def Outcome.Coded (outcome : Outcome) : Prop := ∀ consumed, outcome ≠ .error .none consumed

theorem skipLine_coded {code : ParserError} (coded : code ≠ .none) (pos : Nat) (rest : Text) :
    (skipLine code pos rest).Coded := by
  induction length : rest.length using Nat.strongRecOn generalizing pos rest with
  | _ size ih =>
  intro consumed
  rw [skipLine_eq]
  cases scanned : parseToken rest with
  | incomplete | failed => simp
  | token t used =>
      obtain ⟨positive, inside⟩ := parseToken_within scanned
      dsimp only
      split
      · rintro ⟨⟩
        exact coded rfl
      · exact ih (rest.drop used).length (by rw [List.length_drop]; omega) _ _ rfl consumed

theorem finishLine_coded (line : CommandLine) (pos : Nat) (rest : Text) (token : Token) :
    (finishLine line pos rest token).Coded := by
  intro consumed
  unfold finishLine
  split
  · cases line.exprs.getLast? with
    | none => simp
    | some last =>
        dsimp only
        split <;> simp
  · exact skipLine_coded (by decide) pos rest consumed

theorem closeBackground_coded (line : CommandLine) (pos : Nat) (rest : Text) (token : Token) :
    (closeBackground line pos rest token).Coded := by
  intro consumed
  unfold closeBackground
  split
  · cases parseToken rest with
    | incomplete | failed => simp
    | token next used => exact finishLine_coded _ _ _ next consumed
  · exact finishLine_coded line pos rest token consumed

theorem closeLine_coded (line : CommandLine) (pos : Nat) (rest : Text) (token : Token) :
    (closeLine line pos rest token).Coded := by
  intro consumed
  unfold closeLine
  split
  · cases parseToken rest with
    | incomplete | failed => simp
    | token file used =>
        dsimp only
        split
        · exact skipLine_coded (by decide) _ _ consumed
        · cases parseToken (rest.drop used) with
          | incomplete | failed => simp
          | token next used' => exact closeBackground_coded _ _ _ next consumed
  · exact closeBackground_coded line pos rest token consumed

theorem pushOperator_coded {exprs : List Expr} {operator : Expr} {noLeftArg notACommand : ParserError}
    (left : noLeftArg ≠ .none) (command : notACommand ≠ .none) :
    pushOperator exprs operator noLeftArg notACommand ≠ .error .none := by
  unfold pushOperator
  split
  · simpa using left
  · split
    · simp
    · simpa using command

theorem readToken_coded (exprs : List Expr) (token : Token) :
    readToken exprs token ≠ .error .none := by
  unfold readToken
  split
  · simp
  · split <;> simp
  · exact pushOperator_coded (by decide) (by decide)
  · exact pushOperator_coded (by decide) (by decide)
  · exact pushOperator_coded (by decide) (by decide)
  all_goals simp

theorem parseLine_coded (exprs : List Expr) (pos : Nat) (rest : Text) :
    (parseLine exprs pos rest).Coded := by
  induction length : rest.length using Nat.strongRecOn generalizing exprs pos rest with
  | _ size ih =>
  intro consumed
  rw [parseLine_eq]
  cases scanned : parseToken rest with
  | incomplete | failed => simp
  | token t used =>
      obtain ⟨positive, inside⟩ := parseToken_within scanned
      dsimp only
      cases turn : readToken exprs t with
      | failed => simp
      | more exprs' =>
          exact ih (rest.drop used).length (by rw [List.length_drop]; omega) _ _ _ rfl consumed
      | close => exact closeLine_coded _ _ _ t consumed
      | error code =>
          refine skipLine_coded ?_ _ _ consumed
          rintro rfl
          exact readToken_coded exprs t turn

-- One call of `parser_pop_next` as the loop around it sees it.
def popNext (buffer : Text) : Stream.Popped Byte (ParserError × Option CommandLine) :=
  match parserPopNext ⟨buffer⟩ with
  | none => .stopped
  | some (.none, none, p) => .waiting p.buffer
  | some (code, line, p) => .item (code, line) p.buffer

-- `parser_feed` each chunk to a new parser, popping after it until there is no line; the results,
-- with the buffer that is left unless an assertion failed.
def feedChunks (chunks : List Text) :
    Option (List (ParserError × Option CommandLine) × Option Text) :=
  Stream.feed popNext parserNew.buffer chunks

theorem parserConsume_within {p : Parser} {consumed : Nat} (inside : consumed ≤ p.buffer.length)
    (bounded : p.buffer.length < 2 ^ 32) :
    parserConsume p consumed = some ⟨p.buffer.drop consumed⟩ := by
  have exact : uint32 consumed = consumed := Nat.mod_eq_of_lt (by omega)
  rw [parserConsume, exact, if_pos inside]

theorem popNext_eq {buffer : Text} (bounded : buffer.length < 2 ^ 32) : popNext buffer =
    match parseLine [] 0 buffer with
    | .failed => .stopped
    | .noLine => .waiting buffer
    | .line line consumed => .item (.none, some line) (buffer.drop consumed)
    | .error code consumed => .item (code, none) (buffer.drop consumed) := by
  have within := parseLine_within [] 0 buffer
  have coded := parseLine_coded [] 0 buffer
  unfold popNext parserPopNext
  cases outcome : parseLine [] 0 buffer with
  | failed | noLine => rfl
  | line line consumed =>
      rw [outcome] at within
      simp only [parserConsume_within (p := ⟨buffer⟩) (by simpa using within.2) bounded,
        Option.map_some]
  | error code consumed =>
      rw [outcome] at within coded
      simp only [parserConsume_within (p := ⟨buffer⟩) (by simpa using within.2) bounded,
        Option.map_some]
      cases code with
      | none => exact absurd rfl (coded consumed)
      | _ => rfl

theorem popNext_stable : Stream.Stable popNext (2 ^ 32) where
  stopped := by
    intro buffer more bounded popped
    have bounded' : buffer.length < 2 ^ 32 := by
      rw [List.length_append] at bounded
      omega
    rw [popNext_eq bounded'] at popped
    rw [popNext_eq bounded]
    cases outcome : parseLine [] 0 buffer with
    | failed => rw [parseLine_append more (by simp [outcome]), outcome]
    | noLine | line | error =>
        rw [outcome] at popped
        cases popped
  waiting := by
    intro buffer left bounded popped
    rw [popNext_eq bounded] at popped
    cases outcome : parseLine [] 0 buffer with
    | noLine =>
        rw [outcome] at popped
        cases popped
        rfl
    | failed | line | error =>
        rw [outcome] at popped
        cases popped
  item := by
    intro buffer more result left bounded popped
    have bounded' : buffer.length < 2 ^ 32 := by
      rw [List.length_append] at bounded
      omega
    rw [popNext_eq bounded'] at popped
    rw [popNext_eq bounded]
    have within := parseLine_within [] 0 buffer
    have settled : parseLine [] 0 buffer ≠ .noLine := fun waits => by
      rw [waits] at popped
      cases popped
    rw [parseLine_append more settled]
    cases outcome : parseLine [] 0 buffer with
    | failed | noLine =>
        rw [outcome] at popped
        cases popped
    | line line consumed | error code consumed =>
        rw [outcome] at popped within
        cases popped
        obtain ⟨positive, inside⟩ := within
        rw [Nat.zero_add] at inside
        refine ⟨by rw [List.length_drop]; omega, ?_⟩
        dsimp only
        rw [drop_append inside]

theorem popNext_empty : popNext [] = .waiting [] := by
  rw [popNext_eq (by decide), parseLine_eq]
  rfl

theorem feedChunks_eq_drain (chunks : List Text) (bounded : chunks.flatten.length < 2 ^ 32) :
    feedChunks chunks = Stream.drain popNext chunks.flatten :=
  Stream.feed_eq_drain popNext_stable [] chunks popNext_empty bounded

theorem feedChunks_flatten (chunks : List Text) (bounded : chunks.flatten.length < 2 ^ 32) :
    feedChunks chunks = feedChunks [chunks.flatten] ∧ (feedChunks chunks).isSome := by
  have whole : [chunks.flatten].flatten = chunks.flatten := by simp
  have once := feedChunks_eq_drain [chunks.flatten] (by rwa [whole])
  rw [whole] at once
  rw [feedChunks_eq_drain chunks bounded, once]
  exact ⟨rfl, Stream.drain_isSome popNext_stable _ bounded⟩

theorem feedChunks_flatten_split_quote :
    feedChunks [[byte '"', byte 'a'], [byte '"'], [byte '\n']] =
      feedChunks [[byte '"', byte 'a', byte '"', byte '\n']] :=
  (feedChunks_flatten [[byte '"', byte 'a'], [byte '"'], [byte '\n']] (by decide)).1

end SystemProg.Shell
