import SystemProg.Shell.Recovery

set_option autoImplicit false

-- Between two calls the parser keeps a text that is no whole token. A backslash with a new line
-- passes unseen in its second loop, and starts that loop from the first one.

namespace SystemProg.Shell

def continuation : Text := [byte '\\', byte '\n']

inductive Pending where
  | settled
  | blank
  | word (quote : Byte) (data : Text)
  | escape
  | operator (c : Byte)
  | comment
deriving DecidableEq, Repr

def pendingComment : Text → Pending
  | [] => .comment
  | c :: rest => if c = byte '\n' then .settled else pendingComment rest

def pendingWord (quote : Byte) (data : Text) : Text → Pending
  | [] => .word quote data
  | c :: rest =>
      match wordMove quote data c rest.head? with
      | .failed | .token _ _ _ => .settled
      | .incomplete => if c = byte '\\' then .escape else .operator c
      | .comment => pendingComment rest
      | .one quote data => pendingWord quote data rest
      | .two quote data => pendingWord quote data rest.tail
termination_by input => input.length

def pendingToken : Text → Pending
  | [] => .blank
  | c :: rest =>
      if isSpace c then if c = byte '\n' then .settled else pendingToken rest
      else pendingWord 0 [] (c :: rest)

-- Outside single quotes, comments, escapes and the two bytes of an operator.
def Pending.Clear (pending : Pending) (more : Text) : Prop :=
  match pending with
  | .settled | .blank => True
  | .word quote _ => quote ≠ byte '\''
  | .operator c => more.head? ≠ some c
  | .escape | .comment => False

def SpaceFirst (text : Text) : Prop := ∃ c, text.head? = some c ∧ isSpace c = true

-- No white space comes where the next token starts.
def Pending.Solid (pending : Pending) (more : Text) : Prop :=
  (∃ quote data, pending = .word quote data) ∨ ¬SpaceFirst more

def Scan.shift (scan : Scan) (n : Nat) : Scan :=
  match scan with
  | .token t used => .token t (used + n)
  | other => other

theorem scanComment_shift (used n : Nat) (input : Text) :
    scanComment (used + n) input = (scanComment used input).shift n := by
  induction input generalizing used with
  | nil => rfl
  | cons c rest ih =>
      simp only [scanComment]
      split
      · rw [Scan.shift, Nat.add_right_comm]
      · rw [Nat.add_right_comm]
        exact ih (used + 1)

theorem scanWord_shift (used n : Nat) (quote : Byte) (data input : Text) :
    scanWord (used + n) quote data input = (scanWord used quote data input).shift n := by
  induction length : input.length using Nat.strongRecOn generalizing used quote data input with
  | _ size ih =>
  cases input with
  | nil =>
      rw [scanWord, scanWord]
      rfl
  | cons c rest =>
      rw [List.length_cons] at length
      rw [scanWord_cons, scanWord_cons]
      cases wordMove quote data c rest.head? with
      | failed | incomplete => rfl
      | token type data taken =>
          dsimp only [Scan.shift]
          rw [Nat.add_right_comm]
      | comment =>
          dsimp only
          rw [Nat.add_right_comm]
          exact scanComment_shift (used + 1) n rest
      | one quote data =>
          dsimp only
          rw [Nat.add_right_comm]
          exact ih rest.length (by omega) (used + 1) quote data rest rfl
      | two quote data =>
          dsimp only
          rw [Nat.add_right_comm]
          have shorter : rest.tail.length < size := by
            rw [List.length_tail]
            omega
          exact ih _ shorter (used + 2) quote data rest.tail rfl

theorem wordSwitch_escape {c : Byte} (other : c ≠ byte '\\') (quote : Byte) (data : Text)
    (escape escape' operator : Move) :
    wordSwitch quote data c escape operator = wordSwitch quote data c escape' operator := by
  rw [wordSwitch, wordSwitch, if_neg other, if_neg other]

-- Only a backslash and an operator wait for the next byte.
theorem wordMove_waits {quote : Byte} {data : Text} {c : Byte}
    (waits : wordMove quote data c none = .incomplete) (other : c ≠ byte '\\') (d : Byte) :
    wordMove quote data c (some d) = operatorMove c (some d) := by
  unfold wordMove at waits ⊢
  cases wordCase quote data c with
  | escape taken =>
      have independent := wordSwitch_escape other quote data .failed .incomplete .failed
      rw [taken, taken] at independent
      cases independent
  | operator taken => exact taken _ _
  | plain move taken kind =>
      rw [taken] at waits
      subst waits
      cases kind

theorem pendingComment_cases (input : Text) :
    pendingComment input = .comment ∨ pendingComment input = .settled := by
  induction input with
  | nil => exact Or.inl rfl
  | cons c rest ih =>
      rw [pendingComment]
      split
      · exact Or.inr rfl
      · exact ih

theorem pendingWord_cons (quote : Byte) (data : Text) (c : Byte) (rest : Text) :
    pendingWord quote data (c :: rest) =
      match wordMove quote data c rest.head? with
      | .failed | .token _ _ _ => .settled
      | .incomplete => if c = byte '\\' then .escape else .operator c
      | .comment => pendingComment rest
      | .one quote data => pendingWord quote data rest
      | .two quote data => pendingWord quote data rest.tail := by
  cases move : wordMove quote data c rest.head? <;> simp only [pendingWord, move]

theorem wordMove_some (quote : Byte) (data : Text) (c d : Byte) :
    wordMove quote data c (some d) ≠ .incomplete := by
  unfold wordMove
  cases wordCase quote data c with
  | escape taken =>
      rw [taken]
      simp only [escapeMove]
      split_ifs <;> simp
  | operator taken =>
      rw [taken]
      simp only [operatorMove]
      split <;> simp
  | plain move taken kind =>
      rw [taken]
      rintro rfl
      cases kind

-- What the second loop does with a text behind the one it ran out of.
def Resumes (scan : Text → Scan) (used : Nat) : Pending → Prop
  | .word quote data => ∀ more, scan more = scanWord used quote data more
  | .operator c => c ≠ byte '\\' ∧ ∀ d more, d ≠ c →
      scan (d :: more) = .token ⟨operatorType c false, []⟩ used
  | _ => True

theorem scanWord_resumes (used : Nat) (quote : Byte) (data front : Text) :
    Resumes (fun more => scanWord used quote data (front ++ more)) (used + front.length)
      (pendingWord quote data front) := by
  induction length : front.length using Nat.strongRecOn generalizing used quote data front with
  | _ size ih =>
  cases front with
  | nil =>
      subst length
      rw [pendingWord]
      exact fun more => rfl
  | cons c rest =>
      rw [List.length_cons] at length
      rw [pendingWord_cons]
      have moves (settled : wordMove quote data c rest.head? ≠ .incomplete) (more : Text) :
          wordMove quote data c (rest ++ more).head? = wordMove quote data c rest.head? :=
        wordMove_append more settled
      cases move : wordMove quote data c rest.head? with
      | failed | token => exact True.intro
      | incomplete =>
          cases rest with
          | cons d rest => exact absurd move (wordMove_some quote data c d)
          | nil =>
              dsimp only
              split
              · exact True.intro
              · next other =>
                  refine ⟨other, fun d more differs => ?_⟩
                  have step := wordMove_waits move other d
                  rw [operatorMove, if_neg differs] at step
                  change scanWord used quote data (c :: d :: more) = _
                  rw [scanWord_cons, List.head?_cons, step, ← length]
                  rfl
      | comment =>
          dsimp only
          rcases pendingComment_cases rest with comment | settled
          · rw [comment]
            exact True.intro
          · rw [settled]
            exact True.intro
      | one quote' data' =>
          have step : (fun more => scanWord used quote data (c :: rest ++ more)) =
              fun more => scanWord (used + 1) quote' data' (rest ++ more) := by
            funext more
            rw [List.cons_append, scanWord_cons, moves (by simp [move]), move]
          rw [step, ← length, Nat.add_comm rest.length, ← Nat.add_assoc]
          exact ih rest.length (by omega) (used + 1) quote' data' rest rfl
      | two quote' data' =>
          cases rest with
          | nil => exact absurd rfl (wordMove_two move)
          | cons d tail =>
              rw [List.length_cons] at length
              have step : (fun more => scanWord used quote data (c :: (d :: tail) ++ more)) =
                  fun more => scanWord (used + 2) quote' data' (tail ++ more) := by
                funext more
                rw [List.cons_append, scanWord_cons, moves (wordMove_some quote data c d), move]
                rfl
              have count : used + size = used + 2 + tail.length := by omega
              rw [step, count]
              exact ih tail.length (by omega) (used + 2) quote' data' tail rfl

def Quote (quote : Byte) : Prop := quote = 0 ∨ quote = byte '\'' ∨ quote = byte '"'

theorem wordSwitch_quote {quote quote' : Byte} {data data' : Text} {c : Byte}
    {escape operator move : Move} (kind : move = .one quote' data' ∨ move = .two quote' data')
    (switch : wordSwitch quote data c escape operator = move) :
    quote' = quote ∨ (quote' = c ∧ (c = byte '\'' ∨ c = byte '"')) ∨ escape = move ∨
      operator = move := by
  by_cases quoting : c = byte '\'' ∨ c = byte '"'
  · rw [wordSwitch, if_pos quoting] at switch
    split_ifs at switch <;> subst switch <;> simp at kind
    · exact Or.inr (Or.inl ⟨kind.1.symm, quoting⟩)
    · exact Or.inl kind.1.symm
  · rw [wordSwitch, if_neg quoting] at switch
    repeat' split at switch
    all_goals first
      | exact Or.inr (Or.inr (Or.inl switch))
      | exact Or.inr (Or.inr (Or.inr switch))
      | subst switch; simp at kind; done
      | subst switch; simp at kind; exact Or.inl kind.1.symm

theorem wordMove_quote {quote quote' : Byte} {data data' : Text} {c : Byte} {next : Option Byte}
    (known : Quote quote) (move : wordMove quote data c next = .one quote' data' ∨
      wordMove quote data c next = .two quote' data') : Quote quote' := by
  rcases wordSwitch_quote move rfl with same | ⟨rfl, quoting⟩ | escape | operator
  · rw [same]
    exact known
  · exact Or.inr quoting
  · cases next with
    | none =>
        rw [← escape, escapeMove] at move
        split at move <;> simp at move
    | some d =>
        rw [← escape] at move
        simp only [escapeMove] at move
        split_ifs at move <;> simp at move <;> rw [← move.1] <;> exact known
  · cases next with
    | none => simp [← operator, operatorMove] at move
    | some d =>
        rw [← operator, operatorMove] at move
        split at move <;> simp at move

def Pending.Inner : Pending → Prop
  | .blank => False
  | .word quote _ => Quote quote
  | _ => True

theorem pendingWord_inner {quote : Byte} (known : Quote quote) (data front : Text) :
    (pendingWord quote data front).Inner := by
  induction length : front.length using Nat.strongRecOn generalizing quote data front with
  | _ size ih =>
  cases front with
  | nil =>
      rw [pendingWord]
      exact known
  | cons c rest =>
      rw [List.length_cons] at length
      rw [pendingWord_cons]
      cases move : wordMove quote data c rest.head? with
      | failed | token => exact True.intro
      | incomplete =>
          dsimp only
          split <;> exact True.intro
      | comment =>
          dsimp only
          rcases pendingComment_cases rest with comment | settled
          · rw [comment]
            exact True.intro
          · rw [settled]
            exact True.intro
      | one quote' data' =>
          exact ih rest.length (by omega) (wordMove_quote known (Or.inl move)) data' rest rfl
      | two quote' data' =>
          have shorter : rest.tail.length < size := by
            rw [List.length_tail]
            omega
          exact ih _ shorter (wordMove_quote known (Or.inr move)) data' rest.tail rfl

theorem pendingComment_settled {used : Nat} {input : Text}
    (settled : pendingComment input = .settled) : scanComment used input ≠ .incomplete := by
  induction input generalizing used with
  | nil => cases settled
  | cons c rest ih =>
      rw [pendingComment] at settled
      simp only [scanComment]
      split at settled
      · next newLine => simp [newLine]
      · next other =>
          rw [if_neg other]
          exact ih settled

theorem pendingWord_settled {used : Nat} {quote : Byte} {data front : Text}
    (settled : pendingWord quote data front = .settled) :
    scanWord used quote data front ≠ .incomplete := by
  induction length : front.length using Nat.strongRecOn generalizing used quote data front with
  | _ size ih =>
  cases front with
  | nil =>
      rw [pendingWord] at settled
      cases settled
  | cons c rest =>
      rw [List.length_cons] at length
      rw [pendingWord_cons] at settled
      rw [scanWord_cons]
      cases move : wordMove quote data c rest.head? with
      | failed | token => simp
      | incomplete =>
          rw [move] at settled
          dsimp only at settled
          split at settled <;> cases settled
      | comment =>
          rw [move] at settled
          exact pendingComment_settled settled
      | one quote data =>
          rw [move] at settled
          exact ih rest.length (by omega) settled rfl
      | two quote data =>
          rw [move] at settled
          have shorter : rest.tail.length < size := by
            rw [List.length_tail]
            omega
          exact ih _ shorter settled rfl

theorem scanToken_blank {front : Text} (blank : pendingToken front = .blank) (used : Nat)
    (more : Text) : scanToken used (front ++ more) = scanToken (used + front.length) more := by
  induction front generalizing used with
  | nil => rfl
  | cons c front ih =>
      rw [pendingToken] at blank
      rw [List.cons_append, scanToken]
      split at blank
      · next space =>
          rw [if_pos space]
          split at blank
          · cases blank
          · next other =>
              rw [if_neg other, ih blank, List.length_cons, Nat.add_comm front.length,
                ← Nat.add_assoc]
      · have inner := pendingWord_inner (Or.inl rfl) [] (c :: front)
        rw [blank] at inner
        exact inner.elim

theorem scanToken_resumes (used : Nat) (front : Text) :
    Resumes (fun more => scanToken used (front ++ more)) (used + front.length)
      (pendingToken front) := by
  induction front generalizing used with
  | nil => exact True.intro
  | cons c front ih =>
      rw [pendingToken]
      have step (more : Text) : scanToken used (c :: front ++ more) =
          if isSpace c then
            if c = byte '\n' then .token ⟨.newLine, []⟩ (used + 1)
            else scanToken (used + 1) (front ++ more)
          else scanWord used 0 [] (c :: front ++ more) := rfl
      split
      · next space =>
          split
          · exact True.intro
          · next other =>
              have skips : (fun more => scanToken used (c :: front ++ more)) =
                  fun more => scanToken (used + 1) (front ++ more) := by
                funext more
                rw [step, if_pos space, if_neg other]
              rw [skips, List.length_cons, Nat.add_comm front.length, ← Nat.add_assoc]
              exact ih (used + 1)
      · next solid =>
          have enters : (fun more => scanToken used (c :: front ++ more)) =
              fun more => scanWord used 0 [] (c :: front ++ more) := by
            funext more
            rw [step, if_neg solid]
          rw [enters]
          exact scanWord_resumes used 0 [] (c :: front)

theorem pendingToken_quote {quote : Byte} {data front : Text}
    (ends : pendingToken front = .word quote data) : Quote quote := by
  induction front with
  | nil => cases ends
  | cons c front ih =>
      rw [pendingToken] at ends
      split at ends
      · split at ends
        · cases ends
        · exact ih ends
      · have inner := pendingWord_inner (Or.inl rfl) [] (c :: front)
        rw [ends] at inner
        exact inner

theorem pendingToken_settled {used : Nat} {front : Text}
    (settled : pendingToken front = .settled) : scanToken used front ≠ .incomplete := by
  induction front generalizing used with
  | nil => cases settled
  | cons c front ih =>
      rw [pendingToken] at settled
      rw [scanToken]
      split at settled
      · next space =>
          rw [if_pos space]
          split at settled
          · next newLine => simp [newLine]
          · next other =>
              rw [if_neg other]
              exact ih settled
      · next solid =>
          rw [if_neg solid]
          exact pendingWord_settled settled

theorem scanWord_continuation {quote : Byte} (known : Quote quote) (other : quote ≠ byte '\'')
    (used : Nat) (data more : Text) :
    scanWord used quote data (continuation ++ more) = scanWord (used + 2) quote data more := by
  have move : wordMove quote data (byte '\\') (some (byte '\n')) = .two quote data := by
    rcases known with rfl | rfl | rfl
    · rfl
    · exact absurd rfl other
    · rfl
  rw [continuation, List.cons_append, List.singleton_append, scanWord_cons, List.head?_cons, move]
  rfl

theorem scanToken_continuation (used : Nat) (more : Text) :
    scanToken used (continuation ++ more) = scanWord (used + 2) 0 [] more := by
  have solid : isSpace (byte '\\') = false := by decide
  rw [← scanWord_continuation (Or.inl rfl) (by decide), continuation, List.cons_append, scanToken,
    solid]
  rfl

theorem scanToken_solid {more : Text} (solid : ¬SpaceFirst more) (used : Nat) :
    scanToken used more = scanWord used 0 [] more := by
  cases more with
  | nil => rw [scanToken, scanWord]
  | cons c rest =>
      have other : isSpace c = false := by
        by_contra space
        exact solid ⟨c, rfl, by simpa using space⟩
      rw [scanToken, other]
      rfl

theorem operatorType_inner (c : Byte) :
    operatorType c false ≠ .newLine ∧ operatorType c false ≠ .none := by
  unfold operatorType
  split_ifs <;> simp

-- The continuation only makes the token longer, or an operator ends before it.
inductive Continues (front more : Text) : Prop where
  | longer (shifted : scanToken 0 (front ++ (continuation ++ more)) =
      (scanToken 0 (front ++ more)).shift 2)
      (behind : (scanToken 0 (front ++ more)).Behind front.length)
  | operator (t : Token) (kind : t.type ≠ .newLine ∧ t.type ≠ .none) (nonempty : front ≠ [])
      (solid : ¬SpaceFirst more)
      (ended : scanToken 0 (front ++ (continuation ++ more)) = .token t front.length)
      (same : more = [] ∨ scanToken 0 (front ++ more) = .token t front.length)

theorem pending_continues {front more : Text} (waits : scanToken 0 front = .incomplete)
    (clear : (pendingToken front).Clear more) (solid : (pendingToken front).Solid more) :
    Continues front more := by
  have resumes := scanToken_resumes 0 front
  rw [Nat.zero_add] at resumes
  cases pending : pendingToken front with
  | settled => exact absurd waits (pendingToken_settled pending)
  | escape | comment =>
      rw [pending] at clear
      exact clear.elim
  | blank =>
      have noSpace : ¬SpaceFirst more := by
        rw [pending] at solid
        rcases solid with ⟨quote, data, word⟩ | noSpace
        · cases word
        · exact noSpace
      have plain : scanToken 0 (front ++ more) = scanWord front.length 0 [] more := by
        rw [scanToken_blank pending, Nat.zero_add, scanToken_solid noSpace]
      refine .longer ?_ ?_
      · rw [scanToken_blank pending, Nat.zero_add, scanToken_continuation, scanWord_shift, plain]
      · rw [plain]
        exact scanWord_behind front.length 0 [] more
  | word quote data =>
      rw [pending] at resumes clear
      have known := pendingToken_quote pending
      have reads (more : Text) :
          scanToken 0 (front ++ more) = scanWord front.length quote data more := resumes more
      refine .longer ?_ ?_
      · rw [reads, reads, scanWord_continuation known clear, scanWord_shift]
      · rw [reads]
        exact scanWord_behind front.length quote data more
  | operator c =>
      rw [pending] at resumes clear
      have noSpace : ¬SpaceFirst more := by
        rw [pending] at solid
        rcases solid with ⟨quote, data, word⟩ | noSpace
        · cases word
        · exact noSpace
      refine .operator ⟨operatorType c false, []⟩ (operatorType_inner c) ?_ noSpace ?_ ?_
      · rintro rfl
        cases pending
      · exact resumes.2 _ _ (Ne.symm resumes.1)
      · cases more with
        | nil => exact Or.inl rfl
        | cons d more =>
            have differs : d ≠ c := fun same => clear (by rw [same]; rfl)
            exact Or.inr (resumes.2 d more differs)

def Blank (c : Byte) : Prop := c = byte ' ' ∨ c = byte '\t' ∨ c = byte '\r' ∨ c = byte '\n'

-- The assertion that a word has begun fails at a blank.
inductive Continued : Text → Prop where
  | blank {c : Byte} (blank : Blank c) (rest : Text) : Continued (c :: rest)
  | again {rest : Text} (tail : Continued rest) : Continued (continuation ++ rest)

inductive Stuck : Text → Prop where
  | continued {rest : Text} (tail : Continued rest) : Stuck (continuation ++ rest)
  | space {c : Byte} {rest : Text} (space : isSpace c = true) (inside : c ≠ byte '\n')
      (tail : Stuck rest) : Stuck (c :: rest)

inductive WordMove (before : Text) : Move → Move → Prop where
  | waits : WordMove before .incomplete .incomplete
  | ends (data : Text) (length : Nat) :
      WordMove before (.token .str data length) (.token .str (before ++ data) length)
  | one (quote : Byte) (data : Text) (begun : quote ≠ 0 ∨ data ≠ []) :
      WordMove before (.one quote data) (.one quote (before ++ data))
  | two (quote : Byte) (data : Text) (begun : quote ≠ 0 ∨ data ≠ []) :
      WordMove before (.two quote data) (.two quote (before ++ data))

theorem WordMove.more {before data : Text} (quote c : Byte) :
    WordMove before (.one quote (data ++ [c])) (.one quote (before ++ data ++ [c])) := by
  rw [List.append_assoc]
  exact .one quote _ (Or.inr (by simp))

theorem escapeMove_begun {quote : Byte} {data : Text} (before : Text)
    (begun : quote ≠ 0 ∨ data ≠ []) (known : quote = 0 ∨ quote = byte '"') (next : Option Byte) :
    WordMove before (escapeMove quote data next) (escapeMove quote (before ++ data) next) := by
  have longer (tail : Text) (some_ : tail ≠ []) : WordMove before (.two quote (data ++ tail))
      (.two quote (before ++ data ++ tail)) := by
    rw [List.append_assoc]
    exact .two quote _ (Or.inr (by simp [some_]))
  cases next with
  | none =>
      have waits : quote = byte '"' ∨ quote = 0 := known.symm
      rw [escapeMove, escapeMove, if_pos waits]
      exact .waits
  | some d =>
      simp only [escapeMove]
      split_ifs with double _ newLine _ quoted continued
      · exact longer [d] (by simp)
      · exact .two quote data begun
      · exact longer [d] (by simp)
      · exact longer [byte '\\', d] (by simp)
      · exact absurd known (by simp [double, quoted])
      · exact .two quote data begun
      · exact longer [d] (by simp)

theorem wordMove_begun {quote : Byte} {data : Text} (before : Text) (known : Quote quote)
    (begun : quote ≠ 0 ∨ data ≠ []) (c : Byte) (next : Option Byte) :
    WordMove before (wordMove quote data c next) (wordMove quote (before ++ data) c next) := by
  unfold wordMove wordSwitch
  by_cases quoting : c = byte '\'' ∨ c = byte '"'
  · rw [if_pos quoting, if_pos quoting]
    by_cases zero : quote = 0
    · rw [if_pos zero, if_pos zero]
      refine .one c data (Or.inl ?_)
      rcases quoting with rfl | rfl <;> decide
    · rw [if_neg zero, if_neg zero]
      by_cases other : quote ≠ c
      · rw [if_pos other, if_pos other]
        exact .more quote c
      · rw [if_neg other, if_neg other]
        exact .ends data 1
  rw [if_neg quoting, if_neg quoting]
  by_cases escaping : c = byte '\\'
  · rw [if_pos escaping, if_pos escaping]
    by_cases single : quote = byte '\''
    · rw [if_pos single, if_pos single]
      exact .more quote c
    · rw [if_neg single, if_neg single]
      refine escapeMove_begun before begun ?_ next
      rcases known with zero | single' | double
      · exact Or.inl zero
      · exact absurd single' single
      · exact Or.inr double
  rw [if_neg escaping, if_neg escaping]
  by_cases quoted : quote ≠ 0
  · simp only [if_pos quoted, ite_self]
    exact .more quote c
  · have some_ : data ≠ [] := begun.resolve_left quoted
    have some' : before ++ data ≠ [] := by simp [some_]
    simp only [if_neg quoted, if_pos some_, if_pos some', if_neg some_, if_neg some']
    split_ifs
    · exact .ends data 0
    · exact .ends data 1
    · exact .ends data 0
    · exact .ends data 0
    · exact .more quote c

theorem scanWord_begun {quote : Byte} {data : Text} (before : Text) (known : Quote quote)
    (begun : quote ≠ 0 ∨ data ≠ []) (used : Nat) (input : Text) :
    (scanWord used quote data input = .incomplete ∧
        scanWord used quote (before ++ data) input = .incomplete) ∨
      ∃ word n, scanWord used quote data input = .token ⟨.str, word⟩ n ∧
        scanWord used quote (before ++ data) input = .token ⟨.str, before ++ word⟩ n := by
  induction length : input.length using Nat.strongRecOn generalizing used quote data input with
  | _ size ih =>
  cases input with
  | nil => exact Or.inl ⟨by rw [scanWord], by rw [scanWord]⟩
  | cons c rest =>
      rw [List.length_cons] at length
      rw [scanWord_cons, scanWord_cons]
      have moves := wordMove_begun before known begun c rest.head?
      have quotes := @wordMove_quote quote
      generalize there : wordMove quote data c rest.head? = move at moves
      generalize wordMove quote (before ++ data) c rest.head? = move' at moves
      cases moves with
      | waits => exact Or.inl ⟨rfl, rfl⟩
      | ends word n => exact Or.inr ⟨word, _, rfl, rfl⟩
      | one quote' data' begun' =>
          exact ih rest.length (by omega) (quotes known (Or.inl there)) begun' (used + 1) rest rfl
      | two quote' data' begun' =>
          have shorter : rest.tail.length < size := by
            rw [List.length_tail]
            omega
          exact ih _ shorter (quotes known (Or.inr there)) begun' (used + 2) rest.tail rfl

inductive FirstMove (before : Text) (c : Byte) (rest : Text) : Prop where
  | blank (blank : Blank c) (empty : wordMove 0 [] c rest.head? = .failed) (length : Nat)
      (ends : wordMove 0 before c rest.head? = .token .str before length)
  | continued (tail : Text) (text : c :: rest = continuation ++ tail)
  | apart (solid : isSpace c = false)
      (goesOn : ∀ used, scanWord used 0 [] (c :: rest) ≠ .failed)
      (ends : wordMove 0 before c rest.head? = .token .str before 0)
  | begun (moves : WordMove before (wordMove 0 [] c rest.head?) (wordMove 0 before c rest.head?))

theorem scanComment_safe (used : Nat) (input : Text) : scanComment used input ≠ .failed := by
  induction input generalizing used with
  | nil => simp [scanComment]
  | cons c rest ih =>
      rw [scanComment]
      split
      · simp
      · exact ih (used + 1)

theorem firstMove {before : Text} (nonempty : before ≠ []) (c : Byte) (rest : Text) :
    FirstMove before c rest := by
  by_cases quoting : c = byte '\'' ∨ c = byte '"'
  · refine .begun ?_
    have one (data : Text) : wordMove 0 data c rest.head? = .one c data := by
      rw [wordMove, wordSwitch, if_pos quoting, if_pos rfl]
    have begins : WordMove before (.one c []) (.one c (before ++ [])) := by
      refine .one c [] (Or.inl ?_)
      rcases quoting with rfl | rfl <;> decide
    rw [List.append_nil] at begins
    rwa [one, one]
  by_cases escaping : c = byte '\\'
  · subst escaping
    cases rest with
    | nil => exact .begun .waits
    | cons d rest =>
        by_cases newLine : d = byte '\n'
        · exact .continued rest (by rw [newLine]; rfl)
        · have two (data : Text) : wordMove 0 data (byte '\\') (some d) = .two 0 (data ++ [d]) := by
            have zero : ¬(0 : Byte) = byte '"' := by decide
            rw [wordMove, wordSwitch, if_neg quoting, if_pos rfl, if_neg (by decide), escapeMove,
              if_neg zero, if_neg (by simp), if_neg newLine]
          refine .begun ?_
          rw [List.head?_cons, two, two]
          exact .two 0 _ (Or.inr (by simp))
  by_cases operating : c = byte '&' ∨ c = byte '|' ∨ c = byte '>'
  · have solid : isSpace c = false := by
      rcases operating with rfl | rfl | rfl <;> decide
    refine .apart solid (fun used => ?_) ?_
    · have moves : wordMove 0 [] c rest.head? = operatorMove c rest.head? := by
        rw [wordMove, wordSwitch, if_neg quoting, if_neg escaping, if_pos operating]
        rfl
      rw [scanWord_cons, moves]
      cases rest.head? with
      | none => simp [operatorMove]
      | some d =>
          rw [operatorMove]
          by_cases doubled : d = c
          · rw [if_pos doubled]
            simp
          · rw [if_neg doubled]
            simp
    · rw [wordMove, wordSwitch, if_neg quoting, if_neg escaping, if_pos operating, if_neg (by simp),
        if_pos nonempty]
  by_cases spaces : c = byte ' ' ∨ c = byte '\t' ∨ c = byte '\r'
  · have blank : Blank c := by
      rcases spaces with rfl | rfl | rfl
      · exact Or.inl rfl
      · exact Or.inr (Or.inl rfl)
      · exact Or.inr (Or.inr (Or.inl rfl))
    refine .blank blank ?_ 1 ?_
    · rw [wordMove, wordSwitch, if_neg quoting, if_neg escaping, if_neg operating, if_pos spaces]
      rfl
    · rw [wordMove, wordSwitch, if_neg quoting, if_neg escaping, if_neg operating, if_pos spaces,
        if_neg (by simp), if_neg nonempty]
  by_cases newLine : c = byte '\n'
  · refine .blank (Or.inr (Or.inr (Or.inr newLine))) ?_ 0 ?_
    · rw [wordMove, wordSwitch, if_neg quoting, if_neg escaping, if_neg operating, if_neg spaces,
        if_pos newLine]
      rfl
    · rw [wordMove, wordSwitch, if_neg quoting, if_neg escaping, if_neg operating, if_neg spaces,
        if_pos newLine, if_neg (by simp), if_neg nonempty]
  by_cases comment : c = byte '#'
  · refine .apart (by rw [comment]; decide) (fun used => ?_) ?_
    · have moves : wordMove 0 [] c rest.head? = .comment := by
        rw [wordMove, wordSwitch, if_neg quoting, if_neg escaping, if_neg operating, if_neg spaces,
          if_neg newLine, if_pos comment]
        rfl
      rw [scanWord_cons, moves]
      exact scanComment_safe (used + 1) rest
    · rw [wordMove, wordSwitch, if_neg quoting, if_neg escaping, if_neg operating, if_neg spaces,
        if_neg newLine, if_pos comment, if_neg (by simp), if_pos nonempty]
  · have one (data : Text) : wordMove 0 data c rest.head? = .one 0 (data ++ [c]) := by
      rw [wordMove, wordSwitch, if_neg quoting, if_neg escaping, if_neg operating, if_neg spaces,
        if_neg newLine, if_neg comment]
    refine .begun ?_
    rw [one, one]
    exact .one 0 _ (Or.inr (by simp))

-- A scan that starts a word, and the same scan with bytes in front of the word.
inductive Joins (before : Text) (used : Nat) (input : Text) : Prop where
  | own (length : Nat) (ends : scanWord used 0 before input = .token ⟨.str, before⟩ (used + length))
      (goesOn : scanWord used 0 [] input ≠ .failed)
      (same : scanWord used 0 [] input = scanToken (used + length) (input.drop length))
  | joined (word : Text) (length : Nat) (ends : scanWord used 0 [] input = .token ⟨.str, word⟩ length)
      (ends' : scanWord used 0 before input = .token ⟨.str, before ++ word⟩ length)
  | stuck (length : Nat) (fails : scanWord used 0 [] input = .failed) (continued : Continued input)
      (ends : scanWord used 0 before input = .token ⟨.str, before⟩ (used + length))
  | waits (unended : scanWord used 0 [] input = .incomplete)
      (unended' : scanWord used 0 before input = .incomplete)

theorem joins {before : Text} (nonempty : before ≠ []) (used : Nat) (input : Text) :
    Joins before used input := by
  induction length : input.length using Nat.strongRecOn generalizing used input with
  | _ size ih =>
  cases input with
  | nil => exact .waits (by rw [scanWord]) (by rw [scanWord])
  | cons c rest =>
      rw [List.length_cons] at length
      cases firstMove nonempty c rest with
      | blank blank empty taken ends =>
          refine .stuck taken ?_ (.blank blank rest) ?_
          · rw [scanWord_cons, empty]
          · rw [scanWord_cons, ends]
      | continued tail text =>
          have passes (data : Text) :
              scanWord used 0 data (c :: rest) = scanWord (used + 2) 0 data tail := by
            rw [text, scanWord_continuation (Or.inl rfl) (by decide)]
          have shorter : tail.length < size := by
            have size' := congrArg List.length text
            simp [continuation] at size'
            omega
          cases ih tail.length shorter (used + 2) tail rfl with
          | own taken ends goesOn same =>
              refine .own (taken + 2) ?_ (by rw [passes]; exact goesOn) ?_
              · rw [passes, ends, Nat.add_assoc, Nat.add_comm 2]
              · rw [passes, same, text, Nat.add_assoc, Nat.add_comm 2]
                rfl
          | joined word taken ends ends' =>
              exact .joined word taken ((passes _).trans ends) ((passes _).trans ends')
          | stuck taken fails continued ends =>
              refine .stuck (2 + taken) ((passes _).trans fails) (text ▸ .again continued) ?_
              rw [passes, ends, Nat.add_assoc]
          | waits unended unended' =>
              exact .waits ((passes _).trans unended) ((passes _).trans unended')
      | apart solid goesOn ends =>
          refine .own 0 ?_ (goesOn used) ?_
          · rw [scanWord_cons, ends]
          · rw [Nat.add_zero, List.drop_zero, scanToken, solid]
            rfl
      | begun moves =>
          have quotes := @wordMove_quote 0
          have starts : scanWord used 0 before (c :: rest) =
              scanWord used 0 (before ++ []) (c :: rest) := by rw [List.append_nil]
          generalize there : wordMove 0 [] c rest.head? = move at moves
          generalize there' : wordMove 0 before c rest.head? = move' at moves
          have first := scanWord_cons used 0 [] c rest
          have first' := scanWord_cons used 0 before c rest
          rw [there] at first
          rw [there'] at first'
          have result {quote : Byte} {data : Text} (known : Quote quote)
              (begun : quote ≠ 0 ∨ data ≠ []) {used' : Nat} {tail : Text}
              (scan : scanWord used 0 [] (c :: rest) = scanWord used' quote data tail)
              (scan' : scanWord used 0 before (c :: rest) =
                scanWord used' quote (before ++ data) tail) : Joins before used (c :: rest) := by
            rcases scanWord_begun before known begun used' tail with
              ⟨unended, unended'⟩ | ⟨word, taken, ends, ends'⟩
            · exact .waits (scan.trans unended) (scan'.trans unended')
            · exact .joined word taken (scan.trans ends) (scan'.trans ends')
          cases moves with
          | waits => exact .waits first first'
          | ends data taken => exact .joined data _ first first'
          | one quote data begun => exact result (quotes (Or.inl rfl) (Or.inl there)) begun first first'
          | two quote data begun => exact result (quotes (Or.inl rfl) (Or.inr there)) begun first first'

theorem scanWord_failed (used : Nat) (input : Text) :
    scanWord used 0 [] input = .failed ↔ Continued input := by
  constructor
  · intro fails
    cases joins (List.cons_ne_nil 0 []) used input with
    | own length ends goesOn same => exact absurd fails goesOn
    | joined word length ends ends' =>
        rw [fails] at ends
        cases ends
    | stuck length fails' continued ends => exact continued
    | waits unended unended' =>
        rw [fails] at unended
        cases unended
  · intro continued
    induction continued generalizing used with
    | @blank c blank rest =>
        rw [scanWord_cons]
        rcases blank with rfl | rfl | rfl | rfl <;> rfl
    | again tail ih => rw [scanWord_continuation (Or.inl rfl) (by decide), ih]

theorem scanToken_failed (used : Nat) (input : Text) :
    scanToken used input = .failed ↔ Stuck input := by
  constructor
  · intro fails
    induction input generalizing used with
    | nil => cases fails
    | cons c rest ih =>
        rw [scanToken] at fails
        split at fails
        · next space =>
            split at fails
            · cases fails
            · next inside => exact .space space inside (ih _ fails)
        · next solid =>
            have continued := (scanWord_failed used _).mp fails
            generalize text : c :: rest = input at continued
            cases continued with
            | blank blank rest =>
                cases text
                rcases blank with rfl | rfl | rfl | rfl <;> exact absurd rfl solid
            | again tail => exact .continued tail
  · intro stuck
    induction stuck generalizing used with
    | continued tail => rw [scanToken_continuation, (scanWord_failed _ _).mpr tail]
    | space space inside tail ih => rw [scanToken, if_pos space, if_neg inside, ih]

end SystemProg.Shell
