import SystemProg.Shell.Chunks
import SystemProg.Shell.Execute

set_option autoImplicit false

-- A token of type `newLine` is the only way out of `parser_pop_next` that consumes anything, and
-- its text ends with a newline. So each line and each error costs a newline, and the loop of `main`
-- that pops them ends.

namespace SystemProg.Shell

def newlines (text : Text) : Nat := text.count (byte '\n')

def LineEnd (text : Text) (size : Nat) : Prop := ∃ front, text.take size = front ++ [byte '\n']

-- The calls that have been made on a parser, with the newlines that were fed and the lines and
-- errors that were returned.
inductive Run : Parser → Nat → Nat → Prop where
  | new : Run parserNew 0 0
  | feed {p : Parser} {fed results : Nat} (run : Run p fed results) (str : Text) :
      Run (parserFeed p str) (fed + newlines str) results
  | nothing {p p' : Parser} {fed results : Nat} (run : Run p fed results)
      (bounded : p.buffer.length < 2 ^ 32) (popped : parserPopNext p = some (.none, none, p')) :
      Run p' fed results
  | result {p p' : Parser} {fed results : Nat} {code : ParserError} {line : Option CommandLine}
      (run : Run p fed results) (bounded : p.buffer.length < 2 ^ 32)
      (popped : parserPopNext p = some (code, line, p')) (counts : code ≠ .none ∨ line ≠ none) :
      Run p' fed (results + 1)

-- How the inner loop of `main` ends: in a failed assertion, with the shell, or when there are no
-- more lines.
inductive Ended where
  | failed
  | exited (status : Int)
  | waiting (p : Parser) (lastStatus : Int)
deriving DecidableEq, Repr

-- At most `turns` turns of the inner loop of `main`; `outcomes` tells what the commands of the line
-- do that is read in each turn.
def popLines (outcomes : Nat → Outcomes) : Nat → Parser → Int → Option Ended
  | 0, _, _ => none
  | turns + 1, p, lastStatus =>
      match parserPopNext p with
      | none => some .failed
      | some (.none, none, p) => some (.waiting p lastStatus)
      | some (.none, some line, p) =>
          match handleLine line (outcomes 0) with
          | .error shell => some (.exited shell.lastStatus)
          | .ok shell =>
              popLines (fun turn => outcomes (turn + 1)) turns p (shell.lastStatus % 256)
      | some (_, _, p) => popLines (fun turn => outcomes (turn + 1)) turns p lastStatus

def Scan.EndsLine (scan : Scan) (used : Nat) (input : Text) : Prop :=
  ∀ t n, scan = .token t n → t.type = .newLine →
    ∃ front rest, input = front ++ byte '\n' :: rest ∧ n = used + front.length + 1

theorem Scan.EndsLine.cons {scan : Scan} {used : Nat} {input : Text}
    (ends : scan.EndsLine (used + 1) input) (c : Byte) : scan.EndsLine used (c :: input) := by
  intro t n scanned isLine
  obtain ⟨front, rest, split, length⟩ := ends t n scanned isLine
  refine ⟨c :: front, rest, by rw [split, List.cons_append], ?_⟩
  rw [length, List.length_cons]
  omega

theorem scanComment_endsLine (used : Nat) (input : Text) :
    (scanComment used input).EndsLine used input := by
  induction input generalizing used with
  | nil => intro t n scanned; cases scanned
  | cons c rest ih =>
      rw [scanComment]
      split
      · next newline =>
          intro t n scanned isLine
          cases scanned
          exact ⟨[], rest, by rw [newline, List.nil_append], rfl⟩
      · exact (ih (used + 1)).cons c

theorem scanWord_endsLine (used : Nat) (quote : Byte) (data input : Text) :
    (scanWord used quote data input).EndsLine used input := by
  induction length : input.length using Nat.strongRecOn generalizing used quote data input with
  | _ size ih =>
  cases input with
  | nil =>
      rw [scanWord]
      intro t n scanned
      cases scanned
  | cons c rest =>
      rw [List.length_cons] at length
      rw [scanWord_cons]
      cases move : wordMove quote data c rest.head? with
      | failed | incomplete =>
          intro t n scanned
          cases scanned
      | token type data' taken =>
          intro t n scanned isLine
          cases scanned
          exact absurd isLine (wordMove_token move).2.2
      | comment => exact (scanComment_endsLine (used + 1) rest).cons c
      | one quote data => exact (ih rest.length (by omega) _ quote data rest rfl).cons c
      | two quote data =>
          cases rest with
          | nil => exact absurd rfl (wordMove_two move)
          | cons d tail =>
              rw [List.length_cons] at length
              have behind := ih tail.length (by omega) (used + 2) quote data tail rfl
              exact (behind.cons d).cons c

theorem scanToken_endsLine (used : Nat) (input : Text) :
    (scanToken used input).EndsLine used input := by
  induction input generalizing used with
  | nil => intro t n scanned; cases scanned
  | cons c rest ih =>
      rw [scanToken]
      split
      · split
        · next newline =>
            intro t n scanned isLine
            cases scanned
            exact ⟨[], rest, by rw [newline, List.nil_append], rfl⟩
        · exact (ih (used + 1)).cons c
      · exact scanWord_endsLine used 0 [] (c :: rest)

theorem parseToken_lineEnd {input : Text} {t : Token} {used : Nat}
    (bounded : input.length < 2 ^ 32) (scanned : parseToken input = .token t used)
    (isLine : t.type = .newLine) : LineEnd input used := by
  unfold parseToken at scanned
  cases found : scanToken 0 input with
  | failed | incomplete =>
      rw [found] at scanned
      cases scanned
  | token t' n =>
      rw [found] at scanned
      dsimp only at scanned
      split at scanned
      · cases scanned
      · cases scanned
        obtain ⟨front, rest, split, length⟩ := scanToken_endsLine 0 input _ n found isLine
        have inside := scanToken_within 0 input _ n found
        have whole : uint32 n = n := Nat.mod_eq_of_lt (by omega)
        refine ⟨front, ?_⟩
        rw [whole, split, length, Nat.zero_add, List.take_length_add_append]
        rfl

section Consumed

variable {buffer : Text} (bounded : buffer.length < 2 ^ 32)

def Outcome.EndsLine (outcome : Outcome) (buffer : Text) : Prop :=
  match outcome with
  | .failed | .noLine => True
  | .line _ consumed | .error _ consumed => LineEnd buffer consumed

include bounded

theorem parseToken_next {pos used : Nat} {t : Token}
    (scanned : parseToken (buffer.drop pos) = .token t used) (isLine : t.type = .newLine) :
    LineEnd buffer (pos + used) := by
  have short : (buffer.drop pos).length < 2 ^ 32 :=
    Nat.lt_of_le_of_lt (by rw [List.length_drop]; omega) bounded
  obtain ⟨front, taken⟩ := parseToken_lineEnd short scanned isLine
  exact ⟨buffer.take pos ++ front, by rw [List.take_add, taken, List.append_assoc]⟩

theorem skipLine_lineEnd (code : ParserError) (pos : Nat) :
    (skipLine code pos (buffer.drop pos)).EndsLine buffer := by
  induction length : (buffer.drop pos).length using Nat.strongRecOn generalizing pos with
  | _ size ih =>
  rw [skipLine_eq]
  cases scanned : parseToken (buffer.drop pos) with
  | incomplete | failed => exact True.intro
  | token t used =>
      obtain ⟨positive, inside⟩ := parseToken_within scanned
      dsimp only
      split
      · next isLine => exact parseToken_next bounded scanned isLine
      · rw [List.drop_drop]
        exact ih (buffer.drop (pos + used)).length
          (by rw [← List.drop_drop, List.length_drop]; omega) (pos + used) rfl

theorem finishLine_lineEnd (line : CommandLine) {pos : Nat} {token : Token}
    (last : token.type = .newLine → LineEnd buffer pos) :
    (finishLine line pos (buffer.drop pos) token).EndsLine buffer := by
  unfold finishLine
  split
  · next isLine =>
      cases line.exprs.getLast? with
      | none => exact True.intro
      | some e =>
          dsimp only
          split <;> exact last isLine
  · exact skipLine_lineEnd bounded _ _

theorem closeBackground_lineEnd (line : CommandLine) {pos : Nat} {token : Token}
    (last : token.type = .newLine → LineEnd buffer pos) :
    (closeBackground line pos (buffer.drop pos) token).EndsLine buffer := by
  unfold closeBackground
  split
  · cases scanned : parseToken (buffer.drop pos) with
    | incomplete | failed => exact True.intro
    | token next used =>
        dsimp only
        rw [List.drop_drop]
        exact finishLine_lineEnd bounded _ (parseToken_next bounded scanned)
  · exact finishLine_lineEnd bounded line last

theorem closeLine_lineEnd (line : CommandLine) {pos : Nat} {token : Token}
    (last : token.type = .newLine → LineEnd buffer pos) :
    (closeLine line pos (buffer.drop pos) token).EndsLine buffer := by
  unfold closeLine
  split
  · cases scanned : parseToken (buffer.drop pos) with
    | incomplete | failed => exact True.intro
    | token file used =>
        dsimp only
        rw [List.drop_drop]
        split
        · exact skipLine_lineEnd bounded _ _
        · cases scanned' : parseToken (buffer.drop (pos + used)) with
          | incomplete | failed => exact True.intro
          | token next used' =>
              dsimp only
              rw [List.drop_drop]
              exact closeBackground_lineEnd bounded _ (parseToken_next bounded scanned')
  · exact closeBackground_lineEnd bounded line last

theorem parseLine_lineEnd (exprs : List Expr) (pos : Nat) :
    (parseLine exprs pos (buffer.drop pos)).EndsLine buffer := by
  induction length : (buffer.drop pos).length using Nat.strongRecOn generalizing exprs pos with
  | _ size ih =>
  rw [parseLine_eq]
  cases scanned : parseToken (buffer.drop pos) with
  | incomplete | failed => exact True.intro
  | token t used =>
      obtain ⟨positive, inside⟩ := parseToken_within scanned
      dsimp only
      rw [List.drop_drop]
      cases readToken exprs t with
      | failed => exact True.intro
      | more exprs' =>
          exact ih (buffer.drop (pos + used)).length
            (by rw [← List.drop_drop, List.length_drop]; omega) exprs' (pos + used) rfl
      | close => exact closeLine_lineEnd bounded _ (parseToken_next bounded scanned)
      | error code => exact skipLine_lineEnd bounded code _

theorem parserPopNext_removes {code : ParserError} {line : Option CommandLine} {left : Parser}
    (popped : parserPopNext ⟨buffer⟩ = some (code, line, left)) :
    (code = .none ∧ line = none ∧ left = ⟨buffer⟩) ∨
      (code ≠ .none ∨ line ≠ none) ∧ ∃ front, buffer = front ++ byte '\n' :: left.buffer := by
  have within := parseLine_within [] 0 buffer
  have coded := parseLine_coded [] 0 buffer
  have ends := parseLine_lineEnd bounded [] 0
  rw [List.drop_zero] at ends
  have removed : ∀ consumed, LineEnd buffer consumed →
      ∃ front, buffer = front ++ byte '\n' :: buffer.drop consumed := fun consumed ends => by
    obtain ⟨front, taken⟩ := ends
    refine ⟨front, ?_⟩
    conv_lhs => rw [← List.take_append_drop consumed buffer, taken]
    rw [List.append_assoc, List.cons_append, List.nil_append]
  unfold parserPopNext at popped
  cases outcome : parseLine [] 0 buffer with
  | failed =>
      rw [outcome] at popped
      cases popped
  | noLine =>
      rw [outcome] at popped
      cases popped
      exact Or.inl ⟨rfl, rfl, rfl⟩
  | line line' consumed =>
      rw [outcome] at popped within ends
      dsimp only at popped
      rw [parserConsume_within (by simpa using within.2) bounded] at popped
      cases popped
      exact Or.inr ⟨Or.inr (by simp), removed consumed ends⟩
  | error code' consumed =>
      rw [outcome] at popped within ends coded
      dsimp only at popped
      rw [parserConsume_within (by simpa using within.2) bounded] at popped
      cases popped
      refine Or.inr ⟨Or.inl ?_, removed consumed ends⟩
      rintro rfl
      exact coded consumed rfl

end Consumed

theorem newlines_removed {buffer front : Text} {left : Text}
    (removed : buffer = front ++ byte '\n' :: left) : newlines left < newlines buffer := by
  rw [removed, newlines, newlines, List.count_append, List.count_cons_self]
  omega

-- Each result has cost a newline that is no longer in the buffer.
theorem Run.counted {p : Parser} {fed results : Nat} (run : Run p fed results) :
    results + newlines p.buffer ≤ fed := by
  induction run with
  | new => exact Nat.le_refl _
  | feed run str ih =>
      simp only [parserFeed, newlines, List.count_append] at ih ⊢
      omega
  | nothing run bounded popped ih =>
      rcases parserPopNext_removes bounded popped with ⟨-, -, rfl⟩ | ⟨counts, -⟩
      · exact ih
      · simp at counts
  | result run bounded popped counts ih =>
      rcases parserPopNext_removes bounded popped with ⟨rfl, rfl, -⟩ | ⟨-, front, removed⟩
      · simp at counts
      · have fewer := newlines_removed removed
        omega

theorem popLines_ends (turns : Nat) (outcomes : Nat → Outcomes) (p : Parser) (lastStatus : Int)
    (bounded : p.buffer.length < 2 ^ 32) (enough : newlines p.buffer < turns) :
    (popLines outcomes turns p lastStatus).isSome := by
  induction turns generalizing outcomes p lastStatus with
  | zero => exact absurd enough (Nat.not_lt_zero _)
  | succ turns ih =>
      have later : ∀ code line p', parserPopNext p = some (code, line, p') →
          (code ≠ .none ∨ line ≠ none) →
          p'.buffer.length < 2 ^ 32 ∧ newlines p'.buffer < turns := by
        intro code line p' popped counts
        rcases parserPopNext_removes bounded popped with ⟨rfl, rfl, -⟩ | ⟨-, front, removed⟩
        · simp at counts
        · have fewer := newlines_removed removed
          have shorter := congrArg List.length removed
          rw [List.length_append, List.length_cons] at shorter
          exact ⟨by omega, by omega⟩
      rw [popLines]
      split
      · rfl
      · rfl
      · next line p' popped =>
          obtain ⟨bounded', enough'⟩ := later .none (some line) p' popped (Or.inr (by simp))
          split
          · rfl
          · exact ih _ p' _ bounded' enough'
      · next code line p' notNothing notLine popped =>
          have counts : code ≠ .none ∨ line ≠ none := by
            by_cases noError : code = .none
            · cases line with
              | none => exact absurd rfl (notNothing noError)
              | some line => exact Or.inr (by simp)
            · exact Or.inl noError
          obtain ⟨bounded', enough'⟩ := later code line p' popped counts
          exact ih _ p' _ bounded' enough'

structure Progresses (buffer : Text) : Prop where
  token : ∀ t used, parseToken buffer = .token t used → 0 < used ∧ used ≤ buffer.length
  removes : ∀ code line left, parserPopNext ⟨buffer⟩ = some (code, line, left) →
    (code ≠ .none ∨ line ≠ none) → ∃ front, buffer = front ++ byte '\n' :: left.buffer
  keeps : ∀ left, parserPopNext ⟨buffer⟩ = some (.none, none, left) → left = ⟨buffer⟩
  ends : ∀ outcomes lastStatus,
    (popLines outcomes (newlines buffer + 1) ⟨buffer⟩ lastStatus).isSome

theorem parser_progresses {buffer : Text} (bounded : buffer.length < 2 ^ 32) :
    Progresses buffer ∧ ∀ p fed results, Run p fed results → results ≤ fed where
  left :=
    { token := fun _ _ scanned => parseToken_within scanned
      removes := by
        intro code line left popped counts
        rcases parserPopNext_removes bounded popped with ⟨rfl, rfl, -⟩ | ⟨-, removed⟩
        · simp at counts
        · exact removed
      keeps := by
        intro left popped
        rcases parserPopNext_removes bounded popped with ⟨-, -, same⟩ | ⟨counts, -⟩
        · exact same
        · simp at counts
      ends := fun outcomes lastStatus =>
        popLines_ends _ outcomes _ lastStatus bounded (Nat.lt_succ_self _) }
  right := fun _ _ _ run => Nat.le_trans (Nat.le_add_right _ _) run.counted

theorem parser_progresses_word :
    Progresses [byte 'l', byte 's', byte '\n'] ∧
      ∀ p fed results, Run p fed results → results ≤ fed :=
  parser_progresses (by decide)

end SystemProg.Shell
