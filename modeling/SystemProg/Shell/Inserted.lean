import Mathlib.Algebra.Ring.Nat
import SystemProg.Shell.Entries

set_option autoImplicit false

-- Two token lists that differ in a word of the line under way.

namespace SystemProg.Shell

def wordBytes (tokens : List Token) : Nat :=
  (tokens.map fun t => if t.type = .str then t.data.length else 0).sum

def Expr.wordBytes : Expr → Nat
  | .command cmd => cmd.exe.length + (cmd.args.map List.length).sum
  | _ => 0

def CommandLine.wordBytes (line : CommandLine) : Nat :=
  (line.exprs.map Expr.wordBytes).sum + line.outFile.length

theorem wordBytes_nil : wordBytes [] = 0 := rfl

theorem wordBytes_append (tokens tokens' : List Token) :
    wordBytes (tokens ++ tokens') = wordBytes tokens + wordBytes tokens' := by
  simp [wordBytes]

theorem wordBytes_word {t : Token} (word : t.type = .str) (rest : List Token) :
    wordBytes (t :: rest) = t.data.length + wordBytes rest := by
  simp [wordBytes, word]

theorem wordBytes_other {t : Token} (other : t.type ≠ .str) (rest : List Token) :
    wordBytes (t :: rest) = wordBytes rest := by
  simp [wordBytes, other]

theorem Words.wordBytes {tokens : List Token} {cmd : Command} (words : Words tokens cmd) :
    Shell.wordBytes tokens = (Expr.command cmd).wordBytes := by
  induction words with
  | exe word =>
      rw [wordBytes_word word]
      simp [Shell.wordBytes, Expr.wordBytes]
  | arg front word ih =>
      rw [wordBytes_append, wordBytes_word word, ih]
      simp [Shell.wordBytes, Expr.wordBytes, Nat.add_assoc]

theorem operatorOf_other {t : Token} {operator : Expr} (joined : operatorOf t.type = some operator) :
    t.type ≠ .str ∧ operator.wordBytes = 0 := by
  cases type : t.type <;> rw [type] at joined <;> cases joined
  all_goals exact ⟨by simp, rfl⟩

theorem Exprs.wordBytes {tokens : List Token} {exprs : List Expr} (read : Exprs tokens exprs) :
    Shell.wordBytes tokens = (exprs.map Expr.wordBytes).sum := by
  induction read with
  | command words => rw [words.wordBytes, List.map_singleton, List.sum_singleton]
  | chain left joined words ih =>
      obtain ⟨other, none⟩ := operatorOf_other joined
      rw [wordBytes_append, wordBytes_other other, ih, words.wordBytes]
      simp [none]

theorem Ending.wordBytes {tokens : List Token} {line : CommandLine} (ending : Ending tokens line) :
    Shell.wordBytes tokens = line.outFile.length := by
  obtain ⟨redirection, background, rfl, redirects, marks⟩ := ending
  obtain ⟨exprs, outType, outFile, isBackground⟩ := line
  dsimp only at redirects marks ⊢
  have mark : Shell.wordBytes background = 0 := by
    cases marks with
    | foreground => rfl
    | background mark => rw [wordBytes_other (by simp [mark])]; rfl
  rw [wordBytes_append, mark, Nat.add_zero]
  cases redirects with
  | stdout => rfl
  | fileNew arrow word | fileAppend arrow word =>
      rw [wordBytes_other (by simp [arrow]), wordBytes_word word]
      rfl

theorem Grammar.wordBytes {tokens : List Token} {line : CommandLine} (grammar : Grammar tokens line) :
    Shell.wordBytes tokens = line.wordBytes := by
  obtain ⟨front, ending, rfl, read, ends⟩ := grammar
  rw [wordBytes_append, read.wordBytes, ends.wordBytes, CommandLine.wordBytes]

-- One line does not end in a redirection where the other has a bad file.
def Verdict.Apart (first second : Verdict) : Prop :=
  (first = .dangling → second ≠ .error .outoutRedirectBadArg) ∧
    (first = .error .outoutRedirectBadArg → second ≠ .dangling)

def Verdict.Plain (verdict : Verdict) : Prop :=
  verdict ≠ .dangling ∧ verdict ≠ .error .outoutRedirectBadArg

theorem Verdict.Plain.left {first : Verdict} (plain : first.Plain) (second : Verdict) :
    first.Apart second :=
  ⟨fun same => absurd same plain.1, fun same => absurd same plain.2⟩

theorem Verdict.Plain.right {second : Verdict} (plain : second.Plain) (first : Verdict) :
    first.Apart second :=
  ⟨fun _ => plain.2, fun _ => plain.1⟩

theorem Verdict.apart_refl (verdict : Verdict) : verdict.Apart verdict := by
  constructor <;> rintro rfl <;> nofun

theorem finishTokens_plain (line : CommandLine) (tokens : List Token) :
    (finishTokens line tokens).Plain := by
  cases tokens with
  | nil =>
      rw [finishTokens]
      split
      · simp [Verdict.Plain]
      · split <;> simp [Verdict.Plain]
  | cons => simp [finishTokens, Verdict.Plain]

theorem backgroundTokens_plain (line : CommandLine) (tokens : List Token) :
    (backgroundTokens line tokens).Plain := by
  cases tokens with
  | nil => exact finishTokens_plain line []
  | cons t rest =>
      rw [backgroundTokens]
      split
      · exact finishTokens_plain _ rest
      · exact finishTokens_plain line _

theorem closeTokens_plain (line : CommandLine) {t : Token}
    (other : ¬(t.type = .outNew ∨ t.type = .outAppend)) (rest : List Token) :
    (closeTokens line (t :: rest)).Plain := by
  have plain : closeTokens line (t :: rest) = backgroundTokens line (t :: rest) := by
    cases rest <;> rw [closeTokens, if_neg other]
  rw [plain]
  exact backgroundTokens_plain line _

theorem closeTokens_file (line : CommandLine) {t file : Token}
    (arrow : t.type = .outNew ∨ t.type = .outAppend) (word : file.type = .str) (rest : List Token) :
    (closeTokens line (t :: file :: rest)).Plain := by
  rw [closeTokens, if_pos arrow, if_neg (by simp [word])]
  exact backgroundTokens_plain _ rest

theorem closeTokens_apart (line line' : CommandLine) (tokens : List Token) :
    (closeTokens line tokens).Apart (closeTokens line' tokens) := by
  cases tokens with
  | nil => exact (backgroundTokens_plain line []).left _
  | cons t rest =>
      by_cases arrow : t.type = .outNew ∨ t.type = .outAppend
      · cases rest with
        | nil =>
            rw [closeTokens, closeTokens, if_pos arrow, if_pos arrow]
            exact Verdict.apart_refl _
        | cons file rest =>
            by_cases word : file.type = .str
            · exact (closeTokens_file line arrow word rest).left _
            · rw [closeTokens, closeTokens, if_pos arrow, if_pos arrow, if_pos word, if_pos word]
              exact Verdict.apart_refl _
      · exact (closeTokens_plain line arrow rest).left _

theorem readTokens_apart (exprs exprs' : List Expr) {tokens : List Token}
    (inner : ∀ t ∈ tokens, t.type ≠ .newLine ∧ t.type ≠ .none) :
    (readTokens exprs tokens).Apart (readTokens exprs' tokens) := by
  induction tokens generalizing exprs exprs' with
  | nil => exact (backgroundTokens_plain (lineOf exprs) []).left _
  | cons t rest ih =>
      have first := inner t (by simp)
      have later : ∀ u ∈ rest, u.type ≠ .newLine ∧ u.type ≠ .none := fun u mem => inner u (by simp [mem])
      have join {operator : Expr} (joined : operatorOf t.type = some operator) :
          (readTokens exprs (t :: rest)).Apart (readTokens exprs' (t :: rest)) := by
        have coded (exprs : List Expr) {code : ParserError} (turn : readToken exprs t = .error code) :
            (readTokens exprs (t :: rest)).Plain := by
          rw [readTokens, turn]
          rw [readToken_operator joined, pushOperator] at turn
          refine ⟨by simp, ?_⟩
          rintro ⟨⟩
          cases type : t.type <;> rw [type] at joined <;> cases joined <;>
            (split at turn; · cases turn) <;> split at turn <;> cases turn
        rcases pushOperator_turn exprs operator operator.noLeftArg operator.notACommand with
          ⟨more, turn⟩ | ⟨code, turn⟩
        · rcases pushOperator_turn exprs' operator operator.noLeftArg operator.notACommand with
            ⟨more', turn'⟩ | ⟨code', turn'⟩
          · rw [readTokens, readTokens, readToken_operator joined, readToken_operator joined, turn, turn']
            exact ih _ _ later
          · exact (coded exprs' ((readToken_operator joined exprs').trans turn')).right _
        · exact (coded exprs ((readToken_operator joined exprs).trans turn)).left _
      cases type : t.type with
      | str =>
          rw [readTokens, readTokens, readToken_str type, readToken_str type]
          exact ih _ _ later
      | newLine => exact absurd type first.1
      | none => exact absurd type first.2
      | pipe | and | or => exact join (by rw [type]; rfl)
      | outNew | outAppend | background =>
          have closes (exprs : List Expr) : readToken exprs t = .close := by rw [readToken, type]
          rw [readTokens, readTokens, closes, closes]
          exact closeTokens_apart _ _ _

theorem readTokens_words {words : List Token} (str : ∀ t ∈ words, t.type = .str)
    (exprs : List Expr) : ∃ exprs', ∀ rest, readTokens exprs (words ++ rest) = readTokens exprs' rest := by
  induction words generalizing exprs with
  | nil => exact ⟨exprs, fun rest => rfl⟩
  | cons t words ih =>
      obtain ⟨exprs', same⟩ := ih (fun u mem => str u (by simp [mem])) (pushWord exprs t.data)
      refine ⟨exprs', fun rest => ?_⟩
      rw [List.cons_append, readTokens, readToken_str (str t (by simp))]
      exact same rest

theorem inserted_apart {words words' : List Token} (str : ∀ t ∈ words, t.type = .str)
    (str' : ∀ t ∈ words', t.type = .str) (nonempty : words' ≠ []) (exprs : List Expr)
    (front : List Token) {rest : List Token}
    (inner : ∀ t ∈ rest, t.type ≠ .newLine ∧ t.type ≠ .none) :
    (readTokens exprs (front ++ (words ++ rest))).Apart
      (readTokens exprs (front ++ (words' ++ rest))) := by
  induction front generalizing exprs with
  | nil =>
      obtain ⟨before, same⟩ := readTokens_words str exprs
      obtain ⟨before', same'⟩ := readTokens_words str' exprs
      rw [List.nil_append, List.nil_append, same, same']
      exact readTokens_apart before before' inner
  | cons t front ih =>
      rw [List.cons_append, List.cons_append, readTokens, readTokens]
      cases readToken exprs t with
      | failed | error => exact Verdict.apart_refl _
      | more exprs' => exact ih exprs'
      | close =>
          dsimp only
          by_cases arrow : t.type = .outNew ∨ t.type = .outAppend
          · cases front with
            | nil =>
                obtain ⟨word, words', rfl⟩ := List.exists_cons_of_ne_nil nonempty
                exact (closeTokens_file _ arrow (str' word (by simp)) _).right _
            | cons file front =>
                by_cases word : file.type = .str
                · exact (closeTokens_file _ arrow word _).left _
                · rw [List.cons_append, List.cons_append, closeTokens, closeTokens, if_pos arrow,
                    if_pos arrow, if_pos word, if_pos word]
                  exact Verdict.apart_refl _
          · exact (closeTokens_plain _ arrow _).left _

theorem Gives.shorter {tokens rest : List Token} {entry : Entry} (gives : Gives tokens entry rest) :
    rest.length < tokens.length := by
  obtain ⟨front, rfl, gives'⟩ := gives.cut
  obtain ⟨line, behind, ⟨newLines, newLine, rfl, -⟩, -⟩ := gives'.verdict
  simp only [List.length_append, List.length_cons]
  omega

theorem nextLine_blank {newLines : List Token} (blank : ∀ t ∈ newLines, t.type = .newLine)
    (tokens line rest : List Token) :
    NextLine (newLines ++ tokens) line rest ↔ NextLine tokens line rest := by
  constructor
  · induction newLines with
    | nil => exact id
    | cons t newLines ih =>
        rintro ⟨newLines', newLine, same, blank', nonempty, inner, ends⟩
        refine ih (fun u mem => blank u (by simp [mem])) ?_
        cases newLines' with
        | nil =>
            obtain ⟨u, line, rfl⟩ := List.exists_cons_of_ne_nil nonempty
            rw [List.nil_append, List.cons_append, List.cons_append, List.cons.injEq] at same
            exact absurd (same.1 ▸ blank t (by simp)) (inner u (by simp))
        | cons u newLines' =>
            rw [List.cons_append, List.cons_append, List.cons.injEq] at same
            exact ⟨newLines', newLine, same.2, fun v mem => blank' v (by simp [mem]), nonempty,
              inner, ends⟩
  · rintro ⟨newLines', newLine, rfl, blank', kept⟩
    refine ⟨newLines ++ newLines', newLine, by simp, fun t mem => ?_, kept⟩
    rcases List.mem_append.1 mem with mem | mem
    · exact blank t mem
    · exact blank' t mem

theorem gives_blank {newLines : List Token} (blank : ∀ t ∈ newLines, t.type = .newLine)
    (tokens : List Token) (entry : Entry) (left : List Token) :
    Gives (newLines ++ tokens) entry left ↔ Gives tokens entry left := by
  have skips {line rest : List Token} := nextLine_blank blank tokens line rest
  constructor
  · rintro (⟨next, grammar⟩ | ⟨next, fault⟩ | ⟨next, dangling, skipped⟩)
    · exact .line (skips.mp next) grammar
    · exact .fault (skips.mp next) fault
    · exact .dangling (skips.mp next) dangling skipped
  · rintro (⟨next, grammar⟩ | ⟨next, fault⟩ | ⟨next, dangling, skipped⟩)
    · exact .line (skips.mpr next) grammar
    · exact .fault (skips.mpr next) fault
    · exact .dangling (skips.mpr next) dangling skipped

theorem entries_exists (tokens : List Token) :
    ∃ entries rest, Entries tokens entries rest ∧ ¬Whole rest := by
  induction length : tokens.length using Nat.strongRecOn generalizing tokens with
  | _ size ih =>
  by_cases whole : Whole tokens
  · obtain ⟨entry, middle, gives⟩ := whole
    obtain ⟨entries, rest, taken, ended⟩ := ih middle.length (by have := gives.shorter; omega) middle rfl
    exact ⟨entry :: entries, rest, .cons gives taken, ended⟩
  · exact ⟨[], tokens, .nil tokens, whole⟩

section Unfinished

variable {tokens : List Token} (unfinished : Unfinished tokens)

include unfinished

theorem Unfinished.next {line rest : List Token} (next : NextLine tokens line rest) :
    Dangling line ∧ ∀ t ∈ rest, t.type ≠ .newLine := by
  cases unfinished with
  | @line newLines front blank inner =>
      obtain ⟨newLines', newLine, rfl, -, -, -, ends⟩ := (nextLine_blank blank front line rest).mp next
      exact absurd ends (inner newLine (by simp))
  | dangling next' dangling inner =>
      obtain ⟨rfl, rfl⟩ := next.unique next'
      exact ⟨dangling, inner⟩

theorem Unfinished.not_whole : ¬Whole tokens := by
  rintro ⟨entry, left, gives⟩
  obtain ⟨line, rest, next, verdict⟩ := gives.verdict
  obtain ⟨dangling, inner⟩ := unfinished.next next
  rw [dangling.readTokens] at verdict
  obtain ⟨-, skipped, newLine, rfl, -, ends⟩ := verdict
  exact inner newLine (by simp) ends

theorem Unfinished.sound : ¬Crashes tokens := by
  rintro ⟨line, rest, next, bare⟩
  have failed := bare.readTokens
  rw [(unfinished.next next).1.readTokens] at failed
  cases failed

theorem Unfinished.append {more : List Token} (inner : ∀ t ∈ more, t.type ≠ .newLine) :
    Unfinished (tokens ++ more) := by
  cases unfinished with
  | line blank inner' =>
      rw [List.append_assoc]
      refine .line blank fun t mem => ?_
      rcases List.mem_append.1 mem with mem | mem
      · exact inner' t mem
      · exact inner t mem
  | dangling next dangling inner' =>
      refine .dangling (next.append more) dangling fun t mem => ?_
      rcases List.mem_append.1 mem with mem | mem
      · exact inner' t mem
      · exact inner t mem

end Unfinished

-- The same entries, and where the second fails, so does the first.
def InStep (tokens : List Token) (stuck : Bool) (tokens' : List Token) (stuck' : Bool) : Prop :=
  ∃ entries rest rest', Entries tokens entries rest ∧ ¬Whole rest ∧ Entries tokens' entries rest' ∧
    ¬Whole rest' ∧ (Crashes rest' ∨ stuck' = true → Crashes rest ∨ stuck = true)

theorem inStep_refl (tokens : List Token) (stuck : Bool) : InStep tokens stuck tokens stuck := by
  obtain ⟨entries, rest, taken, ended⟩ := entries_exists tokens
  exact ⟨entries, rest, rest, taken, ended, taken, ended, id⟩

theorem inStep_behind {front tokens tokens' : List Token} {stuck stuck' : Bool} {before : List Entry}
    (taken : Entries front before []) :
    InStep (front ++ tokens) stuck (front ++ tokens') stuck' ↔ InStep tokens stuck tokens' stuck' := by
  have behind {tokens rest : List Token} {entries : List Entry} (more : Entries tokens entries rest) :
      Entries (front ++ tokens) (before ++ entries) rest := (taken.append tokens).trans more
  constructor
  · rintro ⟨entries, rest, rest', whole, ended, whole', ended', safe⟩
    obtain ⟨later, last, more, unended⟩ := entries_exists tokens
    obtain ⟨later', last', more', unended'⟩ := entries_exists tokens'
    obtain ⟨rfl, rfl⟩ := whole.unique ended (behind more) unended
    obtain ⟨same, rfl⟩ := whole'.unique ended' (behind more') unended'
    cases List.append_cancel_left same
    exact ⟨later, rest, rest', more, ended, more', ended', safe⟩
  · rintro ⟨entries, rest, rest', more, ended, more', ended', safe⟩
    exact ⟨_, rest, rest', behind more, ended, behind more', ended', safe⟩

-- Neither has an entry, and where the second fails, so does the first; or both begin with one error.
def AlikeTokens (tokens : List Token) (stuck : Bool) (tokens' : List Token) (stuck' : Bool) : Prop :=
  (¬Whole tokens ∧ ¬Whole tokens' ∧ (Crashes tokens' ∨ stuck' = true → Crashes tokens ∨ stuck = true)) ∨
    ∃ code rest rest', Gives tokens (code, none) rest ∧ Gives tokens' (code, none) rest'

-- When the first entry decides: equal, it is an error with the same tokens behind it, or one list
-- only has a line more.
inductive Compared (tokens : List Token) (stuck : Bool) (tokens' : List Token) (stuck' : Bool) :
    Prop where
  | faults (same : ∀ entry rest rest', Gives tokens entry rest → Gives tokens' entry rest' →
      entry.2 = none ∧ rest = rest' ∧ stuck = stuck')
  | longer {line : CommandLine} {rest : List Token} (more : Gives tokens' (.none, some line) rest)
      (without : ∀ entry left, Gives tokens entry left ↔ Gives rest entry left)

theorem inStep_unended {tokens tokens' : List Token} {stuck stuck' : Bool} (unended : ¬Whole tokens)
    (unended' : ¬Whole tokens') : InStep tokens stuck tokens' stuck' ↔
      (Crashes tokens' ∨ stuck' = true → Crashes tokens ∨ stuck = true) := by
  constructor
  · rintro ⟨entries, rest, rest', taken, ended, taken', ended', safe⟩
    obtain ⟨-, rfl⟩ := taken.unique ended (.nil tokens) unended
    obtain ⟨-, rfl⟩ := taken'.unique ended' (.nil tokens') unended'
    exact safe
  · exact fun safe => ⟨[], tokens, tokens', .nil tokens, unended, .nil tokens', unended', safe⟩

theorem Compared.inStep {tokens tokens' : List Token} {stuck stuck' : Bool}
    (compared : Compared tokens stuck tokens' stuck') :
    InStep tokens stuck tokens' stuck' ↔ AlikeTokens tokens stuck tokens' stuck' := by
  constructor
  · rintro ⟨entries, rest, rest', taken, ended, taken', ended', safe⟩
    cases taken with
    | nil =>
        cases taken'
        exact Or.inl ⟨ended, ended', safe⟩
    | @cons _ middle _ entry entries gives tail =>
        cases taken' with
        | @cons _ middle' _ _ _ gives' tail' =>
            cases compared with
            | faults same =>
                obtain ⟨code, line⟩ := entry
                obtain ⟨rfl, -, -⟩ := same _ _ _ gives gives'
                exact Or.inr ⟨code, middle, middle', gives, gives'⟩
            | longer more without =>
                -- The second list is that of the first behind one more line.
                obtain ⟨rfl, rfl⟩ := gives'.unique more
                have again := ((without _ _).mp gives)
                obtain ⟨same, -⟩ := (Entries.cons again tail).unique ended tail' ended'
                simp at same
  · rintro (⟨unended, unended', safe⟩ | ⟨code, rest, left, gives, gives'⟩)
    · exact (inStep_unended unended unended').mpr safe
    · cases compared with
      | faults same =>
          obtain ⟨-, rfl, rfl⟩ := same _ _ _ gives gives'
          obtain ⟨entries, last, taken, ended⟩ := entries_exists rest
          exact ⟨_, last, last, .cons gives taken, ended, .cons gives' taken, ended, id⟩
      | longer more without => cases (gives'.unique more).1

theorem compared_unended {tokens tokens' : List Token} {stuck stuck' : Bool}
    (unended : ¬Whole tokens) : Compared tokens stuck tokens' stuck' :=
  .faults fun entry rest _ gives => absurd ⟨entry, rest, gives⟩ unended

-- Both lists skip the rest of the line.
theorem compared_skipped {tokens tokens' line middle middle' rest : List Token} {stuck : Bool}
    (next : NextLine tokens line middle) (next' : NextLine tokens' line middle')
    (dangling : Dangling line) (skips : Skips middle rest) (skips' : Skips middle' rest) :
    Compared tokens stuck tokens' stuck := by
  refine .faults fun entry left left' gives gives' => ?_
  obtain ⟨rfl, rfl⟩ := gives.unique (.dangling next dangling skips)
  obtain ⟨-, rfl⟩ := gives'.unique (.dangling next' dangling skips')
  exact ⟨rfl, rfl, rfl⟩

-- The bytes of the words tell two lines of the grammar apart.
theorem compared_lines {tokens tokens' line line' rest : List Token} {stuck : Bool}
    (next : NextLine tokens line rest) (next' : NextLine tokens' line' rest)
    (apart : (readTokens [] line).Apart (readTokens [] line'))
    (differ : wordBytes line ≠ wordBytes line') : Compared tokens stuck tokens' stuck := by
  refine .faults fun entry left left' gives gives' => ?_
  cases gives with
  | line there grammar =>
      obtain ⟨rfl, rfl⟩ := there.unique next
      cases gives' with
      | line there' grammar' =>
          obtain ⟨rfl, rfl⟩ := there'.unique next'
          exact absurd (grammar.wordBytes.trans grammar'.wordBytes.symm) differ
  | fault there fault =>
      obtain ⟨rfl, rfl⟩ := there.unique next
      cases gives' with
      | fault there' fault' =>
          obtain ⟨rfl, rfl⟩ := there'.unique next'
          exact ⟨rfl, rfl, rfl⟩
      | dangling there' dangling skips =>
          obtain ⟨rfl, rfl⟩ := there'.unique next'
          exact absurd dangling.readTokens (apart.2 fault.readTokens)
  | dangling there dangling skips =>
      obtain ⟨rfl, rfl⟩ := there.unique next
      cases gives' with
      | fault there' fault' =>
          obtain ⟨rfl, rfl⟩ := there'.unique next'
          exact absurd fault'.readTokens (apart.1 dangling.readTokens)
      | dangling there' dangling' skips' =>
          obtain ⟨rfl, rfl⟩ := there'.unique next'
          exact ⟨rfl, skips.unique skips', rfl⟩

section Words

variable {words front rest : List Token} {newLine : Token}

theorem inner_words (inner : ∀ t ∈ front, t.type ≠ .newLine) (str : ∀ t ∈ words, t.type = .str)
    {line : List Token} (inner' : ∀ t ∈ line, t.type ≠ .newLine) :
    ∀ t ∈ line ++ (words ++ front), t.type ≠ .newLine := by
  intro t mem
  simp only [List.mem_append] at mem
  rcases mem with mem | mem | mem
  · exact inner' t mem
  · simp [str t mem]
  · exact inner t mem

theorem skips_words (ends : newLine.type = .newLine) (inner : ∀ t ∈ front, t.type ≠ .newLine)
    (str : ∀ t ∈ words, t.type = .str) {middle : List Token}
    (inner' : ∀ t ∈ middle, t.type ≠ .newLine) :
    Skips (middle ++ (words ++ (front ++ newLine :: rest))) rest :=
  ⟨middle ++ (words ++ front), newLine, by simp, inner_words inner str inner', ends⟩

theorem nextLine_words (ends : newLine.type = .newLine) (inner : ∀ t ∈ front, t.type ≠ .newLine)
    (str : ∀ t ∈ words, t.type = .str) {newLines line : List Token}
    (blank : ∀ t ∈ newLines, t.type = .newLine) (inner' : ∀ t ∈ line, t.type ≠ .newLine)
    (nonempty : line ++ (words ++ front) ≠ []) :
    NextLine (newLines ++ line ++ (words ++ (front ++ newLine :: rest))) (line ++ (words ++ front))
      rest :=
  ⟨newLines, newLine, by simp, blank, nonempty, inner_words inner str inner', ends⟩

-- A line of the word alone, where there was only its new line.
theorem compared_alone (ends : newLine.type = .newLine) {newLines : List Token} {word : Token}
    (blank : ∀ t ∈ newLines, t.type = .newLine) (str : word.type = .str) (stuck : Bool) :
    Compared (newLines ++ newLine :: rest) stuck (newLines ++ word :: newLine :: rest) stuck := by
  have grammar : Grammar [word] (lineOf [.command ⟨word.data, []⟩]) :=
    ⟨[word], [], rfl, .command (.exe str), [], [], rfl, .stdout, .foreground⟩
  have next : NextLine (newLines ++ word :: newLine :: rest) [word] rest :=
    ⟨newLines, newLine, rfl, blank, by simp, by simp [str], ends⟩
  refine .longer (.line next grammar) fun entry left => ?_
  have only : ∀ t ∈ newLines ++ [newLine], t.type = .newLine := by
    intro t mem
    rcases List.mem_append.1 mem with mem | mem
    · exact blank t mem
    · obtain rfl := List.mem_singleton.1 mem
      exact ends
  have same := gives_blank only rest entry left
  rwa [List.append_assoc] at same

end Words

theorem inserted_compared {before words tokens : List Token} {word : Token}
    (unfinished : Unfinished before) (str : ∀ t ∈ words, t.type = .str) (str' : word.type = .str)
    (longer : wordBytes words < word.data.length)
    (typed : ∀ t ∈ before ++ tokens, t.type ≠ .none) (stuck : Bool) :
    Compared (before ++ (words ++ tokens)) stuck (before ++ (word :: tokens)) stuck := by
  have wordsInner : ∀ t ∈ words, t.type ≠ .newLine := fun t mem => by simp [str t mem]
  have single : ∀ t ∈ [word], t.type = .str := by simpa using str'
  rcases skips_cases tokens with ⟨rest, front, newLine, rfl, inner, ends⟩ | inner
  case inr =>
    refine compared_unended (unfinished.append fun t mem => ?_).not_whole
    rcases List.mem_append.1 mem with mem | mem
    · exact wordsInner t mem
    · exact inner t mem
  cases unfinished with
  | dangling next dangling inner' =>
      exact compared_skipped (next.append _) (next.append _) dangling
        (skips_words ends inner str inner') (skips_words ends inner single inner')
  | @line newLines line blank inner' =>
      by_cases empty : line ++ (words ++ front) = []
      · obtain ⟨rfl, rest_⟩ := List.append_eq_nil_iff.1 empty
        obtain ⟨rfl, rfl⟩ := List.append_eq_nil_iff.1 rest_
        simpa using compared_alone ends blank str' stuck
      · have typed' : ∀ t ∈ front, t.type ≠ .newLine ∧ t.type ≠ .none :=
          fun t mem => ⟨inner t mem, typed t (by simp [mem])⟩
        refine compared_lines (nextLine_words ends inner str blank inner' empty)
          (nextLine_words ends inner single blank inner' (by simp))
          (inserted_apart str single (by simp) [] line typed') ?_
        simp only [wordBytes_append, wordBytes_word str', wordBytes_nil]
        omega

end SystemProg.Shell
