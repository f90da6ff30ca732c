import SystemProg.Shell.Pending

set_option autoImplicit false

-- What a text gives, said by its tokens: entry after entry, each a line of the grammar or the first
-- fault of a line.

namespace SystemProg.Shell

abbrev Entry := ParserError × Option CommandLine

inductive LexesTo : Text → List Token → Text → Prop where
  | nil (rest : Text) : LexesTo rest [] rest
  | cons {input rest : Text} {t : Token} {used : Nat} {tokens : List Token}
      (scanned : scanToken 0 input = .token t used) (tail : LexesTo (input.drop used) tokens rest) :
      LexesTo input (t :: tokens) rest

def NextLine (tokens line rest : List Token) : Prop :=
  ∃ newLines newLine, tokens = newLines ++ (line ++ newLine :: rest) ∧
    (∀ t ∈ newLines, t.type = .newLine) ∧ line ≠ [] ∧ (∀ t ∈ line, t.type ≠ .newLine) ∧
    newLine.type = .newLine

-- Any tokens up to a new line.
def Skips (tokens rest : List Token) : Prop :=
  ∃ skipped newLine, tokens = skipped ++ newLine :: rest ∧ (∀ t ∈ skipped, t.type ≠ .newLine) ∧
    newLine.type = .newLine

-- Behind a dangling redirection the next line goes with it.
inductive Gives (tokens : List Token) : Entry → List Token → Prop where
  | line {line rest : List Token} {l : CommandLine} (next : NextLine tokens line rest)
      (grammar : Grammar line l) : Gives tokens (.none, some l) rest
  | fault {line rest : List Token} {code : ParserError} (next : NextLine tokens line rest)
      (fault : Fault line code) : Gives tokens (code, none) rest
  | dangling {line middle rest : List Token} (next : NextLine tokens line middle)
      (dangling : Dangling line) (skips : Skips middle rest) :
      Gives tokens (.outoutRedirectBadArg, none) rest

inductive Entries : List Token → List Entry → List Token → Prop where
  | nil (rest : List Token) : Entries rest [] rest
  | cons {tokens middle rest : List Token} {entry : Entry} {entries : List Entry}
      (gives : Gives tokens entry middle) (tail : Entries middle entries rest) :
      Entries tokens (entry :: entries) rest

def Whole (tokens : List Token) : Prop := ∃ entry rest, Gives tokens entry rest

def Crashes (tokens : List Token) : Prop := ∃ line rest, NextLine tokens line rest ∧ Bare line

def Finishes (text : Text) (entry : Entry) : Prop :=
  ∃ tokens rest left, LexesTo text tokens rest ∧ Gives tokens entry left

def Fails (text : Text) : Prop :=
  ∃ tokens rest, LexesTo text tokens rest ∧ (Crashes tokens ∨ ¬Whole tokens ∧ Stuck rest)

-- What is left of the text behind its complete entries.
def Behind (text left : Text) : Prop :=
  ∃ tokens entries, LexesTo text tokens left ∧ Entries tokens entries [] ∧
    ∀ entry, ¬Finishes left entry

theorem split_unique {front front' rest rest' : List Token} {t t' : Token} {p : Token → Prop}
    (same : front ++ t :: rest = front' ++ t' :: rest') (inner : ∀ u ∈ front, p u)
    (inner' : ∀ u ∈ front', p u) (ends : ¬p t) (ends' : ¬p t') :
    front = front' ∧ t = t' ∧ rest = rest' := by
  induction front generalizing front' with
  | nil =>
      cases front' with
      | nil =>
          cases same
          exact ⟨rfl, rfl, rfl⟩
      | cons u front' =>
          cases same
          exact absurd (inner' t (by simp)) ends
  | cons u front ih =>
      cases front' with
      | nil =>
          cases same
          exact absurd (inner t' (by simp)) ends'
      | cons u' front' =>
          rw [List.cons_append, List.cons_append, List.cons.injEq] at same
          obtain ⟨rfl, same⟩ := same
          obtain ⟨rfl, rfl, rfl⟩ := ih same (fun v mem => inner v (by simp [mem]))
            (fun v mem => inner' v (by simp [mem]))
          exact ⟨rfl, rfl, rfl⟩

section Tokens

variable {tokens line line' rest rest' more : List Token}

theorem Skips.unique (skips : Skips tokens rest) (skips' : Skips tokens rest') : rest = rest' := by
  obtain ⟨skipped, newLine, rfl, inner, ends⟩ := skips
  obtain ⟨skipped', newLine', same, inner', ends'⟩ := skips'
  exact (split_unique same inner inner' (by simpa using ends) (by simpa using ends')).2.2

theorem Skips.append (skips : Skips tokens rest) (more : List Token) :
    Skips (tokens ++ more) (rest ++ more) := by
  obtain ⟨skipped, newLine, rfl, inner, ends⟩ := skips
  exact ⟨skipped, newLine, by simp, inner, ends⟩

theorem NextLine.unique (next : NextLine tokens line rest) (next' : NextLine tokens line' rest') :
    line = line' ∧ rest = rest' := by
  obtain ⟨newLines, newLine, rfl, blank, nonempty, inner, ends⟩ := next
  obtain ⟨newLines', newLine', same, blank', nonempty', inner', ends'⟩ := next'
  obtain ⟨t, line, rfl⟩ := List.exists_cons_of_ne_nil nonempty
  obtain ⟨t', line', rfl⟩ := List.exists_cons_of_ne_nil nonempty'
  rw [List.cons_append, List.cons_append] at same
  obtain ⟨-, rfl, behind⟩ := split_unique same blank blank' (inner t (by simp)) (inner' t' (by simp))
  obtain ⟨rfl, -, rfl⟩ := split_unique behind (fun u mem => inner u (by simp [mem]))
    (fun u mem => inner' u (by simp [mem])) (by simpa using ends) (by simpa using ends')
  exact ⟨rfl, rfl⟩

theorem NextLine.append (next : NextLine tokens line rest) (more : List Token) :
    NextLine (tokens ++ more) line (rest ++ more) := by
  obtain ⟨newLines, newLine, rfl, blank, nonempty, inner, ends⟩ := next
  exact ⟨newLines, newLine, by simp, blank, nonempty, inner, ends⟩

theorem Gives.append {entry : Entry} (gives : Gives tokens entry rest) (more : List Token) :
    Gives (tokens ++ more) entry (rest ++ more) := by
  cases gives with
  | line next grammar => exact .line (next.append more) grammar
  | fault next fault => exact .fault (next.append more) fault
  | dangling next dangling skips => exact .dangling (next.append more) dangling (skips.append more)

theorem Crashes.append (crashes : Crashes tokens) (more : List Token) : Crashes (tokens ++ more) := by
  obtain ⟨line, rest, next, bare⟩ := crashes
  exact ⟨line, _, next.append more, bare⟩

def Verdict.gives (rest : List Token) (verdict : Verdict) (entry : Entry) (left : List Token) : Prop :=
  match verdict with
  | .failed => False
  | .line l => entry = (.none, some l) ∧ left = rest
  | .error code => entry = (code, none) ∧ left = rest
  | .dangling => entry = (.outoutRedirectBadArg, none) ∧ Skips rest left

theorem Gives.verdict {entry : Entry} {left : List Token} (gives : Gives tokens entry left) :
    ∃ line rest, NextLine tokens line rest ∧ (readTokens [] line).gives rest entry left := by
  cases gives with
  | line next grammar => exact ⟨_, _, next, by rw [grammar.readTokens]; exact ⟨rfl, rfl⟩⟩
  | fault next fault => exact ⟨_, _, next, by rw [fault.readTokens]; exact ⟨rfl, rfl⟩⟩
  | dangling next dangling skips =>
      exact ⟨_, _, next, by rw [dangling.readTokens]; exact ⟨rfl, skips⟩⟩

theorem Gives.unique {entry entry' : Entry} (gives : Gives tokens entry rest)
    (gives' : Gives tokens entry' rest') : entry = entry' ∧ rest = rest' := by
  obtain ⟨line, behind, next, verdict⟩ := gives.verdict
  obtain ⟨line', behind', next', verdict'⟩ := gives'.verdict
  obtain ⟨rfl, rfl⟩ := next.unique next'
  cases read : readTokens [] line with
  | failed =>
      rw [read] at verdict
      exact verdict.elim
  | line l | error code =>
      rw [read] at verdict verdict'
      exact ⟨verdict.1.trans verdict'.1.symm, verdict.2.trans verdict'.2.symm⟩
  | dangling =>
      rw [read] at verdict verdict'
      exact ⟨verdict.1.trans verdict'.1.symm, verdict.2.unique verdict'.2⟩

theorem Crashes.not_whole (crashes : Crashes tokens) : ¬Whole tokens := by
  rintro ⟨entry, left, gives⟩
  obtain ⟨line, rest, next, bare⟩ := crashes
  obtain ⟨line', rest', next', verdict⟩ := gives.verdict
  obtain ⟨rfl, rfl⟩ := next.unique next'
  rw [bare.readTokens] at verdict
  exact verdict

theorem Whole.append (whole : Whole tokens) (more : List Token) : Whole (tokens ++ more) := by
  obtain ⟨entry, rest, gives⟩ := whole
  exact ⟨entry, _, gives.append more⟩

theorem Entries.append {entries : List Entry} (front : Entries tokens entries rest)
    (more : List Token) : Entries (tokens ++ more) entries (rest ++ more) := by
  induction front with
  | nil rest => exact .nil _
  | cons gives tail ih => exact .cons (gives.append more) ih

theorem Entries.trans {entries entries' : List Entry} (front : Entries tokens entries rest)
    (tail : Entries rest entries' rest') : Entries tokens (entries ++ entries') rest' := by
  induction front with
  | nil rest => exact tail
  | cons gives tail' ih => exact .cons gives (ih tail)

theorem Entries.unique {entries entries' : List Entry} (front : Entries tokens entries rest)
    (ended : ¬Whole rest) (front' : Entries tokens entries' rest') (ended' : ¬Whole rest') :
    entries = entries' ∧ rest = rest' := by
  induction front generalizing entries' with
  | nil rest =>
      cases front' with
      | nil => exact ⟨rfl, rfl⟩
      | cons gives tail => exact absurd ⟨_, _, gives⟩ ended
  | cons gives tail ih =>
      cases front' with
      | nil => exact absurd ⟨_, _, gives⟩ ended'
      | cons gives' tail' =>
          obtain ⟨rfl, rfl⟩ := gives.unique gives'
          obtain ⟨rfl, rfl⟩ := ih ended tail'
          exact ⟨rfl, rfl⟩

-- The tokens of a text that has not come to the end of an entry.
inductive Unfinished : List Token → Prop where
  | line {newLines line : List Token} (blank : ∀ t ∈ newLines, t.type = .newLine)
      (inner : ∀ t ∈ line, t.type ≠ .newLine) : Unfinished (newLines ++ line)
  | dangling {tokens line skipped : List Token} (next : NextLine tokens line skipped)
      (dangling : Dangling line) (inner : ∀ t ∈ skipped, t.type ≠ .newLine) : Unfinished tokens

theorem skips_cases (tokens : List Token) :
    (∃ rest, Skips tokens rest) ∨ ∀ t ∈ tokens, t.type ≠ .newLine := by
  induction tokens with
  | nil => exact Or.inr (by simp)
  | cons t tokens ih =>
      by_cases ends : t.type = .newLine
      · exact Or.inl ⟨tokens, [], t, rfl, by simp, ends⟩
      · rcases ih with ⟨rest, skipped, newLine, rfl, inner, ends'⟩ | inner
        · exact Or.inl ⟨rest, t :: skipped, newLine, rfl, by simpa [ends] using inner, ends'⟩
        · exact Or.inr (by simpa [ends] using inner)

theorem nextLine_cases (tokens : List Token) :
    (∃ line rest, NextLine tokens line rest) ∨ ∃ newLines line, tokens = newLines ++ line ∧
      (∀ t ∈ newLines, t.type = .newLine) ∧ ∀ t ∈ line, t.type ≠ .newLine := by
  induction tokens with
  | nil => exact Or.inr ⟨[], [], rfl, by simp, by simp⟩
  | cons t tokens ih =>
      by_cases starts : t.type = .newLine
      · rcases ih with ⟨line, rest, newLines, newLine, rfl, blank, kept⟩ | ⟨newLines, line, rfl, blank, inner⟩
        · exact Or.inl ⟨line, rest, t :: newLines, newLine, rfl, by simpa [starts] using blank, kept⟩
        · exact Or.inr ⟨t :: newLines, line, rfl, by simpa [starts] using blank, inner⟩
      · rcases skips_cases tokens with ⟨rest, skipped, newLine, rfl, inner, ends⟩ | inner
        · exact Or.inl ⟨t :: skipped, rest, [], newLine, rfl, by simp, by simp,
            by simpa [starts] using inner, ends⟩
        · exact Or.inr ⟨[], t :: tokens, rfl, by simp, by simpa [starts] using inner⟩

theorem NextLine.inner (next : NextLine tokens line rest) (typed : ∀ t ∈ tokens, t.type ≠ .none) :
    ∀ t ∈ line, t.type ≠ .newLine ∧ t.type ≠ .none := by
  obtain ⟨newLines, newLine, rfl, blank, nonempty, inner, ends⟩ := next
  exact fun t mem => ⟨inner t mem, typed t (by simp [mem])⟩

theorem tokens_cases (typed : ∀ t ∈ tokens, t.type ≠ .none) :
    Whole tokens ∨ Crashes tokens ∨ Unfinished tokens := by
  rcases nextLine_cases tokens with ⟨line, rest, next⟩ | ⟨newLines, line, rfl, blank, inner⟩
  · rcases readTokens_cases (next.inner typed) with ⟨l, grammar⟩ | bare | dangling | ⟨code, fault⟩
    · exact Or.inl ⟨_, _, .line next grammar⟩
    · exact Or.inr (Or.inl ⟨line, rest, next, bare⟩)
    · rcases skips_cases rest with ⟨left, skips⟩ | inner
      · exact Or.inl ⟨_, _, .dangling next dangling skips⟩
      · exact Or.inr (Or.inr (.dangling next dangling inner))
    · exact Or.inl ⟨_, _, .fault next fault⟩
  · exact Or.inr (Or.inr (.line blank inner))

end Tokens

section Texts

variable {text rest rest' : Text} {tokens tokens' : List Token}

theorem LexesTo.trans {middle : Text} (front : LexesTo text tokens middle)
    (tail : LexesTo middle tokens' rest) : LexesTo text (tokens ++ tokens') rest := by
  induction front with
  | nil => exact tail
  | cons scanned _ ih => exact .cons scanned (ih tail)

theorem LexesTo.split (lexes : LexesTo text (tokens ++ tokens') rest) :
    ∃ middle, LexesTo text tokens middle ∧ LexesTo middle tokens' rest := by
  induction tokens generalizing text with
  | nil => exact ⟨text, .nil text, lexes⟩
  | cons t tokens ih =>
      cases lexes with
      | cons scanned tail =>
          obtain ⟨middle, front, tail⟩ := ih tail
          exact ⟨middle, .cons scanned front, tail⟩

theorem LexesTo.append (lexes : LexesTo text tokens rest) (more : Text) :
    LexesTo (text ++ more) tokens (rest ++ more) := by
  induction lexes with
  | nil rest => exact .nil _
  | @cons input rest t used tokens scanned tail ih =>
      have inside : used ≤ input.length := by simpa using scanToken_within 0 input t used scanned
      refine .cons (by rw [scanToken_append more (by simp [scanned]), scanned]) ?_
      rw [drop_append inside]
      exact ih

theorem LexesTo.suffix (lexes : LexesTo text tokens rest) : rest <:+ text := by
  induction lexes with
  | nil rest => exact List.suffix_refl rest
  | cons scanned tail ih => exact ih.trans (List.drop_suffix _ _)

theorem LexesTo.typed (lexes : LexesTo text tokens rest) : ∀ t ∈ tokens, t.type ≠ .none := by
  induction lexes with
  | nil => simp
  | @cons input rest t used tokens scanned tail ih =>
      intro u mem
      rcases List.mem_cons.1 mem with rfl | mem
      · exact scanToken_typed 0 input _ used scanned
      · exact ih u mem

theorem LexesTo.read (lexes : LexesTo text tokens rest) (short : text.length < 2 ^ 32) :
    Tokens text tokens rest := by
  induction lexes with
  | nil rest => exact .nil rest
  | @cons input rest t used tokens scanned tail ih =>
      have inside : used ≤ input.length := by simpa using scanToken_within 0 input t used scanned
      exact .cons (parseToken_of_scan scanned (by omega)) (ih (by rw [List.length_drop]; omega))

-- All the tokens of a text; behind them an assertion fails, or bytes are missing.
def Spells (text : Text) (tokens : List Token) (stuck : Bool) : Prop :=
  ∃ rest, LexesTo text tokens rest ∧ scanToken 0 rest = if stuck then .failed else .incomplete

theorem spells_exists (text : Text) : ∃ tokens stuck, Spells text tokens stuck := by
  induction length : text.length using Nat.strongRecOn generalizing text with
  | _ size ih =>
  cases scanned : scanToken 0 text with
  | failed => exact ⟨[], true, text, .nil text, scanned⟩
  | incomplete => exact ⟨[], false, text, .nil text, scanned⟩
  | token t used =>
      have positive := scanToken_starts 0 text t used scanned
      have inside : used ≤ text.length := by simpa using scanToken_within 0 text t used scanned
      obtain ⟨tokens, stuck, rest, lexes, ends⟩ :=
        ih (text.drop used).length (by rw [List.length_drop]; omega) (text.drop used) rfl
      exact ⟨t :: tokens, stuck, rest, .cons scanned lexes, ends⟩

theorem Spells.unended {stuck : Bool} {t : Token} {used : Nat}
    (ends : scanToken 0 rest = if stuck then Scan.failed else .incomplete) :
    scanToken 0 rest ≠ .token t used := by
  rw [ends]
  cases stuck <;> nofun

theorem Spells.behind {stuck : Bool} (spells : Spells text tokens stuck)
    (front : LexesTo text tokens' rest') :
    ∃ more, tokens = tokens' ++ more ∧ Spells rest' more stuck := by
  obtain ⟨rest, lexes, ends⟩ := spells
  induction front generalizing tokens with
  | nil text => exact ⟨tokens, rfl, rest, lexes, ends⟩
  | cons scanned tail ih =>
      cases lexes with
      | nil => exact absurd scanned (unended ends)
      | cons scanned' tail' =>
          cases scanned.symm.trans scanned'
          obtain ⟨more, rfl, spells⟩ := ih tail'
          exact ⟨more, rfl, spells⟩

theorem Spells.unique {stuck stuck' : Bool} (spells : Spells text tokens stuck)
    (spells' : Spells text tokens' stuck') : tokens = tokens' ∧ stuck = stuck' := by
  obtain ⟨rest, lexes, ends⟩ := spells'
  obtain ⟨more, rfl, rest', lexes', ends'⟩ := spells.behind lexes
  cases lexes' with
  | nil =>
      rw [ends] at ends'
      refine ⟨List.append_nil _, ?_⟩
      cases stuck <;> cases stuck' <;> first | rfl | cases ends'
  | cons scanned => exact absurd scanned (unended ends)

theorem Spells.typed {stuck : Bool} (spells : Spells text tokens stuck) :
    ∀ t ∈ tokens, t.type ≠ .none := by
  obtain ⟨rest, lexes, -⟩ := spells
  exact lexes.typed

theorem LexesTo.spells {stuck : Bool} (front : LexesTo text tokens rest)
    (spells : Spells rest tokens' stuck) : Spells text (tokens ++ tokens') stuck := by
  obtain ⟨last, lexes, ends⟩ := spells
  exact ⟨last, front.trans lexes, ends⟩

end Texts

inductive Ends (scan : Scan) (outcome : Outcome) : Prop where
  | failed (stuck : scan = .failed) (fails : outcome = .failed)
  | incomplete (waits : scan = .incomplete) (none : outcome = .noLine)

-- A function of the parser that needs one more token.
def Scan.read (scan : Scan) (next : Token → Nat → Outcome) : Outcome :=
  match scan with
  | .failed => .failed
  | .incomplete => .noLine
  | .token t used => next t used

theorem Ends.read {scan : Scan} {outcome : Outcome} (ends : Ends scan outcome)
    (next : Token → Nat → Outcome) : scan.read next = outcome := by
  cases ends with
  | failed stuck fails => rw [stuck, fails, Scan.read]
  | incomplete waits none => rw [waits, none, Scan.read]

section Parser

variable {input rest : Text} {tokens : List Token} {outcome : Outcome}
  (ends : Ends (parseToken rest) outcome)

include ends

theorem skipLine_runsOut (code : ParserError) (pos : Nat) (read : Tokens input tokens rest)
    (inner : ∀ t ∈ tokens, t.type ≠ .newLine ∧ t.type ≠ .none) :
    skipLine code pos input = outcome := by
  induction tokens generalizing pos input with
  | nil =>
      obtain rfl := read.none
      rw [skipLine_eq]
      exact ends.read _
  | cons t tokens ih =>
      obtain ⟨used, scanned, tail⟩ := read.head
      rw [skipLine_eq, scanned]
      dsimp only
      rw [if_neg (inner t (by simp)).1]
      exact ih _ tail fun u mem => inner u (by simp [mem])

theorem finishLine_runsOut (line : CommandLine) (pos : Nat) (read : Tokens input tokens rest)
    (inner : ∀ t ∈ tokens, t.type ≠ .newLine ∧ t.type ≠ .none) {t : Token}
    (other : t.type ≠ .newLine) : finishLine line pos input t = outcome := by
  rw [finishLine, if_neg other]
  exact skipLine_runsOut ends .tooLateArguments pos read inner

theorem closeBackground_runsOut (line : CommandLine) (pos : Nat) (read : Tokens input tokens rest)
    (inner : ∀ t ∈ tokens, t.type ≠ .newLine ∧ t.type ≠ .none) {t : Token}
    (other : t.type ≠ .newLine) : closeBackground line pos input t = outcome := by
  rw [closeBackground]
  split
  · cases tokens with
    | nil =>
        obtain rfl := read.none
        exact ends.read _
    | cons next tokens =>
        obtain ⟨used, scanned, tail⟩ := read.head
        rw [scanned]
        exact finishLine_runsOut ends _ _ tail (fun u mem => inner u (by simp [mem]))
          (inner next (by simp)).1
  · exact finishLine_runsOut ends line pos read inner other

theorem closeLine_runsOut (line : CommandLine) (pos : Nat) (read : Tokens input tokens rest)
    (inner : ∀ t ∈ tokens, t.type ≠ .newLine ∧ t.type ≠ .none) {t : Token}
    (other : t.type ≠ .newLine) : closeLine line pos input t = outcome := by
  rw [closeLine]
  split
  · cases tokens with
    | nil =>
        obtain rfl := read.none
        exact ends.read _
    | cons file tokens =>
        obtain ⟨used, scanned, tail⟩ := read.head
        rw [scanned]
        dsimp only
        split
        · exact skipLine_runsOut ends _ _ tail fun u mem => inner u (by simp [mem])
        · cases tokens with
          | nil =>
              obtain rfl := tail.none
              exact ends.read _
          | cons next tokens =>
              obtain ⟨used', scanned', tail⟩ := tail.head
              rw [scanned']
              exact closeBackground_runsOut ends _ _ tail (fun u mem => inner u (by simp [mem]))
                (inner next (by simp)).1
  · exact closeBackground_runsOut ends line pos read inner other

theorem parseLine_runsOut (exprs : List Expr) (pos : Nat) (read : Tokens input tokens rest)
    (inner : ∀ t ∈ tokens, t.type ≠ .newLine ∧ t.type ≠ .none) :
    parseLine exprs pos input = outcome := by
  induction tokens generalizing exprs pos input with
  | nil =>
      obtain rfl := read.none
      rw [parseLine_eq]
      exact ends.read _
  | cons t tokens ih =>
      obtain ⟨used, scanned, tail⟩ := read.head
      have first := inner t (by simp)
      rw [parseLine_eq, scanned]
      dsimp only
      cases turn : readToken exprs t with
      | failed =>
          have closes := (readToken_leaves (Or.inl turn) first).1
          rw [turn] at closes
          cases closes
      | more exprs' => exact ih exprs' _ tail fun u mem => inner u (by simp [mem])
      | close => exact closeLine_runsOut ends _ _ tail (fun u mem => inner u (by simp [mem])) first.1
      | error code => exact skipLine_runsOut ends code _ tail fun u mem => inner u (by simp [mem])

theorem parseLine_blank {newLines : List Token} (pos : Nat)
    (read : Tokens input (newLines ++ tokens) rest) (blank : ∀ t ∈ newLines, t.type = .newLine)
    (inner : ∀ t ∈ tokens, t.type ≠ .newLine ∧ t.type ≠ .none) :
    parseLine [] pos input = outcome := by
  induction newLines generalizing pos input with
  | nil => exact parseLine_runsOut ends [] pos read inner
  | cons t newLines ih =>
      obtain ⟨used, scanned, tail⟩ := read.head
      have skips : readToken [] t = .more [] := by simp [readToken, blank t (by simp)]
      rw [parseLine_eq, scanned]
      dsimp only
      rw [skips]
      exact ih _ tail fun u mem => blank u (by simp [mem])

end Parser

def Entry.outcome : Entry → Nat → Outcome
  | (_, some line), consumed => .line line consumed
  | (code, none), consumed => .error code consumed

section Outcomes

variable {text rest : Text} {tokens : List Token} (short : text.length < 2 ^ 32)

include short

theorem parseToken_short : parseToken text = scanToken 0 text := by
  cases scanned : scanToken 0 text with
  | failed | incomplete => rw [parseToken, scanned]
  | token t used =>
      have inside : used ≤ text.length := by simpa using scanToken_within 0 text t used scanned
      exact parseToken_of_scan scanned (by omega)

theorem NextLine.read {line left : List Token} (lexes : LexesTo text tokens rest)
    (next : NextLine tokens line left) :
    ∃ middle, Line text line middle ∧ LexesTo middle left rest ∧ middle <:+ text := by
  obtain ⟨newLines, newLine, rfl, blank, nonempty, inner, ends⟩ := next
  rw [List.append_cons, ← List.append_assoc] at lexes
  obtain ⟨middle, front, tail⟩ := lexes.split
  exact ⟨middle, ⟨newLines, newLine, front.read short, blank, nonempty, inner, ends⟩, tail,
    front.suffix⟩

theorem consumed_drop {middle : Text} {consumed : Nat} (within : middle <:+ text)
    (total : consumed + middle.length = text.length) : text.drop consumed = middle := by
  obtain ⟨front, rfl⟩ := within
  have size : consumed = front.length := by
    rw [List.length_append] at total
    omega
  rw [size, List.drop_left]

theorem gives_outcome {entry : Entry} (lexes : LexesTo text tokens rest)
    (gives : Gives tokens entry []) : ∃ consumed,
      parseLine [] 0 text = entry.outcome consumed ∧ text.drop consumed = rest := by
  cases gives with
  | line next grammar =>
      obtain ⟨middle, line, tail, within⟩ := next.read short lexes
      have settles := line.settles 0
      rw [grammar.readTokens] at settles
      obtain ⟨consumed, outcome, total⟩ := settles
      cases tail
      exact ⟨consumed, outcome, consumed_drop short within (by omega)⟩
  | fault next fault =>
      obtain ⟨middle, line, tail, within⟩ := next.read short lexes
      have settles := line.settles 0
      rw [fault.readTokens] at settles
      obtain ⟨consumed, outcome, total⟩ := settles
      cases tail
      exact ⟨consumed, outcome, consumed_drop short within (by omega)⟩
  | dangling next dangling skips =>
      obtain ⟨middle, line, tail, within⟩ := next.read short lexes
      have settles := line.settles 0
      rw [dangling.readTokens] at settles
      obtain ⟨pos, outcome, total⟩ := settles
      obtain ⟨skipped, newLine, rfl, inner, ends⟩ := skips
      have small : middle.length < 2 ^ 32 := Nat.lt_of_le_of_lt within.length_le short
      obtain ⟨consumed, skips, total'⟩ :=
        skipLine_endsLine .outoutRedirectBadArg pos (tail.read small) inner ends
      exact ⟨consumed, outcome.trans skips, consumed_drop short (tail.suffix.trans within) (by omega)⟩

theorem crashes_outcome (lexes : LexesTo text tokens rest) (crashes : Crashes tokens) :
    parseLine [] 0 text = .failed := by
  obtain ⟨line, left, next, bare⟩ := crashes
  obtain ⟨middle, line, tail, within⟩ := next.read short lexes
  have settles := line.settles 0
  rwa [bare.readTokens] at settles

theorem unfinished_outcome {outcome : Outcome} (lexes : LexesTo text tokens rest)
    (unfinished : Unfinished tokens) (ends : Ends (scanToken 0 rest) outcome) :
    parseLine [] 0 text = outcome := by
  have typed := lexes.typed
  have small : rest.length < 2 ^ 32 := Nat.lt_of_le_of_lt lexes.suffix.length_le short
  rw [← parseToken_short small] at ends
  cases unfinished with
  | line blank inner =>
      exact parseLine_blank ends 0 (lexes.read short) blank
        fun t mem => ⟨inner t mem, typed t (by simp [mem])⟩
  | dangling next dangling inner =>
      obtain ⟨middle, line, tail, within⟩ := next.read short lexes
      have settles := line.settles 0
      rw [dangling.readTokens] at settles
      obtain ⟨pos, skips, -⟩ := settles
      have small' : middle.length < 2 ^ 32 := Nat.lt_of_le_of_lt within.length_le short
      rw [skips]
      exact skipLine_runsOut ends _ pos (tail.read small')
        fun t mem => ⟨inner t mem, tail.typed t mem⟩

end Outcomes

theorem Gives.cut {tokens left : List Token} {entry : Entry} (gives : Gives tokens entry left) :
    ∃ front, tokens = front ++ left ∧ Gives front entry [] := by
  cases gives with
  | line next grammar =>
      obtain ⟨newLines, newLine, rfl, kept⟩ := next
      exact ⟨newLines ++ (_ ++ [newLine]), by simp, .line ⟨newLines, newLine, rfl, kept⟩ grammar⟩
  | fault next fault =>
      obtain ⟨newLines, newLine, rfl, kept⟩ := next
      exact ⟨newLines ++ (_ ++ [newLine]), by simp, .fault ⟨newLines, newLine, rfl, kept⟩ fault⟩
  | dangling next dangling skips =>
      obtain ⟨newLines, newLine, rfl, kept⟩ := next
      obtain ⟨skipped, newLine', rfl, kept'⟩ := skips
      exact ⟨newLines ++ (_ ++ newLine :: (skipped ++ [newLine'])), by simp,
        .dangling ⟨newLines, newLine, rfl, kept⟩ dangling ⟨skipped, newLine', rfl, kept'⟩⟩

section Spelled

variable {text : Text} {tokens : List Token} {stuck : Bool} (spells : Spells text tokens stuck)

include spells

theorem finishes_iff {entry : Entry} : Finishes text entry ↔ ∃ left, Gives tokens entry left := by
  constructor
  · rintro ⟨tokens', rest, left, lexes, gives⟩
    obtain ⟨more, rfl, -⟩ := spells.behind lexes
    exact ⟨_, gives.append more⟩
  · rintro ⟨left, gives⟩
    obtain ⟨rest, lexes, -⟩ := spells
    exact ⟨tokens, rest, left, lexes, gives⟩

theorem fails_iff : Fails text ↔ Crashes tokens ∨ ¬Whole tokens ∧ stuck = true := by
  constructor
  · rintro ⟨tokens', rest, lexes, crashes | ⟨unfinished, stops⟩⟩
    · obtain ⟨more, rfl, -⟩ := spells.behind lexes
      exact Or.inl (crashes.append more)
    · have ends : Spells rest [] true := ⟨rest, .nil rest, (scanToken_failed 0 rest).mpr stops⟩
      obtain ⟨rfl, rfl⟩ := spells.unique (lexes.spells ends)
      rw [List.append_nil]
      exact Or.inr ⟨unfinished, rfl⟩
  · obtain ⟨rest, lexes, ends⟩ := spells
    rintro (crashes | ⟨unfinished, rfl⟩)
    · exact ⟨tokens, rest, lexes, Or.inl crashes⟩
    · exact ⟨tokens, rest, lexes, Or.inr ⟨unfinished, (scanToken_failed 0 rest).mp ends⟩⟩

end Spelled

-- What is popped off a short text.
inductive Pops (text : Text) : Prop where
  | stopped (popped : popNext text = .stopped) (fails : Fails text)
  | waiting (popped : popNext text = .waiting text) (unfinished : ∀ entry, ¬Finishes text entry)
      (sound : ¬Fails text)
  | item {tokens : List Token} {entry : Entry} {rest : Text}
      (popped : popNext text = .item entry rest) (lexes : LexesTo text tokens rest)
      (gives : Gives tokens entry []) (shorter : rest.length < text.length)

theorem Entry.outcome_item {entry : Entry} {tokens rest : List Token} (gives : Gives tokens entry rest)
    {text : Text} {consumed : Nat} (short : text.length < 2 ^ 32)
    (outcome : parseLine [] 0 text = entry.outcome consumed) :
    popNext text = .item entry (text.drop consumed) ∧ (text.drop consumed).length < text.length := by
  have within := parseLine_within [] 0 text
  have popped := popNext_eq short
  rw [outcome] at within popped
  cases gives with
  | line | fault | dangling =>
      refine ⟨popped, ?_⟩
      rw [List.length_drop]
      have positive := within.1
      have inside := within.2
      omega

theorem popNext_whole {text rest : Text} {tokens : List Token} (short : text.length < 2 ^ 32)
    (lexes : LexesTo text tokens rest) (whole : Whole tokens) : ∃ front entry middle,
      popNext text = .item entry middle ∧ LexesTo text front middle ∧ Gives front entry [] ∧
        middle.length < text.length := by
  obtain ⟨entry, left, gives⟩ := whole
  obtain ⟨front, rfl, gives'⟩ := gives.cut
  obtain ⟨middle, lexes', -⟩ := lexes.split
  obtain ⟨consumed, outcome, rfl⟩ := gives_outcome short lexes' gives'
  obtain ⟨popped, shorter⟩ := Entry.outcome_item gives' short outcome
  exact ⟨front, entry, _, popped, lexes', gives', shorter⟩

theorem pops {text : Text} (short : text.length < 2 ^ 32) : Pops text := by
  obtain ⟨tokens, stuck, spells⟩ := spells_exists text
  have fails := fails_iff spells
  have finishes {entry : Entry} := @finishes_iff text tokens stuck spells entry
  obtain ⟨rest, lexes, ends⟩ := spells
  by_cases whole : Whole tokens
  · obtain ⟨front, entry, middle, popped, lexes', gives, shorter⟩ := popNext_whole short lexes whole
    exact .item popped lexes' gives shorter
  have popped := popNext_eq short
  rcases tokens_cases lexes.typed with whole' | crashes | unfinished
  · exact absurd whole' whole
  · rw [crashes_outcome short lexes crashes] at popped
    exact .stopped popped (fails.mpr (Or.inl crashes))
  · cases stuck with
    | true =>
        have stops : Ends (scanToken 0 rest) .failed := .failed ends rfl
        rw [unfinished_outcome short lexes unfinished stops] at popped
        exact .stopped popped (fails.mpr (Or.inr ⟨whole, rfl⟩))
    | false =>
        have waits : Ends (scanToken 0 rest) .noLine := .incomplete ends rfl
        have outcome := unfinished_outcome short lexes unfinished waits
        rw [outcome] at popped
        refine .waiting popped (fun entry => ?_) ?_
        · rw [finishes]
          exact fun ⟨left, gives⟩ => whole ⟨entry, left, gives⟩
        · rw [fails]
          rintro (crashes | ⟨-, stuck⟩)
          · rw [crashes_outcome short lexes crashes] at outcome
            cases outcome
          · cases stuck

-- The text is fed one byte at a time; what is popped, and the buffer that is left unless an
-- assertion failed.
def parsed (text : Text) : Option (List Entry × Option Text) :=
  feedChunks (text.map fun c => [c])

-- On the way the parser never has `2 ^ 32` bytes in its buffer.
def Narrow (text : Text) : Prop :=
  ∀ front c, front ++ [c] <+: text → ∀ left, Behind front left → ¬Fails left →
    left.length + 1 < 2 ^ 32

-- Entry after entry is taken off the text, until bytes are missing or an assertion fails.
inductive Reads (text : Text) (entries : List Entry) : Option Text → Prop where
  | waits {tokens : List Token} {left : Text} (lexes : LexesTo text tokens left)
      (taken : Entries tokens entries []) (unfinished : ∀ entry, ¬Finishes left entry)
      (sound : ¬Fails left) : Reads text entries (some left)
  | fails {tokens : List Token} {left : Text} (lexes : LexesTo text tokens left)
      (taken : Entries tokens entries []) (fails : Fails left) : Reads text entries none

theorem Fails.append {text : Text} (fails : Fails text) (more : Text) : Fails (text ++ more) := by
  obtain ⟨tokens, stuck, spells⟩ := spells_exists text
  rcases (fails_iff spells).mp fails with crashes | ⟨unfinished, rfl⟩
  · obtain ⟨rest, lexes, -⟩ := spells
    exact ⟨tokens, _, lexes.append more, Or.inl crashes⟩
  · obtain ⟨rest, lexes, ends⟩ := spells
    refine ⟨tokens, _, lexes.append more, Or.inr ⟨unfinished, ?_⟩⟩
    rw [← scanToken_failed 0, scanToken_append more (by rw [ends]; nofun), ends]
    rfl

theorem Fails.not_finishes {text : Text} (fails : Fails text) (entry : Entry) :
    ¬Finishes text entry := by
  obtain ⟨tokens, stuck, spells⟩ := spells_exists text
  rw [finishes_iff spells]
  rintro ⟨left, gives⟩
  rcases (fails_iff spells).mp fails with crashes | ⟨unfinished, -⟩
  · exact crashes.not_whole ⟨entry, left, gives⟩
  · exact unfinished ⟨entry, left, gives⟩

theorem Reads.behind {text middle : Text} {tokens : List Token} {entries entries' : List Entry}
    {last : Option Text} (lexes : LexesTo text tokens middle) (taken : Entries tokens entries [])
    (reads : Reads middle entries' last) : Reads text (entries ++ entries') last := by
  have joined {tokens' : List Token} (taken' : Entries tokens' entries' []) :
      Entries (tokens ++ tokens') (entries ++ entries') [] := (taken.append tokens').trans taken'
  cases reads with
  | waits lexes' taken' unfinished sound =>
      exact .waits (lexes.trans lexes') (joined taken') unfinished sound
  | fails lexes' taken' fails => exact .fails (lexes.trans lexes') (joined taken') fails

theorem drain_reads {text : Text} (short : text.length < 2 ^ 32) :
    ∃ entries last, Stream.drain popNext text = some (entries, last) ∧ Reads text entries last := by
  induction length : text.length using Nat.strongRecOn generalizing text with
  | _ size ih =>
  cases pops short with
  | stopped popped fails =>
      exact ⟨[], none, Stream.drain_stopped popped, .fails (.nil text) (.nil []) fails⟩
  | waiting popped unfinished sound =>
      exact ⟨[], some text, Stream.drain_waiting popped,
        .waits (.nil text) (.nil []) unfinished sound⟩
  | @item tokens entry rest popped lexes gives shorter =>
      obtain ⟨entries, last, drained, reads⟩ := ih rest.length (by omega) (by omega) rfl
      refine ⟨entry :: entries, last, ?_, reads.behind lexes (.cons gives (.nil []))⟩
      rw [Stream.drain_item popped shorter, drained]
      rfl

def bytes (text : Text) : List Text := text.map fun c => [c]

theorem feed_reads {whole front buffer text : Text} (narrow : Narrow whole)
    (split : whole = front ++ text) (behind : Behind front buffer) (sound : ¬Fails buffer) :
    ∃ entries last, Stream.feed popNext buffer (bytes text) = some (entries, last) ∧
      Reads (buffer ++ text) entries last := by
  induction text generalizing front buffer with
  | nil =>
      obtain ⟨-, -, -, -, unfinished⟩ := behind
      refine ⟨[], some buffer, rfl, ?_⟩
      rw [List.append_nil]
      exact .waits (.nil buffer) (.nil []) unfinished sound
  | cons c text ih =>
      have short : (buffer ++ [c]).length < 2 ^ 32 := by
        have within := narrow front c ⟨text, by simp [split]⟩ buffer behind sound
        simpa using within
      obtain ⟨entries, last, drained, reads⟩ := drain_reads short
      rw [bytes, List.map_cons, Stream.feed, drained, List.append_cons]
      cases reads with
      | @fails tokens left lexes taken fails =>
          exact ⟨entries, none, rfl, .fails (lexes.append text) taken (fails.append text)⟩
      | @waits tokens left lexes taken unfinished sound' =>
          obtain ⟨tokens', entries', lexes', taken', -⟩ := behind
          have behind' : Behind (front ++ [c]) left :=
            ⟨tokens' ++ tokens, entries' ++ entries, (lexes'.append [c]).trans lexes,
              (taken'.append tokens).trans taken, unfinished⟩
          obtain ⟨later, last, fed, reads⟩ := ih (by simp [split]) behind' sound'
          refine ⟨entries ++ later, last, ?_, reads.behind (lexes.append text) taken⟩
          have fed' : Stream.feed popNext left (text.map fun c => [c]) = some (later, last) := fed
          dsimp only
          rw [fed']
          rfl

theorem parsed_reads {text : Text} (narrow : Narrow text) :
    ∃ entries last, parsed text = some (entries, last) ∧ Reads text entries last := by
  have empty : Spells [] [] false := ⟨[], .nil [], rfl⟩
  have none : ¬Whole ([] : List Token) := by
    rintro ⟨entry, left, gives⟩
    obtain ⟨line, rest, ⟨newLines, newLine, same, -⟩, -⟩ := gives.verdict
    simp at same
  have unfinished (entry : Entry) : ¬Finishes [] entry := by
    rw [finishes_iff empty]
    exact fun ⟨left, gives⟩ => none ⟨entry, left, gives⟩
  have sound : ¬Fails [] := by
    rw [fails_iff empty]
    rintro (⟨line, rest, ⟨newLines, newLine, same, -⟩, -⟩ | ⟨-, stuck⟩)
    · simp at same
    · cases stuck
  exact feed_reads narrow rfl ⟨[], [], .nil [], .nil [], unfinished⟩ sound

theorem Reads.outline {text : Text} {tokens : List Token} {stuck : Bool} {entries : List Entry}
    {last : Option Text} (spells : Spells text tokens stuck) (reads : Reads text entries last) :
    ∃ rest, Entries tokens entries rest ∧ ¬Whole rest ∧
      (last = none ↔ Crashes rest ∨ stuck = true) := by
  cases reads with
  | waits lexes taken unfinished sound =>
      obtain ⟨more, rfl, spelled⟩ := spells.behind lexes
      have notWhole : ¬Whole more := fun ⟨entry, left, gives⟩ =>
        unfinished entry ((finishes_iff spelled).mpr ⟨left, gives⟩)
      refine ⟨more, taken.append more, notWhole, ?_⟩
      rw [fails_iff spelled] at sound
      simp only [reduceCtorEq, false_iff]
      rintro (crashes | stuck)
      · exact sound (Or.inl crashes)
      · exact sound (Or.inr ⟨notWhole, stuck⟩)
  | fails lexes taken fails =>
      obtain ⟨more, rfl, spelled⟩ := spells.behind lexes
      have notWhole : ¬Whole more := fun ⟨entry, left, gives⟩ =>
        fails.not_finishes entry ((finishes_iff spelled).mpr ⟨left, gives⟩)
      refine ⟨more, taken.append more, notWhole, iff_of_true rfl ?_⟩
      rcases (fails_iff spelled).mp fails with crashes | ⟨-, stuck⟩
      · exact Or.inl crashes
      · exact Or.inr stuck

theorem narrow_of_short {text : Text} (short : text.length < 2 ^ 32) : Narrow text := by
  rintro front c before left ⟨tokens, entries, lexes, -⟩ -
  have within := lexes.suffix.length_le
  have length := before.length_le
  rw [List.length_append, List.length_singleton] at length
  omega

end SystemProg.Shell
