import SystemProg.Shell.Inserted

set_option autoImplicit false

-- A backslash and a new line are inserted into a text. The parser reads on as without them unless a
-- token was to start there and white space follows.

namespace SystemProg.Shell

-- The first text ends outside single quotes, comments, escapes and the two bytes of an operator.
def EndsClear (first second : Text) : Prop :=
  ∀ tokens rest, LexesTo first tokens rest → scanToken 0 rest = .incomplete →
    (pendingToken rest).Clear second

-- A text that ends in the second loop of `parse_token`: inside a word or double quotes.
def EndsInWord (first : Text) : Prop :=
  ∃ tokens rest quote data, LexesTo first tokens rest ∧ scanToken 0 rest = .incomplete ∧
    pendingToken rest = .word quote data

def VerticalFirst (text : Text) : Prop := text.head? = some 11 ∨ text.head? = some 12

-- Neither text comes to the end of an entry, and the second fails no assertion that the first does
-- not fail; or both begin with the same error.
def Alike (plain joined : Text) : Prop :=
  ((∀ entry, ¬Finishes plain entry) ∧ (∀ entry, ¬Finishes joined entry) ∧ (Fails joined → Fails plain)) ∨
    ∃ code, Finishes plain (code, none) ∧ Finishes joined (code, none)

-- Where the continuation does no harm. Behind it a vertical tab or a form feed begins a word, as it
-- does behind a backslash.
def Undisturbed (first second : Text) : Prop :=
  EndsInWord first ∨ ¬SpaceFirst second ∨ ∃ left, Behind first left ∧
    (¬VerticalFirst second ∧ Fails (left ++ second) ∨
      VerticalFirst second ∧ Alike (left ++ second) (left ++ byte '\\' :: second))

structure Transparent (first second : Text) : Prop where
  same : (parsed (first ++ (continuation ++ second))).map Prod.fst =
    (parsed (first ++ second)).map Prod.fst
  safe : ∀ results left, parsed (first ++ second) = some (results, some left) →
    ∃ results left, parsed (first ++ (continuation ++ second)) = some (results, some left)

theorem alike_tokens {plain joined : Text} {tokens tokens' : List Token} {stuck stuck' : Bool}
    (spells : Spells plain tokens stuck) (spells' : Spells joined tokens' stuck') :
    Alike plain joined ↔ AlikeTokens tokens stuck tokens' stuck' := by
  have whole {text : Text} {tokens : List Token} {stuck : Bool} (spells : Spells text tokens stuck) :
      (∀ entry, ¬Finishes text entry) ↔ ¬Whole tokens := by
    simp only [finishes_iff spells, Whole, not_exists]
  have fails {tokens : List Token} {stuck : Bool} (unended : ¬Whole tokens) :
      Crashes tokens ∨ ¬Whole tokens ∧ stuck = true ↔ Crashes tokens ∨ stuck = true := by
    rw [and_iff_right unended]
  rw [Alike, whole spells, whole spells', fails_iff spells, fails_iff spells', AlikeTokens]
  refine or_congr ?_ ?_
  · refine and_congr_right fun unended => and_congr_right fun unended' => ?_
    rw [fails unended, fails unended']
  · simp only [finishes_iff spells, finishes_iff spells', exists_and_left, exists_and_right]

theorem transparent_iff {first second : Text} {tokens tokens' : List Token} {stuck stuck' : Bool}
    (narrow : Narrow (first ++ second)) (narrow' : Narrow (first ++ (continuation ++ second)))
    (spells : Spells (first ++ second) tokens stuck)
    (spells' : Spells (first ++ (continuation ++ second)) tokens' stuck') :
    Transparent first second ↔ InStep tokens stuck tokens' stuck' := by
  obtain ⟨entries, last, plain, reads⟩ := parsed_reads narrow
  obtain ⟨entries', last', long, reads'⟩ := parsed_reads narrow'
  obtain ⟨rest, taken, ended, fails⟩ := reads.outline spells
  obtain ⟨rest', taken', ended', fails'⟩ := reads'.outline spells'
  constructor
  · intro transparent
    have same := transparent.same
    rw [plain, long] at same
    obtain rfl : entries' = entries := Option.some.inj same
    refine ⟨entries', rest, rest', taken, ended, taken', ended', fun stops => ?_⟩
    by_contra sound
    rw [← fails] at sound
    obtain ⟨left, rfl⟩ := Option.ne_none_iff_exists'.1 sound
    obtain ⟨_, _, goesOn⟩ := transparent.safe _ left plain
    rw [long, fails'.mpr stops] at goesOn
    cases goesOn
  · rintro ⟨_, _, _, front, unended, front', unended', safe⟩
    obtain ⟨rfl, rfl⟩ := taken.unique ended front unended
    obtain ⟨rfl, rfl⟩ := taken'.unique ended' front' unended'
    refine ⟨by rw [plain, long]; rfl, fun results left fed => ?_⟩
    rw [plain] at fed
    cases fed
    cases last' with
    | none => cases fails.mpr (safe (fails'.mp rfl))
    | some left => exact ⟨_, left, long⟩

-- The first token of a text by a scan of its own, with what is behind it.
inductive Leads (input : Text) : Scan → List Token → Bool → Prop where
  | failed : Leads input .failed [] true
  | incomplete : Leads input .incomplete [] false
  | token {t : Token} {used : Nat} {tokens : List Token} {stuck : Bool}
      (spells : Spells (input.drop used) tokens stuck) :
      Leads input (.token t used) (t :: tokens) stuck

theorem spells_leads {text : Text} {tokens : List Token} {stuck : Bool} :
    Spells text tokens stuck ↔ Leads text (scanToken 0 text) tokens stuck := by
  constructor
  · rintro ⟨rest, lexes, ends⟩
    cases lexes with
    | nil =>
        rw [ends]
        cases stuck
        · exact .incomplete
        · exact .failed
    | cons scanned tail =>
        rw [scanned]
        exact .token ⟨rest, tail, ends⟩
  · intro leads
    generalize scanned : scanToken 0 text = scan at leads
    cases leads with
    | failed => exact ⟨text, .nil text, scanned⟩
    | incomplete => exact ⟨text, .nil text, scanned⟩
    | token spells =>
        obtain ⟨rest, lexes, ends⟩ := spells
        exact ⟨rest, .cons scanned lexes, ends⟩

theorem Leads.shift {input input' : Text} {scan : Scan} {tokens : List Token} {stuck : Bool} {n : Nat}
    (leads : Leads input scan tokens stuck)
    (same : ∀ t used, scan = .token t used → input'.drop (used + n) = input.drop used) :
    Leads input' (scan.shift n) tokens stuck := by
  cases leads with
  | failed => exact .failed
  | incomplete => exact .incomplete
  | @token t used tokens stuck spells => exact .token (by rwa [same t used rfl])

theorem Leads.front {input : Text} {scan : Scan} {tokens : List Token} {stuck : Bool}
    (leads : Leads input scan tokens stuck) (front : Text) :
    Leads (front ++ input) (scan.shift front.length) tokens stuck :=
  leads.shift fun t used _ => by rw [Nat.add_comm, ← List.drop_drop, List.drop_left]

theorem scanToken_shift (used n : Nat) (input : Text) :
    scanToken (used + n) input = (scanToken used input).shift n := by
  induction input generalizing used with
  | nil => rfl
  | cons c rest ih =>
      rw [scanToken, scanToken]
      split
      · split
        · rw [Scan.shift, Nat.add_right_comm]
        · rw [Nat.add_right_comm]
          exact ih (used + 1)
      · exact scanWord_shift used n 0 [] (c :: rest)

theorem spells_blank {front more : Text} {tokens : List Token} {stuck : Bool}
    (blank : pendingToken front = .blank) (spells : Spells more tokens stuck) :
    Spells (front ++ more) tokens stuck := by
  rw [spells_leads, scanToken_blank blank, scanToken_shift]
  exact (spells_leads.mp spells).front front

theorem spells_apart {front second : Text} (waits : scanToken 0 front = .incomplete)
    (clear : (pendingToken front).Clear second)
    (outside : ∀ quote data, pendingToken front ≠ .word quote data) :
    ∃ inner : List Token, (∀ t ∈ inner, t.type ≠ .newLine) ∧
      ∀ {more : Text} {tokens : List Token} {stuck : Bool}, more ≠ [] →
        (more = second ∨ more.head? = some (byte '\\')) → Spells more tokens stuck →
          Spells (front ++ more) (inner ++ tokens) stuck := by
  have resumes := scanToken_resumes 0 front
  rw [Nat.zero_add] at resumes
  cases pending : pendingToken front with
  | settled => exact absurd waits (pendingToken_settled pending)
  | word quote data => exact absurd pending (outside quote data)
  | escape | comment =>
      rw [pending] at clear
      exact clear.elim
  | blank => exact ⟨[], by simp, fun _ _ spells => spells_blank pending spells⟩
  | operator c =>
      rw [pending] at resumes clear
      refine ⟨[⟨operatorType c false, []⟩], by simpa using (operatorType_inner c).1, ?_⟩
      intro more tokens stuck nonempty kind spells
      obtain ⟨d, more, rfl⟩ := List.exists_cons_of_ne_nil nonempty
      have differs : d ≠ c := by
        rintro rfl
        rcases kind with rfl | backslash
        · exact clear rfl
        · exact resumes.1 (Option.some.inj backslash)
      have ended : scanToken 0 (front ++ d :: more) = _ := resumes.2 d more differs
      rw [spells_leads, ended]
      exact .token (by rwa [List.drop_left])

theorem drop_continuation {front : Text} {used : Nat} (behind : front.length ≤ used)
    (more : Text) :
    (front ++ (continuation ++ more)).drop (used + 2) = (front ++ more).drop used := by
  rw [List.drop_append, List.drop_append, List.drop_append, List.drop_eq_nil_of_le (by omega),
    List.drop_eq_nil_of_le behind, List.nil_append, List.nil_append]
  have rest : used + 2 - front.length - continuation.length = used - front.length := by
    simp [continuation]
    omega
  rw [rest, List.drop_eq_nil_of_le (by simp [continuation]; omega), List.nil_append]

theorem spells_solid {front second : Text} {tokens : List Token} {stuck : Bool}
    (waits : scanToken 0 front = .incomplete) (clear : (pendingToken front).Clear second)
    (solid : (pendingToken front).Solid second) (spells : Spells (front ++ second) tokens stuck) :
    Spells (front ++ (continuation ++ second)) tokens stuck ∨
      tokens = [] ∧ stuck = false ∧ ∃ inner : List Token, (∀ t ∈ inner, t.type ≠ .newLine) ∧
        Spells (front ++ (continuation ++ second)) inner false := by
  cases pending_continues waits clear solid with
  | longer shifted behind =>
      refine Or.inl (spells_leads.mpr ?_)
      rw [shifted]
      exact (spells_leads.mp spells).shift fun t used scanned =>
        drop_continuation (behind t used scanned) second
  | operator t kind nonempty noSpace ended same =>
      have after {tokens : List Token} {stuck : Bool} (spells : Spells second tokens stuck) :
          Spells (front ++ (continuation ++ second)) (t :: tokens) stuck := by
        rw [spells_leads, ended]
        refine .token ?_
        rw [List.drop_left, spells_leads, scanToken_continuation, scanWord_shift,
          ← scanToken_solid noSpace]
        exact (spells_leads.mp spells).front continuation
      rcases same with rfl | same
      · rw [List.append_nil] at spells
        have none : Spells front [] false := ⟨front, .nil front, waits⟩
        obtain ⟨rfl, rfl⟩ := spells.unique none
        exact Or.inr ⟨rfl, rfl, [t], by simpa using kind.1, after ⟨[], .nil [], rfl⟩⟩
      · rw [spells_leads, same] at spells
        cases spells with
        | token spells =>
            rw [List.drop_left] at spells
            exact Or.inl (after spells)

theorem vertical_split (text : Text) : ∃ front rest, text = front ++ rest ∧
    (∀ c ∈ front, c = 11 ∨ c = 12) ∧ ¬VerticalFirst rest := by
  induction text with
  | nil => exact ⟨[], [], rfl, by simp, by simp [VerticalFirst]⟩
  | cons c text ih =>
      by_cases vertical : c = 11 ∨ c = 12
      · obtain ⟨front, rest, rfl, all, other⟩ := ih
        exact ⟨c :: front, rest, rfl, by simpa [vertical] using all, other⟩
      · exact ⟨[], c :: text, rfl, by simp, by simpa [VerticalFirst] using vertical⟩

theorem SpaceFirst.blank {text : Text} (space : SpaceFirst text) (other : ¬VerticalFirst text) :
    ∃ d rest, text = d :: rest ∧ Blank d := by
  obtain ⟨d, head, space⟩ := space
  obtain ⟨rest, rfl⟩ := List.head?_eq_some_iff.1 head
  refine ⟨d, rest, rfl, ?_⟩
  simp only [VerticalFirst, List.head?_cons, Option.some.injEq, not_or] at other
  simp only [isSpace, decide_eq_true_eq] at space
  rcases space with space | tab | newLine | vertical | form | carriage
  · exact Or.inl space
  · exact Or.inr (Or.inl tab)
  · exact Or.inr (Or.inr (Or.inr newLine))
  · exact absurd vertical other.1
  · exact absurd form other.2
  · exact Or.inr (Or.inr (Or.inl carriage))

theorem spells_blanked {second : Text} (space : SpaceFirst second) (other : ¬VerticalFirst second) :
    Spells (continuation ++ second) [] true := by
  obtain ⟨d, rest, rfl, blank⟩ := space.blank other
  refine ⟨_, .nil _, ?_⟩
  rw [scanToken_continuation, (scanWord_failed 2 _).mpr (.blank blank rest)]
  rfl

section Vertical

variable {front : Text} (vertical : ∀ c ∈ front, c = 11 ∨ c = 12)

include vertical

theorem scanWord_vertical (used : Nat) (data more : Text) :
    scanWord used 0 data (front ++ more) = scanWord (used + front.length) 0 (data ++ front) more := by
  induction front generalizing used data with
  | nil => simp
  | cons c front ih =>
      have move : wordMove 0 data c (front ++ more).head? = .one 0 (data ++ [c]) := by
        rcases vertical c (by simp) with rfl | rfl <;> rfl
      rw [List.cons_append, scanWord_cons, move]
      dsimp only
      rw [ih (fun d mem => vertical d (by simp [mem])), List.length_cons, Nat.add_assoc,
        Nat.add_comm 1, List.append_assoc]
      rfl

theorem vertical_blank : pendingToken front = .blank := by
  induction front with
  | nil => rfl
  | cons c front ih =>
      have space : isSpace c = true := by rcases vertical c (by simp) with rfl | rfl <;> decide
      have inside : c ≠ byte '\n' := by rcases vertical c (by simp) with rfl | rfl <;> decide
      rw [pendingToken, if_pos space, if_neg inside]
      exact ih fun d mem => vertical d (by simp [mem])

-- The word begins with the white space, behind the continuation as behind a backslash.
theorem spells_joined {more : Text} {tokens : List Token} {stuck : Bool} (nonempty : front ≠ [])
    (leads : Leads more (scanWord 0 0 front more) tokens stuck) :
    Spells (continuation ++ (front ++ more)) tokens stuck ∧
      Spells (byte '\\' :: (front ++ more)) tokens stuck := by
  constructor
  · rw [spells_leads, scanToken_continuation, scanWord_vertical vertical, Nat.zero_add,
      ← Nat.zero_add (2 + front.length), scanWord_shift]
    have whole := leads.front (continuation ++ front)
    rwa [List.length_append, List.append_assoc] at whole
  · obtain ⟨c, front, rfl⟩ := List.exists_cons_of_ne_nil nonempty
    have move : wordMove 0 [] (byte '\\') (some c) = .two 0 [c] := by
      rcases vertical c (by simp) with rfl | rfl <;> rfl
    have enters : scanToken 0 (byte '\\' :: (c :: front ++ more)) = scanWord 2 0 [c] (front ++ more) := by
      have solid : isSpace (byte '\\') = false := by decide
      rw [scanToken, solid, List.cons_append, scanWord_cons, List.head?_cons, move]
      rfl
    have whole := leads.front (byte '\\' :: c :: front)
    rw [spells_leads, enters, scanWord_vertical fun d mem => vertical d (by simp [mem])]
    rw [← scanWord_shift] at whole
    have size : 0 + (byte '\\' :: c :: front).length = 2 + front.length := by
      simp only [List.length_cons]
      omega
    rwa [size] at whole

end Vertical

inductive WordBegins (front more : Text) : Prop where
  | intro {tokens tokens' : List Token} {stuck stuck' : Bool}
      (plain : Spells (front ++ more) tokens stuck)
      (joined : Leads more (scanWord 0 0 front more) tokens' stuck')
      (compared : ∀ before, Unfinished before → (∀ t ∈ before, t.type ≠ .none) →
        Compared (before ++ tokens) stuck (before ++ tokens') stuck')

theorem leads_exists (input : Text) (scan : Scan) : ∃ tokens stuck, Leads input scan tokens stuck := by
  cases scan with
  | failed => exact ⟨[], true, .failed⟩
  | incomplete => exact ⟨[], false, .incomplete⟩
  | token t used =>
      obtain ⟨tokens, stuck, spells⟩ := spells_exists (input.drop used)
      exact ⟨t :: tokens, stuck, .token spells⟩

theorem scanWord_blank {data : Text} (nonempty : data ≠ []) {c : Byte} (blank : Blank c) (rest : Text) :
    ∃ length, scanWord 0 0 data (c :: rest) = .token ⟨.str, data⟩ length ∧
      ∃ front, c :: rest = front ++ (c :: rest).drop length ∧ pendingToken front = .blank := by
  obtain ⟨d, data, rfl⟩ := List.exists_cons_of_ne_nil nonempty
  rcases blank with rfl | rfl | rfl | rfl
  · exact ⟨1, by rw [scanWord_cons]; rfl, [byte ' '], rfl, rfl⟩
  · exact ⟨1, by rw [scanWord_cons]; rfl, [byte '\t'], rfl, rfl⟩
  · exact ⟨1, by rw [scanWord_cons]; rfl, [byte '\r'], rfl, rfl⟩
  · exact ⟨0, by rw [scanWord_cons]; rfl, [], rfl, rfl⟩

theorem wordBegins {front more : Text} (vertical : ∀ c ∈ front, c = 11 ∨ c = 12)
    (nonempty : front ≠ []) (other : ¬VerticalFirst more) : WordBegins front more := by
  have blank := vertical_blank vertical
  have size : 0 < front.length := List.length_pos_iff.2 nonempty
  -- A word more, or a longer one.
  have inserted (words : List Token) {tokens : List Token} {word : Text} {stuck : Bool} {length : Nat}
      (plain : Spells more (words ++ tokens) stuck) (str : ∀ t ∈ words, t.type = .str)
      (ends : scanWord 0 0 front more = .token ⟨.str, word⟩ length)
      (spells : Spells (more.drop length) tokens stuck) (longer : wordBytes words < word.length) :
      WordBegins front more := by
    refine .intro (spells_blank blank plain) (by rw [ends]; exact .token spells) ?_
    intro before unfinished typed
    refine inserted_compared unfinished str rfl longer (fun t mem => ?_) stuck
    rcases List.mem_append.1 mem with mem | mem
    · exact typed t mem
    · exact spells.typed t mem
  -- The text stops before its first token.
  have stops {stuck : Bool} (plain : Spells more [] stuck) : WordBegins front more := by
    obtain ⟨tokens, stuck', leads⟩ := leads_exists more (scanWord 0 0 front more)
    refine .intro (spells_blank blank plain) leads fun before unfinished _ => ?_
    rw [List.append_nil]
    exact compared_unended unfinished.not_whole
  by_cases space : SpaceFirst more
  · obtain ⟨c, rest, rfl, blank'⟩ := space.blank other
    obtain ⟨length, ends, skipped, split, blank'⟩ := scanWord_blank nonempty blank' rest
    obtain ⟨tokens, stuck, spells⟩ := spells_exists ((c :: rest).drop length)
    have plain := spells_blank blank' spells
    rw [← split] at plain
    exact inserted [] plain (by simp) ends spells size
  have solid := scanToken_solid space 0
  cases joins nonempty 0 more with
  | own length ends goesOn same =>
      rw [Nat.zero_add] at ends
      obtain ⟨tokens, stuck, spells⟩ := spells_exists (more.drop length)
      have plain : Spells more tokens stuck := by
        rw [spells_leads, solid, same, scanToken_shift]
        exact (spells_leads.mp spells).shift fun t used _ => by rw [List.drop_drop, Nat.add_comm]
      exact inserted [] plain (by simp) ends spells size
  | joined word length ends ends' =>
      obtain ⟨tokens, stuck, spells⟩ := spells_exists (more.drop length)
      have plain : Spells more ([⟨.str, word⟩] ++ tokens) stuck := by
        rw [spells_leads, solid, ends]
        exact .token spells
      refine inserted _ plain (by simp) ends' spells ?_
      rw [wordBytes_word rfl, wordBytes_nil, List.length_append]
      exact Nat.lt_add_of_pos_left size
  | stuck length fails continued ends =>
      have plain : Spells more [] true := ⟨more, .nil more, solid.trans fails⟩
      exact stops plain
  | waits unended unended' =>
      have plain : Spells more [] false := ⟨more, .nil more, solid.trans unended⟩
      exact stops plain

theorem Entries.cut {tokens rest : List Token} {entries : List Entry}
    (taken : Entries tokens entries rest) :
    ∃ front, tokens = front ++ rest ∧ Entries front entries [] := by
  induction taken with
  | nil rest => exact ⟨[], rfl, .nil []⟩
  | cons gives tail ih =>
      obtain ⟨front, rfl, gives'⟩ := gives.cut
      obtain ⟨later, rfl, taken⟩ := ih
      exact ⟨front ++ later, by simp, .cons (gives'.append later) taken⟩

theorem behind_exists (text : Text) : ∃ left, Behind text left := by
  obtain ⟨tokens, stuck, spells⟩ := spells_exists text
  obtain ⟨entries, rest, taken, ended⟩ := entries_exists tokens
  obtain ⟨front, rfl, taken'⟩ := taken.cut
  obtain ⟨last, lexes, -⟩ := id spells
  obtain ⟨left, lexes', -⟩ := lexes.split
  obtain ⟨more, same, spelled⟩ := spells.behind lexes'
  cases List.append_cancel_left same
  refine ⟨left, front, entries, lexes', taken', fun entry finishes => ?_⟩
  obtain ⟨_, gives⟩ := (finishes_iff spelled).mp finishes
  exact ended ⟨entry, _, gives⟩

-- No assertion has failed, and the text ends inside a line.
def Open (left : Text) : Prop :=
  ∃ tokens rest, LexesTo left tokens rest ∧ scanToken 0 rest = .incomplete ∧ Unfinished tokens

theorem Behind.cases {first left : Text} (behind : Behind first left) : Fails left ∨ Open left := by
  obtain ⟨-, -, -, -, unfinished⟩ := behind
  obtain ⟨tokens, stuck, spells⟩ := spells_exists left
  have fails := (fails_iff spells).mpr
  have unended : ¬Whole tokens := fun ⟨entry, rest, gives⟩ =>
    unfinished entry ((finishes_iff spells).mpr ⟨rest, gives⟩)
  rcases tokens_cases spells.typed with whole | crashes | inside
  · exact absurd whole unended
  · exact Or.inl (fails (Or.inl crashes))
  · cases stuck with
    | true => exact Or.inl (fails (Or.inr ⟨unended, rfl⟩))
    | false =>
        obtain ⟨rest, lexes, waits⟩ := spells
        exact Or.inr ⟨tokens, rest, lexes, waits, inside⟩

-- The text that is left over is the same, whatever was taken before.
theorem LexesTo.last {text rest rest' : Text} {tokens tokens' : List Token}
    (lexes : LexesTo text tokens rest) (waits : scanToken 0 rest = .incomplete)
    (lexes' : LexesTo text tokens' rest') (waits' : scanToken 0 rest' = .incomplete) :
    rest = rest' := by
  induction lexes generalizing tokens' with
  | nil rest =>
      cases lexes' with
      | nil => rfl
      | cons scanned => cases waits.symm.trans scanned
  | cons scanned tail ih =>
      cases lexes' with
      | nil => cases waits'.symm.trans scanned
      | cons scanned' tail' =>
          cases scanned.symm.trans scanned'
          exact ih waits tail'

section Insert

variable {first second left : Text} (clear : EndsClear first second)
  (narrow : Narrow (first ++ second)) (narrow' : Narrow (first ++ (continuation ++ second)))
  (behind : Behind first left)

include narrow narrow' behind

theorem transparent_left {tokens tokens' : List Token} {stuck stuck' : Bool}
    (spells : Spells (left ++ second) tokens stuck)
    (spells' : Spells (left ++ (continuation ++ second)) tokens' stuck') :
    Transparent first second ↔ InStep tokens stuck tokens' stuck' := by
  obtain ⟨front, entries, lexes, taken, -⟩ := behind
  have plain := (lexes.append second).spells spells
  have long := (lexes.append (continuation ++ second)).spells spells'
  rw [transparent_iff narrow narrow' plain long, inStep_behind taken]

theorem transparent_fails (fails : Fails left) : Transparent first second := by
  obtain ⟨tokens, stuck, spells⟩ := spells_exists (left ++ second)
  obtain ⟨tokens', stuck', spells'⟩ := spells_exists (left ++ (continuation ++ second))
  rw [transparent_left narrow narrow' behind spells spells']
  have plain := fails.append second
  have long := fails.append (continuation ++ second)
  have unended {text : Text} {tokens : List Token} {stuck : Bool} (spells : Spells text tokens stuck)
      (fails : Fails text) : ¬Whole tokens := fun ⟨entry, rest, gives⟩ =>
    fails.not_finishes entry ((finishes_iff spells).mpr ⟨rest, gives⟩)
  rw [inStep_unended (unended spells plain) (unended spells' long)]
  exact fun _ => ((fails_iff spells).mp plain).imp_right And.right

include clear

theorem transparent_solid (solid : EndsInWord first ∨ ¬SpaceFirst second) :
    Transparent first second := by
  rcases behind.cases with fails | ⟨front, rest, lexes, waits, unfinished⟩
  · exact transparent_fails narrow narrow' behind fails
  obtain ⟨before, -, lexes', -⟩ := id behind
  have whole := lexes'.trans lexes
  have solid' : (pendingToken rest).Solid second := by
    rcases solid with ⟨_, last, quote, data, lexes, waits', word⟩ | noSpace
    · obtain rfl := whole.last waits lexes waits'
      exact Or.inl ⟨quote, data, word⟩
    · exact Or.inr noSpace
  obtain ⟨tokens, stuck, spells⟩ := spells_exists (rest ++ second)
  have plain := (lexes.append second).spells spells
  have long {tokens : List Token} {stuck : Bool} := @LexesTo.spells _ _ _ tokens stuck
    (lexes.append (continuation ++ second))
  rcases spells_solid waits (clear _ rest whole waits) solid' spells with
    spells' | ⟨rfl, rfl, inner, noLine, spells'⟩
  · rw [transparent_left narrow narrow' behind plain (long spells')]
    exact inStep_refl _ stuck
  · have after := unfinished.append noLine
    rw [transparent_left narrow narrow' behind plain (long spells'), List.append_nil,
      inStep_unended unfinished.not_whole after.not_whole]
    rintro (crashes | stuck)
    · exact absurd crashes after.sound
    · cases stuck

theorem transparent_spaced (outside : ¬EndsInWord first) (space : SpaceFirst second) :
    Transparent first second ↔ ¬VerticalFirst second ∧ Fails (left ++ second) ∨
      VerticalFirst second ∧ Alike (left ++ second) (left ++ byte '\\' :: second) := by
  rcases behind.cases with fails | ⟨front, rest, lexes, waits, unfinished⟩
  · have plain := fails.append second
    have joined := fails.append (byte '\\' :: second)
    refine iff_of_true (transparent_fails narrow narrow' behind fails) ?_
    by_cases vertical : VerticalFirst second
    · exact Or.inr ⟨vertical, Or.inl ⟨plain.not_finishes, joined.not_finishes, fun _ => plain⟩⟩
    · exact Or.inl ⟨vertical, plain⟩
  obtain ⟨before, -, lexes', -⟩ := id behind
  have whole := lexes'.trans lexes
  have outside' (quote : Byte) (data : Text) : pendingToken rest ≠ .word quote data := fun word =>
    outside ⟨_, rest, quote, data, whole, waits, word⟩
  obtain ⟨inner, noLine, apart⟩ := spells_apart waits (clear _ rest whole waits) outside'
  have after := unfinished.append noLine
  have spelled {more : Text} {tokens : List Token} {stuck : Bool} (nonempty : more ≠ [])
      (kind : more = second ∨ more.head? = some (byte '\\')) (spells : Spells more tokens stuck) :
      Spells (left ++ more) (front ++ inner ++ tokens) stuck := by
    rw [List.append_assoc]
    exact (lexes.append more).spells (apart nonempty kind spells)
  have some_ : second ≠ [] := by
    rintro rfl
    obtain ⟨c, head, -⟩ := space
    cases head
  by_cases vertical : VerticalFirst second
  · rw [or_iff_right fun other => other.1 vertical, and_iff_right vertical]
    obtain ⟨blanks, more, rfl, all, other⟩ := vertical_split second
    have nonempty : blanks ≠ [] := by
      rintro rfl
      exact other vertical
    obtain ⟨plain, joined, compared⟩ := wordBegins all nonempty other
    obtain ⟨long, escaped⟩ := spells_joined all nonempty joined
    have plain' := spelled some_ (Or.inl rfl) plain
    rw [transparent_left narrow narrow' behind plain' (spelled (by simp [continuation]) (Or.inr rfl) long),
      alike_tokens plain' (spelled (by simp) (Or.inr rfl) escaped)]
    exact (compared _ after fun t mem => plain'.typed t (List.mem_append_left _ mem)).inStep
  · rw [or_iff_left fun other => vertical other.1, and_iff_right vertical]
    obtain ⟨tokens, stuck, spells⟩ := spells_exists second
    have plain := spelled some_ (Or.inl rfl) spells
    have long := spelled (by simp [continuation]) (Or.inr rfl) (spells_blanked space vertical)
    rw [transparent_left narrow narrow' behind plain long, List.append_nil, fails_iff plain]
    constructor
    · rintro ⟨entries, last, last', taken, ended, taken', ended', safe⟩
      obtain ⟨rfl, -⟩ := taken'.unique ended' (.nil _) after.not_whole
      cases taken
      exact (safe (Or.inr rfl)).imp_right fun stuck => ⟨ended, stuck⟩
    · intro fails
      have unended : ¬Whole (front ++ inner ++ tokens) := by
        rcases fails with crashes | ⟨unended, -⟩
        · exact crashes.not_whole
        · exact unended
      rw [inStep_unended unended after.not_whole]
      exact fun _ => fails.imp_right And.right

end Insert

end SystemProg.Shell
