import Mathlib.Algebra.Order.BigOperators.Group.List
import Mathlib.Algebra.Order.Ring.Nat
import SystemProg.Shell.Print
import SystemProg.Shell.Recovery

set_option autoImplicit false

-- The parts of a word stand next to each other, each quoted in its own way. `parse_token` ends the
-- word at a closing quote and at `#`.

namespace SystemProg.Shell

inductive QuotedPart where
  | plain (c : Byte)
  | escaped (c : Byte)
deriving DecidableEq, Repr

inductive WordPart where
  | plain (c : Byte)
  | escaped (c : Byte)
  | single (body : Text)
  | double (body : List QuotedPart)
deriving DecidableEq, Repr

def QuotedPart.text : QuotedPart → Text
  | .plain c => [c]
  | .escaped c => [byte '\\', c]

def WordPart.text : WordPart → Text
  | .plain c => [c]
  | .escaped c => [byte '\\', c]
  | .single body => byte '\'' :: (body ++ [byte '\''])
  | .double body => byte '"' :: (body.flatMap QuotedPart.text ++ [byte '"'])

-- The quote removal of the shell: in double quotes a backslash stays before any other byte.
def QuotedPart.value : QuotedPart → Text
  | .plain c => [c]
  | .escaped c =>
      if c = byte '\n' then []
      else if c = byte '\\' ∨ c = byte '"' ∨ c = byte '$' ∨ c = 96 then [c]
      else [byte '\\', c]

def WordPart.value : WordPart → Text
  | .plain c | .escaped c => [c]
  | .single body => body
  | .double body => body.flatMap QuotedPart.value

def wordText (parts : List WordPart) : Text := parts.flatMap WordPart.text

def wordValue (parts : List WordPart) : Text := parts.flatMap WordPart.value

def Separator (c : Byte) : Prop :=
  c ∈ [byte ' ', byte '\t', byte '\r', byte '\n', byte '&', byte '|', byte '>']

instance (c : Byte) : Decidable (Separator c) := inferInstanceAs (Decidable (c ∈ _))

def QuotedPart.Formed : QuotedPart → Prop
  | .plain c => c ≠ byte '"' ∧ c ≠ byte '\\'
  | .escaped _ => True

-- A backslash before a new line is no escaped byte.
def WordPart.Formed : WordPart → Prop
  | .plain c => ¬Separator c ∧ c ≠ byte '\'' ∧ c ≠ byte '"' ∧ c ≠ byte '\\'
  | .escaped c => c ≠ byte '\n'
  | .single body => byte '\'' ∉ body
  | .double body => ∀ part ∈ body, part.Formed

-- A word starts with no white space, and a `#` there starts a comment.
def Word (parts : List WordPart) : Prop :=
  parts ≠ [] ∧ (∀ part ∈ parts, part.Formed) ∧
    ∀ c, parts.head? = some (.plain c) → isSpace c = false ∧ c ≠ byte '#'

def WordPart.quoted : WordPart → Bool
  | .plain _ | .escaped _ => false
  | .single _ | .double _ => true

-- A blank is read with the word before it, unless a quote has ended that.
def separatorRead (parts : List WordPart) (separator : Byte) : Nat :=
  if parts.getLast?.any WordPart.quoted then 0
  else if separator = byte ' ' ∨ separator = byte '\t' ∨ separator = byte '\r' then 1
  else 0

-- One token holds the value of the word and takes the word, with its separator or without.
def ReadsWord (parts : List WordPart) (separator : Byte) (rest : Text) : Prop :=
  ∃ used, parseToken (wordText parts ++ separator :: rest) = .token ⟨.str, wordValue parts⟩ used ∧
    (used = (wordText parts).length ∨ used = (wordText parts).length + 1)

def QuotedPart.kept : QuotedPart → Text
  | .plain c => [c]
  | .escaped c =>
      if c = byte '\\' then [c]
      else if c = byte '\n' then []
      else if c = byte '"' then [c]
      else [byte '\\', c]

def WordPart.kept : WordPart → Text
  | .plain c | .escaped c => [c]
  | .single body => body
  | .double body => body.flatMap QuotedPart.kept

def taken : List WordPart → List WordPart
  | [] => []
  | part :: parts =>
      if part = .plain (byte '#') then []
      else if part.quoted then [part]
      else part :: taken parts

theorem scanWord_single (used : Nat) (data : Text) {body : Text} (inside : byte '\'' ∉ body)
    (rest : Text) :
    scanWord used (byte '\'') data (body ++ byte '\'' :: rest) =
      .token ⟨.str, data ++ body⟩ (used + body.length + 1) := by
  induction body generalizing used data with
  | nil =>
      rw [List.nil_append, scanWord_cons]
      simp [wordMove, wordSwitch, byte]
  | cons c body ih =>
      have other : byte '\'' ≠ c := fun same => inside (by simp [same])
      have opened : byte '\'' ≠ 0 := by decide
      have move : wordMove (byte '\'') data c (body ++ byte '\'' :: rest).head? =
          .one (byte '\'') (data ++ [c]) := by
        simp [wordMove, wordSwitch, opened, other]
      rw [List.cons_append, scanWord_cons, move]
      dsimp only
      rw [ih _ _ fun mem => inside (by simp [mem]), List.append_assoc, List.singleton_append,
        List.length_cons]
      congr 1
      omega

theorem scanWord_double (used : Nat) (data : Text) {body : List QuotedPart}
    (formed : ∀ part ∈ body, part.Formed) (rest : Text) :
    scanWord used (byte '"') data (body.flatMap QuotedPart.text ++ byte '"' :: rest) =
      .token ⟨.str, data ++ body.flatMap QuotedPart.kept⟩
        (used + (body.flatMap QuotedPart.text).length + 1) := by
  induction body generalizing used data with
  | nil =>
      rw [List.flatMap_nil, List.nil_append, scanWord_cons]
      simp [wordMove, wordSwitch, byte]
  | cons part body ih =>
      have later := fun used data => ih used data fun part mem => formed part (by simp [mem])
      have opened : byte '"' ≠ 0 := by decide
      rw [List.flatMap_cons, List.flatMap_cons, List.append_assoc]
      cases part with
      | plain c =>
          have plain := formed (.plain c) (by simp)
          rw [QuotedPart.text, List.singleton_append, scanWord_cons,
            wordMove_plain ⟨plain.2, plain.1⟩]
          dsimp only
          rw [later, QuotedPart.kept]
          simp
          omega
      | escaped c =>
          have move : wordMove (byte '"') data (byte '\\') (some c) =
              .two (byte '"') (data ++ QuotedPart.kept (.escaped c)) := by
            simp only [wordMove, wordSwitch, QuotedPart.kept]
            rw [if_neg (by decide), if_pos trivial, if_neg (by decide), escapeMove, if_pos rfl]
            split_ifs <;> simp
          rw [QuotedPart.text, List.cons_append, List.singleton_append, scanWord_cons,
            List.head?_cons, move]
          dsimp only [List.tail_cons]
          rw [later]
          simp
          omega

theorem scanWord_separator (used : Nat) {data : Text} (started : data ≠ []) {separator : Byte}
    (separates : Separator separator) (rest : Text) :
    scanWord used 0 data (separator :: rest) =
      .token ⟨.str, data⟩ (used + separatorRead [] separator) := by
  have move : ∃ length, wordMove 0 data separator rest.head? = .token .str data length ∧
      length = separatorRead [] separator := by
    simp only [Separator, List.mem_cons, List.not_mem_nil, or_false] at separates
    rcases separates with rfl | rfl | rfl | rfl | rfl | rfl | rfl <;>
      simp [wordMove, wordSwitch, started, separatorRead, byte]
  obtain ⟨length, move, rfl⟩ := move
  rw [scanWord_cons, move]

theorem wordMove_ordinary {data : Text} {c : Byte} (formed : (WordPart.plain c).Formed)
    (next : Option Byte) :
    wordMove 0 data c next =
      if c = byte '#' then if data ≠ [] then .token .str data 0 else .comment
      else .one 0 (data ++ [c]) := by
  obtain ⟨inner, single, double, escape⟩ := formed
  simp only [Separator, List.mem_cons, List.not_mem_nil, or_false, not_or] at inner
  obtain ⟨space, tab, carriage, newLine, ampersand, bar, arrow⟩ := inner
  have zero : ¬(0 : Byte) ≠ 0 := by decide
  rw [wordMove, wordSwitch, if_neg (by simp [single, double]), if_neg escape,
    if_neg (by simp [ampersand, bar, arrow]), if_neg (by simp [space, tab, carriage]),
    if_neg newLine, if_neg zero]

theorem wordMove_backslash {data : Text} {c : Byte} (other : c ≠ byte '\n') :
    wordMove 0 data (byte '\\') (some c) = .two 0 (data ++ [c]) := by
  simp only [wordMove, wordSwitch]
  rw [if_neg (by decide), if_pos trivial, if_neg (by decide), escapeMove, if_neg (by decide),
    if_neg (by decide), if_neg other]

theorem separatorRead_cons {part : WordPart} {parts : List WordPart}
    (unquoted : part.quoted = false) (separator : Byte) :
    separatorRead (part :: parts) separator = separatorRead parts separator := by
  cases parts with
  | nil => simp [separatorRead, unquoted]
  | cons next parts => simp [separatorRead, List.getLast?_cons]

theorem separatorRead_quoted {part : WordPart} (quoted : part.quoted = true) (separator : Byte) :
    separatorRead [part] separator = 0 := by
  simp [separatorRead, quoted]

theorem scanWord_quotedPart (used : Nat) (data : Text) {part : WordPart} (formed : part.Formed)
    (quoted : part.quoted = true) (rest : Text) :
    scanWord used 0 data (part.text ++ rest) =
      .token ⟨.str, data ++ part.kept⟩ (used + part.text.length) := by
  cases part with
  | plain | escaped => cases quoted
  | single body =>
      have opens : wordMove 0 data (byte '\'') (body ++ [byte '\''] ++ rest).head? =
          .one (byte '\'') data := by simp [wordMove, wordSwitch]
      rw [WordPart.text, List.cons_append, scanWord_cons, opens]
      dsimp only
      rw [List.append_assoc, List.singleton_append, scanWord_single _ _ formed, WordPart.kept]
      simp
      omega
  | double body =>
      have opens : wordMove 0 data (byte '"')
          (body.flatMap QuotedPart.text ++ [byte '"'] ++ rest).head? = .one (byte '"') data := by
        simp [wordMove, wordSwitch]
      rw [WordPart.text, List.cons_append, scanWord_cons, opens]
      dsimp only
      rw [List.append_assoc, List.singleton_append, scanWord_double _ _ formed, WordPart.kept]
      simp
      omega

def keptText (parts : List WordPart) : Text := parts.flatMap WordPart.kept

theorem scanWord_parts (used : Nat) (data : Text) {parts : List WordPart}
    (formed : ∀ part ∈ parts, part.Formed)
    (starts : data = [] → parts ≠ [] ∧ parts.head? ≠ some (.plain (byte '#'))) {separator : Byte}
    (separates : Separator separator) (rest : Text) :
    scanWord used 0 data (wordText parts ++ separator :: rest) =
      .token ⟨.str, data ++ keptText (taken parts)⟩
        (used + (wordText (taken parts)).length +
          if taken parts = parts then separatorRead parts separator else 0) := by
  induction parts generalizing used data with
  | nil =>
      have started : data ≠ [] := fun none => (starts none).1 rfl
      simpa [wordText, keptText, taken] using scanWord_separator used started separates rest
  | cons part parts ih =>
      have first := formed part (by simp)
      have text : wordText (part :: parts) ++ separator :: rest =
          part.text ++ (wordText parts ++ separator :: rest) := by simp [wordText]
      have later (used : Nat) (more : Text) (unquoted : part.quoted = false) (some_ : more ≠ [])
          (kept : part.kept = more) (inside : part ≠ .plain (byte '#')) :
          scanWord (used + part.text.length) 0 (data ++ more)
            (wordText parts ++ separator :: rest) =
          .token ⟨.str, data ++ keptText (taken (part :: parts))⟩
            (used + (wordText (taken (part :: parts))).length +
              if taken (part :: parts) = part :: parts then separatorRead (part :: parts) separator
              else 0) := by
        have takes : taken (part :: parts) = part :: taken parts := by
          simp [taken, unquoted, inside]
        rw [ih _ _ (fun part mem => formed part (by simp [mem])) (by simp [some_]), takes,
          separatorRead_cons unquoted]
        simp [keptText, wordText, kept]
        omega
      rw [text]
      by_cases quoted : part.quoted = true
      · have takes : taken (part :: parts) = [part] := by
          have inside : part ≠ .plain (byte '#') := by
            rintro rfl
            cases quoted
          simp [taken, quoted, inside]
        rw [scanWord_quotedPart used data first quoted, takes]
        by_cases last : parts = []
        · simp [last, keptText, wordText, separatorRead_quoted quoted]
        · have more : [part] ≠ part :: parts := by simp [Ne.symm last]
          rw [if_neg more]
          simp [keptText, wordText]
      · cases part with
        | single | double => exact absurd rfl quoted
        | plain c =>
            rw [WordPart.text, List.singleton_append, scanWord_cons, wordMove_ordinary first]
            by_cases sharp : c = byte '#'
            · subst sharp
              have started : data ≠ [] := fun none => (starts none).2 rfl
              have takes : taken (.plain (byte '#') :: parts) = [] := by simp [taken]
              rw [if_pos rfl, if_pos started, takes, if_neg (by simp)]
              simp [keptText, wordText]
            · rw [if_neg sharp]
              exact later used [c] rfl (by simp) rfl (by simp [sharp])
        | escaped c =>
            rw [WordPart.text, List.cons_append, List.singleton_append, scanWord_cons,
              List.head?_cons, wordMove_backslash first]
            exact later used [c] rfl (by simp) rfl (by simp)

theorem Word.scanToken {parts : List WordPart} (word : Word parts) (rest : Text) :
    scanToken 0 (wordText parts ++ rest) = scanWord 0 0 [] (wordText parts ++ rest) := by
  obtain ⟨nonempty, -, first⟩ := word
  cases parts with
  | nil => exact absurd rfl nonempty
  | cons part parts =>
      have opening : ∃ c tail, wordText (part :: parts) ++ rest = c :: tail ∧ isSpace c = false := by
        cases part with
        | plain c => exact ⟨c, _, rfl, (first c rfl).1⟩
        | escaped | single | double => exact ⟨_, _, rfl, by decide⟩
      obtain ⟨c, tail, text, solid⟩ := opening
      rw [text, Shell.scanToken, solid]
      rfl

theorem Word.parseToken {parts : List WordPart} (word : Word parts) {separator : Byte}
    (separates : Separator separator) (rest : Text) :
    parseToken (wordText parts ++ separator :: rest) =
      let used := uint32 ((wordText (taken parts)).length +
        if taken parts = parts then separatorRead parts separator else 0)
      if used = 0 then .incomplete else .token ⟨.str, keptText (taken parts)⟩ used := by
  have starts : parts ≠ [] ∧ parts.head? ≠ some (.plain (byte '#')) :=
    ⟨word.1, fun sharp => (word.2.2 _ sharp).2 rfl⟩
  rw [Shell.parseToken, word.scanToken,
    scanWord_parts 0 [] word.2.1 (fun _ => starts) separates rest, Nat.zero_add, List.nil_append]

theorem WordPart.text_positive (part : WordPart) : 0 < part.text.length := by
  cases part <;> simp [WordPart.text]

theorem taken_shorter {parts : List WordPart} (stops : taken parts ≠ parts) :
    (wordText (taken parts)).length < (wordText parts).length := by
  induction parts with
  | nil => exact absurd rfl stops
  | cons part parts ih =>
      have positive := part.text_positive
      rw [taken] at stops ⊢
      split_ifs at stops ⊢ with sharp quoted
      · simp [wordText]
        omega
      · cases parts with
        | nil => exact absurd rfl stops
        | cons next parts =>
            have positive := next.text_positive
            simp [wordText]
            omega
      · have later := ih fun same => stops (by rw [same])
        simpa [wordText] using later

theorem taken_eq_iff {parts : List WordPart} : taken parts = parts ↔
    (∀ part ∈ parts.dropLast, part.quoted = false) ∧ .plain (byte '#') ∉ parts := by
  induction parts with
  | nil => simp [taken]
  | cons part parts ih =>
      rw [taken]
      split_ifs with sharp quoted
      · simp [sharp]
      · cases parts with
        | nil =>
            have other : part ≠ .plain (byte '#') := sharp
            simp [Ne.symm other]
        | cons next parts => simp [quoted]
      · have other : .plain (byte '#') ≠ part := Ne.symm sharp
        have unquoted : part.quoted = false := by simpa using quoted
        rw [List.cons.injEq, ih]
        cases parts with
        | nil => simp [other]
        | cons next parts => simp [other, unquoted]

-- Where no piece of a text is shorter than its image, the texts agree piece by piece or not at
-- all.
theorem flatMap_eq_iff {A : Type} {left right : A → Text} {items : List A}
    (shorter : ∀ item ∈ items, (right item).length ≤ (left item).length) :
    items.flatMap left = items.flatMap right ↔ ∀ item ∈ items, left item = right item := by
  induction items with
  | nil => simp
  | cons item items ih =>
      have later := ih fun item mem => shorter item (by simp [mem])
      have tail : (items.flatMap right).length ≤ (items.flatMap left).length := by
        rw [List.length_flatMap, List.length_flatMap]
        exact List.sum_le_sum fun item mem => shorter item (by simp [mem])
      have head := shorter item (by simp)
      rw [List.flatMap_cons, List.flatMap_cons, List.forall_mem_cons, ← later]
      constructor
      · intro same
        have lengths := congrArg List.length same
        rw [List.length_append, List.length_append] at lengths
        exact List.append_inj same (by omega)
      · rintro ⟨first, rest⟩
        rw [first, rest]

theorem QuotedPart.value_shorter (part : QuotedPart) : part.value.length ≤ part.kept.length := by
  cases part with
  | plain c => simp [QuotedPart.value, QuotedPart.kept]
  | escaped c =>
      rw [QuotedPart.value, QuotedPart.kept]
      split_ifs <;> simp_all

theorem QuotedPart.kept_eq_iff (part : QuotedPart) :
    part.kept = part.value ↔ part ≠ .escaped (byte '$') ∧ part ≠ .escaped 96 := by
  cases part with
  | plain c => simp [QuotedPart.value, QuotedPart.kept]
  | escaped c =>
      rw [QuotedPart.value, QuotedPart.kept]
      by_cases known : c = byte '\\' ∨ c = byte '\n' ∨ c = byte '"' ∨ c = byte '$' ∨ c = 96
      · rcases known with rfl | rfl | rfl | rfl | rfl <;> decide
      · simp only [not_or] at known
        obtain ⟨escape, newLine, double, dollar, back⟩ := known
        simp [escape, newLine, double, dollar, back]

theorem WordPart.value_shorter (part : WordPart) : part.value.length ≤ part.kept.length := by
  cases part with
  | plain | escaped | single => exact Nat.le_refl _
  | double body =>
      rw [WordPart.value, WordPart.kept, List.length_flatMap, List.length_flatMap]
      exact List.sum_le_sum fun part _ => part.value_shorter

theorem keptText_eq_iff {parts : List WordPart} : keptText parts = wordValue parts ↔
    ∀ body, .double body ∈ parts → .escaped (byte '$') ∉ body ∧ .escaped 96 ∉ body := by
  have part_iff (part : WordPart) : part.kept = part.value ↔
      ∀ body, part = .double body → .escaped (byte '$') ∉ body ∧ .escaped 96 ∉ body := by
    cases part with
    | plain | escaped | single => exact iff_of_true rfl (by simp)
    | double body =>
        rw [WordPart.kept, WordPart.value, flatMap_eq_iff fun part _ => part.value_shorter]
        simp only [QuotedPart.kept_eq_iff, WordPart.double.injEq, forall_eq']
        constructor
        · exact fun clean => ⟨fun mem => (clean _ mem).1 rfl, fun mem => (clean _ mem).2 rfl⟩
        · rintro ⟨dollar, back⟩ part mem
          exact ⟨fun same => dollar (same ▸ mem), fun same => back (same ▸ mem)⟩
  rw [keptText, wordValue, flatMap_eq_iff fun part _ => part.value_shorter]
  simp only [part_iff]
  exact ⟨fun clean body mem => clean _ mem body rfl, fun clean part mem body same =>
    clean body (same ▸ mem)⟩

theorem wordText_positive {parts : List WordPart} (nonempty : parts ≠ []) :
    0 < (wordText parts).length := by
  cases parts with
  | nil => exact absurd rfl nonempty
  | cons part parts =>
      have positive := part.text_positive
      simp [wordText]
      omega

theorem separatorRead_le (parts : List WordPart) (separator : Byte) :
    separatorRead parts separator ≤ 1 := by
  unfold separatorRead
  split_ifs <;> omega

theorem returned_token {length used : Nat} {t t' : Token}
    (returned : (if uint32 length = 0 then Scan.incomplete else .token t (uint32 length)) =
      .token t' used) : uint32 length ≠ 0 ∧ t = t' ∧ uint32 length = used := by
  split at returned
  · cases returned
  · next positive =>
      rw [Scan.token.injEq] at returned
      exact ⟨positive, returned⟩

theorem readsWord_iff {parts : List WordPart} (word : Word parts) {separator : Byte}
    (separates : Separator separator) (rest : Text) :
    ReadsWord parts separator rest ↔
      (∀ part ∈ parts.dropLast, part.quoted = false) ∧ .plain (byte '#') ∉ parts ∧
      (∀ body, .double body ∈ parts → .escaped (byte '$') ∉ body ∧ .escaped 96 ∉ body) ∧
      (wordText parts).length + separatorRead parts separator < 2 ^ 32 := by
  have token := word.parseToken separates rest
  have positive := wordText_positive word.1
  have read := separatorRead_le parts separator
  rw [← and_assoc, ← taken_eq_iff, ← keptText_eq_iff]
  by_cases whole : taken parts = parts
  · rw [if_pos whole, whole] at token
    constructor
    · rintro ⟨used, scanned, length⟩
      rw [token] at scanned
      obtain ⟨some_, value, same⟩ := returned_token scanned
      refine ⟨whole, by simpa using value, ?_⟩
      unfold uint32 at some_ same
      omega
    · rintro ⟨-, value, bounded⟩
      have exact_ : uint32 ((wordText parts).length + separatorRead parts separator) =
          (wordText parts).length + separatorRead parts separator := Nat.mod_eq_of_lt bounded
      rw [value, exact_] at token
      dsimp only at token
      rw [if_neg (by omega)] at token
      exact ⟨_, token, by omega⟩
  · -- The token ends before the word does.
    refine iff_of_false ?_ fun holds => whole holds.1
    rintro ⟨used, scanned, length⟩
    rw [token] at scanned
    obtain ⟨-, -, same⟩ := returned_token scanned
    rw [if_neg whole, Nat.add_zero] at same
    have shorter := taken_shorter whole
    have wraps : uint32 (wordText (taken parts)).length ≤ (wordText (taken parts)).length :=
      Nat.mod_le _ _
    omega

theorem readsWord_mixed :
    ReadsWord [.plain (byte 'a'), .escaped (byte ' '), .double [.plain (byte '#'), .escaped (byte '"')]]
      (byte '>') [byte 'f'] := by
  have word : Word [.plain (byte 'a'), .escaped (byte ' '),
      .double [.plain (byte '#'), .escaped (byte '"')]] := by
    refine ⟨by simp, ?_, ?_⟩
    · simp [WordPart.Formed, QuotedPart.Formed, Separator, byte]
    · rintro c ⟨⟩
      decide
  exact (readsWord_iff word (by decide) _).2 ⟨by simp [WordPart.quoted], by decide, by simp; decide,
    by decide⟩

theorem quotedPart_endsWord :
    Word [.double [.plain (byte 'a')], .plain (byte 'b')] ∧
      parseToken (wordText [.double [.plain (byte 'a')], .plain (byte 'b')] ++ [byte '\n']) =
        .token ⟨.str, [byte 'a']⟩ 3 ∧
      ¬ReadsWord [.double [.plain (byte 'a')], .plain (byte 'b')] (byte '\n') [] := by
  have token : parseToken (wordText [.double [.plain (byte 'a')], .plain (byte 'b')] ++
      [byte '\n']) = .token ⟨.str, [byte 'a']⟩ 3 := by decide +kernel
  refine ⟨⟨by simp, ?_, nofun⟩, token, ?_⟩
  · simp [WordPart.Formed, QuotedPart.Formed, Separator, byte]
  · rintro ⟨used, scanned, -⟩
    rw [token] at scanned
    exact absurd scanned (by simp [wordValue, WordPart.value, QuotedPart.value])

end SystemProg.Shell
