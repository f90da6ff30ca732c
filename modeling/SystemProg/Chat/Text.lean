import Mathlib.Data.List.DropRight
import SystemProg.Lib.Lines

set_option autoImplicit false

-- `trim` and `extract_message` of the two programs, and what the two ends make of a line.

namespace SystemProg.Chat

abbrev Byte := UInt8
abbrev Text := List Byte

def newline : Byte := 10
def colon : Byte := 58
def blank : Byte := 32

-- `isspace` in the C locale
def isSpace (b : Byte) : Bool := b = blank || (9 ≤ b && b ≤ 13)

def trim (s : Text) : Text := (s.dropWhile isSpace).rdropWhile isSpace

-- `std::string::find`, from the start
def find (pattern : Text) : Text → Option Nat
  | [] => if pattern = [] then some 0 else none
  | head :: rest =>
      if pattern.isPrefixOf (head :: rest) then some 0 else (find pattern rest).map (· + 1)

-- The message and what is left of the buffer.
def extractMessage (buffer : Text) : Option (Text × Text) :=
  (find [newline] buffer).map fun pos => (buffer.take pos, buffer.drop (pos + 1))

structure Message where
  author : Text
  data : Text
deriving DecidableEq

def serverName : Text := [115, 101, 114, 118, 101, 114]

def messageLine (name msg : Text) : Text := name ++ [colon, blank] ++ msg ++ [newline]

-- What `chat_client_update` makes of a line that is trimmed and not empty.
def parseMessage (msg : Text) : Message :=
  match find [colon, blank] msg with
  | some pos => { author := msg.take pos, data := msg.drop (pos + 2) }
  | none => { author := [], data := msg }

theorem find_some {pattern s : Text} {pos : Nat} (found : find pattern s = some pos) :
    pattern <+: s.drop pos ∧ ∀ i < pos, ¬ pattern <+: s.drop i := by
  induction s generalizing pos with
  | nil =>
      rw [find] at found
      split at found
      · next empty =>
          cases found
          simp [empty]
      · cases found
  | cons head rest ih =>
      rw [find] at found
      split at found
      · next here =>
          cases found
          exact ⟨List.isPrefixOf_iff_prefix.mp here, fun i early => absurd early (Nat.not_lt_zero i)⟩
      · next later =>
          rw [Option.map_eq_some_iff] at found
          obtain ⟨pos', found, rfl⟩ := found
          obtain ⟨there, before⟩ := ih found
          refine ⟨there, fun i early => ?_⟩
          cases i with
          | zero => exact fun here => later (List.isPrefixOf_iff_prefix.mpr here)
          | succ i => exact before i (Nat.lt_of_succ_lt_succ early)

theorem find_none {pattern s : Text} (absent : find pattern s = none) (i : Nat) :
    ¬ pattern <+: s.drop i := by
  induction s generalizing i with
  | nil =>
      rw [find] at absent
      split at absent
      · cases absent
      · next nonempty => simpa using nonempty
  | cons head rest ih =>
      rw [find] at absent
      split at absent
      · cases absent
      · next later =>
          rw [Option.map_eq_none_iff] at absent
          cases i with
          | zero => exact fun here => later (List.isPrefixOf_iff_prefix.mpr here)
          | succ i => exact ih absent i

theorem find_eq {pattern s : Text} {pos : Nat} (here : pattern <+: s.drop pos)
    (first : ∀ i < pos, ¬ pattern <+: s.drop i) : find pattern s = some pos := by
  cases found : find pattern s with
  | none => exact absurd here (find_none found pos)
  | some pos' =>
      obtain ⟨there, before⟩ := find_some found
      rcases Nat.lt_trichotomy pos pos' with early | same | late
      · exact absurd here (before pos early)
      · rw [same]
      · exact absurd there (first pos' late)

theorem find_eq_none {pattern s : Text} : find pattern s = none ↔ ¬pattern <:+: s := by
  constructor
  · rintro absent ⟨front, rest, rfl⟩
    exact find_none absent front.length (by simp)
  · intro absent
    by_contra found
    obtain ⟨pos, found⟩ := Option.ne_none_iff_exists'.mp found
    exact absent ((find_some found).1.isInfix.trans (List.drop_suffix pos s).isInfix)

theorem trim_space_append {front : Text} (spaces : ∀ b ∈ front, isSpace b = true) (s : Text) :
    trim (front ++ s) = trim s := by
  rw [trim, trim, List.dropWhile_append_of_pos spaces]

theorem trim_append_space {rest : Text} (spaces : ∀ b ∈ rest, isSpace b = true) (s : Text) :
    trim (s ++ rest) = trim s := by
  rw [trim, trim, List.dropWhile_append]
  split
  · next empty =>
      rw [List.isEmpty_iff] at empty
      have nothing : rest.dropWhile isSpace = [] := List.dropWhile_eq_nil_iff.mpr spaces
      rw [empty, nothing]
  · rw [List.rdropWhile, List.reverse_append, List.dropWhile_append_of_pos]
    · rfl
    · simpa using spaces

theorem trim_eq_nil {s : Text} : trim s = [] ↔ ∀ b ∈ s, isSpace b = true := by
  constructor
  · intro empty
    rw [trim, List.rdropWhile_eq_nil_iff] at empty
    intro b mem
    by_contra letter
    have kept : b ∈ s.dropWhile isSpace := by
      rw [← List.takeWhile_append_dropWhile (p := isSpace) (l := s), List.mem_append] at mem
      exact mem.resolve_left fun front => letter (List.mem_takeWhile_imp front)
    exact letter (empty b kept)
  · intro spaces
    rw [trim, List.dropWhile_eq_nil_iff.mpr spaces]
    rfl

theorem rdropWhile_append {front s : Text} (letter : ¬∀ b ∈ s, isSpace b = true) :
    (front ++ s).rdropWhile isSpace = front ++ s.rdropWhile isSpace := by
  rw [List.rdropWhile, List.reverse_append, List.dropWhile_append, if_neg, List.reverse_append,
    List.reverse_reverse, List.rdropWhile]
  rw [List.isEmpty_iff, List.dropWhile_eq_nil_iff]
  simpa using letter

theorem trim_append {front s : Text} (first : trim front ≠ []) (last : trim s ≠ []) :
    trim (front ++ s) = front.dropWhile isSpace ++ s.takeWhile isSpace ++ trim s := by
  rw [Ne, trim_eq_nil] at first last
  have rest : ¬∀ b ∈ s.dropWhile isSpace, isSpace b = true := by
    intro spaces
    refine last fun b mem => ?_
    rw [← List.takeWhile_append_dropWhile (p := isSpace) (l := s), List.mem_append] at mem
    exact mem.elim (fun mem => List.mem_takeWhile_imp mem) (spaces b)
  have behind : (front ++ s).dropWhile isSpace = front.dropWhile isSpace ++ s := by
    rw [List.dropWhile_append, if_neg]
    rwa [List.isEmpty_iff, List.dropWhile_eq_nil_iff]
  have split : s.rdropWhile isSpace = s.takeWhile isSpace ++ trim s := by
    rw [trim, ← rdropWhile_append rest, List.takeWhile_append_dropWhile]
  rw [trim, behind, rdropWhile_append last, split, List.append_assoc]

theorem mem_of_mem_trim {s : Text} {b : Byte} (mem : b ∈ trim s) : b ∈ s := by
  have kept := (List.rdropWhile_prefix isSpace (s.dropWhile isSpace)).subset mem
  exact (List.dropWhile_sublist isSpace).subset kept

def Trimmed (s : Text) : Prop :=
  (∀ h ∈ s.head?, isSpace h = false) ∧ ∀ l ∈ s.getLast?, isSpace l = false

-- The two ends alone are looked at, not every byte that there is.
instance (s : Text) : Decidable (Trimmed s) :=
  @instDecidableAnd _ _ (Option.decidableForallMem s.head?) (Option.decidableForallMem s.getLast?)

theorem trim_of_trimmed {s : Text} (trimmed : Trimmed s) : trim s = s := by
  have front : s.dropWhile isSpace = s := by
    cases s with
    | nil => rfl
    | cons head rest => rw [List.dropWhile_cons_of_neg (by simp [trimmed.1 head rfl])]
  rw [trim, front, List.rdropWhile_eq_self_iff]
  intro nonempty
  rw [trimmed.2 _ (List.getLast?_eq_some_getLast nonempty)]
  simp

theorem trimmed_trim (s : Text) : Trimmed (trim s) := by
  constructor
  · intro h mem
    have kept := List.rdropWhile_prefix isSpace (s.dropWhile isSpace)
    have first : (s.dropWhile isSpace).head? = some h := by
      obtain ⟨rest, same⟩ := kept
      rw [← same, List.head?_append, ← trim, mem]
      rfl
    have letter := List.head?_dropWhile_not isSpace s
    rw [first] at letter
    simpa using letter
  · intro l mem
    have nonempty : trim s ≠ [] := by
      rintro empty
      simp [empty] at mem
    have letter : ¬ isSpace ((trim s).getLast nonempty) = true :=
      List.rdropWhile_last_not isSpace (s.dropWhile isSpace) nonempty
    have last : (trim s).getLast nonempty = l := by
      rw [List.getLast?_eq_some_getLast nonempty] at mem
      exact Option.some_inj.mp mem
    rw [last] at letter
    simpa using letter

theorem extractMessage_line {line : Text} (free : newline ∉ line) (rest : Text) :
    extractMessage (line ++ newline :: rest) = some (line, rest) := by
  have pos : find [newline] (line ++ newline :: rest) = some line.length := by
    refine find_eq (by simp) fun i early here => ?_
    rw [List.drop_append_of_le_length (Nat.le_of_lt early), List.drop_eq_getElem_cons early,
      List.cons_append, List.cons_prefix_cons] at here
    exact free (here.1 ▸ List.getElem_mem early)
  rw [extractMessage, pos]
  simp

theorem extractMessage_none {buffer : Text} (free : newline ∉ buffer) :
    extractMessage buffer = none := by
  have absent : find [newline] buffer = none := by
    cases found : find [newline] buffer with
    | none => rfl
    | some pos =>
        obtain ⟨⟨more, here⟩, -⟩ := find_some found
        refine absurd (List.mem_of_mem_drop (?_ : newline ∈ buffer.drop pos)) free
        rw [← here]
        simp
  rw [extractMessage, absent]
  rfl

-- A buffer either holds a line in progress or begins with a complete one.
theorem line_or_free (buffer : Text) :
    newline ∉ buffer ∨ ∃ line rest, buffer = line ++ newline :: rest ∧ newline ∉ line := by
  by_cases mem : newline ∈ buffer
  · obtain ⟨line, rest, same, free⟩ := List.eq_append_cons_of_mem mem
    exact Or.inr ⟨line, rest, same, free⟩
  · exact Or.inl mem

-- What is handed on of a stream: its complete lines, trimmed, without the empty ones.
def frames (stream : Text) : List Text :=
  ((Lines.complete newline stream).map trim).filter (· ≠ [])

theorem frames_append (front rest : Text) :
    frames (front ++ rest) = frames front ++ frames (Lines.pending newline front ++ rest) := by
  rw [frames, Lines.complete_append, List.map_append, List.filter_append]
  rfl

theorem frames_line {line : Text} (free : newline ∉ line) (rest : Text) :
    frames (line ++ newline :: rest) =
      if trim line = [] then frames rest else trim line :: frames rest := by
  rw [frames, Lines.complete_line free, List.map_cons]
  split
  · next empty => rw [List.filter_cons_of_neg (by simpa using empty), frames]
  · next nonempty => rw [List.filter_cons_of_pos (by simpa using nonempty), frames]

theorem frames_of_free {line : Text} (free : newline ∉ line) : frames line = [] := by
  rw [frames, Lines.complete_of_free free]
  rfl

theorem frames_spaces {spaces : Text} (all : ∀ b ∈ spaces, isSpace b = true) :
    frames spaces = [] := by
  induction length : spaces.length using Nat.strongRecOn generalizing spaces with
  | _ n ih =>
      rcases line_or_free spaces with free | ⟨line, rest, rfl, free⟩
      · exact frames_of_free free
      · have empty : trim line = [] := trim_eq_nil.mpr fun b mem => all b (by simp [mem])
        have shorter : rest.length < n := by
          rw [← length, List.length_append, List.length_cons]
          omega
        rw [frames_line free, if_pos empty]
        exact ih rest.length shorter (fun b mem => all b (by simp [mem])) rfl

structure Line (s : Text) : Prop where
  nonempty : s ≠ []
  trimmed : Trimmed s
  free : newline ∉ s

instance (s : Text) : Decidable (Line s) :=
  decidable_of_iff (s ≠ [] ∧ Trimmed s ∧ newline ∉ s)
    ⟨fun ⟨nonempty, trimmed, free⟩ => ⟨nonempty, trimmed, free⟩,
      fun ⟨nonempty, trimmed, free⟩ => ⟨nonempty, trimmed, free⟩⟩

theorem serverName_line : Line serverName := by decide

theorem line_trim {line : Text} (free : newline ∉ line) (nonempty : trim line ≠ []) :
    Line (trim line) :=
  ⟨nonempty, trimmed_trim line, fun inside => free (mem_of_mem_trim inside)⟩

theorem find_separator {name msg : Text} (clean : ¬ [colon, blank] <:+: name) :
    find [colon, blank] (name ++ [colon, blank] ++ msg) = some name.length := by
  rw [List.append_assoc]
  refine find_eq (by simp) fun i early here => clean ?_
  rw [List.drop_append_of_le_length (Nat.le_of_lt early), List.drop_eq_getElem_cons early,
    List.cons_append, List.cons_prefix_cons] at here
  obtain ⟨head, next⟩ := here
  refine ⟨name.take i, name.drop (i + 2), ?_⟩
  rcases Nat.lt_or_ge (i + 1) name.length with inside | last
  · rw [List.drop_eq_getElem_cons inside, List.cons_append, List.cons_prefix_cons] at next
    rw [List.append_assoc, List.cons_append, List.cons_append, List.nil_append, head, next.1,
      ← List.drop_eq_getElem_cons inside, ← List.drop_eq_getElem_cons early,
      List.take_append_drop]
  · rw [List.drop_eq_nil_of_le last, List.nil_append, List.cons_append, List.cons_prefix_cons]
      at next
    exact absurd next.1 (by decide)

theorem parseMessage_iff (name msg : Text) :
    parseMessage (name ++ [colon, blank] ++ msg) = { author := name, data := msg } ↔
      ¬ [colon, blank] <:+: name := by
  constructor
  · rintro parsed ⟨front, rest, same⟩
    have here : [colon, blank] <+: (name ++ [colon, blank] ++ msg).drop front.length := by
      rw [← same]
      simp
    have early : front.length < name.length := by
      rw [← same]
      simp
    rw [parseMessage] at parsed
    split at parsed
    · next pos found =>
        have before : pos ≤ front.length := by
          by_contra late
          exact (find_some found).2 front.length (Nat.lt_of_not_le late) here
        have author : min pos (name ++ [colon, blank] ++ msg).length = name.length := by
          rw [← List.length_take]
          exact congrArg (fun m => m.author.length) parsed
        omega
    · next absent => exact find_none absent _ here
  · intro clean
    rw [parseMessage, find_separator clean]
    simp

theorem trimmed_messageLine {name msg : Text} (author : Line name) (data : Line msg) :
    trim (name ++ [colon, blank] ++ msg) = name ++ [colon, blank] ++ msg := by
  refine trim_of_trimmed ⟨fun h mem => ?_, fun l mem => ?_⟩
  · rw [List.append_assoc, List.head?_append_of_ne_nil _ author.nonempty] at mem
    exact author.trimmed.1 h mem
  · rw [List.getLast?_append_of_ne_nil _ data.nonempty] at mem
    exact data.trimmed.2 l mem

end SystemProg.Chat
