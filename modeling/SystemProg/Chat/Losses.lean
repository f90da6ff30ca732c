import SystemProg.Chat.Codec
import SystemProg.Chat.Connections
import SystemProg.Chat.Framing

set_option autoImplicit false

namespace SystemProg.Chat

namespace Client

variable {c c' : Client}

theorem pops_handed (c : Client) :
    Run.exec callStep c (List.replicate c.messages.length .pop) =
      some { c with messages := [], popped := c.handed } := by
  induction queue : c.messages generalizing c with
  | nil =>
      have same : { c with messages := [], popped := c.handed } = c := by
        rw [handed, queue, List.append_nil, ← queue]
      rw [same]
      rfl
  | cons message rest ih =>
      rw [List.length_cons, List.replicate_succ, Run.exec, callStep, chatClientPopNext, queue]
      have later := ih { c with messages := rest, popped := c.popped ++ [message] } rfl
      rw [Option.bind_some, later, handed, handed, queue, List.append_assoc]
      rfl

-- A line of the connection behind the unfinished line that an earlier one has left.
def Blends (left line : Text) : Prop :=
  trim line = [] ∨ trim left = [] ∨
    trim (left ++ line) = [colon, blank] ++ trim line ∧ ¬[colon, blank] <:+: trim line

instance (left line : Text) : Decidable (Blends left line) := by
  unfold Blends
  infer_instance

-- The first line that the bytes complete is the one that what has been left is put in front of.
def Unnoticed (left bytes : Text) : Prop :=
  ∀ found ∈ extractMessage bytes, Blends (Lines.pending newline left) found.1

instance (left bytes : Text) : Decidable (Unnoticed left bytes) := by
  unfold Unnoticed
  infer_instance

theorem parseMessage_text (text : Text) : text = (parseMessage text).author ++
    (if [colon, blank] <:+: text then [colon, blank] else []) ++ (parseMessage text).data := by
  rw [parseMessage]
  split
  · next pos found =>
      have there : [colon, blank] <:+: text := by
        by_contra absent
        rw [find_eq_none.mpr absent] at found
        cases found
      obtain ⟨rest, same⟩ := (find_some found).1
      have behind : text.drop (pos + 2) = rest := by
        rw [← List.drop_drop, ← same]
        rfl
      rw [if_pos there, behind, List.append_assoc, same, List.take_append_drop]
  · next absent => rw [if_neg (find_eq_none.mp absent), List.nil_append, List.nil_append]

-- A text with more in front of it is the same message only if an empty author is put there.
theorem parseMessage_prefixed {front text : Text} (nonempty : front ≠ []) :
    parseMessage (front ++ text) = parseMessage text ↔
      front = [colon, blank] ∧ ¬[colon, blank] <:+: text := by
  constructor
  · intro same
    have whole := parseMessage_text (front ++ text)
    have part := parseMessage_text text
    rw [same] at whole
    have some := List.length_pos_of_ne_nil nonempty
    have longer := congrArg List.length whole
    have shorter := congrArg List.length part
    simp only [List.length_append] at longer shorter
    by_cases inside : [colon, blank] <:+: text
    · have inside' : [colon, blank] <:+: front ++ text := List.infix_append_of_infix_right inside
      rw [if_pos inside] at shorter
      rw [if_pos inside'] at longer
      omega
    · refine ⟨?_, inside⟩
      rw [if_neg inside] at shorter
      have plain : parseMessage text = { author := [], data := text } := by
        rw [parseMessage, find_eq_none.mpr inside]
      rw [plain] at whole
      by_cases inside' : [colon, blank] <:+: front ++ text
      · rw [if_pos inside'] at whole
        have cut : front ++ text = [colon, blank] ++ text := whole
        exact List.append_cancel_right cut
      · rw [if_neg inside'] at whole
        have cut : front ++ text = [] ++ text := whole
        exact absurd (List.append_cancel_right cut) nonempty
  · rintro ⟨rfl, absent⟩
    have first := @find_separator [] text (by simp)
    rw [List.nil_append] at first
    rw [parseMessage, parseMessage, first, find_eq_none.mpr absent]
    rfl

theorem frames_left_free (left : Text) {tail : Text} (free : newline ∉ tail) :
    frames (left ++ tail) = frames left := by
  have free' : newline ∉ Lines.pending newline left ++ tail := by
    rw [List.mem_append, not_or]
    exact ⟨Lines.pending_free left, free⟩
  rw [frames_append left, frames_of_free free', List.append_nil]

theorem frames_left_line (left : Text) {line : Text} (free : newline ∉ line) (tail : Text) :
    frames (left ++ (line ++ newline :: tail)) = frames left ++
      if trim (Lines.pending newline left ++ line) = [] then frames tail
      else trim (Lines.pending newline left ++ line) :: frames tail := by
  have free' : newline ∉ Lines.pending newline left ++ line := by
    rw [List.mem_append, not_or]
    exact ⟨Lines.pending_free left, free⟩
  rw [frames_append left, ← List.append_assoc, frames_line free']

theorem takeWhile_blank {line : Text} (empty : trim line = []) (rest : Text) :
    (line ++ newline :: rest).takeWhile isSpace = line ++ newline :: rest.takeWhile isSpace := by
  rw [List.takeWhile_append_of_pos (trim_eq_nil.mp empty), List.takeWhile_cons_of_pos (by decide)]

theorem takeWhile_text {line : Text} (some_ : trim line ≠ []) (rest : Text) :
    (line ++ rest).takeWhile isSpace = line.takeWhile isSpace := by
  rw [List.takeWhile_append, if_neg]
  intro all
  have whole := (List.takeWhile_prefix isSpace (l := line)).eq_of_length all
  exact some_ (trim_eq_nil.mpr (List.takeWhile_eq_self_iff.mp whole))

theorem frames_left (left bytes : Text) :
    (frames (left ++ bytes)).map parseMessage =
        (frames (left ++ bytes.takeWhile isSpace) ++ frames bytes).map parseMessage ↔
      Unnoticed left bytes := by
  have start {text : Text} (free : newline ∉ text) : newline ∉ text.takeWhile isSpace :=
    fun inside => free ((List.takeWhile_prefix isSpace).subset inside)
  rcases line_or_free bytes with free | ⟨line, rest, rfl, free⟩
  · rw [frames_left_free left free, frames_left_free left (start free), frames_of_free free,
      List.append_nil, Unnoticed, extractMessage_none free]
    simp
  · rw [Unnoticed, extractMessage_line free, frames_left_line left free, frames_line free]
    simp only [Option.mem_some_iff, forall_eq']
    by_cases empty : trim line = []
    · -- The line is blank, and what has been left is a line of its own.
      have nothing : frames (rest.takeWhile isSpace) = [] :=
        frames_spaces fun b inside => List.mem_takeWhile_imp inside
      rw [takeWhile_blank empty, frames_left_line left free, nothing, if_pos empty, Blends]
      refine iff_of_true ?_ (Or.inl empty)
      split <;> simp
    · have more : trim (Lines.pending newline left ++ line) ≠ [] := by
        rw [Ne, trim_eq_nil]
        exact fun all => empty (trim_eq_nil.mpr fun b mem => all b (List.mem_append_right _ mem))
      rw [takeWhile_text empty, frames_left_free left (start free), if_neg empty, if_neg more,
        List.map_append, List.map_append, List.append_cancel_left_eq, List.map_cons, List.map_cons,
        List.cons_eq_cons, and_iff_left rfl, Blends, or_iff_right empty]
      generalize Lines.pending newline left = front
      by_cases clear : trim front = []
      · rw [trim_space_append (trim_eq_nil.mp clear)]
        exact iff_of_true rfl (Or.inl clear)
      · have between : front.dropWhile isSpace ++ line.takeWhile isSpace ≠ [] := by
          intro none
          rw [List.append_eq_nil_iff, List.dropWhile_eq_nil_iff] at none
          exact clear (trim_eq_nil.mpr none.1)
        rw [trim_append clear empty, parseMessage_prefixed between, or_iff_right clear,
          List.append_cancel_right_eq]

-- The client, what it has received on the connection, and the lines that have come of what the
-- input buffer held before it.
structure Receiving where
  client : Client
  received : Text
  older : List Text

namespace Receiving

def step (left : Text) (s : Receiving) (call : Call) : Option Receiving :=
  if call.Opens s.client then none
  else
    (s.client.callStep call).map fun next =>
      let received := s.received ++ call.received s.client
      { client := next
        received := received
        older :=
          if call.TakesLines s.client then frames (left ++ received.takeWhile isSpace)
          else s.older }

-- The pops return every line that has been received on the connection, behind the older ones.
def Returned (before : List Message) (s : Receiving) : Prop :=
  ∃ last, Run.exec callStep s.client (List.replicate s.client.messages.length .pop) = some last ∧
    last.messages = [] ∧
    last.popped = before ++ (s.older ++ linesOf s.received).map parseMessage

-- The update that meets the end of the stream or an error completes no line that is not blank, and
-- what earlier connections have left does not change the first line.
def Safe (left : Text) (s : Receiving) (call : Call) : Prop :=
  (call.EndsStream s.client →
    frames (Lines.pending newline s.received ++ call.received s.client) = []) ∧
  (call.TakesLines s.client → Unnoticed left (s.received ++ call.received s.client))

instance (left : Text) (s : Receiving) (call : Call) : Decidable (s.Safe left call) := by
  unfold Safe
  infer_instance

-- Before the first update that takes lines, and after it, as long as there is the connection.
inductive Began (left : Text) (before : List Message) (s : Receiving) : Prop where
  | first (received : s.received = []) (buffer : s.client.inputBuffer = left)
      (handed : s.client.handed = before)
  | later (buffer : s.client.inputBuffer = Lines.pending newline (left ++ s.received))
      (handed : s.client.handed = before ++ (frames (left ++ s.received)).map parseMessage)

variable {left : Text} {before : List Message} {s s' : Receiving}

theorem returned_iff : s.Returned before ↔
    s.client.handed = before ++ (s.older ++ frames s.received).map parseMessage := by
  rw [Returned, pops_handed, frames_eq]
  simp

theorem step_calls {call : Call} (taken : step left s call = some s') :
    ¬call.Opens s.client ∧ s.client.Calls call s'.client ∧
      s'.received = s.received ++ call.received s.client ∧
      s'.older = if call.TakesLines s.client then frames (left ++ s'.received.takeWhile isSpace)
        else s.older := by
  unfold step at taken
  split at taken
  · cases taken
  · next stays =>
      rw [Option.map_eq_some_iff] at taken
      obtain ⟨next, done, rfl⟩ := taken
      exact ⟨stays, callStep_calls done, rfl, rfl⟩

theorem Began.joined (began : Began left before s) (bytes : Text) :
    Lines.pending newline (s.client.inputBuffer ++ bytes) =
        Lines.pending newline (left ++ (s.received ++ bytes)) ∧
      s.client.handed ++ (frames (s.client.inputBuffer ++ bytes)).map parseMessage =
        before ++ (frames (left ++ (s.received ++ bytes))).map parseMessage := by
  cases began with
  | first received buffer handed =>
      rw [received, buffer, handed, List.nil_append]
      exact ⟨rfl, rfl⟩
  | later buffer handed =>
      rw [buffer, handed, ← List.append_assoc left, frames_append (left ++ s.received),
        List.map_append, List.append_assoc before]
      exact ⟨(Lines.pending_append _ _).symm, rfl⟩

theorem step_began {call : Call} (began : s.client.socket ≠ none → Began left before s)
    (taken : step left s call = some s') : s'.client.socket ≠ none → Began left before s' := by
  obtain ⟨stays, calls, received, -⟩ := step_calls taken
  intro opened
  have opened' : s.client.socket ≠ none := fun closed => opened (calls.closed stays closed).1
  have goes : ¬call.EndsStream s.client := fun ends => opened (calls.lost ends).1
  cases calls.reading goes with
  | idle _ nothing buffer messages =>
      rw [nothing, List.append_nil] at received
      cases began opened' with
      | first received' buffer' handed =>
          exact .first (received.trans received') (buffer.trans buffer') (messages.trans handed)
      | later buffer' handed =>
          exact .later (by rw [received, buffer, buffer']) (by rw [received, messages, handed])
  | reads _ buffer messages =>
      obtain ⟨waits, handed⟩ := (began opened').joined (call.received s.client)
      exact .later (by rw [received, buffer, waits]) (by rw [received, messages, handed])

theorem step_returned {call : Call} (began : s.client.socket ≠ none → Began left before s)
    (returned : s.Returned before) (taken : step left s call = some s') :
    s'.Returned before ↔ s.Safe left call := by
  obtain ⟨stays, calls, received, older⟩ := step_calls taken
  rw [returned_iff] at returned ⊢
  by_cases ends : call.EndsStream s.client
  · -- The lines that the last bytes complete stay in the buffer.
    have idle : ¬call.TakesLines s.client := fun takes => takesLines_goes takes ends
    obtain ⟨-, -, handed⟩ := calls.lost ends
    rw [if_neg idle] at older
    rw [handed, returned, older, received, frames_append s.received, ← List.append_assoc, Safe]
    generalize s.older ++ frames s.received = lines
    rw [List.map_append, ← List.append_assoc, List.self_eq_append_right, List.map_eq_nil_iff]
    simp [ends, idle]
  · by_cases takes : call.TakesLines s.client
    · cases calls.reading ends with
      | idle stays' => exact absurd takes stays'
      | reads _ buffer messages =>
          obtain ⟨-, handed⟩ := (began (takesLines_opened takes)).joined (call.received s.client)
          rw [if_pos takes] at older
          rw [messages, handed, older, received, List.append_cancel_left_eq, frames_left, Safe]
          simp [ends, takes]
    · cases calls.reading ends with
      | reads takes' => exact absurd takes' takes
      | idle _ nothing buffer messages =>
          rw [if_neg takes] at older
          rw [nothing, List.append_nil] at received
          rw [messages, older, received]
          exact iff_of_true returned ⟨fun ends' => absurd ends' ends, fun takes' => absurd takes' takes⟩

end Receiving

theorem received_returned_iff (c : Client) (calls : List Call) :
    Run.Along (Receiving.step c.inputBuffer) (Receiving.Returned c.handed)
        { client := c, received := [], older := [] } calls ↔
      Run.EachStep (Receiving.step c.inputBuffer) (Receiving.Safe c.inputBuffer)
        { client := c, received := [], older := [] } calls := by
  have kept (s : Receiving) (call : Call) (s' : Receiving)
      (began : s.client.socket ≠ none → s.Began c.inputBuffer c.handed)
      (_ : s.Returned c.handed) (taken : Receiving.step c.inputBuffer s call = some s') :
      s'.client.socket ≠ none → s'.Began c.inputBuffer c.handed := Receiving.step_began began taken
  refine Run.along_iff_eachStep kept (fun s call s' began returned taken =>
    Receiving.step_returned began returned taken) (fun _ => .first rfl rfl rfl) ?_
  rw [Receiving.returned_iff]
  simp [frames_of_free]

example : ∃ c, Run.exec callStep (chatClientNew [])
      [.connect [colon] .connected,
        .update (.ready false true false) [.received [112, 97, 114], .wouldBlock] [],
        .update (.ready true false false) [] [], .connect [colon] .connected] = some c ∧
    ¬Run.EachStep (Receiving.step c.inputBuffer) (Receiving.Safe c.inputBuffer)
      { client := c, received := [], older := [] }
      [.update (.ready false true false) [.received [116, 10], .wouldBlock] []] :=
  ⟨_, rfl, by decide⟩

def endsAtOnce : List Call := [.update (.ready false true false) [.received [104, 105, 10], .ended] []]

theorem received_lost : ∃ c', Run.exec callStep connected endsAtOnce = some c' ∧
    linesOf (gathered Call.received connected endsAtOnce) = [[104, 105]] ∧
    ¬∃ last, Run.exec callStep c' (List.replicate c'.messages.length .pop) = some last ∧
      last.messages = [] ∧ last.popped = connected.handed ++
        (linesOf (gathered Call.received connected endsAtOnce)).map parseMessage := by
  refine ⟨_, rfl, by decide, ?_⟩
  rintro ⟨last, run, -, popped⟩
  cases run
  exact absurd popped (by decide)

end Client

end SystemProg.Chat
