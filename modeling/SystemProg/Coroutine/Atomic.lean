import SystemProg.Coroutine.Board
import SystemProg.Lib.Refines

set_option autoImplicit false

-- Every step that a coroutine takes on a bus is one call on the board, done at once, or none.

namespace SystemProg.Coroutine

namespace Machine

theorem board_same {s next : Machine} (buses : next.buses = s.buses)
    (boxes : ∀ id, next.mailbox id = s.mailbox id) : next.board = s.board := by
  rw [board, board, buses, funext boxes]

theorem mailbox_chans {s next : Machine} (chans : next.chans = s.chans) (id : ChanId) :
    next.mailbox id = s.mailbox id := by
  rw [mailbox, mailbox, chans]

theorem mailbox_setChan {s next : Machine} {id : ChanId} {chan : Channel}
    (chans : next.chans = (s.setChan id chan).chans) (id' : ChanId) :
    next.mailbox id' = if id' = id then some { sizeLimit := chan.sizeLimit, data := chan.data }
      else s.mailbox id' := by
  rw [mailbox, chans, setChan_chans]
  split <;> rfl

theorem mailbox_same {s next : Machine} {id : ChanId} {chan chan' : Channel}
    (there : s.chans id = some chan) (limit : chan'.sizeLimit = chan.sizeLimit)
    (data : chan'.data = chan.data) (chans : next.chans = (s.setChan id chan').chans)
    (id' : ChanId) : next.mailbox id' = s.mailbox id' := by
  rw [mailbox_setChan chans]
  split
  · next same => rw [same, mailbox, there, limit, data, Option.map_some]
  · rfl

theorem find_board {s : Machine} {bus : Option BusId} {channel : Int} {slot : Option ChanId}
    (found : s.findChannel bus channel = some slot) :
    s.board.find bus channel = slot.bind s.mailbox := by
  cases bus with
  | none =>
      cases found
      rfl
  | some bus =>
      cases there : s.buses[bus]? with
      | none => simp [findChannel, there] at found
      | some channels =>
          simp only [findChannel, there, Option.some_inj] at found
          subst found
          simp only [Board.find, board, List.getElem?_map, there, Option.map_some, Option.bind_some]
          split
          · rfl
          · cases channels[channel.toNat]? <;> rfl

theorem map_one {A B : Type} {f g : A → B} {entries : List A} {i : Nat} {value : B}
    (others : ∀ j entry, entries[j]? = some entry → j ≠ i → g entry = f entry)
    (here : ∀ entry, entries[i]? = some entry → g entry = value) :
    entries.map g = (entries.map f).set i value := by
  apply List.ext_getElem?
  intro j
  rw [List.getElem?_set, List.getElem?_map, List.getElem?_map, List.length_map]
  by_cases same : i = j
  · subst same
    rw [if_pos rfl]
    cases there : entries[i]? with
    | none =>
        rw [List.getElem?_eq_none_iff] at there
        rw [if_neg (by omega)]
        rfl
    | some entry =>
        obtain ⟨small, -⟩ := List.getElem?_eq_some_iff.mp there
        rw [if_pos small, Option.map_some, here entry there]
  · rw [if_neg same]
    cases there : entries[j]? with
    | none => rfl
    | some entry => rw [Option.map_some, Option.map_some, others j entry there (Ne.symm same)]

theorem board_put {s next : Machine} (sound : s.Sound) {bus : Option BusId} {channel : Int}
    {id : ChanId} {box : Mailbox} (found : s.findChannel bus channel = some (some id))
    (buses : next.buses = s.buses)
    (boxes : ∀ id', next.mailbox id' = if id' = id then some box else s.mailbox id') :
    next.board = s.board.put bus channel (some box) := by
  obtain ⟨b, rfl, -, slot⟩ := findChannel_some found
  -- No other slot holds the channel.
  have others {bus' : BusId} {slot' : Nat} {id' : ChanId} (at_ : s.slotAt bus' slot' = some id')
      (other : bus' ≠ b ∨ slot' ≠ channel.toNat) : next.mailbox id' = s.mailbox id' := by
    rw [boxes, if_neg]
    rintro rfl
    obtain ⟨same, same'⟩ := sound.slotsDistinct _ _ _ _ _ at_ slot
    exact other.elim (fun ne => ne same) fun ne => ne same'
  have at_ {bus' : BusId} {channels : List (Option ChanId)} (there : s.buses[bus']? = some channels)
      (slot' : Nat) : s.slotAt bus' slot' = channels[slot']?.join := by
    rw [slotAt, there, Option.bind_some]
  unfold slotAt at slot
  cases there : s.buses[b]? with
  | none =>
      rw [there] at slot
      cases slot
  | some channels =>
      rw [there, Option.bind_some] at slot
      simp only [board, Board.put, buses, List.getElem?_map, there, Option.map_some]
      refine map_one (fun bus' channels' there' other => ?_) fun channels' there' => ?_
      · refine List.map_congr_left fun entry mem => ?_
        obtain ⟨slot', here⟩ := List.mem_iff_getElem?.mp mem
        cases entry with
        | none => rfl
        | some id' => exact others (by rw [at_ there', here]; rfl) (Or.inl other)
      · rw [there] at there'
        cases there'
        refine map_one (fun slot' entry here other => ?_) fun entry here => ?_
        · cases entry with
          | none => rfl
          | some id' => exact others (by rw [at_ there, here]; rfl) (Or.inr other)
        · rw [here] at slot
          cases slot
          rw [Option.bind_some, boxes, if_pos rfl]

-- A step with the answers and the board of a call.
def Does (s next : Machine) (result : List Answer × Board) : Prop :=
  next.answers = s.answers ++ result.1 ∧ next.board = result.2

theorem does_nothing {s next : Machine} (log : next.log = s.log) (same : next.board = s.board) :
    s.Does next ([], s.board) :=
  ⟨by rw [answers, log, List.append_nil]; rfl, same⟩

theorem answers_log {s next : Machine} {event : Event} {answer : Answer}
    (log : next.log = s.log ++ [event]) (said : event.answer = some answer) :
    next.answers = s.answers ++ [answer] := by
  rw [answers, log, List.filterMap_append]
  simp [answers, said]

theorem serve_ready (chan : Channel) (op : BusOp) :
    chan.ready op.side = (Mailbox.serve ⟨chan.sizeLimit, chan.data⟩ op).isSome := by
  cases op with
  | send data =>
      simp only [BusOp.side, Channel.ready, Mailbox.serve]
      split <;> simp [*]
  | recv =>
      simp only [BusOp.side, Channel.ready, Mailbox.serve]
      split <;> simp [*]

theorem serve_transfer (who : Option CoroRef) (call : BusCall) (id : ChanId) (chan : Channel)
    (ready : chan.ready call.side = true) :
    ∃ data, Mailbox.serve ⟨chan.sizeLimit, chan.data⟩ call.op =
        some (data, ⟨chan.sizeLimit, (transfer who call id chan).1.data⟩) ∧
      (transfer who call id chan).2.answer = some (.moved who call data) := by
  obtain ⟨op, blocking, bus, channel⟩ := call
  cases op with
  | send data =>
      simp only [BusCall.side, BusOp.side, Channel.ready, decide_eq_true_eq] at ready
      exact ⟨none, by simp [Mailbox.serve, ready, transfer], rfl⟩
  | recv =>
      simp only [BusCall.side, BusOp.side, Channel.ready, decide_eq_true_eq] at ready
      obtain ⟨first, others, data⟩ := List.exists_cons_of_ne_nil ready
      exact ⟨some first, by simp [Mailbox.serve, transfer, data],
        by simp [transfer, data, Event.answer]⟩

theorem Moved.does {s next : Machine} (sound : s.Sound) {call : BusCall} {id : ChanId}
    {chan : Channel} (moves : s.Moved next call id chan) :
    s.Does next (s.board.move s.engine.thisCoro call) := by
  obtain ⟨rest, -, chans⟩ := moves.queue
  obtain ⟨data, served, said⟩ := serve_transfer s.engine.thisCoro call id chan moves.ready
  have box : s.mailbox id = some ⟨chan.sizeLimit, chan.data⟩ := by
    rw [mailbox, moves.there, Option.map_some]
  have boxes (id' : ChanId) := mailbox_setChan chans id'
  have limit := (transfer_queue s.engine.thisCoro call id chan).2.2.2
  simp only [Board.move, find_board moves.found, Option.bind_some, box, served]
  refine ⟨answers_log moves.log said, board_put sound moves.found moves.buses fun id' => ?_⟩
  rw [boxes, Channel.setQueue, limit]

theorem Turned.does {s next : Machine} (sound : s.Sound) {call : BusCall}
    (turned : s.Turned next call) : s.Does next (s.board.move s.engine.thisCoro call) := by
  cases turned with
  | gone found same =>
      subst same
      simp only [Board.move, find_board found, Option.bind_none]
      exact ⟨answers_log rfl rfl, board_same rfl (mailbox_chans rfl)⟩
  | wouldBlock id chan found there notReady trying same =>
      subst same
      have box : s.mailbox id = some ⟨chan.sizeLimit, chan.data⟩ := by
        rw [mailbox, there, Option.map_some]
      rw [BusCall.side, serve_ready, Option.isSome_eq_false_iff, Option.isNone_iff_eq_none]
        at notReady
      simp only [Board.move, find_board found, Option.bind_some, box, notReady, trying]
      exact ⟨answers_log rfl rfl, board_same rfl (mailbox_chans rfl)⟩
  | moved id chan moves => exact moves.does sound
  | blocked id chan c blocks =>
      have box : s.mailbox id = some ⟨chan.sizeLimit, chan.data⟩ := by
        rw [mailbox, blocks.there, Option.map_some]
      have notReady := blocks.notReady
      rw [BusCall.side, serve_ready, Option.isSome_eq_false_iff, Option.isNone_iff_eq_none]
        at notReady
      simp only [Board.move, find_board blocks.found, Option.bind_some, box, notReady,
        blocks.blocking, if_true]
      exact does_nothing blocks.log
        (board_same blocks.buses (mailbox_same blocks.there (by rfl) (by rfl) blocks.chans))

theorem freeSlot_board {channels : List (Option ChanId)} {boxes : ChanId → Option Mailbox}
    (there : ∀ id, some id ∈ channels → (boxes id).isSome) :
    (channels.map (·.bind boxes)).findIdx Option.isNone = freeSlot channels := by
  induction channels with
  | nil => rfl
  | cons entry channels ih =>
      rw [freeSlot, List.map_cons, List.findIdx_cons, List.idxOf_cons]
      cases entry with
      | none => rfl
      | some id =>
          have box := there id (List.mem_cons_self ..)
          rw [Option.isSome_iff_exists] at box
          obtain ⟨box, same⟩ := box
          rw [ih fun id mem => there id (List.mem_cons_of_mem _ mem)]
          simp [same, freeSlot]

theorem open_does {s next : Machine} (sound : s.Sound) {bus : Option BusId} {sizeLimit : Nat}
    (opened : s.coroBusChannelOpen bus sizeLimit = some next) :
    s.Does next (s.board.open_ bus sizeLimit) := by
  unfold coroBusChannelOpen at opened
  split at opened
  · cases opened
  · next b =>
      split at opened
      · cases opened
      · next channels there =>
          cases opened
          -- The new object is in no slot yet.
          have boxes {bus' : BusId} {channels' : List (Option ChanId)} {id : ChanId}
              (there' : s.buses[bus']? = some channels') (mem : some id ∈ channels') :
              id ≠ s.opened ∧ (s.mailbox id).isSome := by
            obtain ⟨slot', here⟩ := List.mem_iff_getElem?.mp mem
            obtain ⟨chan, there'', -⟩ := sound.slots bus' slot' id (by
              rw [slotAt, there', Option.bind_some, here]
              rfl)
            refine ⟨?_, by rw [mailbox, there'']; rfl⟩
            rintro rfl
            rw [sound.fresh _ (Nat.le_refl _)] at there''
            cases there''
          have old {bus' : BusId} {channels' : List (Option ChanId)}
              (there' : s.buses[bus']? = some channels') (box : Mailbox) :
              channels'.map (·.bind fun id => if id = s.opened then some box else s.mailbox id) =
                channels'.map (·.bind s.mailbox) := by
            refine List.map_congr_left fun entry mem => ?_
            cases entry with
            | none => rfl
            | some id => exact if_neg (boxes there' mem).1
          have slot : (channels.map (·.bind s.mailbox)).findIdx Option.isNone = freeSlot channels :=
            freeSlot_board fun id mem => (boxes there mem).2
          have here : s.board[b]? = some (channels.map (·.bind s.mailbox)) := by
            rw [board, List.getElem?_map, there, Option.map_some]
          simp only [Board.open_, here, slot, List.length_map]
          refine ⟨answers_log rfl rfl, ?_⟩
          have mailboxes : Machine.mailbox
              { (s.setChan s.opened ⟨sizeLimit, false, fun _ => [], [], false⟩).setChannels b
                  (if freeSlot channels < channels.length then
                    channels.set (freeSlot channels) (some s.opened)
                  else channels ++ [some s.opened]) with
                opened := s.opened + 1
                errno := .none
                log := s.log ++ [.opened b (freeSlot channels) s.opened] } =
              fun id => if id = s.opened then some ⟨sizeLimit, []⟩ else s.mailbox id :=
            funext fun id => mailbox_setChan rfl id
          rw [board, mailboxes]
          change List.map _ (s.buses.set b _) = _
          rw [List.map_set]
          congr 1
          · exact List.map_congr_left fun channels' mem => by
              obtain ⟨bus', there'⟩ := List.mem_iff_getElem?.mp mem
              exact old there' _
          · split
            · rw [List.map_set, old there, Option.bind_some, if_pos rfl]
            · rw [List.map_append, old there, List.map_singleton, Option.bind_some, if_pos rfl]

theorem Shuts.does {s next : Machine} {bus : Option BusId} {channel : Int} {id : ChanId}
    {chan : Channel} {woken : Engine Place} {c : CoroId}
    (shuts : s.Shuts next bus channel id chan woken c) :
    s.Does next (s.board.perform (.close bus channel)) := by
  have box : s.board.find bus channel ≠ none := by
    rw [find_board shuts.found, Option.bind_some, mailbox, shuts.there]
    nofun
  rw [Board.perform, if_neg box]
  refine ⟨by rw [answers, shuts.log, List.append_nil]; rfl, ?_⟩
  have boxes : next.mailbox = s.mailbox :=
    funext (mailbox_same shuts.there (by rfl) (by rfl) shuts.chans)
  obtain ⟨b, rfl, -, -⟩ := findChannel_some shuts.found
  rw [board, shuts.buses, boxes, clearSlot, Board.put, board, List.getElem?_map]
  cases s.buses[b]? with
  | none => rfl
  | some channels =>
      simp only [setChannels, Option.map_some, List.map_set]
      rfl

theorem Idles.answers {s next : Machine} (idles : s.Idles next) :
    s.Does next ([], s.board) := by
  have same : next.board = s.board := board_same idles.buses (mailbox_chans idles.chans)
  rcases idles.log with log | ⟨who, target, ret, log⟩
  · exact does_nothing log same
  · refine ⟨?_, same⟩
    rw [Machine.answers, log, List.filterMap_append, List.append_nil]
    exact List.append_nil _

def attempt (s : Machine) (action : Action) : List Answer × Board :=
  match s.request action with
  | none => ([], s.board)
  | some request => s.board.perform request

theorem step_call {s next : Machine} {action : Action} (taken : s.step action = some next)
    (calls : action ≠ .resume) : s.engine.jump = none ∧ s.call action = some next := by
  unfold step at taken
  split at taken
  · next idle => exact ⟨idle, taken⟩
  · cases taken

theorem Stepped.silent {s next : Machine} {action : Action} (stepped : s.Stepped next action)
    (silent : action.busCall = none) (other : action ≠ .busNew ∧ action ≠ .resume ∧
      (∀ bus sizeLimit, action ≠ .open_ bus sizeLimit) ∧
        ∀ bus channel, action ≠ .close bus channel) :
    s.Does next ([], s.board) := by
  cases stepped with
  | idles plain silent idles => exact idles.answers
  | adds plain adds => exact absurd rfl other.1
  | opens bus sizeLimit channels chan plain there limit opens =>
      exact absurd rfl (other.2.2.1 _ _)
  | shuts bus channel id chan woken c idle shuts => exact absurd rfl (other.2.2.2 _ _)
  | calls plain call made turned =>
      rw [silent] at made
      cases made
  | resumes here c ctx arrives goesOn => exact absurd rfl other.2.1

theorem resume_does {s next : Machine} (sound : s.Sound) (stepped : s.Stepped next .resume) :
    s.Does next (s.attempt .resume) := by
  cases stepped with
  | idles plain silent idles =>
      have nobody : s.request .resume = none := by
        simp only [request]
        split
        · next c jump => exact absurd jump (plain.stays c)
        · rfl
      rw [attempt, nobody]
      exact idles.answers
  | resumes here c ctx arrives goesOn =>
      have board : here.board = s.board := by
        refine board_same arrives.buses fun id => ?_
        rw [mailbox, mailbox, arrives.chans, Option.map_map]
        rfl
      have answers : here.answers = s.answers := by
        rw [Machine.answers, arrives.log]
        rfl
      have request : s.request .resume =
          (s.pendingCall c).head?.map (.move (some (.coro c))) := by
        simp only [Machine.request, arrives.jump]
      have pending {ctx' : Context Place} (before : ctx = ctx')
          (outside : ∀ call id, ctx' ≠ .frame (.waiting call id)) : s.pendingCall c = [] :=
        pendingCall_outside arrives.lands.before (before ▸ outside)
      rw [attempt, request, Does, ← board, ← answers]
      cases goesOn with
      | inside outside idles =>
          rw [pending rfl fun call id => outside _]
          exact idles.answers
      | retries call id turned =>
          have made : s.pendingCall c = [call] :=
            pendingCall_eq.mpr (Or.inl ⟨_, call, id, arrives.lands.before, rfl⟩)
          rw [made]
          have does := turned.does (arrives.sound sound)
          rw [arrives.lands.thisCoro] at does
          exact does
      | deletes id chan deletes =>
          rw [pending rfl (by simp), deletes.same]
          exact does_nothing rfl
            (board_same rfl (mailbox_same deletes.there (by rfl) (by rfl) rfl))
  | calls plain call made turned => cases made

theorem step_does {s next : Machine} (sound : s.Sound) {action : Action}
    (taken : s.step action = some next) : s.Does next (s.attempt action) := by
  have stepped := step_stepped sound taken
  cases action with
  | resume => exact resume_does sound stepped
  | run | new | yield | suspend | wakeup | join | finish => exact stepped.silent rfl (by simp)
  | busNew =>
      obtain ⟨idle, called⟩ := step_call taken (by simp)
      cases called
      refine ⟨by rw [answers]; exact (List.append_nil _).symm, ?_⟩
      exact List.map_append
  | open_ bus sizeLimit =>
      obtain ⟨idle, called⟩ := step_call taken (by simp)
      exact open_does sound called
  | close bus channel =>
      obtain ⟨idle, called⟩ := step_call taken (by simp)
      rcases close_shuts sound idle called with ⟨found, rfl⟩ | ⟨id, chan, woken, c, shuts⟩
      · have nothing : next.attempt (.close bus channel) = ([], next.board) := by
          simp only [attempt, request, Board.perform, find_board found, Option.bind_none, if_true]
        rw [nothing]
        exact does_nothing rfl rfl
      · exact shuts.does
  | send bus channel data | trySend bus channel data | recv bus channel | tryRecv bus channel =>
      obtain ⟨idle, called⟩ := step_call taken (by simp)
      exact (busTurn_turned sound idle called).does sound

theorem requests_cons {s next : Machine} {action : Action} (taken : s.step action = some next)
    (rest : List Action) :
    requests s (action :: rest) = (s.request action).toList ++ requests next rest := by
  rw [requests, taken]

theorem run_does {s last : Machine} (sound : s.Sound) {actions : List Action}
    (run : Run.exec step s actions = some last) :
    ∃ given, Run.replies Board.perform s.board (requests s actions) = (given, last.board) ∧
      last.answers = s.answers ++ given.flatten := by
  induction actions generalizing s with
  | nil =>
      cases run
      exact ⟨[], rfl, by simp⟩
  | cons action rest ih =>
      obtain ⟨next, taken, finished⟩ := (Run.exec_cons _ _ _ _).mp run
      obtain ⟨given, later, answered⟩ := ih ((step_stepped sound taken).sound sound) finished
      obtain ⟨here, board⟩ := step_does sound taken
      rw [requests_cons taken]
      unfold attempt at here board
      cases request : s.request action with
      | none =>
          rw [request] at here board
          refine ⟨given, ?_, ?_⟩
          · rw [Option.toList_none, List.nil_append, ← later, board]
          · rw [answered, here, List.append_nil]
      | some request' =>
          rw [request] at here board
          refine ⟨(s.board.perform request').1 :: given, ?_, ?_⟩
          · rw [Option.toList_some, List.singleton_append, Run.replies, ← board, later]
          · rw [answered, here, List.flatten_cons, List.append_assoc]

-- The bus is atomic: in every run of any coroutines the calls get the answers that the board gives
-- when it does them one after another, and the descriptors show what is on it. A call is done in a
-- step of the coroutine that has made it, between its call and its return; each returns once.
theorem calls_atomic {actions : List Action} {last : Machine}
    (run : Run.exec step init actions = some last) :
    ∃ given, Run.replies Board.perform [] (requests init actions) = (given, last.board) ∧
      last.answers = given.flatten ∧
      ∀ c, madeBy c init actions = last.returned c ++ last.pendingCall c := by
  obtain ⟨given, replies, answered⟩ := run_does init_sound run
  refine ⟨given, replies, answered, fun c => ?_⟩
  have made := madeBy_returns init_sound run c
  rw [made]
  rfl

def handoverRun : List Action :=
  [.busNew, .open_ (some 0) 1, .new, .new, .run, .resume, .send (some 0) 0 3, .send (some 0) 0 5,
    .resume, .recv (some 0) 0, .yield, .resume, .resume, .tryRecv (some 0) 1]

theorem calls_atomic_handover :
    ∃ s given, Run.exec step init handoverRun = some s ∧
      Run.replies Board.perform [] (requests init handoverRun) = (given, [[some ⟨1, [5]⟩]]) ∧
      s.board = [[some ⟨1, [5]⟩]] ∧ s.answers = given.flatten ∧ given.length = 7 ∧
      s.answers.length = 5 := by
  have run := (Option.some_get (show (Run.exec step init handoverRun).isSome by decide)).symm
  obtain ⟨given, replies, answered, -⟩ := calls_atomic run
  have board : Machine.board ((Run.exec step init handoverRun).get (by decide)) =
      [[some ⟨1, [5]⟩]] := by decide
  rw [board] at replies
  refine ⟨_, given, run, replies, board, answered, ?_, rfl⟩
  have length : (Run.replies Board.perform [] (requests init handoverRun)).1.length = 7 := by decide
  rw [replies] at length
  exact length

end Machine

end SystemProg.Coroutine
