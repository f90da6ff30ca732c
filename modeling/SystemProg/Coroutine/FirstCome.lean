import SystemProg.Coroutine.Descriptors
import SystemProg.Coroutine.Wakers
import SystemProg.Coroutine.Wakeups

set_option autoImplicit false

-- The coroutines that wait on one side of a channel are woken in the order of its queue and run in
-- the order of the engine's. A woken one still finds the message or the free place for which it was
-- woken, as nobody else takes it.

namespace SystemProg.Coroutine

abbrev Entry := CoroId × BusCall

-- Who has moved a message on this side of the channel, and in which call.
def Event.mover (id : ChanId) (side : Side) : Event → Option (Option CoroRef × BusCall)
  | .sent who call id' => if id' = id ∧ side = .send then some (who, call) else none
  | .received who call id' _ => if id' = id ∧ side = .recv then some (who, call) else none
  | _ => none

def Entry.mover (entry : Entry) : Option CoroRef × BusCall := (some (.coro entry.1), entry.2)

namespace Machine

-- Of the line before the channel, the first have been woken and have not run yet, and the others
-- are in the queue.
structure InLine (s : Machine) (id : ChanId) (side : Side) (woken rest : List Entry) : Prop where
  chan : ∃ chan, s.chans id = some chan ∧ chan.closed = false ∧
    chan.queue side = rest.map Prod.fst ∧ woken.length ≤ chan.pending side
  order : (woken.map Prod.fst).Sublist s.engine.schedule
  awake : ∀ entry ∈ woken, s.Waits entry.1 .running entry.2 id ∧ entry.2.side = side
  asleep : ∀ entry ∈ rest, s.Waits entry.1 .suspended entry.2 id ∧ entry.2.side = side
  only : ∀ c state call id', s.Waits c state call id' → call.side = side →
    s.findChannel call.bus call.channel = some (some id) → (c, call) ∈ woken ++ rest

-- The channel is not closed, nobody else turns to this side of it, and `coro_wakeup` is not called
-- for those that wait there.
structure Undisturbed (id : ChanId) (side : Side) (line : List Entry) (s : Machine)
    (action : Action) : Prop where
  unclosed : ∀ bus channel, action = .close bus channel → s.findChannel bus channel ≠ some (some id)
  uncalled : ∀ call, action.busCall = some call → call.side = side →
    s.findChannel call.bus call.channel ≠ some (some id)
  unwoken : ∀ entry ∈ line, action ≠ .wakeup entry.1

variable {s here next : Machine} {id : ChanId} {side : Side} {woken rest : List Entry}

theorem InLine.distinct (sound : s.Sound) (inLine : s.InLine id side woken rest) :
    ((woken ++ rest).map Prod.fst).Nodup := by
  obtain ⟨chan, there, -, queue, -⟩ := inLine.chan
  rw [List.map_append, List.nodup_append]
  refine ⟨inLine.order.nodup sound.engine.distinct, queue ▸ sound.distinct id chan side there, ?_⟩
  rintro c before d after rfl
  obtain ⟨entry, mem, rfl⟩ := List.mem_map.mp before
  obtain ⟨entry', mem', same⟩ := List.mem_map.mp after
  have asleep := (inLine.asleep entry' mem').1
  rw [same] at asleep
  have look := (show s.engine.look _ = _ from (inLine.awake entry mem).1).symm.trans asleep
  cases look

theorem InLine.notQueued (sound : s.Sound) (inLine : s.InLine id side woken rest) {entry : Entry}
    (mem : entry ∈ rest) {id' : ChanId} {chan' : Channel} {side' : Side}
    (there : s.chans id' = some chan') (other : id' ≠ id ∨ side' ≠ side) :
    entry.1 ∉ chan'.queue side' := by
  intro queued
  obtain ⟨state, call, waits, same⟩ := sound.queued id' chan' side' entry.1 there queued
  obtain ⟨asleep, same'⟩ := inLine.asleep entry mem
  have look := (show s.engine.look _ = _ from waits).symm.trans asleep
  cases look
  rcases other with other | other
  · exact other rfl
  · exact other (same.symm.trans same')

theorem InLine.onward (inLine : s.InLine id side woken rest)
    (chan : ∃ chan, next.chans id = some chan ∧ chan.closed = false ∧
      chan.queue side = rest.map Prod.fst ∧ woken.length ≤ chan.pending side)
    (order : (woken.map Prod.fst).Sublist next.engine.schedule)
    (awake : ∀ entry ∈ woken, next.Waits entry.1 .running entry.2 id)
    (asleep : ∀ entry ∈ rest, next.Waits entry.1 .suspended entry.2 id)
    (found : ∀ bus channel, next.findChannel bus channel = some (some id) →
      s.findChannel bus channel = some (some id))
    (back : ∀ c state call id', next.Waits c state call id' → call.side = side →
      next.findChannel call.bus call.channel = some (some id) → ∃ state', s.Waits c state' call id') :
    next.InLine id side woken rest where
  chan := chan
  order := order
  awake := fun entry mem => ⟨awake entry mem, (inLine.awake entry mem).2⟩
  asleep := fun entry mem => ⟨asleep entry mem, (inLine.asleep entry mem).2⟩
  only := by
    intro c state call id' waits same at_
    obtain ⟨state', before⟩ := back c state call id' waits same at_
    exact inLine.only c state' call id' before same (found call.bus call.channel at_)

theorem InLine.quiet (inLine : s.InLine id side woken rest)
    (quiet : s.engine.Quiet next.engine)
    (chan : ∃ chan, next.chans id = some chan ∧ chan.closed = false ∧
      chan.queue side = rest.map Prod.fst ∧ woken.length ≤ chan.pending side)
    (asleep : ∀ entry ∈ rest, next.Waits entry.1 .suspended entry.2 id)
    (found : ∀ bus channel, next.findChannel bus channel = some (some id) →
      s.findChannel bus channel = some (some id)) : next.InLine id side woken rest := by
  obtain ⟨added, schedule⟩ := quiet.grows
  refine inLine.onward chan ?_ ?_ asleep found ?_
  · rw [schedule]
    exact inLine.order.trans (List.sublist_append_left _ _)
  · intro entry mem
    obtain ⟨state, waits, runs⟩ := quiet.forth entry.1 .running _ (inLine.awake entry mem).1
    obtain rfl := runs rfl
    exact waits
  · intro c state call id' waits _ _
    exact quiet.back c state _ waits

theorem InLine.spared (inLine : s.InLine id side woken rest)
    (spares : ∀ entry ∈ rest, s.engine.Spares next.engine entry.1) :
    ∀ entry ∈ rest, next.Waits entry.1 .suspended entry.2 id :=
  fun entry mem => spares entry mem _ (inLine.asleep entry mem).1

theorem InLine.leaves (inLine : s.InLine id side woken rest)
    {middle : Engine Place} {d : CoroId} {state : CoroState} {ctx : Context Place}
    {added : List CoroId} (quiet : s.engine.Quiet middle) (valid : middle.Valid)
    (leaves : middle.Leaves next.engine d state ctx)
    (schedule : next.engine.schedule = middle.schedule ++ added)
    (chan : ∃ chan, next.chans id = some chan ∧ chan.closed = false ∧
      chan.queue side = rest.map Prod.fst ∧ woken.length ≤ chan.pending side)
    (asleep : ∀ entry ∈ rest, next.Waits entry.1 .suspended entry.2 id)
    (found : ∀ bus channel, next.findChannel bus channel = some (some id) →
      s.findChannel bus channel = some (some id))
    (away : ∀ call id', ctx = .frame (.waiting call id') → call.side = side →
      next.findChannel call.bus call.channel ≠ some (some id)) : next.InLine id side woken rest := by
  obtain ⟨before, grown⟩ := quiet.grows
  refine inLine.onward chan ?_ ?_ asleep found ?_
  · rw [schedule, grown, List.append_assoc]
    exact inLine.order.trans (List.sublist_append_left _ _)
  · intro entry mem
    obtain ⟨state, waits, runs⟩ := quiet.forth entry.1 .running _ (inLine.awake entry mem).1
    obtain rfl := runs rfl
    refine (leaves.changes.others entry.1 ?_).trans waits
    intro same
    rw [same, valid.currentLook leaves.current] at waits
    cases waits
  · intro c state' call id' waits same at_
    by_cases current : c = d
    · subst current
      have here := leaves.changes.here
      rw [show next.engine.look c = _ from waits] at here
      cases here
      exact absurd at_ (away call id' rfl same)
    · exact quiet.back c state' _ ((leaves.changes.others c current).symm.trans waits)

-- Of the line, those that are `served` have moved their messages, and nobody else has.
def Advances (s next : Machine) (id : ChanId) (side : Side) (line served : List Entry) : Prop :=
  ∃ woken rest events, line = served ++ (woken ++ rest) ∧ next.InLine id side woken rest ∧
    next.log = s.log ++ events ∧ events.filterMap (Event.mover id side) = served.map Entry.mover

theorem InLine.stands (inLine : next.InLine id side woken rest) (log : next.log = s.log) :
    s.Advances next id side (woken ++ rest) [] :=
  ⟨woken, rest, [], rfl, inLine, by rw [log, List.append_nil], rfl⟩

theorem InLine.stands_event (inLine : next.InLine id side woken rest) {event : Event}
    (log : next.log = s.log ++ [event]) (other : event.mover id side = none) :
    s.Advances next id side (woken ++ rest) [] :=
  ⟨woken, rest, [event], rfl, inLine, log, by simp [other]⟩

theorem transfer_mover (id : ChanId) (side : Side) (who : Option CoroRef) (call : BusCall)
    (id' : ChanId) (chan : Channel) :
    (transfer who call id' chan).2.mover id side =
      if id' = id ∧ call.side = side then some (who, call) else none := by
  obtain ⟨op, blocking, bus, channel⟩ := call
  cases op <;> cases side <;> simp [transfer, Event.mover, BusCall.side, BusOp.side]

theorem transfer_grows {chan : Channel} {call : BusCall} (within : chan.data.length ≤ chan.sizeLimit)
    (ready : chan.ready call.side = true) (who : Option CoroRef) (id' : ChanId) :
    (transfer who call id' chan).1.pending call.side.other = chan.pending call.side.other + 1 := by
  obtain ⟨op, blocking, bus, channel⟩ := call
  cases op with
  | send data => simp [BusCall.side, BusOp.side, transfer, Channel.pending, Side.other]
  | recv =>
      simp only [BusCall.side, BusOp.side, Channel.ready, decide_eq_true_eq] at ready
      have positive := List.length_pos_iff.mpr ready
      simp only [BusCall.side, BusOp.side, transfer, Channel.pending, Side.other, List.length_tail]
      omega

theorem Moved.lookup {call : BusCall} {id' : ChanId} {chan : Channel}
    (moves : s.Moved next call id' chan) (id'' : ChanId) :
    next.chans id'' = if id'' = id' then some ((transfer s.engine.thisCoro call id' chan).1.setQueue
      call.side.other (chan.queue call.side.other).tail) else s.chans id'' := by
  obtain ⟨others, tail, chans⟩ := moves.queue
  rw [chans, tail]
  exact setChan_chans s id' _ id''

theorem Moved.wakes (sound : s.Sound) (idle : s.engine.jump = none) {call : BusCall}
    {chan : Channel} {c : CoroId} {others : List CoroId} {place : Place}
    (moves : s.Moved next call id chan) (turned : s.busTurn call = some next)
    (first : chan.queue call.side.other = c :: others)
    (asleep : s.engine.look c = some (.suspended, .frame place)) :
    s.engine.Wakes next.engine c (.frame place) := by
  have notAsleep : next.engine.look c ≠ some (.suspended, .frame place) := by
    intro look
    cases moves.woken c .suspended place (by rw [first]; rfl) look
  cases busTurn_engine turned with
  | same same => exact absurd (same ▸ asleep) notAsleep
  | suspends id' suspended =>
      obtain ⟨d, leaves, -⟩ := Engine.suspend_leaves idle suspended
      exact absurd (leaves.spares sound.engine place asleep) notAsleep
  | wakes id' chan' d others' found there first' woken =>
      rw [moves.found] at found
      cases found
      rw [moves.there] at there
      cases there
      rw [first] at first'
      cases first'
      rcases Engine.wakeup_cases woken with ⟨same, -⟩ | ⟨d, ctx, same, wakes⟩
      · exact absurd (same ▸ asleep) notAsleep
      · cases same
        have ctx' := wakes.asleep
        rw [asleep] at ctx'
        cases ctx'
        exact wakes

theorem InLine.wakes (sound : s.Sound) {entry : Entry}
    (inLine : s.InLine id side woken (entry :: rest))
    (wakes : s.engine.Wakes next.engine entry.1 (.frame (.waiting entry.2 id)))
    (chan : ∃ chan, next.chans id = some chan ∧ chan.closed = false ∧
      chan.queue side = rest.map Prod.fst ∧ (woken ++ [entry]).length ≤ chan.pending side)
    (buses : next.buses = s.buses) : next.InLine id side (woken ++ [entry]) rest := by
  have others := wakes.changes.others
  have distinct := inLine.distinct sound
  have last := (inLine.asleep entry (List.mem_cons_self ..)).2
  refine ⟨chan, ?_, ?_, ?_, ?_⟩
  · rw [wakes.schedule, List.map_append]
    exact inLine.order.append (List.Sublist.refl _)
  · intro entry' mem
    rcases List.mem_append.mp mem with mem | mem
    · obtain ⟨awake, same⟩ := inLine.awake entry' mem
      refine ⟨(others entry'.1 fun equal => ?_).trans awake, same⟩
      have asleep := wakes.asleep
      rw [← equal, show s.engine.look _ = _ from awake] at asleep
      cases asleep
    · obtain rfl := List.mem_singleton.mp mem
      exact ⟨wakes.changes.here, last⟩
  · intro entry' mem
    obtain ⟨asleep, same⟩ := inLine.asleep entry' (List.mem_cons_of_mem _ mem)
    refine ⟨(others entry'.1 fun equal => ?_).trans asleep, same⟩
    rw [List.map_append, List.map_cons, List.nodup_append, List.nodup_cons] at distinct
    exact distinct.2.1.1 (equal ▸ List.mem_map_of_mem mem)
  · intro c state call id' waits same at_
    rw [List.append_assoc, List.singleton_append]
    rw [findChannel_congr buses] at at_
    by_cases equal : c = entry.1
    · subst equal
      have here := wakes.changes.here
      rw [show next.engine.look _ = _ from waits] at here
      cases here
      exact List.mem_append_right _ (List.mem_cons_self ..)
    · exact inLine.only c state call id' ((others c equal).symm.trans waits) same at_

theorem InLine.turn (sound : s.Sound) (within : s.Within) (idle : s.engine.jump = none)
    (inLine : s.InLine id side woken rest) {call : BusCall} (turned : s.busTurn call = some next)
    (away : call.side = side → s.findChannel call.bus call.channel ≠ some (some id)) :
    s.Advances next id side (woken ++ rest) [] := by
  obtain ⟨chan, there, opened, queue, enough⟩ := inLine.chan
  have asleep (entry : Entry) (mem : entry ∈ rest) := (inLine.asleep entry mem).1
  have refused (code : ErrorCode) (same : next = s.refuse call code) :
      s.Advances next id side (woken ++ rest) [] := by
    have log : next.log = s.log ++ [.refused s.engine.thisCoro call code] := by
      rw [same]
      rfl
    have kept : next.InLine id side woken rest := by
      rw [same]
      exact inLine.quiet (Engine.Quiet.refl _) inLine.chan asleep fun _ _ at_ => at_
    exact kept.stands_event log rfl
  cases busTurn_turned sound idle turned with
  | gone found same => exact refused _ same
  | wouldBlock id' chan' found there' notReady trying same => exact refused _ same
  | moved id' chan' moves =>
      have buses (bus : Option BusId) (channel : Int)
          (at_ : next.findChannel bus channel = some (some id)) :
          s.findChannel bus channel = some (some id) := by
        rw [findChannel_congr moves.buses] at at_
        exact at_
      have lookup := moves.lookup id
      have mover := transfer_mover id side s.engine.thisCoro call id' chan'
      by_cases same : id = id'
      · subst same
        have there' := moves.there
        rw [there] at there'
        cases there'
        rw [if_pos rfl] at lookup
        have apart : call.side ≠ side := fun same => away same moves.found
        rw [if_neg fun both => apart both.2] at mover
        obtain rfl := (eq_or_other call.side side).resolve_left (Ne.symm apart)
        have grown := transfer_grows (within id chan there) moves.ready s.engine.thisCoro id
        have closed := (transfer_queue s.engine.thisCoro call id chan).2.1
        have tail : (((transfer s.engine.thisCoro call id chan).1.setQueue call.side.other
            (chan.queue call.side.other).tail)).queue call.side.other =
              (rest.map Prod.fst).tail := by
          rw [setQueue_queue, if_pos rfl, queue]
        have chan' (line woken' : List Entry) (behind : (rest.map Prod.fst).tail = line.map Prod.fst)
            (small : woken'.length ≤ woken.length + 1) :
            ∃ chan, next.chans id = some chan ∧ chan.closed = false ∧
              chan.queue call.side.other = line.map Prod.fst ∧
                woken'.length ≤ chan.pending call.side.other := by
          refine ⟨_, lookup, closed.trans opened, tail.trans behind, ?_⟩
          rw [setQueue_pending, grown]
          omega
        cases rest with
        | nil =>
            exact (inLine.quiet moves.quiet (chan' [] woken rfl (Nat.le_succ _)) nofun
              buses).stands_event moves.log mover
        | cons entry rest =>
            have wakes := moves.wakes sound idle turned (by rw [queue]; rfl)
              (asleep entry (List.mem_cons_self ..))
            have moved := inLine.wakes sound wakes (chan' rest (woken ++ [entry]) rfl (by simp))
              moves.buses
            have stands := moved.stands_event moves.log mover
            rw [List.append_assoc, List.singleton_append] at stands
            exact stands
      · rw [if_neg fun both => same both.1.symm] at mover
        rw [if_neg same] at lookup
        refine (inLine.quiet moves.quiet ⟨chan, lookup.trans there, opened, queue, enough⟩
          (inLine.spared fun entry mem => ?_) buses).stands_event moves.log mover
        apply (busTurn_engine turned).spares sound.engine idle
        intro id'' chan'' found there''
        rw [moves.found] at found
        cases found
        exact inLine.notQueued sound mem there'' (Or.inl (Ne.symm same))
  | blocked id' chan' c blocks =>
      have lookup : next.chans id = if id = id' then
          some (chan'.setQueue call.side (chan'.queue call.side ++ [c])) else s.chans id := by
        rw [blocks.chans]
        exact setChan_chans s id' _ id
      have after : ∃ chan, next.chans id = some chan ∧ chan.closed = false ∧
          chan.queue side = rest.map Prod.fst ∧ woken.length ≤ chan.pending side := by
        by_cases same : id = id'
        · subst same
          have there' := blocks.there
          rw [there] at there'
          cases there'
          rw [if_pos rfl] at lookup
          refine ⟨_, lookup, opened, ?_, by rw [setQueue_pending]; exact enough⟩
          rw [setQueue_queue, if_neg fun same => away same.symm blocks.found, queue]
        · rw [if_neg same] at lookup
          exact ⟨chan, lookup.trans there, opened, queue, enough⟩
      refine (inLine.leaves (Engine.Quiet.refl _) sound.engine blocks.leaves
        (blocks.schedule.trans (List.append_nil _).symm) after
        (inLine.spared fun entry mem => blocks.leaves.spares sound.engine) ?_ ?_).stands blocks.log
      · intro bus channel at_
        rw [findChannel_congr blocks.buses] at at_
        exact at_
      · rintro call' id'' ⟨⟩ same
        rw [findChannel_congr blocks.buses]
        exact away same

theorem InLine.front (sound : s.Sound) (inLine : s.InLine id side woken rest) {d : CoroId}
    {ctx : Context Place} (arrives : s.Arrives here d ctx) :
    (∀ entry ∈ woken, entry.1 ≠ d) ∧ (woken.map Prod.fst).Sublist here.engine.schedule ∨
      ∃ call later, woken = (d, call) :: later ∧ ctx = .frame (.waiting call id) ∧
        (∀ entry ∈ later, entry.1 ≠ d) ∧ (later.map Prod.fst).Sublist here.engine.schedule := by
  have order := inLine.order
  have once := sound.engine.distinct
  rw [arrives.lands.schedule] at order once
  have outside (line : List Entry) (behind : (line.map Prod.fst).Sublist here.engine.schedule)
      (entry : Entry) (mem : entry ∈ line) : entry.1 ≠ d := by
    rintro rfl
    exact (List.nodup_cons.mp once).1 (behind.subset (List.mem_map_of_mem mem))
  rcases List.sublist_cons_iff.mp order with behind | ⟨others, split, behind⟩
  · exact Or.inl ⟨outside woken behind, behind⟩
  · cases woken with
    | nil => cases split
    | cons entry later =>
        obtain ⟨c, call⟩ := entry
        cases split
        refine Or.inr ⟨call, later, rfl, ?_, outside later behind, behind⟩
        have awake := (inLine.awake (c, call) (List.mem_cons_self ..)).1
        have look := arrives.lands.before.symm.trans awake
        cases look
        rfl

theorem InLine.arrives {front : List Entry} (inLine : s.InLine id side (front ++ woken) rest)
    {d : CoroId} {ctx : Context Place} (arrives : s.Arrives here d ctx)
    (gone : ∀ entry ∈ front, entry.1 = d) (outside : ∀ entry ∈ woken, entry.1 ≠ d)
    (order : (woken.map Prod.fst).Sublist here.engine.schedule) :
    here.InLine id side woken rest ∧
      ∀ chan, here.chans id = some chan → (front ++ woken).length ≤ chan.pending side := by
  obtain ⟨chan, there, opened, queue, enough⟩ := inLine.chan
  have others := arrives.lands.changes.others
  have asleep (entry : Entry) (mem : entry ∈ rest) : entry.1 ≠ d := by
    rintro rfl
    have look := arrives.lands.before.symm.trans (inLine.asleep entry mem).1
    cases look
  have there' : here.chans id = some (chan.without d) := by
    rw [arrives.chans, there]
    rfl
  have pending : (chan.without d).pending side = chan.pending side := by
    cases side <;> rfl
  refine ⟨⟨⟨_, there', opened, ?_, ?_⟩, order, ?_, ?_, ?_⟩, fun chan' again => ?_⟩
  · refine (List.erase_of_not_mem ?_).trans queue
    rw [queue, List.mem_map]
    rintro ⟨entry, mem, same⟩
    exact asleep entry mem same
  · rw [pending]
    exact Nat.le_trans (by simp) enough
  · intro entry mem
    obtain ⟨awake, same⟩ := inLine.awake entry (List.mem_append_right _ mem)
    exact ⟨(others entry.1 (outside entry mem)).trans awake, same⟩
  · intro entry mem
    obtain ⟨sleeps, same⟩ := inLine.asleep entry mem
    exact ⟨(others entry.1 (asleep entry mem)).trans sleeps, same⟩
  · intro c state call id' waits same at_
    have other : c ≠ d := by
      rintro rfl
      have here' := arrives.lands.changes.here
      rw [show here.engine.look c = _ from waits] at here'
      cases here'
    rw [findChannel_congr arrives.buses] at at_
    have mem := inLine.only c state call id' ((others c other).symm.trans waits) same at_
    rw [List.append_assoc] at mem
    exact (List.mem_append.mp mem).resolve_left fun first => other (gone _ first)
  · rw [there'] at again
    cases again
    rw [pending]
    exact enough

theorem ready_of_pending {chan : Channel} (positive : 0 < chan.pending side) :
    chan.ready side = true := by
  by_contra notReady
  rw [Bool.not_eq_true] at notReady
  rw [notReady_pending notReady] at positive
  cases positive

theorem busTurn_defined (sound : s.Sound) {call : BusCall} {chan : Channel}
    (found : s.findChannel call.bus call.channel = some (some id)) (there : s.chans id = some chan)
    (ready : chan.ready call.side = true) : ∃ next, s.busTurn call = some next := by
  obtain ⟨chan', there', opened, notFreed⟩ := sound.found found
  rw [there] at there'
  cases there'
  simp only [busTurn, found, there, opened, notFreed, ready, Bool.false_eq_true, if_false, if_true]
  rw [(transfer_queue _ _ _ _).1]
  cases queue : chan.queue call.side.other with
  | nil => exact ⟨_, rfl⟩
  | cons c others =>
      obtain ⟨state, call', waits, -⟩ :=
        sound.queued id chan call.side.other c there (by simp [queue])
      obtain ⟨coro, exists_, -⟩ := Engine.look_coros waits
      obtain ⟨e, woken⟩ := Engine.wakeup_defined sound.engine (show s.engine.coros c ≠ none by simp [exists_])
      rw [wakeupFirst, woken]
      exact ⟨_, rfl⟩

-- The message or the place for which a coroutine was woken is still there.
theorem InLine.serves (sound : s.Sound) (idle : s.engine.jump = none)
    (inLine : s.InLine id side woken rest) {call : BusCall} (same : call.side = side)
    (found : s.findChannel call.bus call.channel = some (some id))
    (place : ∀ chan, s.chans id = some chan → woken.length < chan.pending side) :
    ∃ next, s.busTurn call = some next ∧ next.InLine id side woken rest ∧
      ∃ event, next.log = s.log ++ [event] ∧
        event.mover id side = some (s.engine.thisCoro, call) := by
  subst same
  obtain ⟨chan, there, opened, queue, -⟩ := inLine.chan
  have spare := place chan there
  have ready : chan.ready call.side = true := ready_of_pending (Nat.zero_lt_of_lt spare)
  obtain ⟨next, turned⟩ := busTurn_defined sound found there ready
  refine ⟨next, turned, ?_⟩
  cases busTurn_turned sound idle turned with
  | gone found' same =>
      rw [found] at found'
      cases found'
  | wouldBlock id' chan' found' there' notReady trying same =>
      rw [found] at found'
      cases found'
      rw [there] at there'
      cases there'
      rw [ready] at notReady
      cases notReady
  | blocked id' chan' c blocks =>
      have found' := blocks.found
      rw [found] at found'
      cases found'
      have there' := blocks.there
      rw [there] at there'
      cases there'
      rw [blocks.notReady] at ready
      cases ready
  | moved id' chan' moves =>
      have found' := moves.found
      rw [found] at found'
      cases found'
      have there' := moves.there
      rw [there] at there'
      cases there'
      have lookup := moves.lookup id
      rw [if_pos rfl] at lookup
      obtain ⟨queues, closed, -⟩ := transfer_queue s.engine.thisCoro call id chan
      obtain ⟨paid, -⟩ := transfer_pending ready s.engine.thisCoro id
      constructor
      · refine inLine.quiet moves.quiet ⟨_, lookup, closed.trans opened, ?_, ?_⟩
          (inLine.spared fun entry mem => ?_) fun bus channel at_ => ?_
        · rw [setQueue_queue, if_neg (Ne.symm (other_ne _)), queues, queue]
        · rw [setQueue_pending]
          omega
        · apply (busTurn_engine turned).spares sound.engine idle
          intro id'' chan'' _ there''
          exact inLine.notQueued sound mem there'' (Or.inr (other_ne _))
        · rw [findChannel_congr moves.buses] at at_
          exact at_
      · refine ⟨_, moves.log, ?_⟩
        rw [transfer_mover, if_pos ⟨rfl, rfl⟩]

theorem InLine.head_serves (sound : s.Sound) {d : CoroId} {call : BusCall}
    (inLine : s.InLine id side ((d, call) :: woken) rest)
    (jump : s.engine.jump = some (.coro d)) :
    ∃ next, s.step .resume = some next ∧ next.InLine id side woken rest ∧
      ∃ event, next.log = s.log ++ [event] ∧
        event.mover id side = some (some (.coro d), call) := by
  obtain ⟨awake, same⟩ := inLine.awake (d, call) (List.mem_cons_self ..)
  obtain ⟨chan, there, opened, -⟩ := inLine.chan
  obtain ⟨-, chan', there', -, found⟩ := sound.waiting d .running call id awake
  rw [there] at there'
  cases there'
  obtain ⟨here, arrives, resumed⟩ := resume_waiting sound jump awake
  have stepped : s.step .resume = here.busTurn call := by
    rw [step, if_neg (by simp [jump]), if_pos rfl, resumed]
  have behind : (∀ entry ∈ woken, entry.1 ≠ d) ∧
      (woken.map Prod.fst).Sublist here.engine.schedule := by
    rcases inLine.front sound arrives with ⟨outside, -⟩ | ⟨call', later, split, -, outside, order⟩
    · exact absurd rfl (outside (d, call) (List.mem_cons_self ..))
    · cases split
      exact ⟨outside, order⟩
  have front : s.InLine id side ([(d, call)] ++ woken) rest := inLine
  obtain ⟨inLine', place⟩ := front.arrives arrives (by simp) behind.1 behind.2
  have found' : here.findChannel call.bus call.channel = some (some id) := by
    rw [findChannel_congr arrives.buses]
    exact found opened
  obtain ⟨next, turned, inLine'', event, log, mover⟩ :=
    inLine'.serves (arrives.sound sound) arrives.lands.jump same found' fun chan again => by
      have enough := place chan again
      rw [List.length_append, List.length_singleton] at enough
      omega
  rw [arrives.log] at log
  rw [arrives.lands.thisCoro] at mover
  exact ⟨next, stepped.trans turned, inLine'', event, log, mover⟩

theorem found_slots (slots : ∀ bus slot, next.slotAt bus slot = some id →
    s.slotAt bus slot = some id) (bus : Option BusId) (channel : Int)
    (found : next.findChannel bus channel = some (some id)) :
    s.findChannel bus channel = some (some id) := by
  obtain ⟨b, rfl, positive, at_⟩ := findChannel_some found
  exact findChannel_slotAt positive (slots b channel.toNat at_)

theorem InLine.same (inLine : s.InLine id side woken rest) (engine : next.engine = s.engine)
    (chan : ∃ chan, next.chans id = some chan ∧ chan.closed = false ∧
      chan.queue side = rest.map Prod.fst ∧ woken.length ≤ chan.pending side)
    (slots : ∀ bus slot, next.slotAt bus slot = some id → s.slotAt bus slot = some id) :
    next.InLine id side woken rest := by
  refine inLine.quiet (Engine.Quiet.of_same (by rw [engine]) (by rw [engine])) chan ?_
    (found_slots slots)
  intro entry mem
  rw [Waits, engine]
  exact (inLine.asleep entry mem).1

theorem Idles.stands (idles : s.Idles next) (inLine : s.InLine id side woken rest)
    (asleep : ∀ entry ∈ rest, next.Waits entry.1 .suspended entry.2 id) :
    s.Advances next id side (woken ++ rest) [] := by
  have kept : next.InLine id side woken rest := by
    refine inLine.quiet idles.quiet ?_ asleep fun bus channel found => ?_
    · rw [idles.chans]
      exact inLine.chan
    · rw [findChannel_congr idles.buses] at found
      exact found
  rcases idles.log with log | ⟨who, target, ret, log⟩
  · exact kept.stands log
  · exact kept.stands_event log rfl

theorem InLine.passes (sound : s.Sound) (within : s.Within)
    (inLine : s.InLine id side woken rest) {d : CoroId} {ctx : Context Place}
    (arrives : s.Arrives here d ctx) (outside : ∀ entry ∈ woken, entry.1 ≠ d)
    (order : (woken.map Prod.fst).Sublist here.engine.schedule) (goesOn : here.GoesOn next ctx)
    (taken : s.step .resume = some next) : s.Advances next id side (woken ++ rest) [] := by
  have front : s.InLine id side ([] ++ woken) rest := inLine
  have here' := (front.arrives arrives nofun outside order).1
  have logged (advances : here.Advances next id side (woken ++ rest) []) :
      s.Advances next id side (woken ++ rest) [] := by
    unfold Advances at advances ⊢
    rw [← arrives.log]
    exact advances
  cases goesOn with
  | inside notFrame idles =>
      apply logged
      refine idles.stands here' fun entry mem => ?_
      exact inside_spares sound arrives.jump arrives.lands.before notFrame taken _
        (inLine.asleep entry mem).1
  | deletes id' chan' deletes =>
      obtain ⟨chan, there, opened, queue, enough⟩ := here'.chan
      have other : id ≠ id' := by
        rintro rfl
        have there' := deletes.there
        rw [there] at there'
        cases there'
        rw [deletes.closed] at opened
        cases opened
      have kept : (here.setChan id' { chan' with freed := true }).InLine id side woken rest := by
        refine here'.quiet (Engine.Quiet.refl _) ⟨chan, ?_, opened, queue, enough⟩
          (fun entry mem => (here'.asleep entry mem).1) fun _ _ found => found
        rw [setChan_chans, if_neg other, there]
      apply logged
      rw [deletes.same]
      exact kept.stands rfl
  | retries call id' =>
      -- The same turn, as a turn of the loop.
      obtain ⟨here, arrives', resumed⟩ := resume_waiting sound arrives.jump arrives.lands.before
      have behind := arrives.lands.schedule.symm.trans arrives'.lands.schedule
      rw [(List.cons.inj behind).2] at order
      have here' := (front.arrives arrives' nofun outside order).1
      rw [step, if_neg (by simp [arrives.jump]), if_pos rfl, resumed] at taken
      have within' : here.Within := by
        intro id'' chan' there
        rw [arrives'.chans, Option.map_eq_some_iff] at there
        obtain ⟨chan, there, rfl⟩ := there
        exact within id'' chan there
      have advances : here.Advances next id side (woken ++ rest) [] := by
        refine here'.turn (arrives'.sound sound) within' arrives'.lands.jump taken fun same found => ?_
        -- A sender of the channel that has been woken is one of those that were.
        rw [findChannel_congr arrives'.buses] at found
        rcases List.mem_append.mp (inLine.only d .running call id' arrives.lands.before same found)
          with mem | mem
        · exact outside _ mem rfl
        · have look := arrives.lands.before.symm.trans (inLine.asleep _ mem).1
          cases look
      unfold Advances at advances ⊢
      rw [← arrives'.log]
      exact advances

theorem step_busCall {action : Action} {call : BusCall} (made : action.busCall = some call)
    (taken : s.step action = some next) :
    s.engine.jump = none ∧ s.busTurn call = some next := by
  unfold step at taken
  split at taken
  · next idle =>
      refine ⟨idle, ?_⟩
      cases action <;> cases made <;> exact taken
  · split at taken
    · next resumes =>
        subst resumes
        cases made
    · cases taken

theorem step_advances (sound : s.Sound) (within : s.Within) (awaits : s.engine.Awaits)
    {line : List Entry} {action : Action} (inLine : s.InLine id side woken rest)
    (undisturbed : Undisturbed id side line s action)
    (listed : ∀ entry ∈ rest, entry ∈ line) (taken : s.step action = some next) :
    ∃ served, s.Advances next id side (woken ++ rest) served ∧
      ∀ entry ∈ woken ++ rest, s.engine.jump = some (.coro entry.1) → served = [entry] := by
  obtain ⟨chan, there, opened, queue, enough⟩ := inLine.chan
  have asleep (entry : Entry) (mem : entry ∈ rest) := (inLine.asleep entry mem).1
  have nobody (plain : ∀ c, s.engine.jump ≠ some (.coro c))
      (advances : s.Advances next id side (woken ++ rest) []) :
      ∃ served, s.Advances next id side (woken ++ rest) served ∧
        ∀ entry ∈ woken ++ rest, s.engine.jump = some (.coro entry.1) → served = [entry] :=
    ⟨[], advances, fun entry _ jump => absurd jump (plain entry.1)⟩
  cases step_stepped sound taken with
  | idles plain silent idles =>
      apply nobody plain.stays
      refine idles.stands inLine (inLine.spared fun entry mem => ?_)
      exact plain_spares sound awaits plain silent (undisturbed.unwoken entry (listed entry mem)) taken
  | adds plain adds =>
      apply nobody plain.stays
      exact (inLine.same adds.engine ⟨chan, by rw [adds.chans, there], opened, queue, enough⟩
        fun bus slot at_ => (adds.tame.slotAt bus slot).symm.trans at_).stands adds.log
  | opens bus sizeLimit channels chan' plain there' limit opens =>
      apply nobody plain.stays
      have other : id ≠ s.opened := by
        rintro rfl
        rw [sound.fresh _ (Nat.le_refl _)] at there
        cases there
      refine (inLine.same opens.engine ⟨chan, ?_, opened, queue, enough⟩
        fun bus' slot' at_ => ?_).stands_event opens.log rfl
      · rw [opens.chans, setChan_chans, if_neg other, there]
      · rw [opens.slots] at at_
        split at at_
        · exact absurd (Option.some.inj at_).symm other
        · exact at_
  | calls plain call made turned =>
      obtain ⟨idle, turned⟩ := step_busCall made taken
      exact nobody plain.stays
        (inLine.turn sound within idle turned (undisturbed.uncalled call made))
  | shuts bus channel id' chan' woken' c idle shuts =>
      have other : id ≠ id' := by
        rintro rfl
        exact undisturbed.unclosed bus channel rfl shuts.found
      have closed : s.coroBusChannelClose bus channel = some next := by
        rw [step, if_pos idle] at taken
        exact taken
      apply nobody (by simp [idle])
      refine (inLine.leaves shuts.quiet shuts.wokenValid shuts.leaves shuts.schedule
        ⟨chan, ?_, opened, queue, enough⟩ (inLine.spared fun entry mem => ?_)
        (found_slots fun bus' slot' at_ => ?_) (by simp)).stands shuts.log
      · rw [shuts.chans, setChan_chans, if_neg other, there]
      · apply (close_engine closed).spares sound.engine idle
        intro id'' chan'' side' found there''
        rw [shuts.found] at found
        cases found
        exact inLine.notQueued sound mem there'' (Or.inl (Ne.symm other))
      · rw [shuts.slotAt sound] at at_
        split at at_
        · cases at_
        · exact at_
  | resumes here d ctx arrives goesOn =>
      have distinct := inLine.distinct sound
      rcases inLine.front sound arrives with ⟨outside, order⟩ | ⟨call, later, rfl, -⟩
      · refine ⟨[], inLine.passes sound within arrives outside order goesOn taken, ?_⟩
        intro entry mem jump
        rw [arrives.jump] at jump
        cases jump
        rcases List.mem_append.mp mem with mem | mem
        · exact absurd rfl (outside entry mem)
        · have look := arrives.lands.before.symm.trans (asleep entry mem)
          cases look
      · obtain ⟨next', taken', inLine', event, log, mover⟩ :=
          inLine.head_serves sound arrives.jump
        rw [taken] at taken'
        cases taken'
        refine ⟨[(d, call)], ⟨later, rest, [event], rfl, inLine', log, ?_⟩, ?_⟩
        · rw [List.filterMap_cons_some mover]
          rfl
        · intro entry mem jump
          rw [arrives.jump] at jump
          cases jump
          rw [List.cons_append] at mem distinct
          rw [List.map_cons, List.nodup_cons] at distinct
          rcases List.mem_cons.mp mem with same | mem
          · exact congrArg (fun entry => [entry]) same.symm
          · exact absurd (List.mem_map_of_mem mem) distinct.1

def waitsOn (s : Machine) (c : CoroId) (id : ChanId) (side : Side) : Bool :=
  match s.engine.look c with
  | some (_, .frame (.waiting call id')) => id' = id ∧ call.side = side
  | _ => false

def resumptions (c : CoroId) (id : ChanId) (side : Side) : Machine → List Action → Nat
  | _, [] => 0
  | s, action :: rest =>
      match s.step action with
      | none => 0
      | some next =>
          (if s.engine.jump = some (.coro c) ∧ s.waitsOn c id side then 1 else 0) +
            resumptions c id side next rest

theorem waitsOn_waits {c : CoroId} (waiting : s.waitsOn c id side = true) :
    ∃ state call, s.Waits c state call id ∧ call.side = side := by
  unfold waitsOn at waiting
  split at waiting
  · next state call id' look =>
      obtain ⟨rfl, same⟩ := decide_eq_true_eq.mp waiting
      exact ⟨state, call, look, same⟩
  · cases waiting

theorem InLine.waiting (sound : s.Sound) (inLine : s.InLine id side woken rest) {c : CoroId}
    {state : CoroState} {call : BusCall} (waits : s.Waits c state call id)
    (same : call.side = side) : (c, call) ∈ woken ++ rest := by
  obtain ⟨chan, there, opened, -⟩ := inLine.chan
  obtain ⟨-, chan', there', -, found⟩ := sound.waiting c state call id waits
  rw [there] at there'
  cases there'
  exact inLine.only c state call id waits same (found opened)

theorem InLine.resumed (sound : s.Sound) (inLine : s.InLine id side woken rest) {entry : Entry}
    (mem : entry ∈ woken ++ rest) (jump : s.engine.jump = some (.coro entry.1)) :
    ∃ next event, s.step .resume = some next ∧ next.log = s.log ++ [event] ∧
      event.mover id side = some entry.mover := by
  have scheduled : entry.1 ∈ s.engine.schedule := by
    simp [Engine.schedule, jump, CoroRef.coro?]
  obtain ⟨ctx, look, -⟩ := sound.engine.scheduled entry.1 scheduled
  have awake : entry ∈ woken := by
    refine (List.mem_append.mp mem).resolve_right fun sleeps => ?_
    have look' := look.symm.trans (inLine.asleep entry sleeps).1
    cases look'
  obtain ⟨here, arrives, -⟩ := resume_waiting sound jump (inLine.awake entry awake).1
  rcases inLine.front sound arrives with ⟨outside, -⟩ | ⟨call, later, rfl, -, outside, -⟩
  · exact absurd rfl (outside entry awake)
  · obtain ⟨next, taken, -, event, log, mover⟩ := inLine.head_serves sound jump
    rcases List.mem_cons.mp awake with same | behind
    · refine ⟨next, event, taken, log, mover.trans ?_⟩
      rw [Entry.mover, same]
    · exact absurd rfl (outside entry behind)

theorem Advances.trans {t : Machine} {line served later served' : List Entry}
    (first : s.Advances next id side line served) (split : line = served ++ later)
    (second : next.Advances t id side later served') :
    s.Advances t id side line (served ++ served') := by
  obtain ⟨-, -, events, -, -, log, movers⟩ := first
  obtain ⟨woken, rest, events', split', inLine, log', movers'⟩ := second
  refine ⟨woken, rest, events ++ events', ?_, inLine, ?_, ?_⟩
  · rw [split, split', List.append_assoc]
  · rw [log', log, List.append_assoc]
  · rw [List.filterMap_append, movers, movers', List.map_append]

theorem run_advances {t : Machine} {line : List Entry} {actions : List Action}
    (ordered : s.Ordered) (awaits : s.engine.Awaits) (inLine : s.InLine id side woken rest)
    (undisturbed : Run.EachStep step (Undisturbed id side line) s actions)
    (listed : ∀ entry ∈ woken ++ rest, entry ∈ line) (run : Run.exec step s actions = some t) :
    (∃ served, s.Advances t id side (woken ++ rest) served) ∧
      ∀ c, resumptions c id side s actions ≤ 1 ∧
        (c ∉ (woken ++ rest).map Prod.fst → resumptions c id side s actions = 0) := by
  induction actions generalizing s woken rest with
  | nil =>
      cases run
      exact ⟨⟨[], inLine.stands rfl⟩, fun c => ⟨Nat.zero_le _, fun _ => rfl⟩⟩
  | cons action actions ih =>
      obtain ⟨next, taken, run⟩ := (Run.exec_cons _ _ _ _).mp run
      obtain ⟨here, later⟩ := undisturbed next taken
      obtain ⟨served, advances, own⟩ := step_advances ordered.sound ordered.within awaits inLine here
        (fun entry mem => listed entry (List.mem_append_right _ mem)) taken
      obtain ⟨woken', rest', events, split, inLine', log, movers⟩ := advances
      have distinct := inLine.distinct ordered.sound
      rw [split] at distinct own listed
      obtain ⟨⟨served', onward⟩, counts⟩ := ih (ordered.step taken)
        (step_awaits ordered.sound.engine awaits taken) inLine' later
        (fun entry mem => listed entry (List.mem_append_right _ mem)) run
      refine ⟨⟨served ++ served', Advances.trans ⟨woken', rest', events, split, inLine', log, movers⟩
        split onward⟩, fun c => ?_⟩
      obtain ⟨atMost, none⟩ := counts c
      rw [resumptions, taken, split]
      dsimp only
      -- Who is resumed in its call is the one that is served, and it is not in the line any more.
      by_cases counted : s.engine.jump = some (.coro c) ∧ s.waitsOn c id side = true
      · obtain ⟨state, call, waits, same⟩ := waitsOn_waits counted.2
        have mem := inLine.waiting ordered.sound waits same
        rw [split] at mem
        have alone := own (c, call) mem counted.1
        rw [alone, List.map_append, List.map_cons, List.map_nil, List.singleton_append,
          List.nodup_cons] at distinct
        rw [if_pos counted, none distinct.1, alone]
        exact ⟨Nat.le_refl _, fun outside => absurd (List.mem_cons_self ..) outside⟩
      · rw [if_neg counted, Nat.zero_add]
        refine ⟨atMost, fun outside => none fun mem => outside ?_⟩
        rw [List.map_append]
        exact List.mem_append_right _ mem

end Machine

end SystemProg.Coroutine
