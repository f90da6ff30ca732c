import SystemProg.Coroutine.Waiters

set_option autoImplicit false

-- `Turned` and `Stepped` say once what a turn of a sending or receiving loop and what a step can
-- do; the invariants follow by cases.

namespace SystemProg.Coroutine

namespace Machine

structure Moved (s next : Machine) (call : BusCall) (id : ChanId) (chan : Channel) : Prop where
  found : s.findChannel call.bus call.channel = some (some id)
  there : s.chans id = some chan
  ready : chan.ready call.side = true
  valid : next.engine.Valid
  quiet : s.engine.Quiet next.engine
  thisCoro : next.engine.thisCoro = s.engine.thisCoro
  queue : ∃ rest, (chan.queue call.side.other).tail = rest ∧
    next.chans = (s.setChan id ((transfer s.engine.thisCoro call id chan).1.setQueue
      call.side.other rest)).chans
  woken : ∀ c state place, (chan.queue call.side.other).head? = some c →
    next.engine.look c = some (state, .frame place) → state = .running
  buses : next.buses = s.buses
  count : next.opened = s.opened
  log : next.log = s.log ++ [(transfer s.engine.thisCoro call id chan).2]

structure Blocked (s next : Machine) (call : BusCall) (id : ChanId) (chan : Channel) (c : CoroId) :
    Prop where
  found : s.findChannel call.bus call.channel = some (some id)
  there : s.chans id = some chan
  notReady : chan.ready call.side = false
  blocking : call.blocking = true
  valid : next.engine.Valid
  leaves : s.engine.Leaves next.engine c .suspended (.frame (.waiting call id))
  schedule : next.engine.schedule = s.engine.schedule
  chans : next.chans =
    (s.setChan id (chan.setQueue call.side (chan.queue call.side ++ [c]))).chans
  buses : next.buses = s.buses
  count : next.opened = s.opened
  log : next.log = s.log

inductive Turned (s next : Machine) (call : BusCall) : Prop where
  | gone (found : s.findChannel call.bus call.channel = some none)
      (same : next = s.refuse call .noChannel)
  | wouldBlock (id : ChanId) (chan : Channel)
      (found : s.findChannel call.bus call.channel = some (some id)) (there : s.chans id = some chan)
      (notReady : chan.ready call.side = false) (trying : call.blocking = false)
      (same : next = s.refuse call .wouldBlock)
  | moved (id : ChanId) (chan : Channel) (moves : s.Moved next call id chan)
  | blocked (id : ChanId) (chan : Channel) (c : CoroId) (blocks : s.Blocked next call id chan c)

theorem transfer_queue (who : Option CoroRef) (call : BusCall) (id : ChanId) (chan : Channel) :
    (transfer who call id chan).1.queue = chan.queue ∧
      (transfer who call id chan).1.closed = chan.closed ∧
      (transfer who call id chan).1.freed = chan.freed ∧
      (transfer who call id chan).1.sizeLimit = chan.sizeLimit := by
  unfold transfer
  cases call.op <;> exact ⟨rfl, rfl, rfl, rfl⟩

theorem wakeupFirst_rule {queue rest : List CoroId} {e next : Engine Place} (valid : e.Valid)
    (woken : wakeupFirst queue e = some (rest, next)) :
    next.Valid ∧ e.Quiet next ∧ next.thisCoro = e.thisCoro ∧ rest = queue.tail ∧
      ∀ c state place, queue.head? = some c → next.look c = some (state, .frame place) →
        state = .running := by
  cases queue with
  | nil =>
      cases woken
      exact ⟨valid, Engine.Quiet.refl e, rfl, rfl, nofun⟩
  | cons c queue =>
      rw [wakeupFirst, Option.map_eq_some_iff] at woken
      obtain ⟨e', woken, same⟩ := woken
      cases same
      obtain ⟨valid', quiet, thisCoro, -⟩ := Engine.wakeup_rule valid woken
      refine ⟨valid', quiet, thisCoro, rfl, ?_⟩
      rintro d state place ⟨⟩ look
      exact wakeup_running valid woken look

theorem busTurn_turned {s next : Machine} (sound : s.Sound) (idle : s.engine.jump = none)
    {call : BusCall} (turned : s.busTurn call = some next) : s.Turned next call := by
  unfold busTurn at turned
  cases found : s.findChannel call.bus call.channel with
  | none =>
      rw [found] at turned
      cases turned
  | some slot =>
      rw [found] at turned
      cases slot with
      | none => exact .gone found (Option.some.inj turned).symm
      | some id =>
          obtain ⟨chan, there, opened, notFreed⟩ := sound.found found
          simp only [there, opened, notFreed, Bool.false_eq_true, if_false] at turned
          split at turned
          · next ready =>
              rw [Option.map_eq_some_iff] at turned
              obtain ⟨⟨rest, e⟩, woken, rfl⟩ := turned
              rw [(transfer_queue _ _ _ _).1] at woken
              obtain ⟨valid, quiet, thisCoro, rfl, running⟩ := wakeupFirst_rule sound.engine woken
              exact .moved id chan ⟨found, there, ready, valid, quiet, thisCoro, ⟨_, rfl, rfl⟩,
                running, rfl, rfl, rfl⟩
          · next notReady =>
              rw [Bool.not_eq_true] at notReady
              split at turned
              · next blocking =>
                  unfold suspendThis at turned
                  split at turned
                  · next c current =>
                      rw [Option.map_eq_some_iff] at turned
                      obtain ⟨e, suspended, rfl⟩ := turned
                      obtain ⟨valid, d, leaves, schedule⟩ :=
                        Engine.suspend_rule sound.engine idle (by simp) suspended
                      have same := leaves.current
                      rw [current] at same
                      cases same
                      exact .blocked id chan c ⟨found, there, notReady, blocking, valid, leaves,
                        schedule, rfl, rfl, rfl, rfl⟩
                  · cases turned
              · next trying =>
                  exact .wouldBlock id chan found there notReady (by simpa using trying)
                    (Option.some.inj turned).symm

theorem Sound.refuse {s : Machine} (sound : s.Sound) (call : BusCall) (code : ErrorCode) :
    (s.refuse call code).Sound :=
  sound.quiet sound.engine (Engine.Quiet.refl _) rfl rfl rfl

theorem Moved.sound {s next : Machine} {call : BusCall} {id : ChanId} {chan : Channel}
    (sound : s.Sound) (moves : s.Moved next call id chan) : next.Sound := by
  obtain ⟨rest, tail, chans⟩ := moves.queue
  obtain ⟨queue, closed, freed, -⟩ := transfer_queue s.engine.thisCoro call id chan
  have queues (side : Side) : ((transfer s.engine.thisCoro call id chan).1.setQueue
      call.side.other rest).queue side =
        if side = call.side.other then rest else chan.queue side := by
    rw [setQueue_queue, queue]
  have woken : ({ s with engine := next.engine } : Machine).Sound :=
    sound.quiet moves.valid moves.quiet rfl rfl rfl
  suffices shifted : (Machine.setChan { s with engine := next.engine } id
      ((transfer s.engine.thisCoro call id chan).1.setQueue call.side.other rest)).Sound from
    shifted.quiet moves.valid (Engine.Quiet.refl _) moves.buses chans moves.count
  refine woken.setChan moves.there closed (fun isFreed => Or.inl (freed.symm.trans isFreed)) ?_ ?_
  · intro side
    rw [queues]
    split
    · next same =>
        rw [same, ← tail]
        exact List.tail_sublist _
    · exact List.Sublist.refl _
  · intro c state call' waits notIn isIn
    rw [queues] at notIn
    split at notIn
    · next same =>
        rw [same] at isIn
        have head : (chan.queue call.side.other).head? = some c := by
          cases entries : chan.queue call.side.other with
          | nil =>
              rw [entries] at isIn
              cases isIn
          | cons d others =>
              rw [entries] at isIn tail
              rw [← tail] at notIn
              rw [List.head?_cons, (List.mem_cons.mp isIn).resolve_right notIn]
        exact moves.woken c state _ head waits
    · exact absurd isIn notIn

theorem Turned.sound {s next : Machine} {call : BusCall} (sound : s.Sound)
    (turned : s.Turned next call) : next.Sound := by
  cases turned with
  | gone found same => exact same ▸ sound.refuse call .noChannel
  | wouldBlock id chan found there notReady trying same => exact same ▸ sound.refuse call .wouldBlock
  | moved id chan moves => exact moves.sound sound
  | blocked id chan c blocks =>
      exact sound.suspend blocks.found blocks.there blocks.valid blocks.leaves blocks.schedule
        blocks.buses blocks.chans blocks.count

structure Opens (s next : Machine) (bus : BusId) (slot : Nat) (chan : Channel) : Prop where
  free : s.slotAt bus slot = none
  slots : ∀ bus' slot', next.slotAt bus' slot' =
    if bus' = bus ∧ slot' = slot then some s.opened else s.slotAt bus' slot'
  length : next.buses.length = s.buses.length
  empty : chan.closed = false ∧ chan.freed = false ∧ (∀ side, chan.queue side = []) ∧ chan.data = []
  chans : next.chans = (s.setChan s.opened chan).chans
  count : next.opened = s.opened + 1
  engine : next.engine = s.engine
  log : next.log = s.log ++ [.opened bus slot s.opened]

theorem freeSlot_join (channels : List (Option ChanId)) :
    channels[freeSlot channels]?.join = none := by
  by_cases free : none ∈ channels
  · have there : channels[freeSlot channels]? = some none := by
      rw [List.getElem?_eq_some_iff]
      exact ⟨List.idxOf_lt_length_of_mem free, List.getElem_idxOf _⟩
    rw [there]
    rfl
  · rw [freeSlot, List.idxOf_eq_length free, List.getElem?_eq_none (Nat.le_refl _)]
    rfl

theorem freeSlot_fill (channels : List (Option ChanId)) (id : ChanId) (slot : Nat) :
    (if freeSlot channels < channels.length then channels.set (freeSlot channels) (some id)
      else channels ++ [some id])[slot]?.join =
      if slot = freeSlot channels then some id else channels[slot]?.join := by
  have limit : freeSlot channels ≤ channels.length := List.idxOf_le_length
  split
  · next inside =>
      rw [List.getElem?_set]
      by_cases same : slot = freeSlot channels
      · rw [if_pos same.symm, if_pos inside, if_pos same]
        rfl
      · rw [if_neg (Ne.symm same), if_neg same]
  · next outside =>
      have last : freeSlot channels = channels.length := by omega
      rw [last, List.getElem?_append]
      by_cases same : slot = channels.length
      · rw [if_neg (by omega), same, if_pos rfl]
        simp
      · rw [if_neg same]
        split
        · rfl
        · rw [List.getElem?_eq_none (by simp; omega), List.getElem?_eq_none (by omega)]

theorem open_opens {s next : Machine} {bus : Option BusId} {sizeLimit : Nat}
    (opened : s.coroBusChannelOpen bus sizeLimit = some next) :
    ∃ b channels chan, bus = some b ∧ s.buses[b]? = some channels ∧ chan.sizeLimit = sizeLimit ∧
      s.Opens next b (freeSlot channels) chan := by
  unfold coroBusChannelOpen at opened
  split at opened
  · cases opened
  · next b =>
      split at opened
      · cases opened
      · next channels there =>
          cases opened
          refine ⟨b, channels, _, rfl, there, rfl, ?_, ?_, ?_, ⟨rfl, rfl, fun _ => rfl, rfl⟩, rfl, rfl,
            rfl, rfl⟩
          · rw [slotAt, there]
            exact freeSlot_join channels
          · intro bus' slot'
            have filled := slotAt_set there (if freeSlot channels < channels.length then
              channels.set (freeSlot channels) (some s.opened) else channels ++ [some s.opened])
              bus' slot'
            rw [freeSlot_fill] at filled
            refine filled.trans ?_
            by_cases same : bus' = b
            · rw [if_pos same, same]
              by_cases same' : slot' = freeSlot channels
              · rw [if_pos same', if_pos ⟨rfl, same'⟩]
              · rw [if_neg same', if_neg fun both => same' both.2, slotAt, there]
                rfl
            · rw [if_neg same, if_neg fun both => same both.1]
          · simp [setChannels, setChan]

theorem Opens.sound {s next : Machine} {bus : BusId} {slot : Nat} {chan : Channel} (sound : s.Sound)
    (opens : s.Opens next bus slot chan) : next.Sound := by
  have fresh := sound.fresh s.opened (Nat.le_refl _)
  have lookup (id : ChanId) : next.chans id =
      if id = s.opened then some chan else s.chans id := by
    rw [opens.chans]
    exact setChan_chans s s.opened chan id
  have old {id : ChanId} {chan' : Channel} (there : s.chans id = some chan') : id ≠ s.opened := by
    rintro rfl
    rw [fresh] at there
    cases there
  have kept {bus' : BusId} {slot' : Nat} {id : ChanId} (at_ : s.slotAt bus' slot' = some id) :
      next.slotAt bus' slot' = some id := by
    rw [opens.slots, if_neg, at_]
    rintro ⟨rfl, rfl⟩
    rw [opens.free] at at_
    cases at_
  refine ⟨opens.engine ▸ sound.engine, ?_, ?_, ?_, ?_, ?_, ?_, ?_, ?_⟩
  · intro id chan' side c there mem
    unfold Waits
    rw [opens.engine]
    rw [lookup] at there
    split at there
    · cases there
      rw [opens.empty.2.2.1] at mem
      cases mem
    · exact sound.queued id chan' side c there mem
  · intro id chan' side there
    rw [lookup] at there
    split at there
    · cases there
      rw [opens.empty.2.2.1]
      exact List.nodup_nil
    · exact sound.distinct id chan' side there
  · intro c state call id waits
    rw [Waits, opens.engine] at waits
    obtain ⟨bus', chan', there, runs, found⟩ := sound.waiting c state call id waits
    constructor
    · rw [findChannel_ne_none, opens.length, ← findChannel_ne_none]
      exact bus'
    · rw [lookup, if_neg (old there)]
      refine ⟨chan', there, runs, fun stillOpen => ?_⟩
      obtain ⟨b, busEq, positive, slot'⟩ := findChannel_some (found stillOpen)
      rw [busEq]
      exact findChannel_slotAt positive (kept slot')
  · intro c state id closes
    rw [Closes, opens.engine] at closes
    obtain ⟨chan', there, closed, before⟩ := sound.closing c state id closes
    rw [lookup, if_neg (old there), opens.engine]
    exact ⟨chan', there, closed, before⟩
  · intro id chan' there freed
    rw [lookup] at there
    split at there
    · cases there
      rw [opens.empty.2.1] at freed
      cases freed
    · exact sound.freed id chan' there freed
  · intro bus' slot' id at_
    rw [opens.slots] at at_
    split at at_
    · cases at_
      exact ⟨chan, (lookup _).trans (if_pos rfl), opens.empty.1⟩
    · obtain ⟨chan', there, stillOpen⟩ := sound.slots bus' slot' id at_
      exact ⟨chan', (lookup _).trans ((if_neg (old there)).trans there), stillOpen⟩
  · intro bus' slot' bus'' slot'' id at_ at_'
    rw [opens.slots] at at_ at_'
    split at at_
    · next here =>
        cases at_
        split at at_'
        · next here' => exact ⟨here.1.trans here'.1.symm, here.2.trans here'.2.symm⟩
        · obtain ⟨chan', there, -⟩ := sound.slots bus'' slot'' s.opened at_'
          exact absurd rfl (old there)
    · split at at_'
      · cases at_'
        obtain ⟨chan', there, -⟩ := sound.slots bus' slot' s.opened at_
        exact absurd rfl (old there)
      · exact sound.slotsDistinct bus' slot' bus'' slot'' id at_ at_'
  · intro id large
    rw [opens.count] at large
    rw [lookup, if_neg (Nat.ne_of_gt large)]
    exact sound.fresh id (Nat.le_of_succ_le large)

structure Shuts (s next : Machine) (bus : Option BusId) (channel : Int) (id : ChanId)
    (chan : Channel) (woken : Engine Place) (c : CoroId) : Prop where
  found : s.findChannel bus channel = some (some id)
  there : s.chans id = some chan
  wokenValid : woken.Valid
  quiet : s.engine.Quiet woken
  runs : ∀ side, ∀ d ∈ chan.queue side, ∀ state place, woken.look d = some (state, .frame place) →
    state = .running
  valid : next.engine.Valid
  leaves : woken.Leaves next.engine c .running (.frame (.closing id))
  schedule : next.engine.schedule = woken.schedule ++ [c]
  outside : c ∉ woken.schedule
  chans : next.chans = (s.setChan id { chan with closed := true }).chans
  buses : next.buses = (s.clearSlot bus channel).buses
  count : next.opened = s.opened
  log : next.log = s.log

theorem clearSlot_same (s : Machine) (bus : Option BusId) (channel : Int) :
    (s.clearSlot bus channel).engine = s.engine ∧ (s.clearSlot bus channel).chans = s.chans ∧
      (s.clearSlot bus channel).opened = s.opened ∧ (s.clearSlot bus channel).log = s.log := by
  unfold clearSlot
  split
  · exact ⟨rfl, rfl, rfl, rfl⟩
  · split <;> exact ⟨rfl, rfl, rfl, rfl⟩

theorem clearSlot_buses {s s' : Machine} (same : s.buses = s'.buses) (bus : Option BusId)
    (channel : Int) : (s.clearSlot bus channel).buses = (s'.clearSlot bus channel).buses := by
  unfold clearSlot setChannels
  rw [same]
  split
  · exact same
  · split
    · exact same
    · rfl

theorem close_shuts {s next : Machine} (sound : s.Sound) (idle : s.engine.jump = none)
    {bus : Option BusId} {channel : Int} (closed : s.coroBusChannelClose bus channel = some next) :
    (s.findChannel bus channel = some none ∧ next = s) ∨
      ∃ id chan woken c, s.Shuts next bus channel id chan woken c := by
  unfold coroBusChannelClose at closed
  cases found : s.findChannel bus channel with
  | none =>
      rw [found] at closed
      cases closed
  | some slot =>
      rw [found] at closed
      cases slot with
      | none => exact Or.inl ⟨rfl, (Option.some.inj closed).symm⟩
      | some id =>
          obtain ⟨chan, there, opened, notFreed⟩ := sound.found found
          dsimp only at closed
          rw [there] at closed
          dsimp only at closed
          rw [if_neg (by simp [notFreed])] at closed
          obtain ⟨engine, chans, count, log⟩ :=
            clearSlot_same (s.setChan id { chan with closed := true }) bus channel
          rw [engine, Option.map_eq_some_iff] at closed
          obtain ⟨e, closed, rfl⟩ := closed
          rw [Option.bind_eq_some_iff] at closed
          obtain ⟨senders, wokenSenders, closed⟩ := closed
          rw [Option.bind_eq_some_iff] at closed
          obtain ⟨woken, wokenReceivers, yielded⟩ := closed
          obtain ⟨valid, quiet, thisCoro, jump, runs⟩ := wakeupAll_rule sound.engine wokenSenders
          obtain ⟨valid', quiet', thisCoro', jump', runs'⟩ := wakeupAll_rule valid wokenReceivers
          obtain ⟨valid'', c, leaves, schedule, outside⟩ :=
            Engine.yield_rule valid' (jump'.trans (jump.trans idle)) (by simp) yielded
          refine Or.inr ⟨id, chan, woken, c, found, there, valid', quiet.trans quiet', ?_, valid'',
            leaves, schedule, outside, chans, ?_, count, log⟩
          · intro side d mem state place look
            cases side with
            | send =>
                obtain ⟨state', look'⟩ := quiet'.back d state place look
                obtain rfl := runs d mem state' place look'
                obtain ⟨state'', look'', running⟩ := quiet'.forth d _ place look'
                rw [look] at look''
                cases look''
                exact running rfl
            | recv => exact runs' d mem state place look
          · exact @clearSlot_buses (s.setChan id { chan with closed := true }) s rfl bus channel

theorem Shuts.sound {s next : Machine} {bus : Option BusId} {channel : Int} {id : ChanId}
    {chan : Channel} {woken : Engine Place} {c : CoroId} (sound : s.Sound)
    (shuts : s.Shuts next bus channel id chan woken c) : next.Sound := by
  have awake : ({ s with engine := woken } : Machine).Sound :=
    sound.quiet shuts.wokenValid shuts.quiet rfl rfl rfl
  have closed : ({ next with engine := woken } : Machine).Sound := by
    have buses : next.buses = (clearSlot { s with engine := woken } bus channel).buses := by
      rw [shuts.buses]
      exact clearSlot_buses (by rfl) bus channel
    refine awake.close shuts.found shuts.there ?_ rfl shuts.count shuts.chans buses
    intro d state call waits
    obtain ⟨-, chan', there, runs, -⟩ := awake.waiting d state call id waits
    rcases runs with running | ⟨-, linked⟩
    · exact running
    · have same : some chan' = some chan := there.symm.trans shuts.there
      cases same
      exact shuts.runs call.side d linked state _ waits
  have there : next.chans id = some { chan with closed := true } := by
    rw [shuts.chans]
    exact (setChan_chans s id _ id).trans (if_pos rfl)
  exact closed.leaveClosing there rfl shuts.valid shuts.leaves shuts.schedule shuts.outside rfl rfl
    rfl

-- Nothing changes but the engine, which leaves the waiting coroutines alone, and the error code.
-- Only the result of a join is logged.
structure Idles (s next : Machine) : Prop where
  valid : next.engine.Valid
  quiet : s.engine.Quiet next.engine
  buses : next.buses = s.buses
  chans : next.chans = s.chans
  count : next.opened = s.opened
  log : next.log = s.log ∨ ∃ who target ret, next.log = s.log ++ [.joined who target ret]

theorem Idles.sound {s next : Machine} (sound : s.Sound) (idles : s.Idles next) : next.Sound :=
  sound.quiet idles.valid idles.quiet idles.buses idles.chans idles.count

-- A coroutine has control again, and its entry is unlinked if it waited.
structure Arrives (s here : Machine) (c : CoroId) (ctx : Context Place) : Prop where
  jump : s.engine.jump = some (.coro c)
  lands : s.engine.Lands here.engine c .running ctx
  valid : here.engine.Valid
  buses : here.buses = s.buses
  count : here.opened = s.opened
  log : here.log = s.log
  chans : ∀ id, here.chans id = (s.chans id).map (Channel.without c)

theorem Arrives.sound {s here : Machine} {c : CoroId} {ctx : Context Place} (sound : s.Sound)
    (arrives : s.Arrives here c ctx) : here.Sound :=
  sound.land arrives.lands arrives.valid arrives.buses arrives.count arrives.chans

structure Deletes (s next : Machine) (id : ChanId) (chan : Channel) : Prop where
  there : s.chans id = some chan
  closed : chan.closed = true
  empty : ∀ side, chan.queue side = []
  same : next = s.setChan id { chan with freed := true }

theorem Deletes.sound {s next : Machine} {id : ChanId} {chan : Channel} (sound : s.Sound)
    (deletes : s.Deletes next id chan) : next.Sound := by
  rw [deletes.same]
  exact sound.setChan deletes.there rfl (fun _ => Or.inr ⟨deletes.closed, deletes.empty⟩)
    (fun _ => List.Sublist.refl _) fun c state call _ notIn isIn => absurd isIn notIn

-- What a coroutine that has control again does until its next call.
inductive GoesOn (here next : Machine) : Context Place → Prop where
  | inside {ctx : Context Place} (outside : ∀ place, ctx ≠ .frame place) (idles : here.Idles next) :
      GoesOn here next ctx
  | retries (call : BusCall) (id : ChanId) (turned : here.Turned next call) :
      GoesOn here next (.frame (.waiting call id))
  | deletes (id : ChanId) (chan : Channel) (deletes : here.Deletes next id chan) :
      GoesOn here next (.frame (.closing id))

structure Adds (s next : Machine) : Prop where
  buses : next.buses = s.buses ++ [[]]
  engine : next.engine = s.engine
  chans : next.chans = s.chans
  count : next.opened = s.opened
  log : next.log = s.log

structure Plain (s : Machine) (action : Action) : Prop where
  stays : ∀ c, s.engine.jump ≠ some (.coro c)
  keeps : ∀ bus channel id, action = .close bus channel →
    s.findChannel bus channel ≠ some (some id)

inductive Stepped (s next : Machine) : Action → Prop where
  | idles {action : Action} (plain : s.Plain action) (silent : action.busCall = none)
      (idles : s.Idles next) : Stepped s next action
  | adds (plain : s.Plain .busNew) (adds : s.Adds next) : Stepped s next .busNew
  | opens (bus : BusId) (sizeLimit : Nat) (channels : List (Option ChanId)) (chan : Channel)
      (plain : s.Plain (.open_ (some bus) sizeLimit))
      (there : s.buses[bus]? = some channels) (limit : chan.sizeLimit = sizeLimit)
      (opens : s.Opens next bus (freeSlot channels) chan) :
      Stepped s next (.open_ (some bus) sizeLimit)
  | shuts (bus : Option BusId) (channel : Int) (id : ChanId) (chan : Channel)
      (woken : Engine Place) (c : CoroId) (idle : s.engine.jump = none)
      (shuts : s.Shuts next bus channel id chan woken c) :
      Stepped s next (.close bus channel)
  | calls {action : Action} (plain : s.Plain action) (call : BusCall)
      (made : action.busCall = some call) (turned : s.Turned next call) : Stepped s next action
  | resumes (here : Machine) (c : CoroId) (ctx : Context Place) (arrives : s.Arrives here c ctx)
      (goesOn : here.GoesOn next ctx) : Stepped s next .resume

theorem Adds.sound {s next : Machine} (sound : s.Sound) (adds : s.Adds next) : next.Sound := by
  have slots (bus slot : Nat) : next.slotAt bus slot = s.slotAt bus slot := by
    rw [slotAt, slotAt, adds.buses, List.getElem?_append]
    split
    · rfl
    · next large =>
        rw [List.getElem?_eq_none (Nat.not_lt.mp large), List.getElem?_singleton]
        split <;> rfl
  refine ⟨adds.engine ▸ sound.engine, ?_, ?_, ?_, ?_, ?_, ?_, ?_, ?_⟩
  · unfold Waits
    rw [adds.engine, adds.chans]
    exact sound.queued
  · rw [adds.chans]
    exact sound.distinct
  · intro c state call id waits
    rw [Waits, adds.engine] at waits
    obtain ⟨bus, chan, there, runs, found⟩ := sound.waiting c state call id waits
    constructor
    · rw [findChannel_ne_none] at bus ⊢
      intro b same
      rw [adds.buses, List.length_append]
      exact Nat.lt_of_lt_of_le (bus b same) (Nat.le_add_right _ _)
    · rw [adds.chans]
      refine ⟨chan, there, runs, fun stillOpen => ?_⟩
      obtain ⟨b, busEq, positive, slot⟩ := findChannel_some (found stillOpen)
      rw [busEq]
      exact findChannel_slotAt positive ((slots _ _).trans slot)
  · unfold Closes
    rw [adds.engine, adds.chans]
    exact sound.closing
  · rw [adds.chans]
    exact sound.freed
  · intro bus slot id at_
    rw [slots] at at_
    rw [adds.chans]
    exact sound.slots bus slot id at_
  · intro bus slot bus' slot' id at_ at_'
    rw [slots] at at_ at_'
    exact sound.slotsDistinct bus slot bus' slot' id at_ at_'
  · rw [adds.chans, adds.count]
    exact sound.fresh

theorem GoesOn.sound {here next : Machine} {ctx : Context Place} (sound : here.Sound)
    (goesOn : here.GoesOn next ctx) : next.Sound := by
  cases goesOn with
  | inside outside idles => exact idles.sound sound
  | retries call id turned => exact turned.sound sound
  | deletes id chan deletes => exact deletes.sound sound

theorem Stepped.sound {s next : Machine} {action : Action} (sound : s.Sound)
    (stepped : s.Stepped next action) : next.Sound := by
  cases stepped with
  | idles plain silent idles => exact idles.sound sound
  | adds plain adds => exact adds.sound sound
  | opens bus sizeLimit channels chan plain there limit opens => exact opens.sound sound
  | shuts bus channel id chan woken c idle shuts => exact shuts.sound sound
  | calls plain call made turned => exact turned.sound sound
  | resumes here c ctx arrives goesOn => exact goesOn.sound (arrives.sound sound)

theorem coroBusNew_adds (s : Machine) : s.Adds s.coroBusNew := ⟨rfl, rfl, rfl, rfl, rfl⟩

theorem idles_engine {s : Machine} {e : Engine Place} (rule : e.Valid ∧ s.engine.Quiet e) :
    s.Idles { s with engine := e } :=
  ⟨rule.1, rule.2, rfl, rfl, rfl, Or.inl rfl⟩

theorem idles_join {s : Machine} {target : CoroId} {result : Engine Place × Option Nat}
    (rule : result.1.Valid ∧ s.engine.Quiet result.1) : s.Idles (s.joinResult target result) := by
  unfold joinResult
  split
  · exact ⟨rule.1, rule.2, rfl, rfl, rfl, Or.inl rfl⟩
  · exact ⟨rule.1, rule.2, rfl, rfl, rfl, Or.inr ⟨_, _, _, rfl⟩⟩

theorem call_stepped {s next : Machine} (sound : s.Sound) (idle : s.engine.jump = none)
    {action : Action} (called : s.call action = some next) : s.Stepped next action := by
  have valid := sound.engine
  have plain (other : ∀ bus channel, action ≠ .close bus channel) : s.Plain action :=
    ⟨by simp [idle], fun bus channel _ same => absurd same (other bus channel)⟩
  cases action with
  | resume => cases called
  | run =>
      rw [call] at called
      split at called
      · cases called
      · next main =>
          rw [not_not] at main
          rw [Option.map_eq_some_iff] at called
          obtain ⟨e, turned, rfl⟩ := called
          exact .idles (plain (by simp)) rfl (idles_engine (Engine.runTurn_rule valid idle main turned))
  | new =>
      rw [call, Option.map_eq_some_iff] at called
      obtain ⟨e, spawned, rfl⟩ := called
      exact .idles (plain (by simp)) rfl (idles_engine (Engine.spawn_rule valid spawned))
  | yield =>
      rw [call, Option.map_eq_some_iff] at called
      obtain ⟨e, yielded, rfl⟩ := called
      obtain ⟨valid', c, leaves, schedule, -⟩ := Engine.yield_rule valid idle (by simp) yielded
      exact .idles (plain (by simp)) rfl (idles_engine ⟨valid', leaves.quiet valid (by simp) ⟨[c], schedule⟩⟩)
  | suspend =>
      rw [call, Option.map_eq_some_iff] at called
      obtain ⟨e, suspended, rfl⟩ := called
      obtain ⟨valid', c, leaves, schedule⟩ := Engine.suspend_rule valid idle (by simp) suspended
      exact .idles (plain (by simp)) rfl
        (idles_engine ⟨valid', leaves.quiet valid (by simp) ⟨[], by simp [schedule]⟩⟩)
  | wakeup target =>
      rw [call, Option.map_eq_some_iff] at called
      obtain ⟨e, woken, rfl⟩ := called
      obtain ⟨valid', quiet, -⟩ := Engine.wakeup_rule valid woken
      exact .idles (plain (by simp)) rfl (idles_engine ⟨valid', quiet⟩)
  | join target =>
      rw [call, Option.map_eq_some_iff] at called
      obtain ⟨⟨e, ret⟩, joined, rfl⟩ := called
      exact .idles (plain (by simp)) rfl (idles_join (Engine.join_rule valid idle joined))
  | finish ret =>
      rw [call, Option.map_eq_some_iff] at called
      obtain ⟨e, done, rfl⟩ := called
      exact .idles (plain (by simp)) rfl (idles_engine (Engine.finish_rule valid idle done))
  | busNew =>
      cases called
      exact .adds (plain (by simp)) s.coroBusNew_adds
  | open_ bus sizeLimit =>
      obtain ⟨b, channels, chan, rfl, there, limit, opens⟩ := open_opens called
      exact .opens b sizeLimit channels chan (plain (by simp)) there limit opens
  | close bus channel =>
      rcases close_shuts sound idle called with ⟨found, rfl⟩ | ⟨id, chan, woken, c, shuts⟩
      · have plain : next.Plain (.close bus channel) := by
          refine ⟨by simp [idle], ?_⟩
          rintro bus' channel' id ⟨⟩
          simp [found]
        exact .idles plain rfl ⟨valid, Engine.Quiet.refl _, rfl, rfl, rfl, Or.inl rfl⟩
      · exact .shuts bus channel id chan woken c idle shuts
  | send bus channel data => exact .calls (plain (by simp)) _ rfl (busTurn_turned sound idle called)
  | trySend bus channel data => exact .calls (plain (by simp)) _ rfl (busTurn_turned sound idle called)
  | recv bus channel => exact .calls (plain (by simp)) _ rfl (busTurn_turned sound idle called)
  | tryRecv bus channel => exact .calls (plain (by simp)) _ rfl (busTurn_turned sound idle called)

theorem arrives_plain {s : Machine} (sound : s.Sound) {c : CoroId} {ctx : Context Place}
    {e : Engine Place} (jump : s.engine.jump = some (.coro c))
    (landed : s.engine.land c = some (e, ctx))
    (outside : ∀ call id, ctx ≠ .frame (.waiting call id)) :
    s.Arrives { s with engine := e } c ctx := by
  obtain ⟨valid, lands⟩ := Engine.land_rule sound.engine jump landed
  refine ⟨jump, lands, valid, rfl, rfl, rfl, fun id => without_none sound ?_ id⟩
  intro state call id waits
  have before := lands.before
  rw [show s.engine.look c = _ from waits] at before
  cases before
  exact outside call id rfl

-- The asserts on the way of a coroutine back from its queue hold.
theorem resume_waiting {s : Machine} (sound : s.Sound) {c : CoroId} {state : CoroState}
    {call : BusCall} {id : ChanId} (jump : s.engine.jump = some (.coro c))
    (waits : s.Waits c state call id) :
    ∃ here, s.Arrives here c (.frame (.waiting call id)) ∧ s.resume = here.busTurn call := by
  obtain ⟨free, idle⟩ := sound.engine.unlinked jump
  obtain ⟨e, landed⟩ := Engine.land_frame waits free idle
  obtain ⟨valid, lands⟩ := Engine.land_rule sound.engine jump landed
  have unlinks : ∃ here, unlink { s with engine := e } c call id = some here := by
    obtain ⟨-, chan, there, -, -⟩ := sound.waiting c state call id waits
    rw [unlink, show Machine.chans { s with engine := e } id = some chan from there]
    dsimp only
    split
    · next linked =>
        rw [if_neg]
        · exact ⟨_, rfl⟩
        · intro freed
          rw [(sound.freed id chan there freed).2] at linked
          cases linked
    · exact ⟨_, rfl⟩
  obtain ⟨here, unlinked⟩ := unlinks
  obtain ⟨chans, engine, buses, count, log⟩ := unlink_chans sound waits (by rfl) unlinked
  refine ⟨here, ⟨jump, ?_, ?_, buses, count, log, chans⟩, ?_⟩
  · rw [engine]
    exact lands
  · rw [engine]
    exact valid
  · simp only [resume, jump, landed, goOn, unlinked]
    rfl

theorem resume_stepped {s next : Machine} (sound : s.Sound) (resumed : s.resume = some next) :
    s.Stepped next .resume := by
  unfold resume at resumed
  split at resumed
  · cases resumed
  · next jump =>
      rw [Option.map_eq_some_iff] at resumed
      obtain ⟨e, landed, rfl⟩ := resumed
      have plain : s.Plain .resume := ⟨by simp [jump], by simp⟩
      exact .idles plain rfl (idles_engine (Engine.landSched_rule sound.engine jump landed))
  · next c jump =>
      split at resumed
      · cases resumed
      · next e ctx landed =>
          have idle (here : Machine) (arrives : s.Arrives here c ctx) : here.Idles here :=
            ⟨arrives.valid, Engine.Quiet.refl _, rfl, rfl, rfl, Or.inl rfl⟩
          cases ctx with
          | active => cases resumed
          | start | restart | code =>
              cases resumed
              have arrives := arrives_plain sound jump landed (by simp)
              exact .resumes _ c _ arrives (.inside (by simp) (idle _ arrives))
          | joining target =>
              have arrives := arrives_plain sound jump landed (by simp)
              rw [goOn, Option.map_eq_some_iff] at resumed
              obtain ⟨⟨e', ret⟩, turned, rfl⟩ := resumed
              refine .resumes _ c _ arrives (.inside (by simp) (idles_join ?_))
              exact Engine.joinTurn_rule arrives.valid arrives.lands.jump turned
          | frame place =>
              obtain ⟨valid, lands⟩ := Engine.land_rule sound.engine jump landed
              cases place with
              | waiting call id =>
                  obtain ⟨here, arrives, same⟩ := resume_waiting sound jump lands.before
                  have turned : here.busTurn call = some next := by
                    rw [← same, ← resumed]
                    simp only [resume, jump, landed]
                  have idle : here.engine.jump = none := arrives.lands.jump
                  exact .resumes here c _ arrives
                    (.retries call id (busTurn_turned (arrives.sound sound) idle turned))
              | closing id =>
                  have arrives := arrives_plain sound jump landed (by simp)
                  -- All that waited on the channel was before this coroutine in the queue.
                  obtain ⟨chan, there, closed, before⟩ :=
                    sound.closing c .running id lands.before
                  have empty (side : Side) : chan.queue side = [] := by
                    rw [List.eq_nil_iff_forall_not_mem]
                    intro d mem
                    have earlier := before side d mem
                    rw [lands.schedule, List.takeWhile_cons_of_neg (by simp)] at earlier
                    cases earlier
                  rw [goOn, deleteChannel, show Machine.chans _ id = _ from there] at resumed
                  dsimp only at resumed
                  split at resumed
                  · cases resumed
                  · cases resumed
                    exact .resumes _ c _ arrives (.deletes id chan ⟨there, closed, empty, rfl⟩)

theorem step_stepped {s next : Machine} (sound : s.Sound) {action : Action}
    (stepped : s.step action = some next) : s.Stepped next action := by
  unfold step at stepped
  split at stepped
  · next idle => exact call_stepped sound idle stepped
  · split at stepped
    · next same =>
        subst same
        exact resume_stepped sound stepped
    · cases stepped

theorem init_sound : init.Sound where
  engine := Engine.create_valid
  queued := nofun
  distinct := nofun
  waiting := nofun
  closing := nofun
  freed := nofun
  slots := nofun
  slotsDistinct := nofun
  fresh := fun _ _ => rfl

theorem reaches_sound {s : Machine} (reached : Run.Reaches step init s) : s.Sound :=
  reached.invariant (fun _ _ _ sound stepped => (step_stepped sound stepped).sound sound) init_sound

end Machine

end SystemProg.Coroutine
