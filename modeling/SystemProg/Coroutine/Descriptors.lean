import Mathlib.Data.List.ReduceOption
import SystemProg.Coroutine.Deletion
import SystemProg.Coroutine.Order

set_option autoImplicit false

-- A slot of a bus holds its channel from the open to the close, and a channel that has left its
-- slot is held by the coroutine that closes it. The array grows only when all its slots are used.

namespace SystemProg.Coroutine

-- What sending and receiving leave alone.
def Channel.fixed (chan : Channel) : Nat × Bool × Bool := (chan.sizeLimit, chan.closed, chan.freed)

def Action.bus : Action → Option BusId
  | .open_ bus _ | .close bus _ | .send bus _ _ | .trySend bus _ _ | .recv bus _ | .tryRecv bus _ =>
      bus
  | _ => none

-- The channel that a coroutine deletes when it goes on here.
def Context.toDelete : Context Place → List ChanId
  | .frame (.closing id) => [id]
  | _ => []

namespace Machine

def channels (s : Machine) (bus : BusId) : List (Option ChanId) := s.buses[bus]?.getD []

def openCount (s : Machine) (bus : BusId) : Nat := (s.channels bus).reduceOption.length

def arriving (s : Machine) : Option (Context Place) :=
  match s.engine.jump with
  | some (.coro c) => (s.engine.look c).map Prod.snd
  | _ => none

def toDelete (s : Machine) (action : Action) : List ChanId :=
  if action = .resume then (s.arriving.map Context.toDelete).getD [] else []

theorem slotAt_channels (s : Machine) (bus : BusId) (slot : Nat) :
    s.slotAt bus slot = (s.channels bus)[slot]?.join := by
  unfold slotAt channels
  cases s.buses[bus]? <;> simp

theorem channels_buses {s next : Machine} (buses : next.buses = s.buses) (bus : BusId) :
    next.channels bus = s.channels bus := by
  rw [channels, channels, buses]

theorem channels_set {s : Machine} {bus : BusId} {channels : List (Option ChanId)}
    (there : s.buses[bus]? = some channels) (channels' : List (Option ChanId)) (bus' : BusId) :
    (s.setChannels bus channels').channels bus' =
      if bus' = bus then channels' else s.channels bus' := by
  obtain ⟨small, -⟩ := List.getElem?_eq_some_iff.mp there
  unfold Machine.channels setChannels
  by_cases same : bus' = bus
  · rw [same, List.getElem?_set_self small, if_pos rfl]
    rfl
  · rw [List.getElem?_set_ne (Ne.symm same), if_neg same]

def fill (channels : List (Option ChanId)) (id : ChanId) : List (Option ChanId) :=
  if freeSlot channels < channels.length then channels.set (freeSlot channels) (some id)
  else channels ++ [some id]

theorem freeSlot_least {channels : List (Option ChanId)} {slot : Nat}
    (before : slot < freeSlot channels) : ∃ id, channels[slot]?.join = some id := by
  have small : slot < channels.length := Nat.lt_of_lt_of_le before List.idxOf_le_length
  have used := List.not_of_lt_findIdx before
  rw [List.getElem?_eq_getElem small, Option.join_some]
  exact Option.isSome_iff_exists.mp (by simpa using used)

theorem fill_length (channels : List (Option ChanId)) (id : ChanId) :
    (fill channels id).length = channels.length ∨
      channels.length ≤ (fill channels id).length ∧
        (fill channels id).reduceOption.length = (fill channels id).length := by
  unfold fill
  split
  · exact Or.inl (List.length_set ..)
  · next outside =>
      refine Or.inr ⟨by simp, ?_⟩
      have used : none ∉ channels := fun mem => outside (List.idxOf_lt_length_of_mem mem)
      rw [List.reduceOption_length_eq_iff]
      intro slot mem
      rcases List.mem_append.mp mem with mem | mem
      · exact Option.isSome_iff_ne_none.mpr fun same => used (same ▸ mem)
      · rw [List.mem_singleton.mp mem]
        rfl

theorem open_channels {s next : Machine} {bus : BusId} {sizeLimit : Nat}
    (opened : s.coroBusChannelOpen (some bus) sizeLimit = some next) (bus' : BusId) :
    next.channels bus' =
      if bus' = bus then fill (s.channels bus) s.opened else s.channels bus' := by
  unfold coroBusChannelOpen at opened
  dsimp only at opened
  split at opened
  · cases opened
  · next channels there =>
      cases opened
      rw [show s.channels bus = channels by rw [Machine.channels, there]; rfl]
      exact channels_set there (fill channels s.opened) bus'

theorem step_open {s next : Machine} {bus : Option BusId} {sizeLimit : Nat}
    (taken : s.step (.open_ bus sizeLimit) = some next) :
    s.coroBusChannelOpen bus sizeLimit = some next := by
  unfold step at taken
  split at taken
  · exact taken
  · cases taken

theorem clearSlot_channels (s : Machine) (bus : Option BusId) (channel : Int) (bus' : BusId) :
    (s.clearSlot bus channel).channels bus' =
      if bus = some bus' then (s.channels bus').set channel.toNat none else s.channels bus' := by
  cases bus with
  | none => rfl
  | some b =>
      cases there : s.buses[b]? with
      | none =>
          simp only [clearSlot, there]
          split
          · next same =>
              cases same
              rw [Machine.channels, there]
              rfl
          · rfl
      | some channels =>
          simp only [clearSlot, there]
          rw [channels_set there]
          by_cases same : bus' = b
          · rw [if_pos same, if_pos (congrArg some same.symm), same, Machine.channels, there]
            rfl
          · rw [if_neg same, if_neg fun equal => same (Option.some.inj equal).symm]

theorem arriving_eq {s : Machine} {c : CoroId} {state : CoroState} {ctx : Context Place}
    (jump : s.engine.jump = some (.coro c)) (look : s.engine.look c = some (state, ctx)) :
    s.arriving = some ctx := by
  simp only [arriving, jump, look, Option.map_some]

-- No channel is opened, closed or deleted.
structure Tame (s next : Machine) : Prop where
  channels : ∀ bus, next.channels bus = s.channels bus
  log : ∃ events, next.log = s.log ++ events ∧ ∀ bus slot id, .opened bus slot id ∉ events
  count : next.opened = s.opened
  chans : ∀ id, (next.chans id).map Channel.fixed = (s.chans id).map Channel.fixed
  forth : ∀ c state id, s.Closes c state id →
    ∃ state', next.Closes c state' id ∧ (state = .running → state' = .running)
  back : ∀ c state id, next.Closes c state id → ∃ state', s.Closes c state' id

theorem Tame.trans {s middle next : Machine} (first : s.Tame middle) (second : middle.Tame next) :
    s.Tame next where
  channels := fun bus => (second.channels bus).trans (first.channels bus)
  log := by
    obtain ⟨events, log, silent⟩ := first.log
    obtain ⟨events', log', silent'⟩ := second.log
    refine ⟨events ++ events', by rw [log', log, List.append_assoc], ?_⟩
    intro bus slot id mem
    rcases List.mem_append.mp mem with mem | mem
    · exact silent bus slot id mem
    · exact silent' bus slot id mem
  count := second.count.trans first.count
  chans := fun id => (second.chans id).trans (first.chans id)
  forth := by
    intro c state id closes
    obtain ⟨state', closes', runs⟩ := first.forth c state id closes
    obtain ⟨state'', closes'', runs'⟩ := second.forth c state' id closes'
    exact ⟨state'', closes'', fun running => runs' (runs running)⟩
  back := by
    intro c state id closes
    obtain ⟨state', closes'⟩ := second.back c state id closes
    exact first.back c state' id closes'

theorem setChan_fixed {s next : Machine} {id : ChanId} {chan chan' : Channel}
    (there : s.chans id = some chan) (same : chan'.fixed = chan.fixed)
    (chans : next.chans = (s.setChan id chan').chans) (id' : ChanId) :
    (next.chans id').map Channel.fixed = (s.chans id').map Channel.fixed := by
  rw [chans, setChan_chans]
  split
  · next equal => rw [equal, there, Option.map_some, Option.map_some, same]
  · rfl

theorem tame_quiet {s next : Machine} {events : List Event}
    (quiet : s.engine.Quiet next.engine) (channels : ∀ bus, next.channels bus = s.channels bus)
    (chans : ∀ id, (next.chans id).map Channel.fixed = (s.chans id).map Channel.fixed)
    (count : next.opened = s.opened) (log : next.log = s.log ++ events)
    (silent : ∀ bus slot id, .opened bus slot id ∉ events) : s.Tame next where
  channels := channels
  log := ⟨events, log, silent⟩
  count := count
  chans := chans
  forth := fun c state _ closes => quiet.forth c state _ closes
  back := fun c state _ closes => quiet.back c state _ closes

theorem tame_refuse (s : Machine) (call : BusCall) (code : ErrorCode) :
    s.Tame (s.refuse call code) := by
  have log : (s.refuse call code).log = s.log ++ [.refused s.engine.thisCoro call code] := rfl
  exact tame_quiet (Engine.Quiet.refl _) (fun _ => rfl) (fun _ => rfl) rfl log (by simp)

theorem Turned.tame {s next : Machine} {call : BusCall} (sound : s.Sound)
    (turned : s.Turned next call) : s.Tame next := by
  cases turned with
  | gone found same => exact same ▸ tame_refuse s call .noChannel
  | wouldBlock id chan found there notReady trying same =>
      exact same ▸ tame_refuse s call .wouldBlock
  | moved id chan moves =>
      obtain ⟨rest, -, chans⟩ := moves.queue
      obtain ⟨-, closed, freed, limit⟩ := transfer_queue s.engine.thisCoro call id chan
      have fixed : (transfer s.engine.thisCoro call id chan).1.fixed = chan.fixed := by
        rw [Channel.fixed, closed, freed, limit, Channel.fixed]
      refine tame_quiet moves.quiet (channels_buses moves.buses)
        (setChan_fixed moves.there (by exact fixed) chans) moves.count moves.log ?_
      intro bus slot id' mem
      rw [List.mem_singleton, transfer] at mem
      cases op : call.op <;> rw [op] at mem <;> cases mem
  | blocked id chan c blocks =>
      have here := blocks.leaves.changes.here
      have current := sound.engine.currentLook blocks.leaves.current
      refine ⟨channels_buses blocks.buses, ⟨[], by rw [blocks.log, List.append_nil], by simp⟩,
        blocks.count, setChan_fixed blocks.there (by rfl) blocks.chans, ?_, ?_⟩
      · intro d state id' closes
        have other : d ≠ c := by
          rintro rfl
          rw [Closes, current] at closes
          cases closes
        exact ⟨state, (blocks.leaves.changes.others d other).trans closes, fun running => running⟩
      · intro d state id' closes
        have other : d ≠ c := by
          rintro rfl
          rw [Closes, here] at closes
          cases closes
        exact ⟨state, (blocks.leaves.changes.others d other).symm.trans closes⟩

theorem Idles.tame {s next : Machine} (idles : s.Idles next) : s.Tame next := by
  have chans (id : ChanId) :
      (next.chans id).map Channel.fixed = (s.chans id).map Channel.fixed := by
    rw [idles.chans]
  rcases idles.log with log | ⟨who, target, ret, log⟩
  · exact tame_quiet idles.quiet (channels_buses idles.buses) chans idles.count
      (log.trans (List.append_nil _).symm) (by simp)
  · exact tame_quiet idles.quiet (channels_buses idles.buses) chans idles.count log (by simp)

theorem Adds.tame {s next : Machine} (adds : s.Adds next) : s.Tame next := by
  have channels (bus : BusId) : next.channels bus = s.channels bus := by
    rw [Machine.channels, Machine.channels, adds.buses, List.getElem?_append]
    split
    · rfl
    · next large =>
        rw [List.getElem?_eq_none (Nat.not_lt.mp large), List.getElem?_singleton]
        split <;> rfl
  have quiet : s.engine.Quiet next.engine := by
    rw [adds.engine]
    exact Engine.Quiet.refl _
  exact tame_quiet quiet channels (by simp [adds.chans]) adds.count
    (adds.log.trans (List.append_nil _).symm) (by simp)

theorem Arrives.fixed {s here : Machine} {c : CoroId} {ctx : Context Place}
    (arrives : s.Arrives here c ctx) (id : ChanId) :
    (here.chans id).map Channel.fixed = (s.chans id).map Channel.fixed := by
  rw [arrives.chans, Option.map_map]
  rfl

theorem Arrives.closers {s here : Machine} {c : CoroId} {ctx : Context Place}
    (arrives : s.Arrives here c ctx) (d : CoroId) (state : CoroState) (id : ChanId) :
    here.Closes d state id ↔ s.Closes d state id ∧ d ≠ c := by
  have here' := arrives.lands.changes.here
  constructor
  · intro closes
    have other : d ≠ c := by
      rintro rfl
      rw [Closes, here'] at closes
      cases closes
    exact ⟨(arrives.lands.changes.others d other).symm.trans closes, other⟩
  · rintro ⟨closes, other⟩
    exact (arrives.lands.changes.others d other).trans closes

theorem Arrives.tame {s here : Machine} {c : CoroId} {ctx : Context Place}
    (arrives : s.Arrives here c ctx) (outside : ∀ id, ctx ≠ .frame (.closing id)) : s.Tame here where
  channels := channels_buses arrives.buses
  log := ⟨[], by rw [arrives.log, List.append_nil], by simp⟩
  count := arrives.count
  chans := arrives.fixed
  forth := by
    intro d state id closes
    refine ⟨state, (arrives.closers d state id).mpr ⟨closes, ?_⟩, fun running => running⟩
    rintro rfl
    have before := arrives.lands.before
    rw [show s.engine.look d = _ from closes] at before
    cases before
    exact outside id rfl
  back := fun d state id closes => ⟨state, ((arrives.closers d state id).mp closes).1⟩

structure Frees (s next : Machine) (c : CoroId) (id : ChanId) : Prop where
  closes : s.Closes c .running id
  closers : ∀ d state id', next.Closes d state id' ↔ s.Closes d state id' ∧ d ≠ c
  chans : ∀ id', (next.chans id').map Channel.fixed =
    ((s.chans id').map Channel.fixed).map fun (limit, closed, freed) =>
      (limit, closed, freed || decide (id' = id))
  channels : ∀ bus, next.channels bus = s.channels bus
  count : next.opened = s.opened
  log : next.log = s.log

inductive Effect (s next : Machine) : Action → Prop where
  | tame {action : Action} (tame : s.Tame next) (none : s.toDelete action = []) : Effect s next action
  | opens (bus : BusId) (sizeLimit : Nat) (channels : List (Option ChanId)) (chan : Channel)
      (there : s.buses[bus]? = some channels) (limit : chan.sizeLimit = sizeLimit)
      (opens : s.Opens next bus (freeSlot channels) chan)
      (array : ∀ bus', next.channels bus' =
        if bus' = bus then fill (s.channels bus) s.opened else s.channels bus') :
      Effect s next (.open_ (some bus) sizeLimit)
  | shuts (bus : Option BusId) (channel : Int) (id : ChanId) (chan : Channel)
      (woken : Engine Place) (c : CoroId) (shuts : s.Shuts next bus channel id chan woken c) :
      Effect s next (.close bus channel)
  | frees (c : CoroId) (id : ChanId) (frees : s.Frees next c id) (one : s.toDelete .resume = [id]) :
      Effect s next .resume

theorem toDelete_call {s : Machine} {action : Action} (plain : s.Plain action) :
    s.toDelete action = [] := by
  have nobody : s.arriving = none := by
    unfold arriving
    split
    · next c jump => exact absurd jump (plain.stays c)
    · rfl
  rw [toDelete, nobody]
  split <;> rfl

theorem toDelete_resume {s here : Machine} {c : CoroId} {ctx : Context Place}
    (arrives : s.Arrives here c ctx) :
    s.toDelete .resume = ctx.toDelete := by
  rw [toDelete, if_pos rfl, arriving_eq arrives.jump arrives.lands.before]
  rfl

theorem Deletes.frees {s here next : Machine} {c : CoroId} {id : ChanId} {chan : Channel}
    (arrives : s.Arrives here c (.frame (.closing id))) (deletes : here.Deletes next id chan) :
    s.Frees next c id where
  closes := arrives.lands.before
  closers := by
    rw [deletes.same]
    exact arrives.closers
  chans := by
    intro id'
    rw [deletes.same, ← arrives.fixed, setChan_chans]
    split
    · next same =>
        rw [same, deletes.there]
        simp [Channel.fixed]
    · next other =>
        cases here.chans id' <;> simp [other]
  channels := by
    intro bus
    rw [deletes.same]
    exact channels_buses arrives.buses bus
  count := by
    rw [deletes.same]
    exact arrives.count
  log := by
    rw [deletes.same]
    exact arrives.log

theorem step_effect {s next : Machine} (sound : s.Sound) {action : Action}
    (taken : s.step action = some next) : s.Effect next action := by
  cases step_stepped sound taken with
  | idles plain silent idles => exact .tame idles.tame (toDelete_call plain)
  | adds plain adds => exact .tame adds.tame (toDelete_call plain)
  | opens bus sizeLimit channels chan plain there limit opens =>
      exact .opens bus sizeLimit channels chan there limit opens (open_channels (step_open taken))
  | shuts bus channel id chan woken c idle shuts => exact .shuts bus channel id chan woken c shuts
  | calls plain call made turned => exact .tame (turned.tame sound) (toDelete_call plain)
  | resumes here c ctx arrives goesOn =>
      have deleted := toDelete_resume arrives
      cases goesOn with
      | inside outside idles =>
          refine .tame ((arrives.tame fun id => outside _).trans idles.tame) ?_
          rw [deleted]
          unfold Context.toDelete
          split
          · exact absurd rfl (outside _)
          · rfl
      | retries call id turned =>
          exact .tame ((arrives.tame (by simp)).trans (turned.tame (arrives.sound sound))) deleted
      | deletes id chan deletes => exact .frees c id (deletes.frees arrives) deleted

-- Each channel has been opened once, and one slot, one coroutine that closes it or nobody has it.
structure Filed (s : Machine) : Prop where
  logged : ∀ bus slot id, s.slotAt bus slot = some id → .opened bus slot id ∈ s.log
  once : ∀ bus slot bus' slot' id, .opened bus slot id ∈ s.log → .opened bus' slot' id ∈ s.log →
    bus = bus' ∧ slot = slot'
  known : ∀ bus slot id, .opened bus slot id ∈ s.log → id < s.opened
  created : ∀ id < s.opened, ∃ chan, s.chans id = some chan
  placed : ∀ id chan, s.chans id = some chan → chan.freed = false →
    (∃ bus slot, s.slotAt bus slot = some id) ∨ ∃ c, s.Closes c .running id
  closers : ∀ c state id, s.Closes c state id → state = .running

theorem fixed_some {s next : Machine} {id : ChanId}
    (same : (next.chans id).map Channel.fixed = (s.chans id).map Channel.fixed) {chan' : Channel}
    (there' : next.chans id = some chan') :
    ∃ chan, s.chans id = some chan ∧ chan'.fixed = chan.fixed := by
  rw [there', Option.map_some, eq_comm, Option.map_eq_some_iff] at same
  obtain ⟨chan, there, equal⟩ := same
  exact ⟨chan, there, equal.symm⟩

theorem Tame.slotAt {s next : Machine} (tame : s.Tame next) (bus slot : Nat) :
    next.slotAt bus slot = s.slotAt bus slot := by
  rw [slotAt_channels, slotAt_channels, tame.channels]

theorem Tame.filed {s next : Machine} (filed : s.Filed) (tame : s.Tame next) : next.Filed := by
  obtain ⟨events, log, silent⟩ := tame.log
  have before {bus slot : Nat} {id : ChanId} :
      .opened bus slot id ∈ next.log ↔ .opened bus slot id ∈ s.log := by
    rw [log, List.mem_append, or_iff_left (silent bus slot id)]
  have runs (c : CoroId) (state : CoroState) (id : ChanId) (closes : next.Closes c state id) :
      state = .running := by
    obtain ⟨state', closes'⟩ := tame.back c state id closes
    obtain ⟨state'', closes'', running⟩ := tame.forth c state' id closes'
    have same := (show next.engine.look c = _ from closes).symm.trans closes''
    cases same
    exact running (filed.closers c state' id closes')
  refine ⟨?_, ?_, ?_, ?_, ?_, runs⟩
  · intro bus slot id at_
    rw [tame.slotAt] at at_
    exact before.mpr (filed.logged bus slot id at_)
  · intro bus slot bus' slot' id mem mem'
    exact filed.once bus slot bus' slot' id (before.mp mem) (before.mp mem')
  · intro bus slot id mem
    rw [tame.count]
    exact filed.known bus slot id (before.mp mem)
  · intro id small
    rw [tame.count] at small
    obtain ⟨chan, there⟩ := filed.created id small
    obtain ⟨chan', there', -⟩ := fixed_some (tame.chans id).symm there
    exact ⟨chan', there'⟩
  · intro id chan' there' alive
    obtain ⟨chan, there, same⟩ := fixed_some (tame.chans id) there'
    have alive' : chan.freed = false := (congrArg (fun f => f.2.2) same).symm.trans alive
    rcases filed.placed id chan there alive' with ⟨bus, slot, at_⟩ | ⟨c, closes⟩
    · exact Or.inl ⟨bus, slot, (tame.slotAt bus slot).trans at_⟩
    · obtain ⟨state, closes', -⟩ := tame.forth c .running id closes
      obtain rfl := runs c state id closes'
      exact Or.inr ⟨c, closes'⟩

theorem Opens.filed {s next : Machine} {bus : BusId} {slot : Nat} {chan : Channel}
    (filed : s.Filed) (opens : s.Opens next bus slot chan) : next.Filed := by
  have lookup (id : ChanId) : next.chans id =
      if id = s.opened then some chan else s.chans id := by
    rw [opens.chans]
    exact setChan_chans s s.opened chan id
  have before {bus' slot' : Nat} {id : ChanId} (mem : .opened bus' slot' id ∈ next.log) :
      .opened bus' slot' id ∈ s.log ∨ bus' = bus ∧ slot' = slot ∧ id = s.opened := by
    rw [opens.log, List.mem_append, List.mem_singleton, Event.opened.injEq] at mem
    exact mem
  have closes : next.Closes = s.Closes := by
    funext c state id
    rw [Closes, Closes, opens.engine]
  refine ⟨?_, ?_, ?_, ?_, ?_, by rw [closes]; exact filed.closers⟩
  · intro bus' slot' id at_
    rw [opens.log, List.mem_append, List.mem_singleton]
    rw [opens.slots] at at_
    split at at_
    · next both =>
        cases at_
        exact Or.inr (by rw [both.1, both.2])
    · exact Or.inl (filed.logged bus' slot' id at_)
  · intro bus' slot' bus'' slot'' id mem mem'
    rcases before mem with old | ⟨rfl, rfl, rfl⟩
    · rcases before mem' with old' | ⟨-, -, rfl⟩
      · exact filed.once bus' slot' bus'' slot'' id old old'
      · exact absurd (filed.known bus' slot' _ old) (Nat.lt_irrefl _)
    · rcases before mem' with old' | ⟨rfl, rfl, -⟩
      · exact absurd (filed.known bus'' slot'' _ old') (Nat.lt_irrefl _)
      · exact ⟨rfl, rfl⟩
  · intro bus' slot' id mem
    rw [opens.count]
    rcases before mem with old | ⟨-, -, rfl⟩
    · exact Nat.lt_succ_of_lt (filed.known bus' slot' id old)
    · exact Nat.lt_succ_self _
  · intro id small
    rw [lookup]
    split
    · exact ⟨chan, rfl⟩
    · next other =>
        rw [opens.count] at small
        exact filed.created id (Nat.lt_of_le_of_ne (Nat.le_of_lt_succ small) other)
  · intro id chan' there alive
    rw [lookup] at there
    split at there
    · next same => exact Or.inl ⟨bus, slot, by rw [opens.slots, if_pos ⟨rfl, rfl⟩, same]⟩
    · rcases filed.placed id chan' there alive with ⟨bus', slot', at_⟩ | ⟨c, closing⟩
      · refine Or.inl ⟨bus', slot', ?_⟩
        rw [opens.slots, if_neg, at_]
        rintro ⟨rfl, rfl⟩
        rw [opens.free] at at_
        cases at_
      · exact Or.inr ⟨c, by rw [closes]; exact closing⟩

theorem Shuts.slotAt {s next : Machine} {bus : Option BusId} {channel : Int} {id : ChanId}
    {chan : Channel} {woken : Engine Place} {c : CoroId} (sound : s.Sound)
    (shuts : s.Shuts next bus channel id chan woken c) (bus' slot' : Nat) :
    next.slotAt bus' slot' =
      if s.slotAt bus' slot' = some id then none else s.slotAt bus' slot' := by
  obtain ⟨b, rfl, positive, at_⟩ := findChannel_some shuts.found
  have cleared := clearSlot_slotAt s b channel bus' slot'
  rw [Machine.slotAt, ← shuts.buses] at cleared
  rw [Machine.slotAt, cleared]
  by_cases same : s.slotAt bus' slot' = some id
  · obtain ⟨rfl, rfl⟩ := sound.slotsDistinct bus' slot' b channel.toNat id same at_
    rw [if_pos ⟨rfl, rfl⟩, if_pos same]
  · rw [if_neg same, if_neg]
    rintro ⟨rfl, rfl⟩
    exact same at_

theorem Shuts.closes {s next : Machine} {bus : Option BusId} {channel : Int} {id : ChanId}
    {chan : Channel} {woken : Engine Place} {c : CoroId}
    (shuts : s.Shuts next bus channel id chan woken c) :
    next.Closes c .running id ∧
      (∀ d id', s.Closes d .running id' → next.Closes d .running id') ∧
      ∀ d state id', next.Closes d state id' →
        state = .running ∧ d = c ∧ id' = id ∨ ∃ state', s.Closes d state' id' ∧
          (state' = .running → state = .running) := by
  have here := shuts.leaves.changes.here
  refine ⟨here, ?_, ?_⟩
  · intro d id' closes
    obtain ⟨state', closes', runs⟩ := shuts.quiet.forth d .running _ closes
    obtain rfl := runs rfl
    refine (shuts.leaves.changes.others d ?_).trans closes'
    rintro rfl
    rw [shuts.wokenValid.currentLook shuts.leaves.current] at closes'
    cases closes'
  · intro d state id' closes
    by_cases same : d = c
    · subst same
      rw [Closes, here] at closes
      cases closes
      exact Or.inl ⟨rfl, rfl, rfl⟩
    · have awake := (shuts.leaves.changes.others d same).symm.trans closes
      obtain ⟨state', before⟩ := shuts.quiet.back d state _ awake
      obtain ⟨state'', after, runs⟩ := shuts.quiet.forth d state' _ before
      rw [awake] at after
      cases after
      exact Or.inr ⟨state', before, runs⟩

theorem Shuts.filed {s next : Machine} {bus : Option BusId} {channel : Int} {id : ChanId}
    {chan : Channel} {woken : Engine Place} {c : CoroId} (sound : s.Sound) (filed : s.Filed)
    (shuts : s.Shuts next bus channel id chan woken c) : next.Filed := by
  obtain ⟨here, forth, back⟩ := shuts.closes
  have lookup (id' : ChanId) : next.chans id' =
      if id' = id then some { chan with closed := true } else s.chans id' := by
    rw [shuts.chans]
    exact setChan_chans s id _ id'
  refine ⟨?_, by rw [shuts.log]; exact filed.once, ?_, ?_, ?_, ?_⟩
  · intro bus' slot' id' at_
    rw [shuts.slotAt sound] at at_
    rw [shuts.log]
    split at at_
    · cases at_
    · exact filed.logged bus' slot' id' at_
  · rw [shuts.log, shuts.count]
    exact filed.known
  · intro id' small
    rw [lookup]
    split
    · exact ⟨_, rfl⟩
    · rw [shuts.count] at small
      exact filed.created id' small
  · intro id' chan' there alive
    rw [lookup] at there
    split at there
    · next same => exact Or.inr ⟨c, same ▸ here⟩
    · next other =>
        rcases filed.placed id' chan' there alive with ⟨bus', slot', at_⟩ | ⟨d, closing⟩
        · refine Or.inl ⟨bus', slot', ?_⟩
          rw [shuts.slotAt sound, at_, if_neg fun same => other (Option.some.inj same)]
        · exact Or.inr ⟨d, forth d id' closing⟩
  · intro d state id' closes
    rcases back d state id' closes with ⟨running, -⟩ | ⟨state', before, runs⟩
    · exact running
    · exact runs (filed.closers d state' id' before)

theorem Frees.slotAt {s next : Machine} {c : CoroId} {id : ChanId} (frees : s.Frees next c id)
    (bus slot : Nat) : next.slotAt bus slot = s.slotAt bus slot := by
  rw [slotAt_channels, slotAt_channels, frees.channels]

theorem Frees.lookup {s next : Machine} {c : CoroId} {id id' : ChanId} {chan' : Channel}
    (frees : s.Frees next c id) (there' : next.chans id' = some chan') :
    ∃ chan, s.chans id' = some chan ∧ chan'.sizeLimit = chan.sizeLimit ∧
      chan'.closed = chan.closed ∧ chan'.freed = (chan.freed || decide (id' = id)) := by
  have fixed := frees.chans id'
  rw [there', Option.map_some, eq_comm, Option.map_map, Option.map_eq_some_iff] at fixed
  obtain ⟨chan, there, same⟩ := fixed
  simp only [Channel.fixed, Function.comp_apply, Prod.mk.injEq] at same
  exact ⟨chan, there, same.1.symm, same.2.1.symm, same.2.2.symm⟩

theorem Frees.filed {s next : Machine} {c : CoroId} {id : ChanId} (filed : s.Filed)
    (frees : s.Frees next c id) : next.Filed := by
  refine ⟨?_, by rw [frees.log]; exact filed.once, ?_, ?_, ?_, ?_⟩
  · intro bus slot id' at_
    rw [frees.slotAt] at at_
    rw [frees.log]
    exact filed.logged bus slot id' at_
  · rw [frees.log, frees.count]
    exact filed.known
  · intro id' small
    rw [frees.count] at small
    obtain ⟨chan, there⟩ := filed.created id' small
    have fixed := frees.chans id'
    rw [there, Option.map_some, Option.map_some, Option.map_eq_some_iff] at fixed
    obtain ⟨chan', there', -⟩ := fixed
    exact ⟨chan', there'⟩
  · intro id' chan' there' alive
    obtain ⟨chan, there, -, -, freed⟩ := frees.lookup there'
    rw [alive, eq_comm, Bool.or_eq_false_iff, decide_eq_false_iff_not] at freed
    rcases filed.placed id' chan there freed.1 with ⟨bus, slot, at_⟩ | ⟨d, closing⟩
    · exact Or.inl ⟨bus, slot, (frees.slotAt bus slot).trans at_⟩
    · refine Or.inr ⟨d, (frees.closers d .running id').mpr ⟨closing, ?_⟩⟩
      rintro rfl
      have same := (show s.engine.look d = _ from closing).symm.trans frees.closes
      cases same
      exact freed.2 rfl
  · intro d state id' closes
    exact filed.closers d state id' ((frees.closers d state id').mp closes).1

theorem Effect.filed {s next : Machine} {action : Action} (sound : s.Sound) (filed : s.Filed)
    (effect : s.Effect next action) : next.Filed := by
  cases effect with
  | tame tame none => exact tame.filed filed
  | opens bus sizeLimit channels chan there limit opens array => exact opens.filed filed
  | shuts bus channel id chan woken c shuts => exact shuts.filed sound filed
  | frees c id frees one => exact frees.filed filed

theorem init_filed : init.Filed where
  logged := nofun
  once := nofun
  known := nofun
  created := nofun
  placed := nofun
  closers := nofun

theorem reaches_filed {s : Machine} (reached : Run.Reaches step init s) : s.Filed := by
  have preserved (s : Machine) (action : Action) (next : Machine) (before : s.Sound ∧ s.Filed)
      (taken : s.step action = some next) : next.Sound ∧ next.Filed :=
    ⟨(step_stepped before.1 taken).sound before.1,
      (step_effect before.1 taken).filed before.1 before.2⟩
  exact (reached.invariant preserved ⟨init_sound, init_filed⟩).2

theorem Effect.keeps {s next : Machine} {action : Action} (sound : s.Sound)
    (effect : s.Effect next action) {bus slot : Nat} {id : ChanId}
    (at_ : s.slotAt bus slot = some id) (other : action ≠ .close (some bus) slot) :
    next.slotAt bus slot = some id ∧
      (next.chans id).map Channel.fixed = (s.chans id).map Channel.fixed := by
  obtain ⟨chan, there, opened⟩ := sound.slots bus slot id at_
  cases effect with
  | tame tame none => exact ⟨(tame.slotAt bus slot).trans at_, tame.chans id⟩
  | opens bus' sizeLimit channels chan' there' limit opens array =>
      constructor
      · rw [opens.slots, if_neg, at_]
        rintro ⟨rfl, rfl⟩
        rw [opens.free] at at_
        cases at_
      · rw [opens.chans, setChan_chans, if_neg]
        rintro rfl
        rw [sound.fresh _ (Nat.le_refl _)] at there
        cases there
  | shuts bus' channel id' chan' woken c shuts =>
      have apart : id ≠ id' := by
        rintro rfl
        obtain ⟨b, rfl, positive, at'⟩ := findChannel_some shuts.found
        obtain ⟨rfl, same⟩ := sound.slotsDistinct _ _ _ _ id at_ at'
        rw [same, Int.toNat_of_nonneg positive] at other
        exact other rfl
      constructor
      · rw [shuts.slotAt sound, at_, if_neg fun same => apart (Option.some.inj same)]
      · rw [shuts.chans, setChan_chans, if_neg apart]
  | frees c id' frees one =>
      refine ⟨(frees.slotAt bus slot).trans at_, ?_⟩
      have apart : id ≠ id' := by
        rintro rfl
        obtain ⟨chan', there', closed, -⟩ := sound.closing c .running id frees.closes
        rw [there] at there'
        cases there'
        rw [opened] at closed
        cases closed
      rw [frees.chans, there]
      simp [apart]

theorem Effect.channels {s next : Machine} {action : Action} (effect : s.Effect next action)
    {bus : BusId} (other : action.bus ≠ some bus) : next.channels bus = s.channels bus := by
  cases effect with
  | tame tame none => exact tame.channels bus
  | opens bus' sizeLimit channels chan there limit opens array =>
      rw [array, if_neg]
      rintro rfl
      exact other rfl
  | shuts bus' channel id chan woken c shuts =>
      rw [channels_buses shuts.buses, clearSlot_channels]
      exact if_neg other
  | frees c id frees one => exact frees.channels bus

theorem Effect.grows {s next : Machine} {action : Action} (effect : s.Effect next action)
    (bus : BusId) : (next.channels bus).length = (s.channels bus).length ∨
      (s.channels bus).length ≤ (next.channels bus).length ∧
        next.openCount bus = (next.channels bus).length := by
  cases effect with
  | tame tame none => exact Or.inl (by rw [tame.channels])
  | opens bus' sizeLimit channels chan there limit opens array =>
      rw [openCount, array]
      split
      · next same =>
          rw [same]
          exact fill_length _ _
      · exact Or.inl rfl
  | shuts bus' channel id chan woken c shuts =>
      refine Or.inl ?_
      rw [channels_buses shuts.buses, clearSlot_channels]
      split
      · exact List.length_set ..
      · rfl
  | frees c id frees one => exact Or.inl (by rw [frees.channels])

def Deleted (s : Machine) (id : ChanId) : Prop := ∃ chan, s.chans id = some chan ∧ chan.freed = true

theorem deleted_fixed {s next : Machine} {id : ChanId}
    (same : (next.chans id).map Channel.fixed = (s.chans id).map Channel.fixed) :
    next.Deleted id ↔ s.Deleted id := by
  constructor
  · rintro ⟨chan', there', freed⟩
    obtain ⟨chan, there, equal⟩ := fixed_some same there'
    exact ⟨chan, there, (congrArg (fun f => f.2.2) equal).symm.trans freed⟩
  · rintro ⟨chan, there, freed⟩
    obtain ⟨chan', there', equal⟩ := fixed_some same.symm there
    exact ⟨chan', there', (congrArg (fun f => f.2.2) equal).symm.trans freed⟩

theorem Effect.deleted {s next : Machine} {action : Action} (sound : s.Sound)
    (effect : s.Effect next action) (id : ChanId) :
    next.Deleted id ↔ s.Deleted id ∨ id ∈ s.toDelete action := by
  cases effect with
  | tame tame none => rw [deleted_fixed (tame.chans id), none, or_iff_left List.not_mem_nil]
  | opens bus sizeLimit channels chan there limit opens array =>
      rw [toDelete, if_neg (by simp), or_iff_left List.not_mem_nil, Deleted, opens.chans, setChan_chans]
      split
      · next same =>
          have unused := sound.fresh _ (Nat.le_refl s.opened)
          simp [Deleted, same, unused, opens.empty.2.1]
      · rfl
  | shuts bus channel id' chan woken c shuts =>
      rw [toDelete, if_neg (by simp), or_iff_left List.not_mem_nil, Deleted, shuts.chans, setChan_chans]
      split
      · next same => simp [Deleted, same, shuts.there]
      · rfl
  | frees c id' frees one =>
      rw [one, List.mem_singleton]
      constructor
      · rintro ⟨chan', there', freed⟩
        obtain ⟨chan, there, -, -, same⟩ := frees.lookup there'
        rw [freed, eq_comm, Bool.or_eq_true, decide_eq_true_eq] at same
        exact same.imp_left fun before => ⟨chan, there, before⟩
      · have after (chan : Channel) (there : s.chans id = some chan)
            (gone : (chan.freed || decide (id = id')) = true) : next.Deleted id := by
          have fixed := frees.chans id
          rw [there, Option.map_some, Option.map_some, Option.map_eq_some_iff] at fixed
          obtain ⟨chan', there', same⟩ := fixed
          exact ⟨chan', there', (congrArg (fun f => f.2.2) same).trans gone⟩
        rintro (⟨chan, there, freed⟩ | rfl)
        · exact after chan there (by simp [freed])
        · obtain ⟨chan, there, -⟩ := sound.closing c .running id frees.closes
          exact after chan there (by simp)

end Machine

end SystemProg.Coroutine
