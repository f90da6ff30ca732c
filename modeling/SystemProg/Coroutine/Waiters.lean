import SystemProg.Coroutine.Bus
import SystemProg.Coroutine.Rules
import SystemProg.Lib.Run

set_option autoImplicit false

-- An entry is linked in the queue of a channel only while its coroutine is in
-- `wakeup_queue_suspend_this` for that queue. A coroutine there that has no linked entry, or whose
-- channel is closed, is RUNNING.

namespace SystemProg.Coroutine

def Channel.without (c : CoroId) (chan : Channel) : Channel :=
  { chan with queue := fun side => (chan.queue side).erase c }

namespace Machine

def slotAt (s : Machine) (bus : BusId) (slot : Nat) : Option ChanId :=
  (s.buses[bus]?.bind fun channels => channels[slot]?).join

def Waits (s : Machine) (c : CoroId) (state : CoroState) (call : BusCall) (id : ChanId) : Prop :=
  s.engine.look c = some (state, .frame (.waiting call id))

def Closes (s : Machine) (c : CoroId) (state : CoroState) (id : ChanId) : Prop :=
  s.engine.look c = some (state, .frame (.closing id))

structure Sound (s : Machine) : Prop where
  engine : s.engine.Valid
  queued : ∀ id chan side c, s.chans id = some chan → c ∈ chan.queue side →
    ∃ state call, s.Waits c state call id ∧ call.side = side
  distinct : ∀ id chan side, s.chans id = some chan → (chan.queue side).Nodup
  waiting : ∀ c state call id, s.Waits c state call id →
    s.findChannel call.bus call.channel ≠ none ∧
      ∃ chan, s.chans id = some chan ∧
        (state = .running ∨ chan.closed = false ∧ c ∈ chan.queue call.side) ∧
        (chan.closed = false → s.findChannel call.bus call.channel = some (some id))
  closing : ∀ c state id, s.Closes c state id →
    ∃ chan, s.chans id = some chan ∧ chan.closed = true ∧
      ∀ side, ∀ d ∈ chan.queue side, d ∈ s.engine.schedule.takeWhile (· ≠ c)
  freed : ∀ id chan, s.chans id = some chan → chan.freed = true →
    chan.closed = true ∧ ∀ side, chan.queue side = []
  slots : ∀ bus slot id, s.slotAt bus slot = some id →
    ∃ chan, s.chans id = some chan ∧ chan.closed = false
  slotsDistinct : ∀ bus slot bus' slot' id, s.slotAt bus slot = some id →
    s.slotAt bus' slot' = some id → bus = bus' ∧ slot = slot'
  fresh : ∀ id, s.opened ≤ id → s.chans id = none

theorem findChannel_some {s : Machine} {bus : Option BusId} {channel : Int} {id : ChanId}
    (found : s.findChannel bus channel = some (some id)) :
    ∃ b, bus = some b ∧ 0 ≤ channel ∧ s.slotAt b channel.toNat = some id := by
  unfold findChannel at found
  split at found
  · cases found
  · next b =>
      split at found
      · cases found
      · next channels there =>
          rw [Option.some_inj] at found
          split at found
          · cases found
          · next large =>
              refine ⟨b, rfl, by omega, ?_⟩
              rw [slotAt, there]
              exact found

theorem findChannel_slotAt {s : Machine} {bus : BusId} {channel : Int} {id : ChanId}
    (positive : 0 ≤ channel) (slot : s.slotAt bus channel.toNat = some id) :
    s.findChannel (some bus) channel = some (some id) := by
  unfold slotAt at slot
  cases there : s.buses[bus]? with
  | none =>
      rw [there] at slot
      cases slot
  | some channels =>
      rw [there] at slot
      simp only [findChannel, there]
      rw [if_neg (by omega)]
      exact congrArg some slot

theorem findChannel_ne_none {s : Machine} {bus : Option BusId} {channel : Int} :
    s.findChannel bus channel ≠ none ↔ ∀ b, bus = some b → b < s.buses.length := by
  cases bus with
  | none => simp [findChannel]
  | some b =>
      cases there : s.buses[b]? with
      | none =>
          rw [List.getElem?_eq_none_iff] at there
          simp only [findChannel, List.getElem?_eq_none_iff.mpr there, ne_eq, not_true,
            Option.some.injEq, forall_eq', false_iff]
          exact Nat.not_lt.mpr there
      | some channels =>
          obtain ⟨small, -⟩ := List.getElem?_eq_some_iff.mp there
          simp only [findChannel, there, ne_eq, reduceCtorEq, not_false_iff, Option.some.injEq,
            forall_eq', true_iff]
          exact small

theorem findChannel_congr {s next : Machine} (buses : next.buses = s.buses) :
    next.findChannel = s.findChannel := by
  funext bus channel
  simp only [findChannel, buses]

theorem Sound.found {s : Machine} (sound : s.Sound) {bus : Option BusId} {channel : Int}
    {id : ChanId} (found : s.findChannel bus channel = some (some id)) :
    ∃ chan, s.chans id = some chan ∧ chan.closed = false ∧ chan.freed = false := by
  obtain ⟨b, -, -, slot⟩ := findChannel_some found
  obtain ⟨chan, there, opened⟩ := sound.slots b _ id slot
  refine ⟨chan, there, opened, ?_⟩
  by_contra freed
  have closed := (sound.freed id chan there (by simpa using freed)).1
  rw [opened] at closed
  cases closed

theorem Sound.quiet {s next : Machine} (sound : s.Sound) (valid : next.engine.Valid)
    (quiet : s.engine.Quiet next.engine) (buses : next.buses = s.buses)
    (chans : next.chans = s.chans) (opened : next.opened = s.opened) : next.Sound where
  engine := valid
  queued := by
    intro id chan side c there mem
    rw [chans] at there
    obtain ⟨state, call, waits, same⟩ := sound.queued id chan side c there mem
    obtain ⟨state', waits', -⟩ := quiet.forth c state _ waits
    exact ⟨state', call, waits', same⟩
  distinct := by
    rw [chans]
    exact sound.distinct
  waiting := by
    intro c state call id waits
    obtain ⟨state', waits'⟩ := quiet.back c state _ waits
    obtain ⟨bus, chan, there, runs, found⟩ := sound.waiting c state' call id waits'
    rw [chans, findChannel_congr buses]
    refine ⟨bus, chan, there, ?_, found⟩
    rcases runs with running | linked
    · obtain ⟨state'', look, runs⟩ := quiet.forth c state' _ waits'
      rw [show next.engine.look c = _ from waits] at look
      cases look
      exact Or.inl (runs running)
    · exact Or.inr linked
  closing := by
    intro c state id closes
    obtain ⟨state', closes'⟩ := quiet.back c state _ closes
    obtain ⟨chan, there, closed, before⟩ := sound.closing c state' id closes'
    obtain ⟨added, schedule⟩ := quiet.grows
    rw [chans, schedule]
    refine ⟨chan, there, closed, fun side d mem => ?_⟩
    have earlier := before side d mem
    rw [List.takeWhile_append]
    split
    · exact List.mem_append_left _ (List.takeWhile_subset _ earlier)
    · exact earlier
  freed := by
    rw [chans]
    exact sound.freed
  slots := by
    intro bus slot id there
    rw [slotAt, buses] at there
    rw [chans]
    exact sound.slots bus slot id there
  slotsDistinct := by
    intro bus slot bus' slot' id there there'
    rw [slotAt, buses] at there there'
    exact sound.slotsDistinct bus slot bus' slot' id there there'
  fresh := by
    rw [chans, opened]
    exact sound.fresh

theorem setChan_chans (s : Machine) (id : ChanId) (chan : Channel) (id' : ChanId) :
    (s.setChan id chan).chans id' = if id' = id then some chan else s.chans id' := by
  exact Function.update_apply _ _ _ _

theorem Sound.setChan {s : Machine} (sound : s.Sound) {id : ChanId} {chan chan' : Channel}
    (there : s.chans id = some chan) (closed : chan'.closed = chan.closed)
    (freed : chan'.freed = true →
      chan.freed = true ∨ chan.closed = true ∧ ∀ side, chan.queue side = [])
    (sub : ∀ side, (chan'.queue side).Sublist (chan.queue side))
    (taken : ∀ c state call, s.Waits c state call id → c ∉ chan'.queue call.side →
      c ∈ chan.queue call.side → state = .running) : (s.setChan id chan').Sound where
  engine := sound.engine
  queued := by
    intro id' chan'' side c there' mem
    rw [setChan_chans] at there'
    split at there'
    · next same =>
        cases there'
        subst same
        exact sound.queued id' chan side c there ((sub side).subset mem)
    · exact sound.queued id' chan'' side c there' mem
  distinct := by
    intro id' chan'' side there'
    rw [setChan_chans] at there'
    split at there'
    · cases there'
      exact (sub side).nodup (sound.distinct id chan side there)
    · exact sound.distinct id' chan'' side there'
  waiting := by
    intro c state call id' waits
    obtain ⟨bus, chan'', there', runs, found⟩ := sound.waiting c state call id' waits
    refine ⟨bus, ?_⟩
    rw [setChan_chans]
    split
    · next same =>
        subst same
        rw [there] at there'
        cases there'
        refine ⟨chan', rfl, ?_, by rw [closed]; exact found⟩
        by_cases linked : c ∈ chan'.queue call.side
        · rcases runs with running | ⟨opened, -⟩
          · exact Or.inl running
          · exact Or.inr ⟨closed.trans opened, linked⟩
        · rcases runs with running | ⟨-, before⟩
          · exact Or.inl running
          · exact Or.inl (taken c state call waits linked before)
    · exact ⟨chan'', there', runs, found⟩
  closing := by
    intro c state id' closes
    obtain ⟨chan'', there', closed', before⟩ := sound.closing c state id' closes
    rw [setChan_chans]
    split
    · next same =>
        subst same
        rw [there] at there'
        cases there'
        exact ⟨chan', rfl, closed.trans closed', fun side d mem =>
          before side d ((sub side).subset mem)⟩
    · exact ⟨chan'', there', closed', before⟩
  freed := by
    intro id' chan'' there' freed'
    rw [setChan_chans] at there'
    split at there'
    · cases there'
      obtain ⟨closed', empty⟩ := (freed freed').elim (sound.freed id chan there) fun both => both
      refine ⟨closed.trans closed', fun side => ?_⟩
      have sub' := sub side
      rw [empty side] at sub'
      exact List.sublist_nil.mp sub'
    · exact sound.freed id' chan'' there' freed'
  slots := by
    intro bus slot id' at_
    obtain ⟨chan'', there', opened⟩ := sound.slots bus slot id' at_
    rw [setChan_chans]
    split
    · next same =>
        subst same
        rw [there] at there'
        cases there'
        exact ⟨chan', rfl, closed.trans opened⟩
    · exact ⟨chan'', there', opened⟩
  slotsDistinct := sound.slotsDistinct
  fresh := by
    intro id' large
    have none := sound.fresh id' large
    rw [setChan_chans]
    split
    · next same =>
        subst same
        rw [there] at none
        cases none
    · exact none

theorem Sound.notQueued {s : Machine} (sound : s.Sound) {c : CoroId}
    (outside : ∀ state call id, ¬s.Waits c state call id) {id : ChanId} {chan : Channel}
    (there : s.chans id = some chan) (side : Side) : c ∉ chan.queue side := by
  intro mem
  obtain ⟨state, call, waits, -⟩ := sound.queued id chan side c there mem
  exact outside state call id waits

theorem setQueue_queue (chan : Channel) (side side' : Side) (queue : List CoroId) :
    (chan.setQueue side queue).queue side' = if side' = side then queue else chan.queue side' := by
  exact Function.update_apply _ _ _ _

theorem Sound.suspend {s next : Machine} (sound : s.Sound) {c : CoroId} {call : BusCall}
    {id : ChanId} {chan : Channel} (found : s.findChannel call.bus call.channel = some (some id))
    (there : s.chans id = some chan) (valid : next.engine.Valid)
    (leaves : s.engine.Leaves next.engine c .suspended (.frame (.waiting call id)))
    (schedule : next.engine.schedule = s.engine.schedule) (buses : next.buses = s.buses)
    (chans : next.chans =
      (s.setChan id (chan.setQueue call.side (chan.queue call.side ++ [c]))).chans)
    (count : next.opened = s.opened) : next.Sound := by
  have current := sound.engine.currentLook leaves.current
  have outside : ∀ state call id, ¬s.Waits c state call id := by
    intro state call id waits
    rw [Waits, current] at waits
    cases waits
  have opened : chan.closed = false ∧ chan.freed = false := by
    obtain ⟨chan', there', opened⟩ := sound.found found
    rw [there] at there'
    cases there'
    exact opened
  -- A coroutine other than `c` is where it was.
  have others {d : CoroId} {state : CoroState} {ctx : Context Place}
      (look : next.engine.look d = some (state, ctx)) (other : d ≠ c) : s.engine.look d = some (state, ctx) :=
    (leaves.changes.others d other).symm.trans look
  have lookup (id' : ChanId) : next.chans id' =
      if id' = id then some (chan.setQueue call.side (chan.queue call.side ++ [c]))
      else s.chans id' := by
    rw [chans]
    exact setChan_chans s id _ id'
  have queues (side : Side) : (chan.setQueue call.side (chan.queue call.side ++ [c])).queue side =
      if side = call.side then chan.queue side ++ [c] else chan.queue side := by
    rw [setQueue_queue]
    split
    · next same => rw [same]
    · rfl
  have slots (bus slot : Nat) : next.slotAt bus slot = s.slotAt bus slot := by
    rw [slotAt, slotAt, buses]
  refine ⟨valid, ?_, ?_, ?_, ?_, ?_, ?_, ?_, ?_⟩
  · intro id' chan' side d there' mem
    have keeps (queued : ∃ state call, s.Waits d state call id' ∧ call.side = side) :
        ∃ state call, next.Waits d state call id' ∧ call.side = side := by
      obtain ⟨state, call', waits, same⟩ := queued
      refine ⟨state, call', ?_, same⟩
      exact (leaves.changes.others d fun isC => outside state call' id' (isC ▸ waits)).trans waits
    rw [lookup] at there'
    split at there'
    · next same =>
        cases there'
        rw [queues] at mem
        split at mem
        · next same' =>
            rcases List.mem_append.mp mem with before | last
            · exact keeps (same ▸ sound.queued id chan side d there before)
            · obtain rfl := List.mem_singleton.mp last
              exact ⟨.suspended, call, same ▸ leaves.changes.here, same'.symm⟩
        · exact keeps (same ▸ sound.queued id chan side d there mem)
    · exact keeps (sound.queued id' chan' side d there' mem)
  · intro id' chan' side there'
    rw [lookup] at there'
    split at there'
    · cases there'
      rw [queues]
      split
      · rw [List.nodup_append]
        refine ⟨sound.distinct id chan side there, by simp, ?_⟩
        rintro d before d' last rfl
        obtain rfl := List.mem_singleton.mp last
        exact sound.notQueued outside there side before
      · exact sound.distinct id chan side there
    · exact sound.distinct id' chan' side there'
  · intro d state call' id' waits
    by_cases same : d = c
    · subst same
      have here := leaves.changes.here
      rw [show next.engine.look d = _ from waits] at here
      cases here
      rw [findChannel_congr buses, found]
      refine ⟨by simp, _, (lookup id).trans (if_pos rfl), Or.inr ⟨opened.1, ?_⟩, fun _ => rfl⟩
      rw [queues, if_pos rfl]
      simp
    · obtain ⟨bus, chan', there', runs, found'⟩ :=
        sound.waiting d state call' id' (others waits same)
      rw [findChannel_congr buses, lookup]
      refine ⟨bus, ?_⟩
      split
      · next same' =>
          subst same'
          rw [there] at there'
          cases there'
          refine ⟨_, rfl, runs.imp_right fun linked => ⟨linked.1, ?_⟩, found'⟩
          rw [queues]
          split
          · exact List.mem_append_left _ linked.2
          · exact linked.2
      · exact ⟨chan', there', runs, found'⟩
  · intro d state id' closes
    have other : d ≠ c := by
      rintro rfl
      have here := leaves.changes.here
      rw [show next.engine.look d = _ from closes] at here
      cases here
    obtain ⟨chan', there', closed, before⟩ := sound.closing d state id' (others closes other)
    rw [lookup]
    split
    · next same =>
        rw [same, there] at there'
        cases there'
        rw [opened.1] at closed
        cases closed
    · rw [schedule]
      exact ⟨chan', there', closed, before⟩
  · intro id' chan' there' freed
    rw [lookup] at there'
    split at there'
    · cases there'
      rw [show chan.freed = true from freed] at opened
      cases opened.2
    · exact sound.freed id' chan' there' freed
  · intro bus slot id' at_
    rw [slots] at at_
    obtain ⟨chan', there', opened'⟩ := sound.slots bus slot id' at_
    rw [lookup]
    split
    · exact ⟨_, rfl, opened.1⟩
    · exact ⟨chan', there', opened'⟩
  · intro bus slot bus' slot' id' at_ at_'
    rw [slots] at at_ at_'
    exact sound.slotsDistinct bus slot bus' slot' id' at_ at_'
  · intro id' large
    rw [count] at large
    rw [lookup]
    have none := sound.fresh id' large
    split
    · next same =>
        rw [same, there] at none
        cases none
    · exact none

theorem Sound.land {s next : Machine} (sound : s.Sound) {c : CoroId} {ctx : Context Place}
    (lands : s.engine.Lands next.engine c .running ctx) (valid : next.engine.Valid)
    (buses : next.buses = s.buses) (count : next.opened = s.opened)
    (chans : ∀ id, next.chans id = (s.chans id).map (Channel.without c)) : next.Sound := by
  have lookup {id : ChanId} {chan' : Channel} (there' : next.chans id = some chan') :
      ∃ chan, s.chans id = some chan ∧ chan' = chan.without c := by
    rw [chans, Option.map_eq_some_iff] at there'
    obtain ⟨chan, there, same⟩ := there'
    exact ⟨chan, there, same.symm⟩
  have away {d : CoroId} {state : CoroState} {place : Place}
      (look : next.engine.look d = some (state, .frame place)) :
      d ≠ c ∧ s.engine.look d = some (state, .frame place) := by
    have other : d ≠ c := by
      rintro rfl
      rw [lands.changes.here] at look
      cases look
    exact ⟨other, (lands.changes.others d other).symm.trans look⟩
  have slots (bus slot : Nat) : next.slotAt bus slot = s.slotAt bus slot := by
    rw [slotAt, slotAt, buses]
  refine ⟨valid, ?_, ?_, ?_, ?_, ?_, ?_, ?_, ?_⟩
  · intro id chan' side d there' mem
    obtain ⟨chan, there, rfl⟩ := lookup there'
    obtain ⟨other, mem⟩ := (sound.distinct id chan side there).mem_erase_iff.mp mem
    obtain ⟨state, call, waits, same⟩ := sound.queued id chan side d there mem
    exact ⟨state, call, (lands.changes.others d other).trans waits, same⟩
  · intro id chan' side there'
    obtain ⟨chan, there, rfl⟩ := lookup there'
    exact (sound.distinct id chan side there).erase c
  · intro d state call id waits
    obtain ⟨other, waits⟩ := away waits
    obtain ⟨bus, chan, there, runs, found⟩ := sound.waiting d state call id waits
    rw [findChannel_congr buses, chans, there]
    refine ⟨bus, _, rfl, runs.imp_right fun linked => ⟨linked.1, ?_⟩, found⟩
    exact (List.mem_erase_of_ne other).mpr linked.2
  · intro d state id closes
    obtain ⟨other, closes⟩ := away closes
    obtain ⟨chan, there, closed, before⟩ := sound.closing d state id closes
    rw [chans, there]
    refine ⟨_, rfl, closed, fun side x mem => ?_⟩
    obtain ⟨notC, mem⟩ := (sound.distinct id chan side there).mem_erase_iff.mp mem
    have earlier := before side x mem
    rw [lands.schedule, List.takeWhile_cons_of_pos (by simpa using Ne.symm other)] at earlier
    exact (List.mem_cons.mp earlier).resolve_left notC
  · intro id chan' there' freed
    obtain ⟨chan, there, rfl⟩ := lookup there'
    obtain ⟨closed, empty⟩ := sound.freed id chan there freed
    exact ⟨closed, fun side => by simp [Channel.without, empty side]⟩
  · intro bus slot id at_
    rw [slots] at at_
    obtain ⟨chan, there, opened⟩ := sound.slots bus slot id at_
    rw [chans, there]
    exact ⟨_, rfl, opened⟩
  · intro bus slot bus' slot' id at_ at_'
    rw [slots] at at_ at_'
    exact sound.slotsDistinct bus slot bus' slot' id at_ at_'
  · intro id large
    rw [count] at large
    rw [chans, sound.fresh id large]
    rfl

theorem without_eq {c : CoroId} {chan : Channel} (outside : ∀ side, c ∉ chan.queue side) :
    chan.without c = chan := by
  have same : (fun side => (chan.queue side).erase c) = chan.queue := by
    funext side
    exact List.erase_of_not_mem (outside side)
  rw [Channel.without, same]

theorem without_none {s : Machine} (sound : s.Sound) {c : CoroId}
    (outside : ∀ state call id, ¬s.Waits c state call id) (id : ChanId) :
    s.chans id = (s.chans id).map (Channel.without c) := by
  cases there : s.chans id with
  | none => rfl
  | some chan =>
      rw [Option.map_some, without_eq fun side => sound.notQueued outside there side]

-- Only the entry in the queue that the coroutine waits in can be linked.
theorem unlink_chans {s landed next : Machine} (sound : s.Sound) {c : CoroId} {state : CoroState}
    {call : BusCall} {id : ChanId} (waits : s.Waits c state call id) (same : landed.chans = s.chans)
    (unlinked : landed.unlink c call id = some next) :
    (∀ id', next.chans id' = (s.chans id').map (Channel.without c)) ∧
      next.engine = landed.engine ∧ next.buses = landed.buses ∧ next.opened = landed.opened ∧
      next.log = landed.log := by
  have only {id' : ChanId} {chan : Channel} {side : Side} (there : s.chans id' = some chan)
      (mem : c ∈ chan.queue side) : id' = id ∧ side = call.side := by
    obtain ⟨state', call', waits', same⟩ := sound.queued id' chan side c there mem
    rw [Waits, show s.engine.look c = _ from waits] at waits'
    cases waits'
    exact ⟨rfl, same.symm⟩
  unfold unlink at unlinked
  rw [same] at unlinked
  cases there : s.chans id with
  | none =>
      rw [there] at unlinked
      cases unlinked
  | some chan =>
      rw [there] at unlinked
      dsimp only at unlinked
      split at unlinked
      · split at unlinked
        · cases unlinked
        · cases unlinked
          refine ⟨fun id' => ?_, rfl, rfl, rfl, rfl⟩
          rw [setChan_chans, same]
          split
          · next equal =>
              rw [equal, there, Option.map_some]
              congr 1
              have queues : Function.update chan.queue call.side ((chan.queue call.side).erase c) =
                  fun side => (chan.queue side).erase c := by
                funext side
                rw [Function.update_apply]
                split
                · next equal => rw [equal]
                · next other =>
                    exact (List.erase_of_not_mem fun mem => other (only there mem).2).symm
              rw [Channel.setQueue, queues, Channel.without]
          · next other =>
              cases there' : s.chans id' with
              | none => rfl
              | some chan' =>
                  rw [Option.map_some, without_eq fun side mem => other (only there' mem).1]
      · next unlinkedAlready =>
          cases unlinked
          refine ⟨fun id' => ?_, rfl, rfl, rfl, rfl⟩
          rw [same]
          cases there' : s.chans id' with
          | none => rfl
          | some chan' =>
              rw [Option.map_some, without_eq fun side mem => ?_]
              obtain ⟨rfl, rfl⟩ := only there' mem
              rw [there] at there'
              cases there'
              exact unlinkedAlready mem

theorem wakeup_running {c : CoroId} {e next : Engine Place} (valid : e.Valid)
    (woken : e.wakeup (.coro c) = some next) {state : CoroState} {place : Place}
    (look : next.look c = some (state, .frame place)) : state = .running := by
  rcases Engine.wakeup_cases woken with ⟨rfl, awake⟩ | ⟨d, ctx, same, wakes⟩
  · obtain ⟨state', ctx, look', notAsleep⟩ := awake c rfl
    rw [look] at look'
    cases look'
    cases state with
    | running => rfl
    | suspended => exact absurd rfl notAsleep
    | finished => cases valid.finished c _ look
  · cases same
    rw [wakes.changes.here] at look
    cases look
    rfl

theorem wakeupAll_rule {queue : List CoroId} {e next : Engine Place} (valid : e.Valid)
    (woken : wakeupAll queue e = some next) :
    next.Valid ∧ e.Quiet next ∧ next.thisCoro = e.thisCoro ∧ next.jump = e.jump ∧
      ∀ c ∈ queue, ∀ state place, next.look c = some (state, .frame place) → state = .running := by
  induction queue generalizing e with
  | nil =>
      cases woken
      exact ⟨valid, Engine.Quiet.refl next, rfl, rfl, nofun⟩
  | cons c rest ih =>
      rw [wakeupAll, Option.bind_eq_some_iff] at woken
      obtain ⟨middle, first, others⟩ := woken
      obtain ⟨valid', quiet, thisCoro, jump⟩ := Engine.wakeup_rule valid first
      obtain ⟨valid'', quiet', thisCoro', jump', runs⟩ := ih valid' others
      refine ⟨valid'', quiet.trans quiet', thisCoro'.trans thisCoro, jump'.trans jump, ?_⟩
      intro d mem state place look
      rcases List.mem_cons.mp mem with rfl | mem
      · obtain ⟨state', look'⟩ := quiet'.back d state place look
        obtain rfl := wakeup_running valid first look'
        obtain ⟨state'', look'', running⟩ := quiet'.forth d _ place look'
        rw [look] at look''
        cases look''
        exact running rfl
      · exact runs d mem state place look

theorem slotAt_set {s : Machine} {bus : BusId} {channels : List (Option ChanId)}
    (there : s.buses[bus]? = some channels) (channels' : List (Option ChanId)) (bus' slot : Nat) :
    (s.setChannels bus channels').slotAt bus' slot =
      if bus' = bus then channels'[slot]?.join else s.slotAt bus' slot := by
  obtain ⟨small, -⟩ := List.getElem?_eq_some_iff.mp there
  unfold slotAt setChannels
  by_cases same : bus' = bus
  · subst same
    rw [List.getElem?_set_self small, if_pos rfl]
    rfl
  · rw [List.getElem?_set_ne (Ne.symm same), if_neg same]

theorem clearSlot_slotAt (s : Machine) (bus : BusId) (channel : Int) (bus' slot : Nat) :
    (s.clearSlot (some bus) channel).slotAt bus' slot =
      if bus' = bus ∧ slot = channel.toNat then none else s.slotAt bus' slot := by
  cases there : s.buses[bus]? with
  | none =>
      simp only [clearSlot, there]
      split
      · next both =>
          rw [both.1, slotAt, there]
          rfl
      · rfl
  | some channels =>
      simp only [clearSlot, there]
      rw [slotAt_set there]
      by_cases same : bus' = bus
      · rw [if_pos same, List.getElem?_set]
        by_cases same' : slot = channel.toNat
        · rw [if_pos same'.symm]
          split <;> exact (if_pos ⟨same, same'⟩).symm
        · rw [if_neg fun equal => same' equal.symm, if_neg fun both => same' both.2, slotAt, same,
            there]
          rfl
      · rw [if_neg same, if_neg fun both => same both.1]

theorem clearSlot_length (s : Machine) (bus : Option BusId) (channel : Int) :
    (s.clearSlot bus channel).buses.length = s.buses.length := by
  unfold clearSlot setChannels
  split
  · rfl
  · split
    · rfl
    · simp

theorem Sound.close {s next : Machine} (sound : s.Sound) {bus : Option BusId} {channel : Int}
    {id : ChanId} {chan : Channel} (found : s.findChannel bus channel = some (some id))
    (there : s.chans id = some chan)
    (runs : ∀ c state call, s.Waits c state call id → state = .running)
    (engine : next.engine = s.engine) (count : next.opened = s.opened)
    (chans : next.chans = (s.setChan id { chan with closed := true }).chans)
    (buses : next.buses = (s.clearSlot bus channel).buses) : next.Sound := by
  obtain ⟨b, rfl, positive, slot⟩ := findChannel_some found
  have opened : chan.closed = false ∧ chan.freed = false := by
    obtain ⟨chan', there', opened⟩ := sound.found found
    rw [there] at there'
    cases there'
    exact opened
  have lookup (id' : ChanId) : next.chans id' =
      if id' = id then some { chan with closed := true } else s.chans id' := by
    rw [chans]
    exact setChan_chans s id _ id'
  have slots (bus' slot' : Nat) : next.slotAt bus' slot' =
      if s.slotAt bus' slot' = some id then none else s.slotAt bus' slot' := by
    have cleared := clearSlot_slotAt s b channel bus' slot'
    rw [slotAt, ← buses] at cleared
    rw [slotAt, cleared]
    by_cases same : s.slotAt bus' slot' = some id
    · obtain ⟨rfl, rfl⟩ := sound.slotsDistinct bus' slot' b channel.toNat id same slot
      rw [if_pos ⟨rfl, rfl⟩, if_pos same]
    · rw [if_neg same, if_neg]
      rintro ⟨rfl, rfl⟩
      exact same slot
  have other {bus' slot' : Nat} {id' : ChanId} (at_ : next.slotAt bus' slot' = some id') :
      s.slotAt bus' slot' = some id' ∧ id' ≠ id := by
    rw [slots] at at_
    split at at_
    · cases at_
    · next notId => exact ⟨at_, fun same => notId (same ▸ at_)⟩
  refine ⟨engine ▸ sound.engine, ?_, ?_, ?_, ?_, ?_, ?_, ?_, ?_⟩
  · intro id' chan' side d there' mem
    have waits (queued : ∃ state call, s.Waits d state call id' ∧ call.side = side) :
        ∃ state call, next.Waits d state call id' ∧ call.side = side := by
      unfold Waits
      rw [engine]
      exact queued
    rw [lookup] at there'
    split at there'
    · next same =>
        cases there'
        exact waits (same ▸ sound.queued id chan side d there mem)
    · exact waits (sound.queued id' chan' side d there' mem)
  · intro id' chan' side there'
    rw [lookup] at there'
    split at there'
    · cases there'
      exact sound.distinct id chan side there
    · exact sound.distinct id' chan' side there'
  · intro d state call id' waits
    rw [Waits, engine] at waits
    obtain ⟨bus', chan', there', runs', found'⟩ := sound.waiting d state call id' waits
    constructor
    · rw [findChannel_ne_none, buses, clearSlot_length, ← findChannel_ne_none]
      exact bus'
    · rw [lookup]
      split
      · next same => exact ⟨_, rfl, Or.inl (runs d state call (same ▸ waits)), nofun⟩
      · next notId =>
          refine ⟨chan', there', runs', fun stillOpen => ?_⟩
          obtain ⟨b', busEq, positive', slot'⟩ := findChannel_some (found' stillOpen)
          rw [busEq]
          apply findChannel_slotAt positive'
          rw [slots, slot', if_neg fun same => notId (Option.some.inj same)]
  · intro d state id' closes
    rw [Closes, engine] at closes
    obtain ⟨chan', there', closed, before⟩ := sound.closing d state id' closes
    rw [lookup, engine]
    split
    · next same =>
        rw [same, there] at there'
        cases there'
        rw [opened.1] at closed
        cases closed
    · exact ⟨chan', there', closed, before⟩
  · intro id' chan' there' freed
    rw [lookup] at there'
    split at there'
    · cases there'
      rw [show chan.freed = true from freed] at opened
      cases opened.2
    · exact sound.freed id' chan' there' freed
  · intro bus' slot' id' at_
    obtain ⟨at_, notId⟩ := other at_
    rw [lookup, if_neg notId]
    exact sound.slots bus' slot' id' at_
  · intro bus' slot' bus'' slot'' id' at_ at_'
    exact sound.slotsDistinct bus' slot' bus'' slot'' id' (other at_).1 (other at_').1
  · intro id' large
    rw [count] at large
    have none := sound.fresh id' large
    rw [lookup]
    split
    · next same =>
        rw [same, there] at none
        cases none
    · exact none

theorem Sound.leaveClosing {s next : Machine} (sound : s.Sound) {c : CoroId} {id : ChanId}
    {chan : Channel} (there : s.chans id = some chan) (closed : chan.closed = true)
    (valid : next.engine.Valid) (leaves : s.engine.Leaves next.engine c .running (.frame (.closing id)))
    (schedule : next.engine.schedule = s.engine.schedule ++ [c]) (outside : c ∉ s.engine.schedule)
    (buses : next.buses = s.buses) (chans : next.chans = s.chans) (count : next.opened = s.opened) :
    next.Sound := by
  have current := sound.engine.currentLook leaves.current
  have notC {d : CoroId} {state : CoroState} {place : Place}
      (look : s.engine.look d = some (state, .frame place)) : d ≠ c := by
    rintro rfl
    rw [current] at look
    cases look
  have slots (bus slot : Nat) : next.slotAt bus slot = s.slotAt bus slot := by
    rw [slotAt, slotAt, buses]
  refine ⟨valid, ?_, ?_, ?_, ?_, ?_, ?_, ?_, ?_⟩
  · intro id' chan' side d there' mem
    rw [chans] at there'
    obtain ⟨state, call, waits, same⟩ := sound.queued id' chan' side d there' mem
    exact ⟨state, call, (leaves.changes.others d (notC waits)).trans waits, same⟩
  · rw [chans]
    exact sound.distinct
  · intro d state call id' waits
    have other : d ≠ c := by
      rintro rfl
      have here := leaves.changes.here
      rw [show next.engine.look d = _ from waits] at here
      cases here
    rw [findChannel_congr buses, chans]
    exact sound.waiting d state call id' ((leaves.changes.others d other).symm.trans waits)
  · intro d state id' closes
    rw [chans, schedule]
    by_cases same : d = c
    · subst same
      have here := leaves.changes.here
      rw [show next.engine.look d = _ from closes] at here
      cases here
      refine ⟨chan, there, closed, fun side x mem => ?_⟩
      -- What waits on a closed channel is RUNNING, so it is in the queue of the engine already.
      obtain ⟨state, call, waits, -⟩ := sound.queued id chan side x there mem
      obtain ⟨-, chan', there', runs, -⟩ := sound.waiting x state call id waits
      rw [there] at there'
      cases there'
      rw [closed] at runs
      obtain rfl := runs.resolve_right (by simp)
      have scheduled : x ∈ s.engine.schedule := by
        refine (sound.engine.runs x _ waits).resolve_right fun this => ?_
        rw [leaves.current] at this
        cases this
        exact notC waits rfl
      rw [List.takeWhile_append_of_pos]
      · simp [scheduled]
      · intro y isScheduled
        simp only [decide_eq_true_eq]
        rintro rfl
        exact outside isScheduled
    · obtain ⟨chan', there', closed', before⟩ :=
        sound.closing d state id' ((leaves.changes.others d same).symm.trans closes)
      refine ⟨chan', there', closed', fun side x mem => ?_⟩
      have earlier := before side x mem
      rw [List.takeWhile_append]
      split
      · exact List.mem_append_left _ (List.takeWhile_subset _ earlier)
      · exact earlier
  · rw [chans]
    exact sound.freed
  · intro bus slot id' at_
    rw [slots] at at_
    rw [chans]
    exact sound.slots bus slot id' at_
  · intro bus slot bus' slot' id' at_ at_'
    rw [slots] at at_ at_'
    exact sound.slotsDistinct bus slot bus' slot' id' at_ at_'
  · rw [chans, count]
    exact sound.fresh

end Machine

end SystemProg.Coroutine
