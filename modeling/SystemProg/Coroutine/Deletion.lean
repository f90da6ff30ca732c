import Mathlib.Data.List.Nodup
import SystemProg.Coroutine.Turns

set_option autoImplicit false

-- The coroutine that closes a channel yields once, and everything that is linked in the channel's
-- queues runs before it. A channel is deleted once, by the coroutine that closed it.

namespace SystemProg.Coroutine

namespace Machine

-- A channel that is being closed is there, and one coroutine closes it.
structure Closers (s : Machine) : Prop where
  alive : ∀ c state id chan, s.Closes c state id → s.chans id = some chan → chan.freed = false
  one : ∀ c state c' state' id, s.Closes c state id → s.Closes c' state' id → c = c'

structure Calm (s next : Machine) : Prop where
  back : ∀ c state id, next.Closes c state id → ∃ state', s.Closes c state' id
  alive : ∀ id chan chan', s.chans id = some chan → next.chans id = some chan' →
    chan'.freed = chan.freed
  frozen : ∀ id chan, s.chans id = some chan → chan.freed = true → next.chans id = some chan

theorem Calm.closers {s next : Machine} (sound : s.Sound) (closers : s.Closers)
    (calm : s.Calm next) : next.Closers where
  alive := by
    intro c state id chan' closes there'
    obtain ⟨state', before⟩ := calm.back c state id closes
    obtain ⟨chan, there, -⟩ := sound.closing c state' id before
    rw [calm.alive id chan chan' there there']
    exact closers.alive c state' id chan before there
  one := by
    intro c state c' state' id closes closes'
    obtain ⟨_, before⟩ := calm.back c state id closes
    obtain ⟨_, before'⟩ := calm.back c' state' id closes'
    exact closers.one _ _ _ _ id before before'

theorem calm_quiet {s next : Machine} (quiet : s.engine.Quiet next.engine)
    (chans : next.chans = s.chans) : s.Calm next where
  back := fun c state id closes => quiet.back c state _ closes
  alive := by
    intro id chan chan' there there'
    rw [chans, there] at there'
    cases there'
    rfl
  frozen := by
    intro id chan there _
    rw [chans, there]

theorem calm_setChan {s next : Machine} {id : ChanId} {chan : Channel} (chan' : Channel)
    (back : ∀ c state id, next.Closes c state id → ∃ state', s.Closes c state' id)
    (there : s.chans id = some chan) (alive : chan.freed = false) (same : chan'.freed = chan.freed)
    (chans : next.chans = (s.setChan id chan').chans) : s.Calm next where
  back := back
  alive := by
    intro id' before after there' after'
    rw [chans, setChan_chans] at after'
    split at after'
    · next equal =>
        rw [equal, there] at there'
        cases there'
        cases after'
        exact same
    · rw [there'] at after'
      cases after'
      rfl
  frozen := by
    intro id' before there' freed
    rw [chans, setChan_chans, if_neg, there']
    rintro rfl
    rw [there] at there'
    cases there'
    rw [alive] at freed
    cases freed

theorem Opens.calm {s next : Machine} {bus : BusId} {slot : Nat} {chan : Channel} (sound : s.Sound)
    (opens : s.Opens next bus slot chan) : s.Calm next := by
  have old {id : ChanId} {chan' : Channel} (there : s.chans id = some chan') :
      next.chans id = some chan' := by
    rw [opens.chans, setChan_chans, if_neg, there]
    rintro rfl
    rw [sound.fresh _ (Nat.le_refl _)] at there
    cases there
  refine ⟨?_, ?_, fun id chan' there _ => old there⟩
  · intro c state id closes
    rw [Closes, opens.engine] at closes
    exact ⟨state, closes⟩
  · intro id before after there there'
    rw [old there] at there'
    cases there'
    rfl

theorem Turned.calm {s next : Machine} {call : BusCall} (sound : s.Sound)
    (turned : s.Turned next call) : s.Calm next := by
  have alive {id : ChanId} {chan : Channel}
      (found : s.findChannel call.bus call.channel = some (some id))
      (there : s.chans id = some chan) : chan.freed = false := by
    obtain ⟨chan', there', -, notFreed⟩ := sound.found found
    rw [there] at there'
    cases there'
    exact notFreed
  cases turned with
  | gone found same => exact same ▸ calm_quiet (Engine.Quiet.refl _) rfl
  | wouldBlock id chan found there notReady trying same =>
      exact same ▸ calm_quiet (Engine.Quiet.refl _) rfl
  | moved id chan moves =>
      obtain ⟨rest, -, chans⟩ := moves.queue
      obtain ⟨-, -, freed, -⟩ := transfer_queue s.engine.thisCoro call id chan
      apply calm_setChan _ _ moves.there (alive moves.found moves.there) _ chans
      · exact fun c state id closes => moves.quiet.back c state _ closes
      · exact freed
  | blocked id chan c blocks =>
      apply calm_setChan _ _ blocks.there (alive blocks.found blocks.there) (by rfl) blocks.chans
      intro d state id' closes
      have other : d ≠ c := by
        rintro rfl
        have here := blocks.leaves.changes.here
        rw [show next.engine.look d = _ from closes] at here
        cases here
      exact ⟨state, (blocks.leaves.changes.others d other).symm.trans closes⟩

theorem Shuts.closers {s next : Machine} {bus : Option BusId} {channel : Int} {id : ChanId}
    {chan : Channel} {woken : Engine Place} {d : CoroId} (sound : s.Sound) (closers : s.Closers)
    (shuts : s.Shuts next bus channel id chan woken d) : next.Closers := by
  obtain ⟨chan', there', opened, notFreed⟩ := sound.found shuts.found
  obtain rfl : chan = chan' := Option.some.inj (shuts.there.symm.trans there')
  have lookup (id' : ChanId) : next.chans id' =
      if id' = id then some { chan with closed := true } else s.chans id' := by
    rw [shuts.chans]
    exact setChan_chans s id _ id'
  have before {c : CoroId} {state : CoroState} {id' : ChanId} (closes : next.Closes c state id') :
      c = d ∧ id' = id ∨ (∃ state', s.Closes c state' id') ∧ id' ≠ id := by
    by_cases same : c = d
    · subst same
      have here := shuts.leaves.changes.here
      rw [show next.engine.look c = _ from closes] at here
      cases here
      exact Or.inl ⟨rfl, rfl⟩
    · obtain ⟨state', closes'⟩ :=
        shuts.quiet.back c state _ ((shuts.leaves.changes.others c same).symm.trans closes)
      refine Or.inr ⟨⟨state', closes'⟩, ?_⟩
      rintro rfl
      obtain ⟨chan', again, closed, -⟩ := sound.closing c state' _ closes'
      rw [there'] at again
      cases again
      rw [opened] at closed
      cases closed
  constructor
  · intro c state id' chan' closes there''
    rw [lookup] at there''
    rcases before closes with ⟨-, rfl⟩ | ⟨⟨state', closes'⟩, other⟩
    · rw [if_pos rfl] at there''
      cases there''
      exact notFreed
    · rw [if_neg other] at there''
      exact closers.alive c state' id' chan' closes' there''
  · intro c state c' state' id' closes closes'
    rcases before closes with ⟨rfl, same⟩ | ⟨⟨_, first⟩, other⟩ <;>
      rcases before closes' with ⟨rfl, same'⟩ | ⟨⟨_, second⟩, other'⟩
    · rfl
    · exact absurd same other'
    · exact absurd same' other
    · exact closers.one _ _ _ _ id' first second

theorem Shuts.frozen {s next : Machine} {bus : Option BusId} {channel : Int} {id : ChanId}
    {chan : Channel} {woken : Engine Place} {d : CoroId} (sound : s.Sound)
    (shuts : s.Shuts next bus channel id chan woken d) (id' : ChanId) (chan' : Channel)
    (there : s.chans id' = some chan') (freed : chan'.freed = true) :
    next.chans id' = some chan' := by
  obtain ⟨chan'', there'', -, notFreed⟩ := sound.found shuts.found
  rw [shuts.chans, setChan_chans, if_neg, there]
  rintro rfl
  rw [there] at there''
  cases there''
  rw [freed] at notFreed
  cases notFreed

theorem Arrives.calm {s here : Machine} {d : CoroId} {ctx : Context Place} (sound : s.Sound)
    (arrives : s.Arrives here d ctx) : s.Calm here where
  back := by
    intro c state id closes
    have other : c ≠ d := by
      rintro rfl
      have active := arrives.lands.changes.here
      rw [show here.engine.look c = _ from closes] at active
      cases active
    exact ⟨state, (arrives.lands.changes.others c other).symm.trans closes⟩
  alive := by
    intro id chan chan' there there'
    rw [arrives.chans, there] at there'
    cases there'
    rfl
  frozen := by
    intro id chan there freed
    rw [arrives.chans, there, Option.map_some, without_eq]
    simp [(sound.freed id chan there freed).2]

theorem Deletes.closers {s here next : Machine} {d : CoroId} {id : ChanId} {chan : Channel}
    (closers : s.Closers) (after : here.Closers)
    (arrives : s.Arrives here d (.frame (.closing id))) (back : ∀ c state id,
      here.Closes c state id → ∃ state', s.Closes c state' id)
    (deletes : here.Deletes next id chan) : next.Closers := by
  have engine : next.engine = here.engine := by
    rw [deletes.same]
    rfl
  have closes {c : CoroId} {state : CoroState} {id' : ChanId} (closing : next.Closes c state id') :
      here.Closes c state id' := by
    rw [Closes, engine] at closing
    exact closing
  constructor
  · intro c state id' chan' closing there
    rw [deletes.same, setChan_chans, if_neg] at there
    · exact after.alive c state id' chan' (closes closing) there
    · rintro rfl
      obtain ⟨state', before⟩ := back c state _ (closes closing)
      obtain rfl := closers.one _ _ _ _ _ before arrives.lands.before
      have active := arrives.lands.changes.here
      rw [show here.engine.look c = _ from closes closing] at active
      cases active
  · intro c state c' state' id' closing closing'
    exact after.one _ _ _ _ id' (closes closing) (closes closing')

theorem step_closers {s next : Machine} (sound : s.Sound) (closers : s.Closers) {action : Action}
    (taken : s.step action = some next) :
    next.Closers ∧ ∀ id chan, s.chans id = some chan → chan.freed = true →
      next.chans id = some chan := by
  have calmly (calm : s.Calm next) : next.Closers ∧ ∀ id chan, s.chans id = some chan →
      chan.freed = true → next.chans id = some chan :=
    ⟨calm.closers sound closers, calm.frozen⟩
  cases step_stepped sound taken with
  | idles plain silent idles => exact calmly (calm_quiet idles.quiet idles.chans)
  | adds plain adds =>
      apply calmly
      apply calm_quiet _ adds.chans
      rw [adds.engine]
      exact Engine.Quiet.refl _
  | opens bus sizeLimit channels chan plain there limit opens => exact calmly (opens.calm sound)
  | calls plain call made turned => exact calmly (turned.calm sound)
  | shuts bus channel id chan woken d idle shuts =>
      exact ⟨shuts.closers sound closers, shuts.frozen sound⟩
  | resumes here d ctx arrives goesOn =>
      have sound' := arrives.sound sound
      have calm := arrives.calm sound
      have closers' := calm.closers sound closers
      have onward (calm' : here.Calm next) : next.Closers ∧ ∀ id chan, s.chans id = some chan →
          chan.freed = true → next.chans id = some chan :=
        ⟨calm'.closers sound' closers', fun id chan there freed =>
          calm'.frozen id chan (calm.frozen id chan there freed) freed⟩
      cases goesOn with
      | inside outside idles => exact onward (calm_quiet idles.quiet idles.chans)
      | retries call id turned => exact onward (turned.calm sound')
      | deletes id chan deletes =>
          refine ⟨deletes.closers closers closers' arrives calm.back, ?_⟩
          intro id' chan' there freed
          have before := calm.frozen id' chan' there freed
          rw [deletes.same, setChan_chans, if_neg, before]
          intro same
          rw [same] at there
          have alive := closers.alive _ _ _ chan' arrives.lands.before there
          rw [freed] at alive
          cases alive

theorem reaches_closers {s : Machine} (reached : Run.Reaches step init s) : s.Closers := by
  have preserved (s : Machine) (action : Action) (next : Machine) (before : s.Sound ∧ s.Closers)
      (taken : s.step action = some next) : next.Sound ∧ next.Closers :=
    ⟨(step_stepped before.1 taken).sound before.1, (step_closers before.1 before.2 taken).1⟩
  have first : init.Closers := ⟨nofun, nofun⟩
  exact (reached.invariant preserved ⟨init_sound, first⟩).2

-- What waits on a channel that is being closed runs before its closer.
theorem Sound.closerLast {s : Machine} (sound : s.Sound) {c : CoroId} {state : CoroState}
    {id : ChanId} (jump : s.engine.jump = some (.coro c)) (closes : s.Closes c state id)
    {chan : Channel} (there : s.chans id = some chan) (side : Side) : chan.queue side = [] := by
  obtain ⟨chan', there', -, before⟩ := sound.closing c state id closes
  rw [there] at there'
  cases there'
  rw [List.eq_nil_iff_forall_not_mem]
  intro d mem
  have earlier := before side d mem
  have front : s.engine.schedule.head? = some c := by
    simp [Engine.schedule, jump, CoroRef.coro?]
  cases schedule : s.engine.schedule with
  | nil =>
      rw [schedule] at earlier
      cases earlier
  | cons first rest =>
      rw [schedule] at front earlier
      cases front
      rw [List.takeWhile_cons_of_neg (by simp)] at earlier
      cases earlier

theorem Sound.closerDeletes {s : Machine} (sound : s.Sound) (closers : s.Closers) {c : CoroId}
    {state : CoroState} {id : ChanId} (jump : s.engine.jump = some (.coro c))
    (closes : s.Closes c state id) :
    ∃ chan next, s.chans id = some chan ∧ chan.freed = false ∧ (∀ side, chan.queue side = []) ∧
      s.step .resume = some next ∧ next.chans id = some { chan with freed := true } := by
  obtain ⟨chan, there, -⟩ := sound.closing c state id closes
  have alive := closers.alive c state id chan closes there
  obtain ⟨free, idle⟩ := sound.engine.unlinked jump
  obtain ⟨e, landed⟩ := Engine.land_frame closes free idle
  refine ⟨chan, Machine.setChan { s with engine := e } id { chan with freed := true }, there, alive,
    sound.closerLast jump closes there, ?_, ?_⟩
  · rw [step, if_neg (by simp [jump]), if_pos rfl]
    simp only [resume, jump, landed, goOn, deleteChannel, there]
    rw [if_neg (by simp [alive])]
  · rw [setChan_chans, if_pos rfl]

theorem entries_unlinked_before_delete {s : Machine} (reached : Run.Reaches step init s) :
    (∀ c id chan side, s.chans id = some chan → c ∈ chan.queue side →
      (chan.queue side).count c = 1 ∧
      (∃ state call, s.Waits c state call id ∧ call.side = side) ∧
      ∀ id' chan' side', s.chans id' = some chan' → c ∈ chan'.queue side' →
        id' = id ∧ side' = side) ∧
    (∀ c state id, s.engine.jump = some (.coro c) → s.Closes c state id →
      ∃ chan next, s.chans id = some chan ∧ chan.freed = false ∧ (∀ side, chan.queue side = []) ∧
        s.step .resume = some next ∧ next.chans id = some { chan with freed := true }) ∧
    (∀ id chan, s.chans id = some chan → chan.freed = true →
      (∀ side, chan.queue side = []) ∧
      (∀ bus channel, s.findChannel bus channel ≠ some (some id)) ∧
      (∀ c state, ¬s.Closes c state id) ∧
      ∀ action next, s.step action = some next → next.chans id = some chan) := by
  have sound := reaches_sound reached
  have closers := reaches_closers reached
  refine ⟨?_, fun c state id jump closes => sound.closerDeletes closers jump closes, ?_⟩
  · intro c id chan side there mem
    obtain ⟨state, call, waits, same⟩ := sound.queued id chan side c there mem
    refine ⟨List.count_eq_one_of_mem (sound.distinct id chan side there) mem,
      ⟨state, call, waits, same⟩, ?_⟩
    intro id' chan' side' there' mem'
    obtain ⟨state', call', waits', same'⟩ := sound.queued id' chan' side' c there' mem'
    rw [Waits, show s.engine.look c = _ from waits] at waits'
    cases waits'
    exact ⟨rfl, same'.symm.trans same⟩
  · intro id chan there freed
    refine ⟨(sound.freed id chan there freed).2, ?_, ?_, ?_⟩
    · intro bus channel found
      obtain ⟨chan', there', -, alive⟩ := sound.found found
      rw [there] at there'
      cases there'
      rw [freed] at alive
      cases alive
    · intro c state closes
      have alive := closers.alive c state id chan closes there
      rw [freed] at alive
      cases alive
    · intro action next taken
      exact (step_closers sound closers taken).2 id chan there freed

def closedRun : List Action :=
  [.busNew, .open_ (some 0) 1, .new, .new, .run, .resume, .recv (some 0) 0, .resume,
    .close (some 0) 0, .resume, .resume, .finish 0]

def closedMachine : Machine := (Run.exec step init closedRun).get (by decide)

theorem entries_unlinked_before_delete_closed :
    ∃ chan next, closedMachine.chans 0 = some chan ∧ (∀ side, chan.queue side = []) ∧
      closedMachine.step .resume = some next ∧
      next.chans 0 = some { chan with freed := true } := by
  have reached : Run.Reaches step init closedMachine := ⟨closedRun, (Option.some_get _).symm⟩
  obtain ⟨chan, next, there, -, empty, taken, deleted⟩ :=
    (entries_unlinked_before_delete reached).2.1 1 .running 0 rfl rfl
  exact ⟨chan, next, there, empty, taken, deleted⟩

end Machine

end SystemProg.Coroutine
