import SystemProg.Coroutine.Wakers
import SystemProg.Coroutine.Wakeups

set_option autoImplicit false

-- `coro_engine_run` returns when nobody is RUNNING. A coroutine that has not ended then sleeps in a
-- `coro_suspend` of its own, joins one that has not ended, or waits for a channel.

namespace SystemProg.Coroutine

-- A coroutine can be suspended there; `parks` are such places outside the engine.
def Context.Sleeps {F : Type} (parks : F → Prop) : Context F → Prop
  | .code | .joining _ => True
  | .frame place => parks place
  | .active | .start | .restart => False

namespace Engine

variable {F : Type} {parks : F → Prop} {e next : Engine F} {c : CoroId}

-- A coroutine in `coro_join` is the joiner of its target, and sleeps no longer than until that has
-- ended. The joiner of `late` has not been woken yet.
structure Parked (parks : F → Prop) (late : Option CoroId) (e : Engine F) : Prop where
  places : ∀ c ctx, e.look c = some (.suspended, ctx) → ctx.Sleeps parks
  joins : ∀ c state t, e.look c = some (state, .joining t) → ∃ coro, e.coros t = some coro ∧
    coro.joiner = some (.coro c) ∧ (state = .suspended → coro.state = .finished → late = some t)

theorem create_parked : (create : Engine F).Parked parks none where
  places := by simp [look, create]
  joins := by simp [look, create]

theorem Same.parked {late : Option CoroId} (parked : e.Parked parks late) (same : e.Same next) :
    next.Parked parks late where
  places := by
    simp only [look, same.coros]
    exact parked.places
  joins := by
    simp only [look, same.coros]
    exact parked.joins

theorem Parked.clear {late : CoroId} (parked : e.Parked parks (some late))
    (woken : ∀ j, e.look j ≠ some (.suspended, .joining late)) : e.Parked parks none where
  places := parked.places
  joins := by
    intro c state t joining
    obtain ⟨coro, found, joiner, ended⟩ := parked.joins c state t joining
    refine ⟨coro, found, joiner, ?_⟩
    rintro rfl finished
    obtain rfl : late = t := Option.some_inj.mp (ended rfl finished)
    exact absurd joining (woken c)

-- One object is written. Its own joiner must not lose it, and is late where it ends.
theorem Parked.update {late late' : Option CoroId} {coro coro' : Coro F}
    (parked : e.Parked parks late) (found : e.coros c = some coro)
    (coros : next.coros = Function.update e.coros c (some coro')) (still : late = none ∨ late = late')
    (place : coro'.state = .suspended → coro'.ctx.Sleeps parks)
    (joins : ∀ t, coro'.ctx = .joining t → ∃ object, next.coros t = some object ∧
      object.joiner = some (.coro c) ∧
      (coro'.state = .suspended → object.state = .finished → late' = some t))
    (joined : ∀ j state, j ≠ c → e.look j = some (state, .joining c) →
      coro'.joiner = some (.coro j) ∧
      (state = .suspended → coro'.state = .finished → late' = some c)) :
    next.Parked parks late' where
  places := by
    intro d ctx look
    rw [look_update coros] at look
    split at look
    · simp only [Option.some_inj, Prod.mk.injEq] at look
      obtain ⟨state, rfl⟩ := look
      exact place state
    · exact parked.places d ctx look
  joins := by
    intro j state t look
    rw [look_update coros] at look
    split at look
    · next same =>
        simp only [Option.some_inj, Prod.mk.injEq] at look
        obtain ⟨rfl, ctx⟩ := look
        rw [same]
        exact joins t ctx
    · next other =>
        obtain ⟨object, there, joiner, ended⟩ := parked.joins j state t look
        by_cases same : t = c
        · subst same
          have here := joined j state other look
          exact ⟨coro', by rw [coros_update coros, if_pos rfl], here.1, here.2⟩
        · refine ⟨object, by rw [coros_update coros, if_neg same, there], joiner, ?_⟩
          intro suspended finished
          have was := ended suspended finished
          rcases still with none | same
          · rw [none] at was
            cases was
          · rw [← same, was]

theorem Parked.joinerOf {late : Option CoroId} (parked : e.Parked parks late) {coro : Coro F}
    (found : e.coros c = some coro) {j : CoroId} {state : CoroState}
    (joining : e.look j = some (state, .joining c)) : coro.joiner = some (.coro j) ∧
      (state = .suspended → coro.state = .finished → late = some c) := by
  obtain ⟨object, there, joiner⟩ := parked.joins j state c joining
  rw [found] at there
  cases there
  exact joiner

theorem suspend_parked {late : Option CoroId} {ctx : Context F} (parked : e.Parked parks late)
    (place : ctx.Sleeps parks) (suspended : e.suspend ctx = some next)
    (joins : ∀ t, ctx = .joining t → ∃ a object, e.thisCoro = some (.coro a) ∧
      e.coros t = some object ∧ object.joiner = some (.coro a) ∧ object.state ≠ .finished) :
    next.Parked parks late := by
  obtain ⟨a, coro, current, state, sets⟩ := suspend_sets suspended
  refine parked.update sets.found sets.coros (Or.inr rfl) (fun _ => place) ?_ ?_
  · intro t at_t
    obtain ⟨a', object, current', found, joiner, going⟩ := joins t at_t
    rw [current] at current'
    cases current'
    rw [coros_update sets.coros]
    split
    · next same =>
        rw [same, sets.found] at found
        cases found
        exact ⟨_, rfl, joiner, by simp⟩
    · exact ⟨object, found, joiner, fun _ finished => absurd finished going⟩
  · intro j state' other joining
    exact ⟨(parked.joinerOf sets.found joining).1, by simp⟩

theorem yield_parked {late : Option CoroId} {ctx : Context F} (parked : e.Parked parks late)
    (outside : ∀ t, ctx ≠ .joining t) (yielded : e.yield ctx = some next) :
    next.Parked parks late := by
  obtain ⟨a, coro, -, state, sets⟩ := yield_sets yielded
  refine parked.update sets.found sets.coros (Or.inr rfl) (by simp [state])
    (fun t at_t => absurd at_t (outside t)) ?_
  intro j state' other joining
  exact ⟨(parked.joinerOf sets.found joining).1, by simp [state]⟩

theorem wakeup_parked {late : Option CoroId} (parked : e.Parked parks late)
    (woken : e.wakeup (.coro c) = some next) : next.Parked parks late := by
  obtain ⟨coro, found, ⟨rfl, -⟩ | ⟨state, sets⟩⟩ := wakeup_sets woken
  · exact parked
  · refine parked.update found sets.coros (Or.inr rfl) (by simp) ?_ ?_
    · intro t at_t
      obtain ⟨object, there, joiner, -⟩ := parked.joins c _ t (by rw [look_state found, at_t])
      rw [coros_update sets.coros]
      split
      · next same =>
          rw [same, found] at there
          cases there
          exact ⟨_, rfl, joiner, by simp⟩
      · exact ⟨object, there, joiner, by simp⟩
    · intro j state' other joining
      exact ⟨(parked.joinerOf found joining).1, by simp⟩

-- The joiner is late between the assignment of the state and its wakeup.
theorem finish_parked {ret : Nat} (parked : e.Parked parks none) (done : e.finish ret = some next) :
    next.Parked parks none := by
  obtain ⟨d, coro, middle, -, -, sets, after⟩ := finish_sets done
  have ended : middle.Parked parks (some d) := by
    refine parked.update sets.found sets.coros (Or.inl rfl) (by simp [Coro.done])
      (by simp [Coro.done]) ?_
    intro j state other joining
    exact ⟨(parked.joinerOf sets.found joining).1, fun _ _ => rfl⟩
  have found : middle.coros d = some (coro.done ret) := by
    rw [coros_update sets.coros, if_pos rfl]
  rcases after with ⟨alone, same⟩ | ⟨j, woken, joiner, wakes, same⟩
  · refine same.parked (ended.clear ?_)
    intro k joining
    exact alone k (ended.joinerOf found joining).1
  · refine same.parked ((wakeup_parked ended wakes).clear ?_)
    intro k joining
    obtain ⟨coro', found', ⟨rfl, state⟩ | ⟨-, sets'⟩⟩ := wakeup_sets wakes
    · have joiner' := (ended.joinerOf found joining).1
      obtain rfl : j = k := by simpa [Coro.done, joiner] using joiner'
      rw [look_state found'] at joining
      exact state (Prod.mk.inj (Option.some_inj.mp joining)).1
    · have running : woken.look j = some (.running, coro'.ctx) := by
        rw [look_update sets'.coros, if_pos rfl]
      obtain ⟨object, there, joiner', -⟩ := (wakeup_parked ended wakes).joins k _ d joining
      have joiner'' : object.joiner = some (.coro j) := by
        rw [coros_update sets'.coros] at there
        split at there
        · next same' =>
            cases there
            rw [← same', found] at found'
            cases found'
            exact joiner
        · rw [found] at there
          cases there
          exact joiner
      obtain rfl : j = k := by simpa [joiner''] using joiner'
      rw [running] at joining
      cases joining

theorem spawn_parked (valid : e.Valid) (parked : e.Parked parks none)
    (spawned : e.spawn = some next) : next.Parked parks none := by
  rcases spawn_sets spawned with ⟨-, -, -, -, coros⟩ | ⟨d, rest, coro, pool, -, -, -, found, coros⟩
  · constructor
    · intro c ctx look
      rw [look_update coros] at look
      split at look
      · cases look
      · exact parked.places c ctx look
    · intro c state t look
      rw [look_update coros] at look
      split at look
      · cases look
      · obtain ⟨object, there, joiner⟩ := parked.joins c state t look
        refine ⟨object, ?_, joiner⟩
        rw [coros_update coros, if_neg (Nat.ne_of_lt (valid.inUse there)), there]
  · have ended := valid.pooled d (by simp [pool])
    rw [look_state found] at ended
    obtain ⟨-, restart⟩ := Prod.mk.inj (Option.some_inj.mp ended)
    refine parked.update found coros (Or.inl rfl) (by simp) (by simp [restart]) ?_
    intro j state other joining
    exact ⟨(parked.joinerOf found joining).1, by simp⟩

theorem land_parked {ctx : Context F} (valid : e.Valid) (jump : e.jump = some (.coro c))
    (parked : e.Parked parks none) (landed : e.land c = some (next, ctx)) :
    next.Parked parks none ∧ ∀ t, ctx = .joining t → ∃ object, next.coros t = some object ∧
      object.joiner = some (.coro c) := by
  obtain ⟨coro, rfl, -, sets⟩ := land_sets landed
  have before := (land_rule valid jump landed).2.before
  rw [look_state sets.found] at before
  obtain ⟨state, -⟩ := Prod.mk.inj (Option.some_inj.mp before)
  constructor
  · refine parked.update sets.found sets.coros (Or.inl rfl) (by simp [state]) (by simp) ?_
    intro j state' other joining
    exact parked.joinerOf sets.found joining
  · intro t at_t
    obtain ⟨object, there, joiner, -⟩ :=
      parked.joins c _ t (by rw [look_state sets.found, at_t])
    rw [coros_update sets.coros]
    split
    · next same =>
        rw [same, sets.found] at there
        cases there
        exact ⟨_, rfl, joiner⟩
    · exact ⟨object, there, joiner⟩

theorem joinTurn_parked {target : CoroId} {ret : Option Nat} {object : Coro F} (valid : e.Valid)
    (parked : e.Parked parks none) (current : e.thisCoro = some (.coro c))
    (there : e.coros target = some object) (joiner : object.joiner = some (.coro c))
    (turned : e.joinTurn target = some (next, ret)) : next.Parked parks none := by
  obtain ⟨coro, found, result⟩ := joinTurn_sets turned
  obtain rfl : coro = object := by simpa [found] using there
  rcases result with ⟨-, returns⟩ | ⟨-, going, suspended⟩
  · refine parked.update found returns.coros (Or.inl rfl) ?_ ?_ ?_
    · simp [returns.finished]
    · intro t at_t
      have restart := valid.finished target coro.ctx (by rw [look_state found, returns.finished])
      rw [restart] at at_t
      cases at_t
    · -- Only the coroutine that has control could be in `coro_join` for it.
      intro j state other joining
      obtain rfl : c = j := by simpa [joiner] using (parked.joinerOf found joining).1
      rw [valid.currentLook current] at joining
      cases joining
  · refine suspend_parked parked (by trivial) suspended ?_
    intro t same
    cases same
    exact ⟨c, coro, current, found, joiner, going⟩

theorem join_parked {target : CoroId} {ret : Option Nat} (valid : e.Valid)
    (parked : e.Parked parks none) (joined : e.join target = some (next, ret)) :
    next.Parked parks none := by
  obtain ⟨coro, found, joiner, result⟩ := join_sets joined
  have alone (j : CoroId) (state : CoroState) : e.look j ≠ some (state, .joining target) := by
    intro joining
    rw [(parked.joinerOf found joining).1] at joiner
    cases joiner
  rcases result with ⟨-, returns⟩ | ⟨-, going, suspended⟩
  · refine parked.update found returns.coros (Or.inl rfl) (by simp [returns.finished]) ?_ ?_
    · intro t at_t
      have restart := valid.finished target coro.ctx (by rw [look_state found, returns.finished])
      rw [restart] at at_t
      cases at_t
    · exact fun j state other joining => absurd joining (alone j state)
  · obtain ⟨a, object, current, -, sets⟩ := suspend_sets suspended
    have claimed := setCoro_sets { coro with joiner := e.thisCoro } found
    have parked' : (e.setCoro target { coro with joiner := e.thisCoro }).Parked parks none := by
      refine parked.update found claimed.coros (Or.inl rfl) ?_ ?_ ?_
      · exact fun state => parked.places target coro.ctx (by rw [look_state found, state])
      · intro t at_t
        obtain ⟨other, there, joiner', ended⟩ :=
          parked.joins target _ t (by rw [look_state found, at_t])
        rw [coros_update claimed.coros]
        split
        · next same =>
            exact absurd (show e.look target = some (coro.state, .joining target) by
              rw [look_state found, at_t, same]) (alone target _)
        · exact ⟨other, there, joiner', ended⟩
      · exact fun j state other joining => absurd joining (alone j state)
    refine suspend_parked parked' (by trivial) suspended ?_
    intro t same
    cases same
    exact ⟨a, { coro with joiner := e.thisCoro }, current,
      by rw [coros_update claimed.coros, if_pos rfl], current, going⟩

end Engine

namespace Machine

-- Outside the engine, a suspended coroutine waits for a channel.
def Waiting : Place → Prop
  | .waiting _ _ => True
  | .closing _ => False

-- Why a coroutine is not going to run: it has ended, it has suspended itself, it joins a coroutine
-- that is suspended, or it waits for an open channel that has nothing for it.
inductive Halted (s : Machine) (c : CoroId) : Prop
  | finished (coro : Coro Place) (found : s.engine.coros c = some coro)
      (ended : coro.state = .finished)
  | suspended (look : s.engine.look c = some (.suspended, .code))
  | joins (target : CoroId) (coro : Coro Place)
      (look : s.engine.look c = some (.suspended, .joining target))
      (found : s.engine.coros target = some coro) (joiner : coro.joiner = some (.coro c))
      (going : coro.state = .suspended)
  | waits (call : BusCall) (id : ChanId) (chan : Channel)
      (look : s.Waits c .suspended call id) (there : s.chans id = some chan)
      (opened : chan.closed = false) (linked : c ∈ chan.queue call.side)
      (found : s.findChannel call.bus call.channel = some (some id))
      (notReady : chan.ready call.side = false)

section Parked

variable {s next : Machine} {e : Engine Place}

theorem TurnEngine.parked {call : BusCall} (parked : s.engine.Parked Waiting none)
    (turned : s.TurnEngine call e) : e.Parked Waiting none := by
  cases turned with
  | same same => exact same ▸ parked
  | wakes id chan c others found there first woken => exact Engine.wakeup_parked parked woken
  | suspends id suspended =>
      exact Engine.suspend_parked parked (by trivial) suspended (by simp)

theorem wakeupAll_parked {queue : List CoroId} {e next : Engine Place}
    (parked : e.Parked Waiting none) (woken : wakeupAll queue e = some next) :
    next.Parked Waiting none := by
  induction queue generalizing e with
  | nil =>
      cases woken
      exact parked
  | cons d rest ih =>
      rw [wakeupAll, Option.bind_eq_some_iff] at woken
      obtain ⟨middle, first, others⟩ := woken
      exact ih (Engine.wakeup_parked parked first) others

theorem CloseEngine.parked {bus : Option BusId} {channel : Int}
    (parked : s.engine.Parked Waiting none) (closed : s.CloseEngine bus channel e) :
    e.Parked Waiting none := by
  cases closed with
  | same same => exact same ▸ parked
  | wakes id chan senders woken found there first second yielded =>
      exact Engine.yield_parked (wakeupAll_parked (wakeupAll_parked parked first) second) (by simp)
        yielded

theorem call_parked (valid : s.engine.Valid) (parked : s.engine.Parked Waiting none)
    {action : Action} (called : s.call action = some next) : next.engine.Parked Waiting none := by
  cases action with
  | resume => cases called
  | run =>
      rw [call] at called
      split at called
      · cases called
      · rw [Option.map_eq_some_iff] at called
        obtain ⟨e, turned, rfl⟩ := called
        exact (Engine.runTurn_same turned).parked parked
  | new =>
      rw [call, Option.map_eq_some_iff] at called
      obtain ⟨e, spawned, rfl⟩ := called
      exact Engine.spawn_parked valid parked spawned
  | yield =>
      rw [call, Option.map_eq_some_iff] at called
      obtain ⟨e, yielded, rfl⟩ := called
      exact Engine.yield_parked parked (by simp) yielded
  | suspend =>
      rw [call, Option.map_eq_some_iff] at called
      obtain ⟨e, suspended, rfl⟩ := called
      exact Engine.suspend_parked parked (by trivial) suspended (by simp)
  | wakeup target =>
      rw [call, Option.map_eq_some_iff] at called
      obtain ⟨e, woken, rfl⟩ := called
      exact Engine.wakeup_parked parked woken
  | join target =>
      rw [call, Option.map_eq_some_iff] at called
      obtain ⟨⟨e, ret⟩, joined, rfl⟩ := called
      rw [joinResult_engine]
      exact Engine.join_parked valid parked joined
  | finish ret =>
      rw [call, Option.map_eq_some_iff] at called
      obtain ⟨e, done, rfl⟩ := called
      exact Engine.finish_parked parked done
  | busNew =>
      cases called
      exact parked
  | open_ bus sizeLimit =>
      obtain ⟨b, channels, chan, rfl, there, limit, opens⟩ := open_opens called
      rw [opens.engine]
      exact parked
  | close bus channel => exact (close_engine called).parked parked
  | send bus channel data => exact (busTurn_engine called).parked parked
  | trySend bus channel data => exact (busTurn_engine called).parked parked
  | recv bus channel => exact (busTurn_engine called).parked parked
  | tryRecv bus channel => exact (busTurn_engine called).parked parked

theorem resume_parked (valid : s.engine.Valid) (parked : s.engine.Parked Waiting none)
    (resumed : s.resume = some next) : next.engine.Parked Waiting none := by
  unfold resume at resumed
  split at resumed
  · cases resumed
  · rw [Option.map_eq_some_iff] at resumed
    obtain ⟨e, landed, rfl⟩ := resumed
    exact (Engine.landSched_same landed).parked parked
  · next c jump =>
      split at resumed
      · cases resumed
      · next here ctx landed =>
          obtain ⟨valid', lands⟩ := Engine.land_rule valid jump landed
          obtain ⟨parked', joined⟩ := Engine.land_parked valid jump parked landed
          cases ctx with
          | active => cases resumed
          | start | restart | code =>
              cases resumed
              exact parked'
          | joining target =>
              rw [goOn, Option.map_eq_some_iff] at resumed
              obtain ⟨⟨e', ret⟩, turned, rfl⟩ := resumed
              rw [joinResult_engine]
              obtain ⟨object, there, joiner⟩ := joined target rfl
              exact Engine.joinTurn_parked valid' parked' lands.thisCoro there joiner turned
          | frame place =>
              cases place with
              | waiting call id =>
                  rw [goOn, Option.bind_eq_some_iff] at resumed
                  obtain ⟨back, unlinked, turned⟩ := resumed
                  exact (busTurn_engine turned).parked (unlink_engine unlinked ▸ parked')
              | closing id =>
                  rw [deleteChannel_engine resumed]
                  exact parked'

theorem step_parked (valid : s.engine.Valid) (parked : s.engine.Parked Waiting none)
    {action : Action} (taken : s.step action = some next) : next.engine.Parked Waiting none := by
  unfold step at taken
  split at taken
  · exact call_parked valid parked taken
  · split at taken
    · exact resume_parked valid parked taken
    · cases taken

theorem reaches_parked (reached : Run.Reaches step init s) : s.engine.Parked Waiting none := by
  have preserved (s : Machine) (action : Action) (next : Machine)
      (before : s.Sound ∧ s.engine.Parked Waiting none) (taken : s.step action = some next) :
      next.Sound ∧ next.engine.Parked Waiting none :=
    ⟨(step_stepped before.1 taken).sound before.1, step_parked before.1.engine before.2 taken⟩
  exact (reached.invariant preserved ⟨init_sound, Engine.create_parked⟩).2

end Parked

section Rests

variable {s next : Machine}

theorem runTurn_rests {e next : Engine Place} (idle : e.jump = none) (main : e.thisCoro = none)
    (turned : e.runTurn = some next) (returned : next.jump = none) :
    next.schedule = [] ∧ next.thisCoro = none := by
  unfold Engine.runTurn at turned
  split at turned
  · cases turned
  · next now =>
      split at turned
      · next later =>
          cases turned
          rw [not_not] at now
          exact ⟨by simp [Engine.schedule, idle, now, later], main⟩
      · split at turned
        · cases turned
        · obtain ⟨target, rest, -, rfl⟩ := Engine.resumeNext_eq turned
          cases returned

theorem step_rests {action : Action} (back : action = .run ∨ s.engine.jump = some .sched)
    (taken : s.step action = some next) (returned : next.engine.jump = none) :
    next.engine.schedule = [] ∧ next.engine.thisCoro = none := by
  unfold step at taken
  split at taken
  · next idle =>
      obtain rfl := back.resolve_right (by simp [idle])
      rw [call] at taken
      split at taken
      · cases taken
      · next main =>
          rw [Option.map_eq_some_iff] at taken
          obtain ⟨e, turned, rfl⟩ := taken
          exact runTurn_rests idle (not_not.mp main) turned returned
  · split at taken
    · next busy same =>
        obtain jump := back.resolve_left (by simp [same])
        simp only [resume, jump, Option.map_eq_some_iff] at taken
        obtain ⟨e, landed, rfl⟩ := taken
        unfold Engine.landSched at landed
        split at landed
        · cases landed
        · next free =>
            simp only [not_or, not_not] at free
            exact @runTurn_rests { s.engine with jump := none } e rfl free.2.1 landed returned
    · cases taken

theorem pending_notReady {chan : Channel} {side : Side} (nothing : chan.pending side = 0) :
    chan.ready side = false := by
  cases side with
  | send => simpa [Channel.ready, Channel.pending, Nat.sub_eq_zero_iff_le] using nothing
  | recv => simpa [Channel.ready, Channel.pending] using nothing

theorem Sound.halted (sound : s.Sound) (covered : s.Covered fun _ _ => 0)
    (parked : s.engine.Parked Waiting none)
    (idle : ∀ c ctx, s.engine.look c ≠ some (.running, ctx)) {c : CoroId} {coro : Coro Place}
    (found : s.engine.coros c = some coro) : s.Halted c := by
  have suspended {d : CoroId} {other : Coro Place} (there : s.engine.coros d = some other)
      (going : other.state ≠ .finished) : other.state = .suspended := by
    have running := idle d other.ctx
    rw [Engine.look_state there] at running
    cases state : other.state <;> simp_all
  by_cases going : coro.state = .finished
  · exact .finished coro found going
  have look := Engine.look_state found
  rw [suspended found going] at look
  have place := parked.places c coro.ctx look
  cases ctx : coro.ctx with
  | active | start | restart =>
      rw [ctx] at place
      cases place
  | code => exact .suspended (ctx ▸ look)
  | joining target =>
      rw [ctx] at look
      obtain ⟨other, there, joiner, ended⟩ := parked.joins c _ target look
      exact .joins target other look there joiner (suspended there (by simpa using ended rfl))
  | frame outside =>
      rw [ctx] at look place
      cases outside with
      | closing id => cases place
      | waiting call id =>
          obtain ⟨-, chan, there, queued, again⟩ := sound.waiting c _ call id look
          obtain ⟨opened, linked⟩ := queued.resolve_left (by simp)
          exact .waits call id chan look there opened linked (again opened)
            (pending_notReady (sound.idle_pending covered idle look there))

-- The scheduler returns only when every coroutine that has not ended is suspended by itself, joins
-- one that has not ended, or waits for an open channel that has nothing for it. Senders and
-- receivers then wait for one channel only where that has no place at all.
theorem returns_at_rest {action : Action} (reached : Run.Reaches step init s)
    (back : action = .run ∨ s.engine.jump = some .sched) (taken : s.step action = some next)
    (returned : next.engine.jump = none) :
    (∀ c coro, next.engine.coros c = some coro → next.Halted c) ∧
      ∀ id chan, next.chans id = some chan → chan.queue .send ≠ [] → chan.queue .recv ≠ [] →
        chan.sizeLimit = 0 := by
  have reached' := Run.Reaches.snoc reached taken
  have sound := reaches_sound reached'
  have covered := reaches_covered reached'
  obtain ⟨empty, main⟩ := step_rests back taken returned
  have idle (c : CoroId) (ctx : Context Place) : next.engine.look c ≠ some (.running, ctx) := by
    intro running
    rcases sound.engine.runs c ctx running with scheduled | current
    · simp [empty] at scheduled
    · simp [main] at current
  refine ⟨fun c coro found => sound.halted covered (reaches_parked reached') idle found, ?_⟩
  intro id chan there senders receivers
  have nothing {side : Side} (nonempty : chan.queue side ≠ []) : chan.pending side = 0 := by
    obtain ⟨c, rest, queue⟩ := List.exists_cons_of_ne_nil nonempty
    obtain ⟨state, call, waits, rfl⟩ := sound.queued id chan side c there (by simp [queue])
    exact sound.idle_pending covered idle waits there
  have full := nothing senders
  have empty := nothing receivers
  simp only [Channel.pending] at full empty
  omega

def restRun : List Action :=
  [.busNew, .open_ (some 0) 1, .new, .new, .new, .run, .resume, .recv (some 0) 0, .resume,
    .join 0, .resume, .finish 7]

theorem returns_at_rest_joined : ∃ s next, Run.exec step init restRun = some s ∧
    s.step .resume = some next ∧ next.engine.look 1 = some (.suspended, .joining 0) ∧
    next.Halted 1 := by
  have run := (Option.some_get (show (Run.exec step init restRun).isSome by decide)).symm
  have taken := (Option.some_get (show (((Run.exec step init restRun).get (by decide)).step
    .resume).isSome by decide)).symm
  have rests := returns_at_rest ⟨restRun, run⟩ (Or.inr (by decide)) taken (by decide)
  exact ⟨_, _, run, taken, by decide, rests.1 1 _ (Option.some_get (by decide)).symm⟩

end Rests

end Machine

end SystemProg.Coroutine
