import SystemProg.Coroutine.Objects
import SystemProg.Coroutine.Order

set_option autoImplicit false

-- A coroutine that is joined wakes only the one that waits for it in `coro_join`. So a coroutine
-- that is suspended on the bus is woken by the bus or by `coro_wakeup`.

namespace SystemProg.Coroutine

namespace Engine

variable {F : Type} {e next : Engine F} {c : CoroId}

def Awaits (e : Engine F) : Prop :=
  ∀ target coro j, e.coros target = some coro → coro.joiner = some (.coro j) →
    ∃ state, e.look j = some (state, .joining target)

theorem coros_update {coro' : Coro F} (coros : next.coros = Function.update e.coros c (some coro'))
    (d : CoroId) : next.coros d = if d = c then some coro' else e.coros d := by
  rw [coros]
  exact Function.update_apply _ _ _ _

theorem look_update {coro' : Coro F} (coros : next.coros = Function.update e.coros c (some coro'))
    (d : CoroId) :
    next.look d = if d = c then some (coro'.state, coro'.ctx) else e.look d := by
  rw [look, coros_update coros]
  split <;> rfl

theorem Same.awaits (awaits : e.Awaits) (same : e.Same next) : next.Awaits := by
  intro target coro j found joiner
  rw [same.coros] at found
  rw [look, same.coros]
  exact awaits target coro j found joiner

theorem awaits_update {coro coro' : Coro F} (awaits : e.Awaits) (found : e.coros c = some coro)
    (coros : next.coros = Function.update e.coros c (some coro'))
    (joiner : coro'.joiner = coro.joiner)
    (place : ∀ t, coro.ctx = .joining t → coro'.ctx = .joining t) : next.Awaits := by
  intro target other j found' joiner'
  have before : ∃ state, e.look j = some (state, .joining target) := by
    rw [coros_update coros] at found'
    split at found'
    · next same =>
        cases found'
        rw [same]
        exact awaits c coro j found (joiner.symm.trans joiner')
    · exact awaits target other j found' joiner'
  obtain ⟨state, before⟩ := before
  rw [look_update coros]
  split
  · next same =>
      rw [same, look_state found] at before
      obtain ⟨-, ctx⟩ := Prod.mk.inj (Option.some.inj before)
      exact ⟨coro'.state, by rw [place target ctx]⟩
  · exact ⟨state, before⟩

theorem Sets.awaits {coro coro' : Coro F} (awaits : e.Awaits) (sets : e.Sets next c coro coro')
    (joiner : coro'.joiner = coro.joiner)
    (place : ∀ t, coro.ctx = .joining t → coro'.ctx = .joining t) : next.Awaits :=
  awaits_update awaits sets.found sets.coros joiner place

theorem Valid.activeCtx (valid : e.Valid) {coro : Coro F} (current : e.thisCoro = some (.coro c))
    (found : e.coros c = some coro) : coro.ctx = .active := by
  have look := valid.currentLook current
  rw [look_state found] at look
  exact (Prod.mk.inj (Option.some.inj look)).2

theorem suspend_awaits {ctx : Context F} (valid : e.Valid) (awaits : e.Awaits)
    (suspended : e.suspend ctx = some next) : next.Awaits := by
  obtain ⟨d, coro, current, -, sets⟩ := suspend_sets suspended
  refine sets.awaits awaits rfl fun t place => ?_
  rw [valid.activeCtx current sets.found] at place
  cases place

theorem yield_awaits {ctx : Context F} (valid : e.Valid) (awaits : e.Awaits)
    (yielded : e.yield ctx = some next) : next.Awaits := by
  obtain ⟨d, coro, current, -, sets⟩ := yield_sets yielded
  refine sets.awaits awaits rfl fun t place => ?_
  rw [valid.activeCtx current sets.found] at place
  cases place

theorem wakeup_awaits (awaits : e.Awaits) (woken : e.wakeup (.coro c) = some next) :
    next.Awaits := by
  obtain ⟨coro, -, ⟨rfl, -⟩ | ⟨-, sets⟩⟩ := wakeup_sets woken
  · exact awaits
  · exact sets.awaits awaits rfl fun t place => place

theorem finish_awaits {ret : Nat} (valid : e.Valid) (awaits : e.Awaits)
    (done : e.finish ret = some next) : next.Awaits := by
  obtain ⟨d, coro, middle, current, -, sets, after⟩ := finish_sets done
  have ended : middle.Awaits := by
    refine sets.awaits awaits rfl fun t place => ?_
    rw [valid.activeCtx current sets.found] at place
    cases place
  rcases after with ⟨-, same⟩ | ⟨j, woken, -, wakes, same⟩
  · exact same.awaits ended
  · exact same.awaits (wakeup_awaits ended wakes)

theorem spawn_awaits (valid : e.Valid) (awaits : e.Awaits) (spawned : e.spawn = some next) :
    next.Awaits := by
  rcases spawn_sets spawned with ⟨-, -, -, -, coros⟩ | ⟨d, rest, coro, -, -, -, -, found, coros⟩
  · intro target coro j found joiner
    rw [coros_update coros] at found
    split at found
    · cases found
      cases joiner
    · obtain ⟨state, before⟩ := awaits target coro j found joiner
      refine ⟨state, ?_⟩
      rw [look_update coros, if_neg, before]
      rintro rfl
      rw [valid.fresh _ (Nat.le_refl _)] at before
      cases before
  · exact awaits_update awaits found coros rfl fun t place => place

theorem land_awaits {ctx : Context F} (awaits : e.Awaits) (landed : e.land c = some (next, ctx))
    (outside : ∀ t, ctx ≠ .joining t) : next.Awaits := by
  obtain ⟨coro, rfl, -, sets⟩ := land_sets landed
  exact sets.awaits awaits rfl fun t place => absurd place (outside t)

theorem rejoin_awaits {here : Engine F} {target : CoroId} {ret : Option Nat} (awaits : e.Awaits)
    (landed : e.land c = some (here, .joining target))
    (turned : here.joinTurn target = some (next, ret)) : next.Awaits := by
  obtain ⟨coro, ctx, current, sets⟩ := land_sets landed
  have before : e.look c = some (coro.state, .joining target) := by
    rw [look_state sets.found, ctx]
  have look (k : CoroId) (other : k ≠ c) : here.look k = e.look k := by
    rw [look_update sets.coros, if_neg other]
  -- Who is joined here was joined by the same coroutine before.
  have joined {t k : CoroId} {object : Coro F} (found : here.coros t = some object)
      (joiner : object.joiner = some (.coro k)) : ∃ state, e.look k = some (state, .joining t) := by
    rw [coros_update sets.coros] at found
    split at found
    · next same =>
        cases found
        rw [same]
        exact awaits c coro k sets.found joiner
    · exact awaits t object k found joiner
  have only {t k : CoroId} {state : CoroState} (waits : e.look k = some (state, .joining t))
      (same : k = c) : t = target := by
    rw [same, before] at waits
    cases waits
    rfl
  obtain ⟨object, found, ⟨-, returns⟩ | ⟨-, -, suspended⟩⟩ := joinTurn_sets turned
  · intro t object' k found' joiner
    rw [coros_update returns.coros] at found'
    split at found'
    · cases found'
      cases joiner
    · next other =>
        obtain ⟨state, waits⟩ := joined found' joiner
        refine ⟨state, ?_⟩
        have kept := look k fun same => other (only waits same)
        rw [look_update returns.coros]
        split
        · next same => rw [← waits, ← kept, same, look_state found]
        · rw [kept, waits]
  · obtain ⟨d, coro', current', -, sets'⟩ := suspend_sets suspended
    rw [current] at current'
    cases current'
    intro t object' k found' joiner
    have waits : ∃ state, e.look k = some (state, .joining t) := by
      rw [coros_update sets'.coros] at found'
      split at found'
      · next same =>
          cases found'
          rw [same]
          exact joined sets'.found joiner
      · exact joined found' joiner
    obtain ⟨state, waits⟩ := waits
    rw [look_update sets'.coros]
    split
    · next same => exact ⟨.suspended, by rw [only waits same]⟩
    · next other => exact ⟨state, (look k other).trans waits⟩

theorem join_awaits {target : CoroId} {ret : Option Nat} (valid : e.Valid) (awaits : e.Awaits)
    (joined : e.join target = some (next, ret)) : next.Awaits := by
  obtain ⟨coro, found, joiner, ⟨-, returns⟩ | ⟨-, -, suspended⟩⟩ := join_sets joined
  · exact awaits_update awaits found returns.coros joiner.symm fun t place => place
  · obtain ⟨a, coro', current, -, sets⟩ := suspend_sets suspended
    have claimed := setCoro_sets { coro with joiner := e.thisCoro } found
    have active := valid.currentLook current
    have kept : (e.setCoro target { coro with joiner := e.thisCoro }).look = e.look :=
      setCoro_look _ found rfl rfl
    intro t object k found' joiner'
    -- The new joiner is the current coroutine, and it waits for its target.
    have waits : t = target ∧ k = a ∨ ∃ state, e.look k = some (state, .joining t) := by
      have object' : ∃ object', (e.setCoro target { coro with joiner := e.thisCoro }).coros t =
          some object' ∧ object'.joiner = some (.coro k) := by
        rw [coros_update sets.coros] at found'
        split at found'
        · next same =>
            cases found'
            exact ⟨coro', same ▸ sets.found, joiner'⟩
        · exact ⟨object, found', joiner'⟩
      obtain ⟨object', found'', joiner''⟩ := object'
      rw [coros_update claimed.coros] at found''
      split at found''
      · next same =>
          cases found''
          have current' := (show e.thisCoro = _ from joiner'').symm.trans current
          cases current'
          exact Or.inl ⟨same, rfl⟩
      · exact Or.inr (awaits t object' k found'' joiner'')
    rw [look_update sets.coros, kept]
    rcases waits with ⟨rfl, rfl⟩ | ⟨state, waits⟩
    · rw [if_pos rfl]
      exact ⟨.suspended, rfl⟩
    · refine ⟨state, ?_⟩
      rw [if_neg, waits]
      rintro rfl
      rw [active] at waits
      cases waits

theorem create_awaits : (create : Engine F).Awaits := nofun

def Spares (e next : Engine F) (c : CoroId) : Prop :=
  ∀ place, e.look c = some (.suspended, .frame place) →
    next.look c = some (.suspended, .frame place)

theorem Spares.of_same (same : next.look = e.look) : e.Spares next c :=
  fun _ look => same ▸ look

theorem Spares.trans {middle : Engine F} (first : e.Spares middle c)
    (second : middle.Spares next c) : e.Spares next c :=
  fun place look => second place (first place look)

theorem Changes.spares {d : CoroId} {state : CoroState} {ctx : Context F}
    (changes : e.Changes next d state ctx)
    (awake : ∀ place, e.look d ≠ some (.suspended, .frame place)) : e.Spares next c := by
  intro place look
  rw [changes.others c, look]
  rintro rfl
  exact awake place look

theorem Leaves.spares {d : CoroId} {state : CoroState} {ctx : Context F} (valid : e.Valid)
    (leaves : e.Leaves next d state ctx) : e.Spares next c := by
  apply leaves.changes.spares
  simp [valid.currentLook leaves.current]

theorem Lands.spares {d : CoroId} {ctx : Context F} (lands : e.Lands next d .running ctx) :
    e.Spares next c := by
  apply lands.changes.spares
  simp [lands.before]

theorem wakeup_spares {who : CoroRef} (other : who ≠ .coro c) (woken : e.wakeup who = some next) :
    e.Spares next c := by
  rcases wakeup_cases woken with ⟨rfl, -⟩ | ⟨d, ctx, rfl, wakes⟩
  · exact Spares.of_same rfl
  · intro place look
    rw [wakes.changes.others c, look]
    rintro rfl
    exact other rfl

theorem spawn_spares (valid : e.Valid) (spawned : e.spawn = some next) : e.Spares next c := by
  obtain ⟨d, ctx, spawns⟩ := spawn_spawns valid spawned
  apply spawns.changes.spares
  intro place
  rcases spawns.unused with ⟨look, -, -⟩ | ⟨look, -⟩ <;> simp [look]

-- The joiner that is woken waits in `coro_join`.
theorem finish_spares {ret : Nat} (valid : e.Valid) (awaits : e.Awaits)
    (done : e.finish ret = some next) : e.Spares next c := by
  obtain ⟨d, coro, middle, current, -, sets, after⟩ := finish_sets done
  have first : e.Spares middle c := by
    intro place look
    rw [look_update sets.coros, if_neg, look]
    rintro rfl
    rw [valid.currentLook current] at look
    cases look
  have same {left right : Engine F} (same : left.Same right) : left.Spares right c := by
    apply Spares.of_same
    funext k
    rw [Engine.look, Engine.look, same.coros]
  rcases after with ⟨-, same'⟩ | ⟨j, woken, joiner, wakes, same'⟩
  · exact first.trans (same same')
  · intro place look
    refine (first.trans ((wakeup_spares ?_ wakes).trans (same same'))) place look
    rintro ⟨⟩
    obtain ⟨state, waits⟩ := awaits d coro c sets.found joiner
    rw [look] at waits
    cases waits

theorem joinTurn_spares {target : CoroId} {ret : Option Nat} (valid : e.Valid)
    (idle : e.jump = none) (turned : e.joinTurn target = some (next, ret)) : e.Spares next c := by
  rcases joinTurn_cases turned with joins | suspended
  · exact Spares.of_same joins.look
  · obtain ⟨d, leaves, -⟩ := suspend_leaves idle suspended
    exact leaves.spares valid

theorem join_spares {target : CoroId} {ret : Option Nat} (valid : e.Valid) (idle : e.jump = none)
    (joined : e.join target = some (next, ret)) : e.Spares next c := by
  obtain ⟨waits, look, schedule, pool, spawned, thisCoro, jump, cases⟩ := join_cases joined
  have valid' := valid.of_same look schedule pool spawned thisCoro jump
  apply (Spares.of_same look).trans
  rcases cases with joins | suspended
  · exact Spares.of_same joins.look
  · obtain ⟨d, leaves, -⟩ := suspend_leaves (jump.trans idle) suspended
    exact leaves.spares valid'

end Engine

namespace Machine

inductive TurnEngine (s : Machine) (call : BusCall) (e : Engine Place) : Prop where
  | same (same : e = s.engine)
  | wakes (id : ChanId) (chan : Channel) (c : CoroId) (others : List CoroId)
      (found : s.findChannel call.bus call.channel = some (some id)) (there : s.chans id = some chan)
      (first : chan.queue call.side.other = c :: others)
      (woken : s.engine.wakeup (.coro c) = some e)
  | suspends (id : ChanId) (suspended : s.engine.suspend (.frame (.waiting call id)) = some e)

theorem busTurn_engine {s next : Machine} {call : BusCall} (turned : s.busTurn call = some next) :
    s.TurnEngine call next.engine := by
  unfold busTurn at turned
  split at turned
  · cases turned
  · cases turned
    exact .same rfl
  · next id found =>
      split at turned
      · cases turned
      · next chan there =>
          split at turned
          · cases turned
          · split at turned
            · cases turned
              exact .same rfl
            · split at turned
              · rw [Option.map_eq_some_iff] at turned
                obtain ⟨⟨rest, e⟩, woken, rfl⟩ := turned
                rw [(transfer_queue _ _ _ _).1] at woken
                cases queue : chan.queue call.side.other with
                | nil =>
                    rw [queue] at woken
                    cases woken
                    exact .same rfl
                | cons c others =>
                    rw [queue, wakeupFirst, Option.map_eq_some_iff] at woken
                    obtain ⟨e', woken, same⟩ := woken
                    cases same
                    exact .wakes id chan c _ found there queue woken
              · split at turned
                · unfold suspendThis at turned
                  split at turned
                  · rw [Option.map_eq_some_iff] at turned
                    obtain ⟨e, suspended, rfl⟩ := turned
                    exact .suspends id suspended
                  · cases turned
                · cases turned
                  exact .same rfl

theorem TurnEngine.awaits {s : Machine} {call : BusCall} {e : Engine Place}
    (valid : s.engine.Valid) (awaits : s.engine.Awaits) (turned : s.TurnEngine call e) :
    e.Awaits := by
  cases turned with
  | same same => exact same ▸ awaits
  | wakes id chan c others found there first woken => exact Engine.wakeup_awaits awaits woken
  | suspends id suspended => exact Engine.suspend_awaits valid awaits suspended

theorem TurnEngine.spares {s : Machine} {call : BusCall} {e : Engine Place} {c : CoroId}
    (valid : s.engine.Valid) (idle : s.engine.jump = none) (turned : s.TurnEngine call e)
    (other : ∀ id chan, s.findChannel call.bus call.channel = some (some id) →
      s.chans id = some chan → c ∉ chan.queue call.side.other) : s.engine.Spares e c := by
  cases turned with
  | same same => exact Engine.Spares.of_same (by rw [same])
  | wakes id chan d others found there first woken =>
      refine Engine.wakeup_spares ?_ woken
      rintro ⟨⟩
      exact other id chan found there (by simp [first])
  | suspends id suspended =>
      obtain ⟨d, leaves, -⟩ := Engine.suspend_leaves idle suspended
      exact leaves.spares valid

theorem wakeupAll_awaits {queue : List CoroId} {e next : Engine Place} (awaits : e.Awaits)
    (woken : wakeupAll queue e = some next) : next.Awaits := by
  induction queue generalizing e with
  | nil =>
      cases woken
      exact awaits
  | cons d rest ih =>
      rw [wakeupAll, Option.bind_eq_some_iff] at woken
      obtain ⟨middle, first, others⟩ := woken
      exact ih (Engine.wakeup_awaits awaits first) others

theorem wakeupAll_spares {queue : List CoroId} {e next : Engine Place} {c : CoroId}
    (other : c ∉ queue) (woken : wakeupAll queue e = some next) : e.Spares next c := by
  induction queue generalizing e with
  | nil =>
      cases woken
      exact Engine.Spares.of_same rfl
  | cons d rest ih =>
      rw [wakeupAll, Option.bind_eq_some_iff] at woken
      obtain ⟨middle, first, others⟩ := woken
      rw [List.mem_cons, not_or] at other
      refine (Engine.wakeup_spares ?_ first).trans (ih other.2 others)
      rintro ⟨⟩
      exact other.1 rfl

inductive CloseEngine (s : Machine) (bus : Option BusId) (channel : Int) (e : Engine Place) :
    Prop where
  | same (same : e = s.engine)
  | wakes (id : ChanId) (chan : Channel) (senders woken : Engine Place)
      (found : s.findChannel bus channel = some (some id)) (there : s.chans id = some chan)
      (first : wakeupAll (chan.queue .send) s.engine = some senders)
      (second : wakeupAll (chan.queue .recv) senders = some woken)
      (yielded : woken.yield (.frame (.closing id)) = some e)

theorem close_engine {s next : Machine} {bus : Option BusId} {channel : Int}
    (closed : s.coroBusChannelClose bus channel = some next) :
    s.CloseEngine bus channel next.engine := by
  unfold coroBusChannelClose at closed
  split at closed
  · cases closed
  · cases closed
    exact .same rfl
  · next id found =>
      split at closed
      · cases closed
      · next chan there =>
          split at closed
          · cases closed
          · dsimp only at closed
            rw [(clearSlot_same (s.setChan id { chan with closed := true }) bus channel).1,
              Option.map_eq_some_iff] at closed
            obtain ⟨e, closed, rfl⟩ := closed
            rw [Option.bind_eq_some_iff] at closed
            obtain ⟨senders, first, closed⟩ := closed
            rw [Option.bind_eq_some_iff] at closed
            obtain ⟨woken, second, yielded⟩ := closed
            exact .wakes id chan senders woken found there first second yielded

theorem CloseEngine.awaits {s : Machine} {bus : Option BusId} {channel : Int} {e : Engine Place}
    (valid : s.engine.Valid) (awaits : s.engine.Awaits) (closed : s.CloseEngine bus channel e) :
    e.Awaits := by
  cases closed with
  | same same => exact same ▸ awaits
  | wakes id chan senders woken found there first second yielded =>
      have valid' := (wakeupAll_rule (wakeupAll_rule valid first).1 second).1
      exact Engine.yield_awaits valid' (wakeupAll_awaits (wakeupAll_awaits awaits first) second)
        yielded

theorem CloseEngine.spares {s : Machine} {bus : Option BusId} {channel : Int} {e : Engine Place}
    {c : CoroId} (valid : s.engine.Valid) (idle : s.engine.jump = none)
    (closed : s.CloseEngine bus channel e)
    (other : ∀ id chan side, s.findChannel bus channel = some (some id) →
      s.chans id = some chan → c ∉ chan.queue side) : s.engine.Spares e c := by
  cases closed with
  | same same => exact Engine.Spares.of_same (by rw [same])
  | wakes id chan senders woken found there first second yielded =>
      obtain ⟨valid', -, -, jump, -⟩ := wakeupAll_rule valid first
      obtain ⟨valid'', -, -, jump', -⟩ := wakeupAll_rule valid' second
      obtain ⟨d, leaves, -⟩ := Engine.yield_leaves (jump'.trans (jump.trans idle)) yielded
      exact (wakeupAll_spares (other id chan .send found there) first).trans
        ((wakeupAll_spares (other id chan .recv found there) second).trans
          (leaves.spares valid''))

theorem joinResult_engine (s : Machine) (target : CoroId) (result : Engine Place × Option Nat) :
    (s.joinResult target result).engine = result.1 := by
  unfold joinResult
  split <;> rfl

theorem unlink_engine {s next : Machine} {c : CoroId} {call : BusCall} {id : ChanId}
    (unlinked : s.unlink c call id = some next) : next.engine = s.engine := by
  unfold unlink at unlinked
  split at unlinked
  · cases unlinked
  · split at unlinked
    · split at unlinked
      · cases unlinked
      · cases unlinked
        rfl
    · cases unlinked
      rfl

theorem deleteChannel_engine {s next : Machine} {id : ChanId}
    (deleted : s.deleteChannel id = some next) : next.engine = s.engine := by
  unfold deleteChannel at deleted
  split at deleted
  · cases deleted
  · split at deleted
    · cases deleted
    · cases deleted
      rfl

theorem call_awaits {s next : Machine} (valid : s.engine.Valid) (awaits : s.engine.Awaits)
    {action : Action} (called : s.call action = some next) : next.engine.Awaits := by
  cases action with
  | resume => cases called
  | run =>
      rw [call] at called
      split at called
      · cases called
      · rw [Option.map_eq_some_iff] at called
        obtain ⟨e, turned, rfl⟩ := called
        exact (Engine.runTurn_same turned).awaits awaits
  | new =>
      rw [call, Option.map_eq_some_iff] at called
      obtain ⟨e, spawned, rfl⟩ := called
      exact Engine.spawn_awaits valid awaits spawned
  | yield =>
      rw [call, Option.map_eq_some_iff] at called
      obtain ⟨e, yielded, rfl⟩ := called
      exact Engine.yield_awaits valid awaits yielded
  | suspend =>
      rw [call, Option.map_eq_some_iff] at called
      obtain ⟨e, suspended, rfl⟩ := called
      exact Engine.suspend_awaits valid awaits suspended
  | wakeup target =>
      rw [call, Option.map_eq_some_iff] at called
      obtain ⟨e, woken, rfl⟩ := called
      exact Engine.wakeup_awaits awaits woken
  | join target =>
      rw [call, Option.map_eq_some_iff] at called
      obtain ⟨⟨e, ret⟩, joined, rfl⟩ := called
      rw [joinResult_engine]
      exact Engine.join_awaits valid awaits joined
  | finish ret =>
      rw [call, Option.map_eq_some_iff] at called
      obtain ⟨e, done, rfl⟩ := called
      exact Engine.finish_awaits valid awaits done
  | busNew =>
      cases called
      exact awaits
  | open_ bus sizeLimit =>
      obtain ⟨b, channels, chan, rfl, there, limit, opens⟩ := open_opens called
      rw [opens.engine]
      exact awaits
  | close bus channel => exact (close_engine called).awaits valid awaits
  | send bus channel data => exact (busTurn_engine called).awaits valid awaits
  | trySend bus channel data => exact (busTurn_engine called).awaits valid awaits
  | recv bus channel => exact (busTurn_engine called).awaits valid awaits
  | tryRecv bus channel => exact (busTurn_engine called).awaits valid awaits

theorem resume_awaits {s next : Machine} (valid : s.engine.Valid) (awaits : s.engine.Awaits)
    (resumed : s.resume = some next) : next.engine.Awaits := by
  unfold resume at resumed
  split at resumed
  · cases resumed
  · rw [Option.map_eq_some_iff] at resumed
    obtain ⟨e, landed, rfl⟩ := resumed
    exact (Engine.landSched_same landed).awaits awaits
  · next c jump =>
      split at resumed
      · cases resumed
      · next e ctx landed =>
          obtain ⟨valid', -⟩ := Engine.land_rule valid jump landed
          cases ctx with
          | active => cases resumed
          | start | restart | code =>
              cases resumed
              exact Engine.land_awaits awaits landed (by simp)
          | joining target =>
              rw [goOn, Option.map_eq_some_iff] at resumed
              obtain ⟨⟨e', ret⟩, turned, rfl⟩ := resumed
              rw [joinResult_engine]
              exact Engine.rejoin_awaits awaits landed turned
          | frame place =>
              have awaits' := Engine.land_awaits awaits landed (by simp)
              cases place with
              | waiting call id =>
                  rw [goOn, Option.bind_eq_some_iff] at resumed
                  obtain ⟨here, unlinked, turned⟩ := resumed
                  have engine := unlink_engine unlinked
                  exact (busTurn_engine turned).awaits (engine ▸ valid') (engine ▸ awaits')
              | closing id =>
                  rw [deleteChannel_engine resumed]
                  exact awaits'

theorem step_awaits {s next : Machine} (valid : s.engine.Valid) (awaits : s.engine.Awaits)
    {action : Action} (taken : s.step action = some next) : next.engine.Awaits := by
  unfold step at taken
  split at taken
  · exact call_awaits valid awaits taken
  · split at taken
    · exact resume_awaits valid awaits taken
    · cases taken

theorem reaches_awaits {s : Machine} (reached : Run.Reaches step init s) : s.engine.Awaits := by
  have preserved (s : Machine) (action : Action) (next : Machine)
      (before : s.Sound ∧ s.engine.Awaits) (taken : s.step action = some next) :
      next.Sound ∧ next.engine.Awaits :=
    ⟨(step_stepped before.1 taken).sound before.1, step_awaits before.1.engine before.2 taken⟩
  exact (reached.invariant preserved ⟨init_sound, Engine.create_awaits⟩).2

theorem plain_spares {s next : Machine} (sound : s.Sound) (awaits : s.engine.Awaits)
    {action : Action} {c : CoroId} (plain : s.Plain action) (silent : action.busCall = none)
    (other : action ≠ .wakeup c) (taken : s.step action = some next) :
    s.engine.Spares next.engine c := by
  have valid := sound.engine
  unfold step at taken
  split at taken
  · next idle =>
      cases action with
      | resume => cases taken
      | run =>
          rw [call] at taken
          split at taken
          · cases taken
          · rw [Option.map_eq_some_iff] at taken
            obtain ⟨e, turned, rfl⟩ := taken
            next main =>
              rw [not_not] at main
              exact Engine.Spares.of_same (Engine.runTurn_keeps idle main turned).1.look
      | new =>
          rw [call, Option.map_eq_some_iff] at taken
          obtain ⟨e, spawned, rfl⟩ := taken
          exact Engine.spawn_spares valid spawned
      | yield =>
          rw [call, Option.map_eq_some_iff] at taken
          obtain ⟨e, yielded, rfl⟩ := taken
          obtain ⟨d, leaves, -⟩ := Engine.yield_leaves idle yielded
          exact leaves.spares valid
      | suspend =>
          rw [call, Option.map_eq_some_iff] at taken
          obtain ⟨e, suspended, rfl⟩ := taken
          obtain ⟨d, leaves, -⟩ := Engine.suspend_leaves idle suspended
          exact leaves.spares valid
      | wakeup target =>
          rw [call, Option.map_eq_some_iff] at taken
          obtain ⟨e, woken, rfl⟩ := taken
          refine Engine.wakeup_spares ?_ woken
          rintro ⟨⟩
          exact other rfl
      | join target =>
          rw [call, Option.map_eq_some_iff] at taken
          obtain ⟨⟨e, ret⟩, joined, rfl⟩ := taken
          rw [joinResult_engine]
          exact Engine.join_spares valid idle joined
      | finish ret =>
          rw [call, Option.map_eq_some_iff] at taken
          obtain ⟨e, done, rfl⟩ := taken
          exact Engine.finish_spares valid awaits done
      | busNew =>
          cases taken
          exact Engine.Spares.of_same rfl
      | open_ bus sizeLimit =>
          obtain ⟨b, channels, chan, rfl, there, limit, opens⟩ := open_opens taken
          rw [opens.engine]
          exact Engine.Spares.of_same rfl
      | close bus channel =>
          refine (close_engine taken).spares valid idle fun id chan side found => ?_
          exact absurd found (plain.keeps bus channel id rfl)
      | send | trySend | recv | tryRecv => cases silent
  · split at taken
    · unfold resume at taken
      split at taken
      · cases taken
      · next jump =>
          rw [Option.map_eq_some_iff] at taken
          obtain ⟨e, landed, rfl⟩ := taken
          exact Engine.Spares.of_same (Engine.landSched_keeps jump landed).1.look
      · next d jump => exact absurd jump (plain.stays d)
    · cases taken

theorem inside_spares {s next : Machine} (sound : s.Sound) {c d : CoroId} {state : CoroState}
    {ctx : Context Place} (jump : s.engine.jump = some (.coro d))
    (look : s.engine.look d = some (state, ctx)) (outside : ∀ place, ctx ≠ .frame place)
    (taken : s.step .resume = some next) : s.engine.Spares next.engine c := by
  rw [step, if_neg (by simp [jump]), if_pos rfl] at taken
  simp only [resume, jump] at taken
  split at taken
  · cases taken
  · next e ctx' landed =>
      obtain ⟨valid', lands⟩ := Engine.land_rule sound.engine jump landed
      have same := look.symm.trans lands.before
      cases same
      cases ctx with
      | active => cases taken
      | start | restart | code =>
          cases taken
          exact lands.spares
      | joining target =>
          rw [goOn, Option.map_eq_some_iff] at taken
          obtain ⟨⟨e', ret⟩, turned, rfl⟩ := taken
          rw [joinResult_engine]
          exact lands.spares.trans (Engine.joinTurn_spares valid' lands.jump turned)
      | frame place => exact absurd rfl (outside place)

end Machine

end SystemProg.Coroutine
