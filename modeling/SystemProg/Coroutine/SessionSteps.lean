import SystemProg.Coroutine.Lives

set_option autoImplicit false

namespace SystemProg.Coroutine

namespace Session

structure Sound (s : Session) : Prop where
  valid : s.engine.Valid
  turn : s.engine.Turn
  custody : s.Custody

theorem init_sound : init.Sound := ⟨Engine.create_valid, Engine.create_turn, init_custody⟩

-- What a step changes, by the part of the lives that is involved.
inductive Stepped (s : Session) : Session → Prop
  | same {e : Engine Empty} (same : s.engine.Same e) : Stepped s { s with engine := e }
  | sets {e : Engine Empty} {c : CoroId} {coro coro' : Coro Empty}
      (sets : s.engine.Sets e c coro coro') (joiner : coro'.joiner = coro.joiner)
      (func : coro'.func = coro.func) (ret : coro'.ret = coro.ret)
      (place : ∀ t, coro'.ctx = .joining t ↔ coro.ctx = .joining t)
      (runs : ∀ t target, coro.ctx = .joining t → s.engine.coros t = some target →
        coro.state = .running →
          coro'.state = .running ∨ coro'.state = .suspended ∧ target.state ≠ .finished)
      (working : coro.state ≠ .finished) (works : coro'.state ≠ .finished) :
      Stepped s { s with engine := e }
  | spawns {e : Engine Empty} (spawned : s.engine.spawn = some e) :
      Stepped s { s with
        engine := e
        lives := Function.update s.lives s.newHandle.coro
          { phase := .unclaimed, incarnation := s.newHandle.incarnation }
        log := s.log ++ [.created s.newHandle] }
  | ends {w e : Engine Empty} {c : CoroId} {coro : Coro Empty} {ret : Nat}
      (wakes : s.engine.Same w ∨ ∃ j other, other.state = .suspended ∧
        s.engine.Sets w j other { other with state := .running })
      (sets : w.Sets e c coro (coro.done ret)) (found : s.engine.coros c = some coro)
      (working : coro.state = .running) (active : coro.ctx = .active)
      (joiner : ∀ a other, coro.joiner = some (.coro a) → w.coros a = some other →
        other.state = .running) :
      Stepped s { s with engine := e, log := s.log ++ [.ended (s.handle c) ret] }
  | claims {e : Engine Empty} {c a : CoroId} {coro other : Coro Empty}
      (found : s.engine.coros c = some coro) (current : s.engine.coros a = some other)
      (apart : a ≠ c) (working : coro.state ≠ .finished) (free : (s.lives c).phase = .unclaimed)
      (awake : other.state = .running) (active : other.ctx = .active)
      (lookup : ∀ d, e.coros d =
        if d = a then some { other with state := .suspended, ctx := .joining c }
        else if d = c then some { coro with joiner := some (.coro a) } else s.engine.coros d)
      (pool : e.pool = s.engine.pool) (spawned : e.spawned = s.engine.spawned)
      (coroCount : e.coroCount = s.engine.coroCount) :
      Stepped s { s with
        engine := e
        lives := Function.update s.lives c { s.lives c with phase := .claimed }
        ticket := Function.update s.ticket a (s.handle c) }
  | returns {e : Engine Empty} {c : CoroId} {coro : Coro Empty} (ticket : CoroId → Handle)
      (who : Option CoroRef) (found : s.engine.coros c = some coro)
      (finished : coro.state = .finished) (outside : (s.lives c).phase ≠ .joined)
      (here : e.coros c = some { coro with joiner := none, ret := 0 })
      (others : ∀ d, d ≠ c → e.coros d = s.engine.coros d ∨ ∃ other,
        s.engine.coros d = some other ∧ other.ctx = .joining c ∧
          e.coros d = some { other with ctx := .active })
      (last : ∀ d other t, e.coros d = some other → other.ctx = .joining t → t ≠ c ∧
        s.engine.coros d = some other ∧ ticket d = s.ticket d)
      (pool : e.pool = c :: s.engine.pool) (spawned : e.spawned = s.engine.spawned)
      (coroCount : e.coroCount = s.engine.coroCount) :
      Stepped s { s with
        engine := e
        lives := Function.update s.lives c { s.lives c with phase := .joined }
        ticket := ticket
        log := s.log ++ [.joined who (s.handle c) coro.ret] }

section Rules

variable {s next : Session} {e : Engine Empty} {c : CoroId}

theorem Sound.currentCoro (sound : s.Sound) (current : s.engine.thisCoro = some (.coro c))
    {coro : Coro Empty} (found : s.engine.coros c = some coro) :
    coro.state = .running ∧ coro.ctx = .active := by
  have look := sound.valid.currentLook current
  rw [Engine.look_state found, Option.some.injEq, Prod.mk.injEq] at look
  exact look

theorem suspend_stepped (sound : s.Sound) (suspended : s.engine.suspend .code = some e) :
    Stepped s { s with engine := e } := by
  obtain ⟨c, coro, current, state, sets⟩ := Engine.suspend_sets suspended
  obtain ⟨-, active⟩ := sound.currentCoro current sets.found
  refine .sets sets rfl rfl rfl ?_ ?_ (by simp [state]) (by simp)
  · simp [active]
  · simp [active]

theorem yield_stepped (sound : s.Sound) (yielded : s.engine.yield .code = some e) :
    Stepped s { s with engine := e } := by
  obtain ⟨c, coro, current, state, sets⟩ := Engine.yield_sets yielded
  obtain ⟨-, active⟩ := sound.currentCoro current sets.found
  refine .sets sets rfl rfl rfl ?_ ?_ (by simp [state]) (by simp [state])
  · simp [active]
  · simp [active]

theorem wakeup_stepped (woken : s.engine.wakeup (.coro c) = some e) :
    Stepped s { s with engine := e } := by
  obtain ⟨coro, found, ⟨rfl, -⟩ | ⟨state, sets⟩⟩ := Engine.wakeup_sets woken
  · exact .same ⟨rfl, rfl, rfl, rfl⟩
  · exact .sets sets rfl rfl rfl (fun _ => Iff.rfl) (by simp) (by simp [state]) (by simp)

-- The joiner of a coroutine waits in `coro_join`, so it has not returned itself.
theorem Sound.joiner (sound : s.Sound) {coro other : Coro Empty} {a : CoroId}
    (found : s.engine.coros c = some coro) (joiner : coro.joiner = some (.coro a))
    (found' : s.engine.coros a = some other) :
    other.ctx = .joining c ∧ other.state ≠ .finished ∧
      (coro.state = .finished → other.state = .running) := by
  have claimed : (s.lives c).phase = .claimed := by
    by_contra spare
    rw [sound.custody.spare c coro found spare] at joiner
    cases joiner
  obtain ⟨a', other', joiner', found'', place, awake⟩ := sound.custody.claimed c coro found claimed
  obtain rfl : a = a' := by simpa [joiner] using joiner'
  obtain rfl : other = other' := by simpa [found'] using found''
  refine ⟨place, fun state => ?_, awake⟩
  have look := Engine.look_state found'
  rw [state] at look
  have restart := sound.valid.finished a _ look
  rw [place] at restart
  cases restart

theorem finish_stepped (sound : s.Sound) {ret : Nat} (done : s.finish ret = some next) :
    Stepped s next := by
  unfold finish at done
  split at done
  · next c current =>
      rw [Option.map_eq_some_iff] at done
      obtain ⟨e, done, rfl⟩ := done
      obtain ⟨c', coro, middle, current', state, sets, cases⟩ := Engine.finish_sets done
      obtain rfl : c = c' := by simpa [current] using current'
      obtain ⟨-, active⟩ := sound.currentCoro current sets.found
      rcases cases with ⟨alone, same⟩ | ⟨j, woken, joiner, wakes, same⟩
      · exact .ends (Or.inl ⟨rfl, rfl, rfl, rfl⟩) (sets.same same) sets.found state active
          fun a other joiner => absurd joiner (alone a)
      · obtain ⟨other, found, cases⟩ := Engine.wakeup_sets wakes
        have apart : j ≠ c := by
          rintro rfl
          have place := (sound.joiner sets.found joiner sets.found).1
          rw [active] at place
          cases place
        have found' : s.engine.coros j = some other := by
          rw [← found, sets.coros, Function.update_of_ne apart]
        rcases cases with ⟨rfl, awake⟩ | ⟨asleep, sets'⟩
        · refine .ends (Or.inl ⟨rfl, rfl, rfl, rfl⟩) (sets.same same) sets.found state active ?_
          intro a other' joiner' found''
          obtain rfl : j = a := by simpa [joiner] using joiner'
          obtain rfl : other = other' := by simpa [found'] using found''
          have working := (sound.joiner sets.found joiner found').2.1
          cases h : other.state <;> simp_all
        · -- The order of the two writes does not matter: they are to different objects.
          refine .ends (w := s.engine.setCoro j { other with state := .running })
            (Or.inr ⟨j, other, asleep, Engine.setCoro_sets _ found'⟩) ?_ sets.found state active ?_
          · refine ⟨?_, ?_, ?_, ?_, ?_⟩
            · simpa [Engine.setCoro, Function.update_of_ne (Ne.symm apart)] using sets.found
            · rw [same.coros, sets'.coros, sets.coros]
              exact (Function.update_comm apart _ _ _).symm
            · exact same.pool.trans (sets'.pool.trans sets.pool)
            · exact same.spawned.trans (sets'.spawned.trans sets.spawned)
            · exact same.coroCount.trans (sets'.coroCount.trans sets.coroCount)
          · intro a other' joiner' found''
            obtain rfl : j = a := by simpa [joiner] using joiner'
            simp only [Engine.setCoro, Function.update_self, Option.some.injEq] at found''
            rw [← found'']
  · cases done

theorem Sound.openTarget (sound : s.Sound) {handle : Handle} (free : s.Open handle)
    {a t : CoroId} {other : Coro Empty} (found : s.engine.coros a = some other)
    (place : other.ctx = .joining t) : t ≠ handle.coro := by
  rintro rfl
  have claimed := (sound.custody.joining a other _ found place).1
  rw [free.2.2] at claimed
  cases claimed

theorem join_stepped (sound : s.Sound) {handle : Handle} (free : s.Open handle)
    (other : s.engine.thisCoro ≠ some (.coro handle.coro)) (joined : s.join handle = some next) :
    Stepped s next := by
  rw [join, Option.map_eq_some_iff] at joined
  obtain ⟨⟨e, ret⟩, joined, rfl⟩ := joined
  obtain ⟨coro, found, joiner, ⟨rfl, returns⟩ | ⟨rfl, state, suspended⟩⟩ := Engine.join_sets joined
  · have lives : (s.claim handle).lives =
        Function.update s.lives handle.coro { s.lives handle.coro with phase := .claimed } := by
      unfold claim
      split <;> rfl
    have log : (s.claim handle).log = s.log ∧ (s.claim handle).engine = s.engine := by
      unfold claim
      split <;> exact ⟨rfl, rfl⟩
    have ticket : ∀ d other, s.engine.coros d = some other → other.ctx ≠ .active →
        (s.claim handle).ticket d = s.ticket d := by
      intro d other found place
      unfold claim
      split
      · next a current =>
          dsimp only
          rw [Function.update_of_ne]
          rintro rfl
          exact place (sound.currentCoro current found).2
      · rfl
    have result := Stepped.returns (s.claim handle).ticket s.engine.thisCoro found
      returns.finished (by simp [free.2.2]) (by rw [returns.coros, Function.update_self])
      (fun d apart => Or.inl (by rw [returns.coros, Function.update_of_ne apart]))
      (by
        intro d other' t found' place
        rw [returns.coros] at found'
        by_cases same : d = handle.coro
        · subst same
          rw [Function.update_self, Option.some.injEq] at found'
          have look := Engine.look_state found
          rw [returns.finished] at look
          have restart := sound.valid.finished _ _ look
          rw [← found'] at place
          dsimp only at place
          rw [place] at restart
          cases restart
        · rw [Function.update_of_ne same] at found'
          exact ⟨sound.openTarget free found' place, found',
            ticket d other' found' (by simp [place])⟩)
      returns.pool returns.spawned returns.coroCount
    simpa only [joinResult, setPhase, lives, log.1, log.2, Function.update_self,
      Function.update_idem, free.2.1] using result
  · obtain ⟨a, other', current, awake, sets⟩ := Engine.suspend_sets suspended
    have apart : a ≠ handle.coro := fun same => other (current.trans (by rw [same]))
    have found' := sets.found
    simp only [Engine.setCoro, Function.update_of_ne apart] at found'
    have current' : s.engine.thisCoro = some (.coro a) := current
    have result := Stepped.claims (e := e) found found' apart state free.2.2 awake
      (sound.currentCoro current' found').2
      (by
        intro d
        rw [sets.coros, Function.update_apply]
        split
        · rfl
        · simp only [Engine.setCoro, Function.update_apply, current'])
      sets.pool sets.spawned sets.coroCount
    simpa only [joinResult, claim, current', setPhase, free.2.1] using result

theorem resume_stepped (sound : s.Sound) (resumed : s.resume = some next) : Stepped s next := by
  unfold resume at resumed
  split at resumed
  · cases resumed
  · rw [Option.map_eq_some_iff] at resumed
    obtain ⟨e, landed, rfl⟩ := resumed
    exact .same (Engine.landSched_same landed)
  · next c jump =>
      split at resumed
      · cases resumed
      · next e ctx landed =>
          obtain ⟨coro, place, current, sets⟩ := Engine.land_sets landed
          have lands := (Engine.land_rule sound.valid jump landed).2
          have working : coro.state = .running := by
            have before := lands.before
            rw [Engine.look_state sets.found, Option.some.injEq, Prod.mk.injEq] at before
            exact before.1
          cases ctx with
          | active => cases resumed
          | start | restart | code =>
              cases resumed
              refine .sets sets rfl rfl rfl ?_ ?_ (by simp [working]) (by simp [working])
              · simp [place]
              · simp [place]
          | frame outside => exact nomatch outside
          | joining t =>
              simp only [goOn, Option.map_eq_some_iff] at resumed
              obtain ⟨⟨last, ret⟩, turned, rfl⟩ := resumed
              obtain ⟨target, found, cases⟩ := Engine.joinTurn_sets turned
              have ticket := (sound.custody.joining c coro t sets.found place).2.1
              rcases cases with ⟨rfl, returns⟩ | ⟨rfl, state, suspended⟩
              · have apart : t ≠ c := by
                  rintro rfl
                  simp only [sets.coros, Function.update_self, Option.some.injEq] at found
                  have finished := returns.finished
                  rw [← found] at finished
                  rw [working] at finished
                  cases finished
                have found' : s.engine.coros t = some target := by
                  rw [← found, sets.coros, Function.update_of_ne apart]
                have lookup : ∀ d, last.coros d =
                    if d = t then some { target with joiner := none, ret := 0 }
                    else if d = c then some { coro with ctx := .active }
                    else s.engine.coros d := fun d => by
                  rw [returns.coros, Function.update_apply, sets.coros, Function.update_apply]
                obtain ⟨claimed, -, joined, there, joiner⟩ :=
                  sound.custody.joining c coro t sets.found place
                have result := Stepped.returns (e := last) s.ticket e.thisCoro found'
                  returns.finished (by simp [claimed]) (by rw [lookup, if_pos rfl])
                  (by
                    intro d other
                    rw [lookup, if_neg other]
                    split
                    · next same =>
                        exact Or.inr ⟨coro, same ▸ sets.found, place, rfl⟩
                    · exact Or.inl rfl)
                  (by
                    intro d other t' found'' joining
                    rw [lookup] at found''
                    split at found''
                    · cases found''
                      have look := Engine.look_state found'
                      rw [returns.finished] at look
                      have restart := sound.valid.finished _ _ look
                      rw [joining] at restart
                      cases restart
                    · split at found''
                      · cases found''
                        cases joining
                      · next other' =>
                          refine ⟨?_, found'', rfl⟩
                          rintro rfl
                          obtain ⟨-, -, joined', there', joiner'⟩ :=
                            sound.custody.joining d other t' found'' joining
                          grind)
                  (returns.pool.trans (by rw [sets.pool])) (returns.spawned.trans sets.spawned)
                  (returns.coroCount.trans sets.coroCount)
                simpa only [joinResult, setPhase, ticket, handle_coro] using result
              · obtain ⟨c', coro', current', -, sets'⟩ := Engine.suspend_sets suspended
                obtain rfl : c = c' := by simpa [current] using current'
                have landed' := sets'.found
                simp only [sets.coros, Function.update_self, Option.some.injEq] at landed'
                subst landed'
                have net : s.engine.Sets last c coro
                    { coro with state := .suspended, ctx := .joining t } :=
                  ⟨sets.found, by rw [sets'.coros, sets.coros, Function.update_idem],
                    sets'.pool.trans sets.pool, sets'.spawned.trans sets.spawned,
                    sets'.coroCount.trans sets.coroCount⟩
                refine .sets net rfl rfl rfl ?_ ?_ (by simp [working]) (by simp)
                · simp [place]
                · intro t' target' place' found'' _
                  obtain rfl : t = t' := by simpa [place] using place'
                  refine Or.inr ⟨rfl, ?_⟩
                  by_cases same : t = c
                  · subst same
                    rw [sets.found, Option.some.injEq] at found''
                    simp [← found'', working]
                  · rw [sets.coros, Function.update_of_ne same, found'', Option.some.injEq] at found
                    exact found ▸ state

theorem step_idle {act : Act} (taken : s.step act = some next) :
    s.engine.jump = none ∧ s.call act = some next ∨ s.resume = some next := by
  unfold step at taken
  split at taken
  · next idle => exact Or.inl ⟨idle, taken⟩
  · split at taken
    · exact Or.inr taken
    · cases taken

theorem step_stepped {act : Act} (sound : s.Sound) (allowed : s.Allowed act)
    (taken : s.step act = some next) : Stepped s next := by
  rcases step_idle taken with ⟨idle, called⟩ | resumed
  · cases act with
    | resume => cases called
    | run =>
        simp only [call] at called
        split at called
        · cases called
        · rw [Option.map_eq_some_iff] at called
          obtain ⟨e, turned, rfl⟩ := called
          exact .same (Engine.runTurn_same turned)
    | new =>
        simp only [call, new, Option.map_eq_some_iff] at called
        obtain ⟨e, spawned, rfl⟩ := called
        exact .spawns spawned
    | yield =>
        simp only [call, Option.map_eq_some_iff] at called
        obtain ⟨e, yielded, rfl⟩ := called
        exact yield_stepped sound yielded
    | suspend =>
        simp only [call, Option.map_eq_some_iff] at called
        obtain ⟨e, suspended, rfl⟩ := called
        exact suspend_stepped sound suspended
    | wakeup target =>
        simp only [call, Option.map_eq_some_iff] at called
        obtain ⟨e, woken, rfl⟩ := called
        exact wakeup_stepped woken
    | join handle => exact join_stepped sound allowed.2.1 allowed.2.2 called
    | finish ret => exact finish_stepped sound called
  · exact resume_stepped sound resumed

theorem joinResult_engine (s : Session) (handle : Handle) (result : Engine Empty × Option Nat) :
    (s.joinResult handle result).engine = result.1 := by
  unfold joinResult
  split <;> rfl

inductive EngineStep (s : Session) : Act → Engine Empty → Prop
  | ran {e : Engine Empty} (idle : s.engine.jump = none) (main : s.engine.thisCoro = none)
      (turned : s.engine.runTurn = some e) : EngineStep s .run e
  | spawned {e : Engine Empty} (idle : s.engine.jump = none) (spawned : s.engine.spawn = some e) :
      EngineStep s .new e
  | yielded {e : Engine Empty} (idle : s.engine.jump = none)
      (yielded : s.engine.yield .code = some e) : EngineStep s .yield e
  | suspended {e : Engine Empty} (idle : s.engine.jump = none)
      (suspended : s.engine.suspend .code = some e) : EngineStep s .suspend e
  | woke {e : Engine Empty} {target : CoroId} (idle : s.engine.jump = none)
      (woken : s.engine.wakeup (.coro target) = some e) : EngineStep s (.wakeup target) e
  | joined {e : Engine Empty} {handle : Handle} {ret : Option Nat} (idle : s.engine.jump = none)
      (joined : s.engine.join handle.coro = some (e, ret)) : EngineStep s (.join handle) e
  | finished {e : Engine Empty} {c : CoroId} {ret : Nat} (idle : s.engine.jump = none)
      (current : s.engine.thisCoro = some (.coro c)) (done : s.engine.finish ret = some e) :
      EngineStep s (.finish ret) e
  | back {e : Engine Empty} (jump : s.engine.jump = some .sched)
      (landed : s.engine.landSched = some e) : EngineStep s .resume e
  | landed {e : Engine Empty} {c : CoroId} {ctx : Context Empty}
      (jump : s.engine.jump = some (.coro c)) (landed : s.engine.land c = some (e, ctx)) :
      EngineStep s .resume e
  | rejoined {middle e : Engine Empty} {c target : CoroId} {ret : Option Nat}
      (jump : s.engine.jump = some (.coro c))
      (landed : s.engine.land c = some (middle, .joining target))
      (turned : middle.joinTurn target = some (e, ret)) : EngineStep s .resume e

theorem resume_engineStep (resumed : s.resume = some next) :
    EngineStep s .resume next.engine := by
  unfold resume at resumed
  split at resumed
  · cases resumed
  · next jump =>
      rw [Option.map_eq_some_iff] at resumed
      obtain ⟨e, landed, rfl⟩ := resumed
      exact .back jump landed
  · next c jump =>
      split at resumed
      · cases resumed
      · next e ctx landed =>
          cases ctx with
          | active => cases resumed
          | start | restart | code =>
              cases resumed
              exact .landed jump landed
          | frame outside => exact nomatch outside
          | joining target =>
              simp only [goOn, Option.map_eq_some_iff] at resumed
              obtain ⟨⟨last, ret⟩, turned, rfl⟩ := resumed
              rw [joinResult_engine]
              exact .rejoined jump landed turned

theorem step_engineStep {act : Act} (taken : s.step act = some next) :
    EngineStep s act next.engine := by
  unfold step at taken
  split at taken
  case isFalse =>
    split at taken
    · next same =>
        subst same
        exact resume_engineStep taken
    · cases taken
  case isTrue idle =>
    cases act with
    | resume => cases taken
    | run =>
        simp only [call] at taken
        split at taken
        · cases taken
        · next main =>
            rw [not_not] at main
            rw [Option.map_eq_some_iff] at taken
            obtain ⟨e, turned, rfl⟩ := taken
            exact .ran idle main turned
    | new =>
        simp only [call, new, Option.map_eq_some_iff] at taken
        obtain ⟨e, spawned, rfl⟩ := taken
        exact .spawned idle spawned
    | yield =>
        simp only [call, Option.map_eq_some_iff] at taken
        obtain ⟨e, yielded, rfl⟩ := taken
        exact .yielded idle yielded
    | suspend =>
        simp only [call, Option.map_eq_some_iff] at taken
        obtain ⟨e, suspended, rfl⟩ := taken
        exact .suspended idle suspended
    | wakeup target =>
        simp only [call, Option.map_eq_some_iff] at taken
        obtain ⟨e, woken, rfl⟩ := taken
        exact .woke idle woken
    | join handle =>
        simp only [call, join, Option.map_eq_some_iff] at taken
        obtain ⟨⟨e, ret⟩, joined, rfl⟩ := taken
        rw [joinResult_engine]
        exact .joined idle joined
    | finish ret =>
        simp only [call, finish] at taken
        split at taken
        · next c current =>
            rw [Option.map_eq_some_iff] at taken
            obtain ⟨e, done, rfl⟩ := taken
            exact .finished idle current done
        · cases taken

theorem step_engine {act : Act} (valid : s.engine.Valid) (turn : s.engine.Turn)
    (taken : s.step act = some next) : next.engine.Valid ∧ next.engine.Turn := by
  cases step_engineStep taken with
  | ran idle main turned =>
      exact ⟨(Engine.runTurn_rule valid idle main turned).1, Engine.runTurn_turn idle main turned⟩
  | spawned idle spawned =>
      exact ⟨(Engine.spawn_rule valid spawned).1, Engine.spawn_turn turn spawned⟩
  | yielded idle yielded =>
      exact ⟨(Engine.yield_rule valid idle (by simp) yielded).1, Engine.yield_turn turn idle yielded⟩
  | suspended idle suspended =>
      exact ⟨(Engine.suspend_rule valid idle (by simp) suspended).1,
        Engine.suspend_turn turn idle suspended⟩
  | woke idle woken => exact ⟨(Engine.wakeup_rule valid woken).1, Engine.wakeup_turn turn woken⟩
  | joined idle joined =>
      exact ⟨(Engine.join_rule valid idle joined).1, Engine.join_turn turn idle joined⟩
  | finished idle current done =>
      exact ⟨(Engine.finish_rule valid idle done).1, Engine.finish_turn turn idle done⟩
  | back jump landed =>
      exact ⟨(Engine.landSched_rule valid jump landed).1, Engine.landSched_turn landed⟩
  | landed jump landed =>
      exact ⟨(Engine.land_rule valid jump landed).1, Engine.land_turn turn jump landed⟩
  | rejoined jump landed turned =>
      obtain ⟨valid', lands⟩ := Engine.land_rule valid jump landed
      exact ⟨(Engine.joinTurn_rule valid' lands.jump turned).1,
        Engine.joinTurn_turn (Engine.land_turn turn jump landed) lands.jump turned⟩

theorem newHandle_coro {c : CoroId} {rest : List CoroId} (pool : s.engine.pool = c :: rest) :
    s.newHandle.coro = c := by
  rw [newHandle, pool]
  rfl

theorem Stepped.custody (sound : s.Sound) (stepped : Stepped s next) : next.Custody := by
  have custody := sound.custody
  cases stepped with
  | same same => exact custody.same same
  | sets sets joiner func ret place runs working works =>
      refine custody.sets sets joiner (fun _ => ?_) place runs fun finished => absurd finished works
      rw [func]
      exact custody.works _ _ sets.found working
  | spawns spawned =>
      rcases Engine.spawn_sets spawned with ⟨pool, pool', spawned', coroCount, coros⟩ |
        ⟨c, rest, coro, pool, pool', spawned', coroCount, found, coros⟩
      · have fresh : s.newHandle.coro = s.engine.spawned := by
          rw [newHandle, pool]
          rfl
        have unused : s.engine.coros s.engine.spawned = none := by
          simpa [Engine.look] using sound.valid.fresh _ (Nat.le_refl _)
        rw [fresh]
        exact (custody.spawnNew unused _ (by rfl) (by rfl) (by rfl) coros pool pool' rfl spawned'
          coroCount _).relabel _ _ fun _ _ _ _ _ => rfl
      · rw [newHandle_coro pool]
        have place : coro.ctx = .restart := by
          have look := sound.valid.pooled c (by simp [pool])
          rw [Engine.look_state found, Option.some.injEq, Prod.mk.injEq] at look
          exact look.2
        exact (custody.reuse pool sound.valid.poolDistinct found place coros pool' spawned'
          coroCount _).relabel _ _ fun _ _ _ _ _ => rfl
  | @ends w e c coro ret wakes sets found working active joiner =>
      have middle : Custody { s with engine := w } := by
        rcases wakes with same | ⟨j, other, asleep, sets'⟩
        · exact custody.same same
        · refine custody.sets sets' (by rfl) ?_ (fun _ => Iff.rfl) (by simp) (by simp)
          intro _
          exact custody.works j other sets'.found (by simp [asleep])
      exact (middle.sets sets (by rfl) (by simp [Coro.done]) (by simp [Coro.done, active])
        (by simp [active]) fun _ => joiner).relabel _ _ fun _ _ _ _ _ => rfl
  | claims found current apart working free awake active lookup pool spawned coroCount =>
      exact custody.claims found current apart working free awake active lookup pool spawned
        coroCount
  | returns ticket who found finished outside here others last pool spawned coroCount =>
      exact (custody.returns found finished here others
        (fun d other found' place => (last d other _ found' place).1 rfl) pool spawned
        coroCount).relabel ticket _ fun d other t found' place => (last d other t found' place).2.2

theorem Sound.step {act : Act} (sound : s.Sound) (allowed : s.Allowed act)
    (taken : s.step act = some next) : next.Sound :=
  have ⟨valid, turn⟩ := step_engine sound.valid sound.turn taken
  ⟨valid, turn, (step_stepped sound allowed taken).custody sound⟩

theorem sound_of_run {acts : List Act} (allowed : Run.EachStep step Allowed init acts)
    (run : Run.exec step init acts = some s) : s.Sound :=
  Run.exec_invariant_of_eachStep (fun _ _ _ => Sound.step) init_sound allowed run

end Rules

end Session

end SystemProg.Coroutine
