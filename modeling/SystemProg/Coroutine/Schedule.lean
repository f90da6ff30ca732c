import SystemProg.Coroutine.Engine

set_option autoImplicit false

-- The run lists, read from the coroutine that is getting control, are one first-in first-out queue:
-- each call of the engine takes from its front, adds at its end or leaves it alone, and changes the
-- state and the context of one coroutine.

namespace SystemProg.Coroutine

def CoroRef.coro? : CoroRef → Option CoroId
  | .sched => none
  | .coro c => some c

namespace Engine

variable {F : Type}

def schedule (e : Engine F) : List CoroId :=
  e.jump.toList.filterMap CoroRef.coro? ++ e.runningNow.filterMap CoroRef.coro? ++ e.runningNext

def look (e : Engine F) (c : CoroId) : Option (CoroState × Context F) :=
  (e.coros c).map fun coro => (coro.state, coro.ctx)

-- Nothing is different for the coroutines but the state and context of `c`.
structure Changes (e next : Engine F) (c : CoroId) (state : CoroState) (ctx : Context F) : Prop where
  here : next.look c = some (state, ctx)
  others : ∀ d, d ≠ c → next.look d = e.look d

theorem setCoro_changes (e : Engine F) (c : CoroId) (coro : Coro F) :
    e.Changes (e.setCoro c coro) c coro.state coro.ctx where
  here := by simp [look, setCoro]
  others := fun d other => by simp [look, setCoro, other]

theorem look_state {e : Engine F} {c : CoroId} {coro : Coro F} (found : e.coros c = some coro) :
    e.look c = some (coro.state, coro.ctx) := by
  simp [look, found]

theorem resumeNext_eq {e next : Engine F} (resumed : e.resumeNext = some next) :
    ∃ target rest, e.runningNow = target :: rest ∧
      next = { e with runningNow := rest, thisCoro := none, jump := some target } := by
  unfold resumeNext at resumed
  split at resumed
  · next target rest _ queue _ =>
      cases resumed
      exact ⟨target, rest, queue, rfl⟩
  · cases resumed

theorem resumeNext_schedule {e next : Engine F} (idle : e.jump = none)
    (resumed : e.resumeNext = some next) : next.schedule = e.schedule := by
  obtain ⟨target, rest, queue, rfl⟩ := resumeNext_eq resumed
  cases target <;> simp [schedule, idle, queue, CoroRef.coro?, List.filterMap_cons]

structure Leaves (e next : Engine F) (c : CoroId) (state : CoroState) (ctx : Context F) : Prop where
  current : e.thisCoro = some (.coro c)
  changes : e.Changes next c state ctx
  pool : next.pool = e.pool
  spawned : next.spawned = e.spawned
  thisCoro : next.thisCoro = none
  jump : next.jump ≠ none

theorem resumeNext_leaves {e next : Engine F} (saved : Engine F) {c : CoroId} {state : CoroState}
    {ctx : Context F} (current : e.thisCoro = some (.coro c))
    (changes : e.Changes saved c state ctx) (pool : saved.pool = e.pool)
    (spawned : saved.spawned = e.spawned) (resumed : saved.resumeNext = some next) :
    e.Leaves next c state ctx := by
  obtain ⟨target, rest, queue, rfl⟩ := resumeNext_eq resumed
  exact ⟨current, ⟨changes.here, changes.others⟩, pool, spawned, rfl, by simp⟩

theorem suspend_leaves {e next : Engine F} {ctx : Context F} (idle : e.jump = none)
    (suspended : e.suspend ctx = some next) :
    ∃ c, e.Leaves next c .suspended ctx ∧ next.schedule = e.schedule := by
  unfold suspend at suspended
  split at suspended
  · next c current =>
      split at suspended
      · cases suspended
      · next coro found =>
          split at suspended
          · cases suspended
          · have changes := setCoro_changes e c { coro with state := .suspended, ctx := ctx }
            refine ⟨c, resumeNext_leaves _ current changes rfl rfl suspended, ?_⟩
            rw [resumeNext_schedule (by exact idle) suspended]
            rfl
  · cases suspended

theorem yield_leaves {e next : Engine F} {ctx : Context F} (idle : e.jump = none)
    (yielded : e.yield ctx = some next) :
    ∃ c, e.Leaves next c .running ctx ∧ next.schedule = e.schedule ++ [c] ∧ c ∉ e.schedule := by
  unfold yield at yielded
  split at yielded
  · next c current =>
      split at yielded
      · cases yielded
      · next coro found =>
          split at yielded
          · cases yielded
          · next free =>
              rw [not_or, not_not] at free
              dsimp only at yielded
              have changes := setCoro_changes e c { coro with ctx := ctx }
              dsimp only at changes
              rw [free.2] at changes yielded
              refine ⟨c, resumeNext_leaves _ current (by exact ⟨changes.here, changes.others⟩) (by rfl)
                (by rfl) yielded, ?_, ?_⟩
              · rw [resumeNext_schedule (by exact idle) yielded]
                simp [schedule, setCoro]
              · have unlinked := free.1
                simp only [Linked, not_or] at unlinked
                simp only [schedule, idle, Option.toList_none, List.filterMap_nil,
                  List.nil_append, List.mem_append, List.mem_filterMap, not_or]
                refine ⟨?_, unlinked.2.1⟩
                rintro ⟨who, mem, same⟩
                cases who <;> cases same
                exact unlinked.1 mem
  · cases yielded

structure Wakes (e next : Engine F) (c : CoroId) (ctx : Context F) : Prop where
  asleep : e.look c = some (.suspended, ctx)
  changes : e.Changes next c .running ctx
  schedule : next.schedule = e.schedule ++ [c]
  pool : next.pool = e.pool
  spawned : next.spawned = e.spawned
  thisCoro : next.thisCoro = e.thisCoro
  jump : next.jump = e.jump

theorem wakeup_cases {who : CoroRef} {e next : Engine F} (woken : e.wakeup who = some next) :
    (next = e ∧ ∀ c, who = .coro c → ∃ state ctx, e.look c = some (state, ctx) ∧
        state ≠ .suspended) ∨
      ∃ c ctx, who = .coro c ∧ e.Wakes next c ctx := by
  cases who with
  | sched =>
      cases woken
      exact Or.inl ⟨rfl, nofun⟩
  | coro c =>
      simp only [wakeup] at woken
      split at woken
      · cases woken
      · next coro found =>
          have look := look_state found
          split at woken
          · next state =>
              cases woken
              rw [state] at look
              refine Or.inl ⟨rfl, ?_⟩
              rintro d ⟨⟩
              exact ⟨_, _, look, by simp⟩
          · next state =>
              cases woken
              rw [state] at look
              refine Or.inl ⟨rfl, ?_⟩
              rintro d ⟨⟩
              exact ⟨_, _, look, by simp⟩
          · next state =>
              split at woken
              · cases woken
              · cases woken
                rw [state] at look
                have changes := setCoro_changes e c { coro with state := .running }
                exact Or.inr ⟨c, coro.ctx, rfl, look, ⟨changes.here, changes.others⟩,
                  by simp [schedule, setCoro], rfl, rfl, rfl, rfl⟩

structure Keeps (e next : Engine F) : Prop where
  look : next.look = e.look
  schedule : next.schedule = e.schedule
  pool : next.pool = e.pool
  spawned : next.spawned = e.spawned

theorem runTurn_keeps {e next : Engine F} (idle : e.jump = none) (main : e.thisCoro = none)
    (turned : e.runTurn = some next) : e.Keeps next ∧ next.thisCoro = none := by
  unfold runTurn at turned
  split at turned
  · cases turned
  · next empty =>
      rw [not_not] at empty
      split at turned
      · cases turned
        exact ⟨⟨rfl, rfl, rfl, rfl⟩, main⟩
      · split at turned
        · cases turned
        · have same := resumeNext_schedule (by exact idle) turned
          obtain ⟨target, rest, queue, rfl⟩ := resumeNext_eq turned
          refine ⟨⟨rfl, same.trans ?_, rfl, rfl⟩, rfl⟩
          have all : (e.runningNext.map CoroRef.coro).filterMap CoroRef.coro? = e.runningNext := by
            induction e.runningNext with
            | nil => rfl
            | cons c rest ih => simp [CoroRef.coro?, ih]
          simp [schedule, idle, empty, all, CoroRef.coro?, List.filterMap_cons]

theorem landSched_keeps {e next : Engine F} (jump : e.jump = some .sched)
    (landed : e.landSched = some next) : e.Keeps next ∧ next.thisCoro = none := by
  unfold landSched at landed
  split at landed
  · cases landed
  · next clear =>
      simp only [not_or, not_not] at clear
      obtain ⟨keeps, main⟩ := runTurn_keeps (by rfl) (by exact clear.2.1) landed
      refine ⟨⟨keeps.look, keeps.schedule.trans ?_, keeps.pool, keeps.spawned⟩, main⟩
      simp [schedule, jump, CoroRef.coro?, List.filterMap_cons]

structure Lands (e next : Engine F) (c : CoroId) (state : CoroState) (ctx : Context F) : Prop where
  before : e.look c = some (state, ctx)
  changes : e.Changes next c state .active
  schedule : e.schedule = c :: next.schedule
  pool : next.pool = e.pool
  spawned : next.spawned = e.spawned
  thisCoro : next.thisCoro = some (.coro c)
  jump : next.jump = none

theorem land_lands {e next : Engine F} {c : CoroId} {ctx : Context F}
    (jump : e.jump = some (.coro c)) (landed : e.land c = some (next, ctx)) :
    ∃ state, e.Lands next c state ctx := by
  unfold land at landed
  split at landed
  · cases landed
  · next coro found =>
      have look := look_state found
      have changes := setCoro_changes e c { coro with ctx := .active }
      have front : e.schedule = c :: schedule { e.setCoro c { coro with ctx := .active } with
          thisCoro := some (.coro c), jump := none } := by
        simp [schedule, jump, setCoro, CoroRef.coro?]
      have lands : e.Lands { e.setCoro c { coro with ctx := .active } with
          thisCoro := some (.coro c), jump := none } c coro.state coro.ctx :=
        ⟨look, ⟨changes.here, changes.others⟩, front, rfl, rfl, rfl, rfl⟩
      refine ⟨coro.state, ?_⟩
      cases place : coro.ctx <;> rw [place] at landed lands <;> dsimp only at landed
      · cases landed
      · cases landed
        exact lands
      all_goals
        split at landed <;> cases landed
        exact lands

theorem land_frame {e : Engine F} {c : CoroId} {state : CoroState} {place : F}
    (look : e.look c = some (state, .frame place)) (free : ¬e.Linked c) (idle : e.thisCoro = none) :
    ∃ next, e.land c = some (next, .frame place) := by
  unfold Engine.look at look
  rw [Option.map_eq_some_iff] at look
  obtain ⟨coro, found, same⟩ := look
  have place' : coro.ctx = .frame place := congrArg Prod.snd same
  simp [land, found, place', free, idle]

structure Joins (e next : Engine F) (target : CoroId) : Prop where
  look : next.look = e.look
  finished : ∃ ctx, e.look target = some (.finished, ctx)
  outside : target ∉ e.pool
  pool : next.pool = target :: e.pool
  schedule : next.schedule = e.schedule
  spawned : next.spawned = e.spawned
  thisCoro : next.thisCoro = e.thisCoro
  jump : next.jump = e.jump

theorem setCoro_look {e : Engine F} {c : CoroId} {coro : Coro F} (coro' : Coro F)
    (found : e.coros c = some coro) (state : coro'.state = coro.state) (ctx : coro'.ctx = coro.ctx) :
    (e.setCoro c coro').look = e.look := by
  funext d
  by_cases same : d = c
  · subst same
    rw [(setCoro_changes e d coro').here, look_state found, state, ctx]
  · exact (setCoro_changes e c coro').others d same

theorem joinTurn_cases {e next : Engine F} {target : CoroId} {ret : Option Nat}
    (turned : e.joinTurn target = some (next, ret)) :
    e.Joins next target ∨ e.suspend (.joining target) = some next := by
  unfold joinTurn at turned
  split at turned
  · cases turned
  · next coro found =>
      split at turned
      · next state =>
          split at turned
          · cases turned
          · next free =>
              cases turned
              have same := setCoro_look { coro with joiner := none, ret := 0 } found rfl rfl
              have look := look_state found
              rw [state] at look
              simp only [not_or, Linked] at free
              exact Or.inl ⟨same, ⟨_, look⟩, free.2.2.2, rfl, rfl, rfl, rfl, rfl⟩
      · rw [Option.map_eq_some_iff] at turned
        obtain ⟨e', suspended, same⟩ := turned
        cases same
        exact Or.inr suspended

theorem join_cases {e next : Engine F} {target : CoroId} {ret : Option Nat}
    (joined : e.join target = some (next, ret)) :
    ∃ waits : Engine F, waits.look = e.look ∧ waits.schedule = e.schedule ∧ waits.pool = e.pool ∧
      waits.spawned = e.spawned ∧ waits.thisCoro = e.thisCoro ∧ waits.jump = e.jump ∧
      (waits.Joins next target ∨ waits.suspend (.joining target) = some next) := by
  unfold join at joined
  split at joined
  · cases joined
  · next coro found =>
      split at joined
      · cases joined
      · have same := setCoro_look { coro with joiner := e.thisCoro } found rfl rfl
        exact ⟨_, same, rfl, rfl, rfl, rfl, rfl, joinTurn_cases joined⟩

structure Finishes (e next : Engine F) (c : CoroId) (added : List CoroId) : Prop where
  current : e.thisCoro = some (.coro c)
  here : next.look c = some (.finished, .restart)
  woken : ∀ j ∈ added, j ≠ c ∧ ∃ ctx, e.look j = some (.suspended, ctx) ∧
    next.look j = some (.running, ctx)
  others : ∀ d, d ≠ c → d ∉ added → next.look d = e.look d
  distinct : added.Nodup
  schedule : next.schedule = e.schedule ++ added
  pool : next.pool = e.pool
  spawned : next.spawned = e.spawned
  thisCoro : next.thisCoro = none

theorem finishes_alone {e left next : Engine F} {c : CoroId} (current : e.thisCoro = some (.coro c))
    (changes : e.Changes left c .finished .restart) (schedule : left.schedule = e.schedule)
    (pool : left.pool = e.pool) (spawned : left.spawned = e.spawned) (idle : left.jump = none)
    (resumed : left.resumeNext = some next) : e.Finishes next c [] := by
  have same := resumeNext_schedule idle resumed
  obtain ⟨target, rest, queue, rfl⟩ := resumeNext_eq resumed
  exact ⟨current, changes.here, nofun, fun d other _ => changes.others d other, List.nodup_nil,
    by simp [same, schedule], pool, spawned, rfl⟩

theorem finish_finishes {e next : Engine F} {ret : Nat} (idle : e.jump = none)
    (done : e.finish ret = some next) : ∃ c added, e.Finishes next c added := by
  unfold finish at done
  split at done
  · next c current =>
      split at done
      · cases done
      · next coro found =>
          split at done
          · cases done
          · have changes := setCoro_changes e c
              { coro with ret := ret, func := false, state := .finished, ctx := .restart }
            dsimp only at done changes
            split at done
            · exact ⟨c, [], finishes_alone current changes rfl rfl rfl idle done⟩
            · next joiner _ =>
                rw [Option.bind_eq_some_iff] at done
                obtain ⟨woken, wakes, resumed⟩ := done
                refine ⟨c, ?_⟩
                rcases wakeup_cases wakes with ⟨rfl, -⟩ | ⟨j, ctx, -, wakes⟩
                · exact ⟨[], finishes_alone current changes rfl rfl rfl idle resumed⟩
                · have other : j ≠ c := by
                    rintro rfl
                    have asleep := wakes.asleep
                    rw [changes.here] at asleep
                    cases asleep
                  have same := resumeNext_schedule (wakes.jump.trans idle) resumed
                  have pool := wakes.pool
                  have spawned := wakes.spawned
                  have here := wakes.changes.here
                  have others := wakes.changes.others
                  obtain ⟨target, rest, queue, rfl⟩ := resumeNext_eq resumed
                  refine ⟨[j], ⟨current, ?_, ?_, ?_, by simp, same.trans wakes.schedule, pool,
                    spawned, rfl⟩⟩
                  · exact (others c (Ne.symm other)).trans changes.here
                  · intro d mem
                    obtain rfl := List.mem_singleton.mp mem
                    exact ⟨other, ctx, (changes.others d other).symm.trans wakes.asleep, here⟩
                  · intro d notC notJ
                    exact (others d (by simpa using notJ)).trans (changes.others d notC)
  · cases done

end Engine

end SystemProg.Coroutine
