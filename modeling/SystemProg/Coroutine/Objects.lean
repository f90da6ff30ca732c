import SystemProg.Coroutine.Session

set_option autoImplicit false

-- What each call of the engine writes into a coroutine, all its fields included.

namespace SystemProg.Coroutine

variable {F : Type}

def Coro.done (coro : Coro F) (ret : Nat) : Coro F :=
  { coro with ret := ret, func := false, state := .finished, ctx := .restart }

namespace Engine

structure Same (e next : Engine F) : Prop where
  coros : next.coros = e.coros
  pool : next.pool = e.pool
  spawned : next.spawned = e.spawned
  coroCount : next.coroCount = e.coroCount

structure Sets (e next : Engine F) (c : CoroId) (coro coro' : Coro F) : Prop where
  found : e.coros c = some coro
  coros : next.coros = Function.update e.coros c (some coro')
  pool : next.pool = e.pool
  spawned : next.spawned = e.spawned
  coroCount : next.coroCount = e.coroCount

theorem setCoro_sets {e : Engine F} {c : CoroId} {coro : Coro F} (coro' : Coro F)
    (found : e.coros c = some coro) : e.Sets (e.setCoro c coro') c coro coro' :=
  ⟨found, rfl, rfl, rfl, rfl⟩

theorem Sets.same {e middle next : Engine F} {c : CoroId} {coro coro' : Coro F}
    (sets : e.Sets middle c coro coro') (same : middle.Same next) : e.Sets next c coro coro' where
  found := sets.found
  coros := same.coros.trans sets.coros
  pool := same.pool.trans sets.pool
  spawned := same.spawned.trans sets.spawned
  coroCount := same.coroCount.trans sets.coroCount

theorem resumeNext_same {e next : Engine F} (resumed : e.resumeNext = some next) : e.Same next := by
  obtain ⟨target, rest, -, rfl⟩ := resumeNext_eq resumed
  exact ⟨rfl, rfl, rfl, rfl⟩

theorem runTurn_same {e next : Engine F} (turned : e.runTurn = some next) : e.Same next := by
  unfold runTurn at turned
  split at turned
  · cases turned
  · split at turned
    · cases turned
      exact ⟨rfl, rfl, rfl, rfl⟩
    · split at turned
      · cases turned
      · have same := resumeNext_same turned
        exact ⟨same.coros, same.pool, same.spawned, same.coroCount⟩

theorem landSched_same {e next : Engine F} (landed : e.landSched = some next) : e.Same next := by
  unfold landSched at landed
  split at landed
  · cases landed
  · have same := runTurn_same landed
    exact ⟨same.coros, same.pool, same.spawned, same.coroCount⟩

theorem suspend_sets {e next : Engine F} {ctx : Context F} (suspended : e.suspend ctx = some next) :
    ∃ c coro, e.thisCoro = some (.coro c) ∧ coro.state = .running ∧
      e.Sets next c coro { coro with state := .suspended, ctx := ctx } := by
  unfold suspend at suspended
  split at suspended
  · next c current =>
      split at suspended
      · cases suspended
      · next coro found =>
          split at suspended
          · cases suspended
          · next free =>
              rw [not_or, not_not] at free
              exact ⟨c, coro, current, free.2, (setCoro_sets _ found).same (resumeNext_same suspended)⟩
  · cases suspended

theorem yield_sets {e next : Engine F} {ctx : Context F} (yielded : e.yield ctx = some next) :
    ∃ c coro, e.thisCoro = some (.coro c) ∧ coro.state = .running ∧
      e.Sets next c coro { coro with ctx := ctx } := by
  unfold yield at yielded
  split at yielded
  · next c current =>
      split at yielded
      · cases yielded
      · next coro found =>
          split at yielded
          · cases yielded
          · next free =>
              rw [not_or, not_not] at free
              have same := resumeNext_same yielded
              exact ⟨c, coro, current, free.2,
                found, same.coros, same.pool, same.spawned, same.coroCount⟩
  · cases yielded

theorem wakeup_sets {e next : Engine F} {c : CoroId} (woken : e.wakeup (.coro c) = some next) :
    ∃ coro, e.coros c = some coro ∧ (next = e ∧ coro.state ≠ .suspended ∨
      coro.state = .suspended ∧ e.Sets next c coro { coro with state := .running }) := by
  simp only [wakeup] at woken
  split at woken
  · cases woken
  · next coro found =>
      refine ⟨coro, found, ?_⟩
      split at woken
      · next state =>
          cases woken
          exact Or.inl ⟨rfl, by simp [state]⟩
      · next state =>
          cases woken
          exact Or.inl ⟨rfl, by simp [state]⟩
      · next state =>
          split at woken
          · cases woken
          · cases woken
            exact Or.inr ⟨state, found, rfl, rfl, rfl, rfl⟩

theorem finish_sets {e next : Engine F} {ret : Nat} (done : e.finish ret = some next) :
    ∃ c coro middle, e.thisCoro = some (.coro c) ∧ coro.state = .running ∧
      e.Sets middle c coro (coro.done ret) ∧ ((∀ j, coro.joiner ≠ some (.coro j)) ∧
        middle.Same next ∨ ∃ j woken, coro.joiner = some (.coro j) ∧
        middle.wakeup (.coro j) = some woken ∧ woken.Same next) := by
  unfold finish at done
  split at done
  · next c current =>
      split at done
      · cases done
      · next coro found =>
          split at done
          · cases done
          · next state =>
              rw [not_not] at state
              refine ⟨c, coro, _, current, state, setCoro_sets (coro.done ret) found, ?_⟩
              dsimp only at done
              split at done
              · next none => exact Or.inl ⟨by simp [none], resumeNext_same done⟩
              · next who joiner =>
                  rw [Option.bind_eq_some_iff] at done
                  obtain ⟨woken, wakes, resumed⟩ := done
                  cases who with
                  | sched =>
                      cases wakes
                      exact Or.inl ⟨by simp [joiner], resumeNext_same resumed⟩
                  | coro j => exact Or.inr ⟨j, woken, joiner, wakes, resumeNext_same resumed⟩
  · cases done

theorem land_sets {e next : Engine F} {c : CoroId} {ctx : Context F}
    (landed : e.land c = some (next, ctx)) : ∃ coro, coro.ctx = ctx ∧
      next.thisCoro = some (.coro c) ∧ e.Sets next c coro { coro with ctx := .active } := by
  unfold land at landed
  split at landed
  · cases landed
  · next coro found =>
      refine ⟨coro, ?_⟩
      cases place : coro.ctx <;> rw [place] at landed <;> dsimp only at landed
      · cases landed
      · cases landed
        exact ⟨rfl, rfl, found, rfl, rfl, rfl, rfl⟩
      all_goals
        split at landed <;> cases landed
        exact ⟨rfl, rfl, found, rfl, rfl, rfl, rfl⟩

theorem spawn_sets {e next : Engine F} (spawned : e.spawn = some next) :
    (e.pool = [] ∧ next.pool = [] ∧ next.spawned = e.spawned + 1 ∧
      next.coroCount = e.coroCount + 1 ∧ next.coros = Function.update e.coros e.spawned
        (some { state := .running, ret := 0, func := true, ctx := .start, joiner := none })) ∨
    ∃ c rest coro, e.pool = c :: rest ∧ next.pool = rest ∧ next.spawned = e.spawned ∧
      next.coroCount = e.coroCount ∧ e.coros c = some coro ∧ next.coros =
        Function.update e.coros c (some { coro with func := true, state := .running }) := by
  unfold spawn at spawned
  split at spawned
  · next pool =>
      cases spawned
      exact Or.inl ⟨pool, pool, rfl, rfl, rfl⟩
  · next c rest pool =>
      split at spawned
      · cases spawned
      · next coro found =>
          dsimp only at spawned
          split at spawned
          · cases spawned
          · cases spawned
            exact Or.inr ⟨c, rest, coro, pool, rfl, rfl, rfl, found, rfl⟩

structure Returns (e next : Engine F) (target : CoroId) (coro : Coro F) : Prop where
  finished : coro.state = .finished
  coros : next.coros = Function.update e.coros target (some { coro with joiner := none, ret := 0 })
  pool : next.pool = target :: e.pool
  spawned : next.spawned = e.spawned
  coroCount : next.coroCount = e.coroCount
  thisCoro : next.thisCoro = e.thisCoro

theorem joinTurn_sets {e next : Engine F} {target : CoroId} {ret : Option Nat}
    (turned : e.joinTurn target = some (next, ret)) : ∃ coro, e.coros target = some coro ∧
      (ret = some coro.ret ∧ e.Returns next target coro ∨
        ret = none ∧ coro.state ≠ .finished ∧ e.suspend (.joining target) = some next) := by
  unfold joinTurn at turned
  split at turned
  · cases turned
  · next coro found =>
      refine ⟨coro, found, ?_⟩
      split at turned
      · next state =>
          split at turned
          · cases turned
          · cases turned
            exact Or.inl ⟨rfl, state, rfl, rfl, rfl, rfl, rfl⟩
      · next state =>
          rw [Option.map_eq_some_iff] at turned
          obtain ⟨left, suspended, same⟩ := turned
          cases same
          exact Or.inr ⟨rfl, state, suspended⟩

theorem join_sets {e next : Engine F} {target : CoroId} {ret : Option Nat}
    (joined : e.join target = some (next, ret)) : ∃ coro, e.coros target = some coro ∧
      coro.joiner = none ∧ (ret = some coro.ret ∧ e.Returns next target coro ∨
        ret = none ∧ coro.state ≠ .finished ∧
          (e.setCoro target { coro with joiner := e.thisCoro }).suspend (.joining target) =
            some next) := by
  unfold join at joined
  split at joined
  · cases joined
  · next coro found =>
      split at joined
      · cases joined
      · next joiner =>
          rw [not_not] at joiner
          refine ⟨coro, found, joiner, ?_⟩
          obtain ⟨coro', found', cases⟩ := joinTurn_sets joined
          simp only [setCoro, Function.update_self, Option.some.injEq] at found'
          subst found'
          rcases cases with ⟨same, returns⟩ | ⟨same, state, suspended⟩
          · refine Or.inl ⟨same, returns.finished, ?_, returns.pool, returns.spawned,
              returns.coroCount, returns.thisCoro⟩
            rw [returns.coros]
            exact Function.update_idem _ _ _
          · exact Or.inr ⟨same, state, suspended⟩

end Engine

end SystemProg.Coroutine
