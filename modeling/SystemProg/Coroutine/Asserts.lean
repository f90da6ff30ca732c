import SystemProg.Coroutine.Rules

set_option autoImplicit false

-- While a coroutine has control, what is left of the current turn ends in the scheduler. With that
-- and what `Valid` says about the lists, each call of the engine has an outcome.

namespace SystemProg.Coroutine

namespace Engine

variable {F : Type}

structure Turn (e : Engine F) : Prop where
  main : e.jump = none → e.thisCoro = none → e.runningNow = []
  back : e.jump = some .sched → e.runningNow = []
  inside : ∀ c, e.jump = some (.coro c) ∨ e.jump = none ∧ e.thisCoro = some (.coro c) →
    ∃ now : List CoroId, e.runningNow = now.map .coro ++ [.sched]

theorem create_turn : (create : Engine F).Turn := ⟨fun _ _ => rfl, nofun, by simp [create]⟩

theorem Turn.of_same {e next : Engine F} (turn : e.Turn) (runningNow : next.runningNow = e.runningNow)
    (thisCoro : next.thisCoro = e.thisCoro) (jump : next.jump = e.jump) : next.Turn where
  main := by
    rw [runningNow, thisCoro, jump]
    exact turn.main
  back := by
    rw [runningNow, jump]
    exact turn.back
  inside := by
    rw [runningNow, thisCoro, jump]
    exact turn.inside

theorem resumeNext_turn {e next : Engine F} {now : List CoroId}
    (queue : e.runningNow = now.map .coro ++ [.sched]) (resumed : e.resumeNext = some next) :
    next.Turn := by
  obtain ⟨target, rest, split, rfl⟩ := resumeNext_eq resumed
  rw [queue] at split
  cases now with
  | nil =>
      cases split
      exact ⟨nofun, fun _ => rfl, by simp⟩
  | cons c now =>
      cases split
      exact ⟨nofun, by simp, fun _ _ => ⟨now, rfl⟩⟩

theorem resumeNext_defined {e : Engine F} {now : List CoroId} {who : CoroRef}
    (queue : e.runningNow = now.map .coro ++ [.sched]) (current : e.thisCoro = some who) :
    ∃ next, e.resumeNext = some next := by
  rw [resumeNext, queue, current]
  cases now with
  | nil => exact ⟨_, rfl⟩
  | cons c now => exact ⟨_, rfl⟩

theorem runTurn_turn {e next : Engine F} (idle : e.jump = none) (main : e.thisCoro = none)
    (turned : e.runTurn = some next) : next.Turn := by
  unfold runTurn at turned
  split at turned
  · cases turned
  · next empty =>
      split at turned
      · cases turned
        refine ⟨fun _ _ => by simpa using empty, ?_, ?_⟩
        · simp [idle]
        · simp [idle, main]
      · rw [if_neg (by simp [main])] at turned
        exact resumeNext_turn rfl turned

theorem runTurn_defined {e : Engine F} (main : e.thisCoro = none) (empty : e.runningNow = []) :
    ∃ next, e.runTurn = some next := by
  unfold runTurn
  rw [if_neg (by simp [empty])]
  split
  · exact ⟨e, rfl⟩
  · rw [if_neg (by simp [main])]
    exact resumeNext_defined (by rfl) (by rfl)

theorem suspend_turn {e next : Engine F} {ctx : Context F} (turn : e.Turn) (idle : e.jump = none)
    (suspended : e.suspend ctx = some next) : next.Turn := by
  unfold suspend at suspended
  split at suspended
  · next c current =>
      obtain ⟨now, queue⟩ := turn.inside c (Or.inr ⟨idle, current⟩)
      split at suspended
      · cases suspended
      · split at suspended
        · cases suspended
        · exact resumeNext_turn (by exact queue) suspended
  · cases suspended

theorem yield_turn {e next : Engine F} {ctx : Context F} (turn : e.Turn) (idle : e.jump = none)
    (yielded : e.yield ctx = some next) : next.Turn := by
  unfold yield at yielded
  split at yielded
  · next c current =>
      obtain ⟨now, queue⟩ := turn.inside c (Or.inr ⟨idle, current⟩)
      split at yielded
      · cases yielded
      · split at yielded
        · cases yielded
        · exact resumeNext_turn (by exact queue) yielded
  · cases yielded

theorem wakeup_runningNow {who : CoroRef} {e next : Engine F} (woken : e.wakeup who = some next) :
    next.runningNow = e.runningNow ∧ next.thisCoro = e.thisCoro ∧ next.jump = e.jump := by
  cases who with
  | sched =>
      cases woken
      exact ⟨rfl, rfl, rfl⟩
  | coro c =>
      simp only [wakeup] at woken
      split at woken
      · cases woken
      · split at woken
        · cases woken
          exact ⟨rfl, rfl, rfl⟩
        · cases woken
          exact ⟨rfl, rfl, rfl⟩
        · split at woken
          · cases woken
          · cases woken
            exact ⟨rfl, rfl, rfl⟩

theorem wakeup_turn {who : CoroRef} {e next : Engine F} (turn : e.Turn)
    (woken : e.wakeup who = some next) : next.Turn :=
  have ⟨runningNow, thisCoro, jump⟩ := wakeup_runningNow woken
  turn.of_same runningNow thisCoro jump

theorem spawn_turn {e next : Engine F} (turn : e.Turn) (spawned : e.spawn = some next) :
    next.Turn := by
  unfold spawn at spawned
  split at spawned
  · cases spawned
    exact turn.of_same rfl rfl rfl
  · split at spawned
    · cases spawned
    · dsimp only at spawned
      split at spawned
      · cases spawned
      · cases spawned
        exact turn.of_same rfl rfl rfl

theorem finish_turn {e next : Engine F} {ret : Nat} (turn : e.Turn) (idle : e.jump = none)
    (done : e.finish ret = some next) : next.Turn := by
  unfold finish at done
  split at done
  · next c current =>
      obtain ⟨now, queue⟩ := turn.inside c (Or.inr ⟨idle, current⟩)
      split at done
      · cases done
      · split at done
        · cases done
        · dsimp only at done
          split at done
          · exact resumeNext_turn (by exact queue) done
          · rw [Option.bind_eq_some_iff] at done
            obtain ⟨woken, wakes, resumed⟩ := done
            exact resumeNext_turn ((wakeup_runningNow wakes).1.trans queue) resumed
  · cases done

theorem joinTurn_turn {e next : Engine F} {target : CoroId} {ret : Option Nat} (turn : e.Turn)
    (idle : e.jump = none) (turned : e.joinTurn target = some (next, ret)) : next.Turn := by
  unfold joinTurn at turned
  split at turned
  · cases turned
  · split at turned
    · split at turned
      · cases turned
      · cases turned
        exact turn.of_same rfl rfl rfl
    · rw [Option.map_eq_some_iff] at turned
      obtain ⟨left, suspended, same⟩ := turned
      cases same
      exact suspend_turn turn idle suspended

theorem join_turn {e next : Engine F} {target : CoroId} {ret : Option Nat} (turn : e.Turn)
    (idle : e.jump = none) (joined : e.join target = some (next, ret)) : next.Turn := by
  unfold join at joined
  split at joined
  · cases joined
  · split at joined
    · cases joined
    · exact joinTurn_turn (turn.of_same (by rfl) (by rfl) (by rfl)) (by exact idle) joined

theorem landSched_turn {e next : Engine F} (landed : e.landSched = some next) : next.Turn := by
  unfold landSched at landed
  split at landed
  · cases landed
  · next clear =>
      simp only [not_or, not_not] at clear
      exact runTurn_turn (by rfl) (by exact clear.2.1) landed

theorem land_turn {e next : Engine F} {c : CoroId} {ctx : Context F} (turn : e.Turn)
    (jump : e.jump = some (.coro c)) (landed : e.land c = some (next, ctx)) : next.Turn := by
  obtain ⟨now, queue⟩ := turn.inside c (Or.inl jump)
  have here : ∀ coro : Coro F,
      Turn { e.setCoro c coro with thisCoro := some (.coro c), jump := none } := fun coro =>
    ⟨nofun, nofun, fun _ _ => ⟨now, queue⟩⟩
  unfold land at landed
  split at landed
  · cases landed
  · dsimp only at landed
    split at landed
    · cases landed
    · cases landed
      exact here _
    all_goals
      split at landed <;> cases landed
      exact here _

theorem linked_scheduled {e : Engine F} {c : CoroId} (linked : e.Linked c) :
    c ∈ e.schedule ∨ c ∈ e.pool := by
  rcases linked with now | next | pool
  · refine Or.inl ?_
    simp only [schedule, List.mem_append, List.mem_filterMap]
    exact Or.inl (Or.inr ⟨_, now, rfl⟩)
  · exact Or.inl (List.mem_append_right _ next)
  · exact Or.inr pool

theorem Valid.notLinked {e : Engine F} (valid : e.Valid) {c : CoroId} {state : CoroState}
    {ctx : Context F} (look : e.look c = some (state, ctx)) (idle : state ≠ .running ∨ ctx = .active)
    (outside : c ∉ e.pool) : ¬e.Linked c := by
  intro linked
  rcases linked_scheduled linked with mem | mem
  · exact valid.notScheduled look idle mem
  · exact outside mem

theorem Valid.notPooled {e : Engine F} (valid : e.Valid) {c : CoroId} {state : CoroState}
    {ctx : Context F} (look : e.look c = some (state, ctx)) (working : state ≠ .finished) :
    c ∉ e.pool := by
  intro mem
  have look' := valid.pooled c mem
  rw [look] at look'
  cases look'
  exact working rfl

theorem look_coros {e : Engine F} {c : CoroId} {state : CoroState} {ctx : Context F}
    (look : e.look c = some (state, ctx)) :
    ∃ coro, e.coros c = some coro ∧ coro.state = state ∧ coro.ctx = ctx := by
  rw [Engine.look, Option.map_eq_some_iff] at look
  obtain ⟨coro, found, same⟩ := look
  cases same
  exact ⟨coro, found, rfl, rfl⟩

section Defined

variable {e : Engine F} {c : CoroId} {now : List CoroId}

theorem Valid.currentCoro (valid : e.Valid) (current : e.thisCoro = some (.coro c)) :
    ∃ coro, e.coros c = some coro ∧ coro.state = .running ∧ ¬e.Linked c := by
  have look := valid.currentLook current
  obtain ⟨coro, found, state, -⟩ := look_coros look
  exact ⟨coro, found, state,
    valid.notLinked look (Or.inr rfl) (valid.notPooled look (by simp))⟩

theorem suspend_defined (valid : e.Valid) (current : e.thisCoro = some (.coro c))
    (queue : e.runningNow = now.map .coro ++ [.sched]) (ctx : Context F) :
    ∃ next, e.suspend ctx = some next := by
  obtain ⟨coro, found, state, free⟩ := valid.currentCoro current
  simp only [suspend, current, found, state, free]
  rw [if_neg (by simp)]
  exact resumeNext_defined queue current

theorem yield_defined (valid : e.Valid) (current : e.thisCoro = some (.coro c))
    (queue : e.runningNow = now.map .coro ++ [.sched]) (ctx : Context F) :
    ∃ next, e.yield ctx = some next := by
  obtain ⟨coro, found, state, free⟩ := valid.currentCoro current
  simp only [yield, current, found, state, free]
  rw [if_neg (by simp)]
  exact resumeNext_defined queue current

theorem wakeup_free (there : e.coros c ≠ none)
    (free : ∀ coro, e.coros c = some coro → coro.state = .suspended → ¬e.Linked c) :
    ∃ next, e.wakeup (.coro c) = some next ∧ next.runningNow = e.runningNow ∧
      next.thisCoro = e.thisCoro := by
  obtain ⟨coro, found⟩ := Option.ne_none_iff_exists'.mp there
  simp only [wakeup, found]
  split
  · exact ⟨e, rfl, rfl, rfl⟩
  · exact ⟨e, rfl, rfl, rfl⟩
  · next state =>
      rw [if_neg (free coro found state)]
      exact ⟨_, rfl, rfl, rfl⟩

theorem Valid.asleepFree (valid : e.Valid) {coro : Coro F} (found : e.coros c = some coro)
    (state : coro.state = .suspended) : ¬e.Linked c := by
  have look := look_state found
  rw [state] at look
  exact valid.notLinked look (Or.inl (by simp)) (valid.notPooled look (by simp))

theorem wakeup_defined (valid : e.Valid) (there : e.coros c ≠ none) :
    ∃ next, e.wakeup (.coro c) = some next := by
  obtain ⟨next, woken, -⟩ := wakeup_free there fun _ => valid.asleepFree
  exact ⟨next, woken⟩

theorem spawn_defined (valid : e.Valid) : ∃ next, e.spawn = some next := by
  unfold spawn
  split
  · exact ⟨_, rfl⟩
  · next d rest pool =>
      have look := valid.pooled d (by simp [pool])
      obtain ⟨coro, found, -⟩ := look_coros look
      have distinct := valid.poolDistinct
      rw [pool, List.nodup_cons] at distinct
      have outside := valid.notScheduled look (Or.inl (by simp))
      simp only [found]
      rw [if_neg]
      · exact ⟨_, rfl⟩
      · rintro (now | next | mem)
        · apply outside
          simp only [schedule, List.mem_append, List.mem_filterMap]
          exact Or.inl (Or.inr ⟨_, now, rfl⟩)
        · exact outside (List.mem_append_right _ next)
        · exact distinct.1 mem

theorem finish_defined (valid : e.Valid) (current : e.thisCoro = some (.coro c))
    (queue : e.runningNow = now.map .coro ++ [.sched])
    (joiner : ∀ coro j, e.coros c = some coro → coro.joiner = some (.coro j) →
      e.coros j ≠ none) (ret : Nat) :
    ∃ next, e.finish ret = some next := by
  obtain ⟨coro, found, state, free⟩ := valid.currentCoro current
  simp only [finish, current, found, state]
  rw [if_neg (by simp)]
  split
  · exact resumeNext_defined queue current
  · next who joins =>
      cases who with
      | sched => exact resumeNext_defined queue current
      | coro j =>
          have there := joiner coro j found joins
          -- The coroutine that ends is FINISHED by now and would not be woken.
          obtain ⟨woken, wakes, queue', current'⟩ := wakeup_free (c := j)
            (e := e.setCoro c
              { coro with ret := ret, func := false, state := .finished, ctx := .restart })
            (by
              by_cases same : j = c
              · simp [setCoro, same]
              · simpa [setCoro, same] using there)
            (by
              intro other found' asleep
              by_cases same : j = c
              · subst same
                simp only [setCoro, Function.update_self, Option.some.injEq] at found'
                subst found'
                cases asleep
              · simp only [setCoro, Function.update_of_ne same] at found'
                exact valid.asleepFree found' asleep)
          rw [wakes, Option.bind_some]
          exact resumeNext_defined (queue'.trans queue) (current'.trans current)

theorem joinTurn_defined {coro : Coro F} {who : CoroRef} (valid : e.Valid)
    (found : e.coros c = some coro) (joiner : coro.joiner = e.thisCoro) (outside : c ∉ e.pool)
    (current : coro.state ≠ .finished → e.thisCoro = some who)
    (queue : coro.state ≠ .finished → e.runningNow = now.map .coro ++ [.sched]) :
    ∃ result, e.joinTurn c = some result := by
  simp only [joinTurn, found]
  split
  · next state =>
      have look := look_state found
      rw [state] at look
      have free := valid.notLinked look (Or.inl (by simp)) outside
      rw [if_neg (by simp [joiner, free])]
      exact ⟨_, rfl⟩
  · next working =>
      obtain ⟨d, rfl, -⟩ := valid.current who (current working)
      obtain ⟨next, suspended⟩ :=
        suspend_defined valid (current working) (queue working) (.joining c)
      exact ⟨(next, none), by rw [suspended, Option.map_some]⟩

theorem land_defined (valid : e.Valid) (jump : e.jump = some (.coro c))
    (works : ∀ coro, e.coros c = some coro → coro.state ≠ .finished → coro.func = true) :
    ∃ ctx next, ctx ≠ .active ∧ e.land c = some (next, ctx) := by
  obtain ⟨free, idle⟩ := valid.unlinked jump
  have mem : c ∈ e.schedule := by
    simp [schedule, jump, CoroRef.coro?]
  obtain ⟨ctx, look, place⟩ := valid.scheduled c mem
  obtain ⟨coro, found, state, rfl⟩ := look_coros look
  have func := works coro found (by simp [state])
  refine ⟨coro.ctx, ?_⟩
  cases inside : coro.ctx with
  | active => exact absurd inside place
  | start => simp [land, found, inside]
  | restart => simp [land, found, inside, free, idle, state, func]
  | code | joining | frame => simp [land, found, inside, free, idle]

end Defined

-- `coro_engine_destroy`: the loop over the pool, with what is left of the count.
def destroyPool : List CoroId → Nat → Option Nat
  | [], count => some count
  | _ :: rest, count => if 0 < count then destroyPool rest (count - 1) else none

def destroy (e : Engine F) : Option Unit :=
  if e.thisCoro ≠ none ∨ e.runningNow ≠ [] ∨ e.runningNext ≠ [] then none
  else (destroyPool e.pool e.coroCount).bind fun count => if count = 0 then some () else none

theorem destroyPool_length (pool : List CoroId) : destroyPool pool pool.length = some 0 := by
  induction pool with
  | nil => rfl
  | cons c rest ih => simpa [destroyPool] using ih

end Engine

end SystemProg.Coroutine
