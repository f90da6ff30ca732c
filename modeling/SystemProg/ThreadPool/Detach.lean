import SystemProg.ThreadPool.Apart

set_option autoImplicit false

-- A thread detaches a task that has been pushed, and no other call is made on the task. Whether the
-- call or the worker deletes the task follows from which of them locks its mutex last.

namespace SystemProg.ThreadPool

namespace World

-- The task is in the pool, it has been neither joined nor detached, and no call is in progress on
-- it but the push that put it there.
def InPool (s : World) (p : PoolId) (t : TaskId) : Prop :=
  (∀ c ∈ s.calls, c.uses t = 0) ∧ ∃ task, s.tasks t = some task ∧ task.pool = some p ∧
    task.detached = false ∧
      (task.state = .queued ∨ task.state = .running ∨ task.state = .finished)

def Concerns (s : World) (i : Nat) (t : TaskId) : Action → Prop
  | .begin _ => False
  | .call j _ => j = i
  | .worker w => ∃ worker, s.workers[w]? = some worker ∧ worker.Holds t

def Forgotten (s : World) (t : TaskId) : Prop :=
  (∀ c ∈ s.calls, c.uses t = 0) ∧ (∀ p, t ∉ s.queue p) ∧ ∀ worker ∈ s.workers, ¬worker.Holds t

structure Detached (s : World) (p : PoolId) (t : TaskId) (i : Nat) : Prop where
  once : s.timesDestroyed t = if s.tasks t = none then 1 else 0
  returned : s.tasks t = none → s.timesReturned t = s.timesPushed t
  forgotten : s.tasks t = none → s.Forgotten t
  -- The call and the worker are through.
  deleted : ∀ op result, s.calls[i]? = some (.returned op result) →
    s.timesReturned t = s.timesPushed t → (∀ worker ∈ s.workers, ¬worker.Holds t) →
      s.tasks t = none
  counted : ∀ action next, s.Concerns i t action → s.step action = some next →
    next.timesDestroyed t = s.timesDestroyed t ∧ next.count p = s.count p ∨
      next.timesDestroyed t = s.timesDestroyed t + 1 ∧ next.count p = (s.count p).map (· - 1)
  -- No step of theirs is undefined, unless the pool has been deleted.
  defined : ∀ action, s.Concerns i t action → (∃ pool, s.pools p = some pool) →
    (∃ op result, s.calls[i]? = some (.returned op result) ∧ ∃ choice, action = .call i choice) ∨
      ∃ next, s.step action = some next

variable {s w : World} {t : TaskId}

structure Tended (s : World) : Prop where
  fresh : ∀ t, s.tasksMade ≤ t → s.timesDestroyed t = 0
  whole : ∀ t task, s.tasks t = some task → s.timesDestroyed t = 0
  doomed : ∀ worker ∈ s.workers, ∀ t q, worker.pc = .deleting t q → t < s.tasksMade ∧
    ∀ task, s.tasks t = some task → task.detached = true

structure Ages (s w : World) : Prop where
  made : w.tasksMade = s.tasksMade
  tasks : ∀ t task', w.tasks t = some task' → ∃ task, s.tasks t = some task ∧
    (task.detached = true → task'.detached = true)
  destroyed : ∀ t, w.timesDestroyed t = s.timesDestroyed t ∨
    w.tasks t = none ∧ ∃ task, s.tasks t = some task

theorem ages_refl (s : World) : s.Ages s :=
  ⟨rfl, fun _ task' there => ⟨task', there, id⟩, fun _ => Or.inl rfl⟩

theorem Ages.setPool (ages : s.Ages w) (p : PoolId) (pool : Option Pool) :
    s.Ages (w.setPool p pool) :=
  ⟨ages.made, ages.tasks, ages.destroyed⟩

theorem Ages.emit (ages : s.Ages w) {event : Event} (quiet : ∀ t, event.destroys t = 0) :
    s.Ages (w.emit event) :=
  ⟨ages.made, ages.tasks, fun t => by rw [emit_timesDestroyed, quiet]; exact ages.destroyed t⟩

theorem ages_setTask {task : Task} (there : s.tasks t = some task) {task' : Task}
    (detached : task.detached = true → task'.detached = true) :
    s.Ages (s.setTask t (some task')) := by
  refine ⟨rfl, fun t' k found => ?_, fun _ => Or.inl rfl⟩
  rw [setTask_tasks] at found
  split at found
  · next here =>
      cases found
      exact ⟨task, here ▸ there, detached⟩
  · exact ⟨k, found, id⟩

theorem ages_delete {task : Task} (there : s.tasks t = some task) {event : Event}
    (destroys : ∀ t', t' ≠ t → event.destroys t' = 0) : s.Ages ((s.setTask t none).emit event) := by
  refine ⟨rfl, fun t' k found => ?_, fun t' => ?_⟩
  · change (s.setTask t none).tasks t' = some k at found
    rw [setTask_tasks] at found
    split at found
    · cases found
    · exact ⟨k, found, id⟩
  · by_cases here : t' = t
    · refine Or.inr ⟨?_, task, here ▸ there⟩
      change (s.setTask t none).tasks t' = none
      rw [setTask_tasks, if_pos here]
    · refine Or.inl ?_
      rw [emit_timesDestroyed, destroys t' here]
      rfl

theorem CallStepped.ages {c c' : Call} (stepped : s.CallStepped c w c') : s.Ages w := by
  cases stepped with
  | accepts p t' task there => exact (ages_setTask there (by exact id)).emit (by exact fun _ => rfl)
  | joins _ t' task p _ there | joinsAlone _ t' task _ there =>
      exact (ages_setTask there (by exact id)).emit (by exact fun _ => rfl)
  | timedJoins _ t' task p pool _ there =>
      exact ((ages_setTask there (by exact id)).emit (by exact fun _ => rfl)).setPool _ _
  | timedRejoins t' task p pool there => exact (ages_setTask there (by exact id)).setPool _ _
  | detaches t' task there => exact ages_setTask there fun _ => rfl
  | detachReleases t' task p pool there =>
      exact (ages_delete there (by exact fun t' other => if_neg (Ne.symm other))).setPool _ _
  | deleteFrees t' task there => exact ages_delete there fun t' other => if_neg (Ne.symm other)
  | enqueues p t' creations pool pool' workers =>
      exact ⟨rfl, fun _ task' there => ⟨task', there, id⟩, fun _ => Or.inl rfl⟩
  | reserves | rollsBack | joinReleases | poolStops | poolEnds => exact (ages_refl s).setPool _ _
  | _ => exact ages_refl s

theorem WorkerStepped.ages {worker : Worker} {pc : WorkerPc}
    (stepped : s.WorkerStepped worker w pc) : s.Ages w := by
  cases stepped with
  | waits | exits => exact ages_refl s
  | takes => exact (ages_refl s).setPool _ _
  | starts t' task _ there => exact (ages_setTask there (by exact id)).emit fun _ => rfl
  | ends => exact (ages_refl s).emit fun _ => rfl
  | finishes t' task _ there => exact ages_setTask there id
  | deletes t' task p pool _ there =>
      exact (ages_delete there (by exact fun t' other => if_neg (Ne.symm other))).setPool _ _

theorem Tended.ages (tended : s.Tended) (orderly : s.Orderly) (ages : s.Ages w)
    (doomed : ∀ worker ∈ w.workers, worker ∈ s.workers ∨ ∀ t q, worker.pc = .deleting t q →
      t < s.tasksMade ∧ ∀ task, w.tasks t = some task → task.detached = true) : w.Tended where
  fresh t made := by
    rw [ages.made] at made
    rcases ages.destroyed t with same | ⟨-, task, there⟩
    · exact same.trans (tended.fresh t made)
    · exact absurd (made_of_fresh orderly.unmade there) (Nat.not_lt.mpr made)
  whole t task' there' := by
    obtain ⟨task, there, -⟩ := ages.tasks t task' there'
    rcases ages.destroyed t with same | ⟨gone, -⟩
    · exact same.trans (tended.whole t task there)
    · rw [gone] at there'
      cases there'
  doomed worker member t q pc := by
    rw [ages.made]
    rcases doomed worker member with old | own
    · obtain ⟨made, detached⟩ := tended.doomed worker old t q pc
      refine ⟨made, fun task' there' => ?_⟩
      obtain ⟨task, there, kept⟩ := ages.tasks t task' there'
      exact kept (detached task there)
    · exact own t q pc

theorem Tended.begins (tended : s.Tended) (op : Op) (calls : List Call) :
    ((s.begin op).1.withCalls calls).Tended := by
  obtain ⟨-, same | ⟨n, -, -, same⟩ | same⟩ := begin_effect s op <;> rw [same]
  · exact ⟨tended.fresh, tended.whole, tended.doomed⟩
  · exact ⟨tended.fresh, tended.whole, tended.doomed⟩
  · have new : s.timesDestroyed s.tasksMade = 0 := tended.fresh _ (Nat.le_refl _)
    have tasks : ∀ t, (s.makeTask.withCalls calls).tasks t =
        if t = s.tasksMade then some { pool := none, state := .new, detached := false }
          else s.tasks t := setTask_tasks _ _ _
    refine ⟨fun t made => tended.fresh t (Nat.le_of_succ_le made), fun t task there => ?_,
      fun worker member t q pc => ?_⟩
    · rw [tasks] at there
      split at there
      · next here => exact here ▸ new
      · exact tended.whole t task there
    · obtain ⟨made, detached⟩ := tended.doomed worker member t q pc
      refine ⟨Nat.lt_succ_of_lt made, fun task there => ?_⟩
      rw [tasks, if_neg (Nat.ne_of_lt made)] at there
      exact detached task there

theorem tended_init : init.Tended :=
  ⟨fun _ _ => rfl, fun _ _ there => (by cases there), fun _ member => (by cases member)⟩

theorem Tended.step (tended : s.Tended) (orderly : s.Orderly) {action : Action} {next : World}
    (taken : s.step action = some next) : next.Tended := by
  cases action with
  | begin op =>
      cases taken
      exact tended.begins op (s.calls ++ [(s.begin op).2])
  | call i choice =>
      obtain ⟨c, w, c', at_i, stepped, rfl⟩ := step_called taken
      have stepped := callStep_stepped stepped
      have aged := tended.ages orderly stepped.ages fun worker member => ?_
      · exact ⟨aged.fresh, aged.whole, aged.doomed⟩
      · rcases stepped.effect with ⟨p, t, task, rfl, rfl, there, idle, rfl⟩ |
          ⟨p, t, creations, pool, pool', workers, rfl, rfl, there, started, rfl⟩ | passive
        · exact Or.inl member
        · obtain ⟨k, same⟩ :=
            startThreads_eq p creations { pool with queue := pool.queue ++ [t] } s.workers
          rw [started] at same
          cases same
          rcases List.mem_append.mp member with old | new
          · exact Or.inl old
          · rw [List.eq_of_mem_replicate new]
            exact Or.inr fun t q pc => by cases pc
        · rw [passive.workers] at member
          exact Or.inl member
  | worker i =>
      obtain ⟨worker, w, pc, at_i, stepped, rfl⟩ := step_worked taken
      have stepped := workerStep_stepped stepped
      have ages := stepped.ages
      refine tended.ages orderly ⟨ages.made, ages.tasks, ages.destroyed⟩ fun worker' member => ?_
      have workers : w.workers = s.workers := by cases stepped <;> rfl
      rw [setWorker, workers] at member
      rcases List.mem_or_eq_of_mem_set member with old | rfl
      · exact Or.inl old
      · refine Or.inr fun t q same => ?_
        cases stepped with
        | finishes t' task atPc there =>
            dsimp only at same
            split at same
            · next detached =>
                cases same
                refine ⟨made_of_fresh orderly.unmade there, fun task' there' => ?_⟩
                have kept := setTask_tasks s t (some { task with state := .finished }) t
                rw [if_pos rfl] at kept
                cases kept.symm.trans there'
                exact detached
            · cases same
        | _ => cases same

-- The task while the `i`-th call detaches it: as long as it is there, either the call or the worker
-- is to delete it.
structure Detaching (p : PoolId) (t : TaskId) (i : Nat) (s : World) : Prop where
  made : t < s.tasksMade
  others : ∀ j c, j ≠ i → s.calls[j]? = some c → c.uses t = 0
  present : ∀ task, s.tasks t = some task → task.pool = some p ∧
    (task.state = .queued ∨ task.state = .running ∨ task.state = .finished) ∧
      (s.calls[i]? = some (.detach t) ∧ task.detached = false ∨
        s.calls[i]? = some (.detachRelease t) ∧ task.state = .finished ∧ task.detached = false ∨
          s.calls[i]? = some (detached t .ok) ∧ task.detached = true) ∧
        total (Worker.buries t) s.workers =
          if task.state = .finished ∧ task.detached = true then 1 else 0
  gone : s.tasks t = none → s.calls[i]? = some (detached t .ok) ∧
    s.timesPushed t = s.timesReturned t ∧ total (Worker.comesBack t) s.workers = 0 ∧
      total (Worker.buries t) s.workers = 0
  home : total (Worker.kills p t) s.workers = total (Worker.buries t) s.workers
  destroyed : s.timesDestroyed t = if s.tasks t = none then 1 else 0

variable {p : PoolId} {i : Nat}

theorem Detaching.away (life : s.Detaching p t i) (away : s.Away w t)
    (here : w.calls[i]? = s.calls[i]?)
    (others : ∀ j c, j ≠ i → w.calls[j]? = some c → c.uses t = 0) : w.Detaching p t i := by
  obtain ⟨destroyed, pushed, returned⟩ := away.counts
  have buries : total (Worker.buries t) w.workers = total (Worker.buries t) s.workers := by
    refine away.hands _ fun worker _ other => ?_
    unfold Worker.buries
    split
    · next t' q pc =>
        rw [if_neg]
        rintro rfl
        exact other q pc
    · rfl
  have kills : total (Worker.kills p t) w.workers = total (Worker.kills p t) s.workers :=
    away.hands _ fun worker _ other => if_neg (other _)
  have back : total (Worker.comesBack t) w.workers = total (Worker.comesBack t) s.workers :=
    away.hands _ fun worker other _ => if_neg other
  refine ⟨Nat.lt_of_lt_of_le life.made away.made, others, ?_, ?_, ?_, ?_⟩
  · rw [away.task, here, buries]
    exact life.present
  · rw [away.task, here, pushed, returned, buries, back]
    exact life.gone
  · rw [kills, buries]
    exact life.home
  · rw [away.task, destroyed]
    exact life.destroyed

theorem Detaching.begins (life : s.Detaching p t i) {op : Op} (other : op.task ≠ some t)
    (inside : i < s.calls.length) {next : World} (taken : s.step (.begin op) = some next) :
    next.Detaching p t i := by
  have begun : (s.begin op).1.withCalls (s.calls ++ [(s.begin op).2]) = next :=
    Option.some.inj taken
  subst begun
  have away := begin_away op life.made
  refine life.away ⟨away.task, away.made, away.log, away.hands⟩
    (List.getElem?_append_left inside) fun j c apart there => ?_
  rcases Nat.lt_or_ge j s.calls.length with before | beyond
  · exact life.others j c apart ((List.getElem?_append_left before).symm.trans there)
  · have last : c ∈ [(s.begin op).2] :=
      List.mem_of_getElem? ((List.getElem?_append_right beyond).symm.trans there)
    rw [List.mem_singleton.mp last]
    exact begin_uses other

theorem Detaching.called (life : s.Detaching p t i) {j : Nat} (apart : j ≠ i) {c c' : Call}
    (there : s.calls[j]? = some c) (stepped : s.CallStepped c w c') :
    (w.setCall j c').Detaching p t i := by
  obtain ⟨away, unused⟩ := stepped.away (life.others j c apart there)
  have calls : (w.setCall j c').calls = s.calls.set j c' := by rw [setCall, stepped.calls]
  refine life.away (away.setCall j c') ?_ fun j' d apart' there' => ?_
  · rw [calls, List.getElem?_set_ne apart]
  · rw [calls] at there'
    by_cases same : j = j'
    · subst same
      rw [List.getElem?_set_self (List.getElem?_eq_some_iff.mp there).1] at there'
      cases there'
      exact unused
    · rw [List.getElem?_set_ne same] at there'
      exact life.others j' d apart' there'

theorem CallStepped.going {c c' : Call} (stepped : s.CallStepped c w c') (op : Op)
    (result : Result) : c ≠ .returned op result := by
  rintro rfl
  cases stepped <;> simp_all

theorem Detaching.ends (life : s.Detaching p t i) (orderly : s.Orderly) {task : Task}
    (found : s.tasks t = some task) (finished : task.state = .finished)
    (tasks : w.tasks = Function.update s.tasks t none) (made : w.tasksMade = s.tasksMade)
    (log : w.log = s.log ++ [.autoDeleted p t]) (here : w.calls[i]? = some (detached t .ok))
    (others : ∀ j c, j ≠ i → w.calls[j]? = some c → c.uses t = 0)
    (back : total (Worker.comesBack t) w.workers = total (Worker.comesBack t) s.workers)
    (buries : total (Worker.buries t) w.workers = 0)
    (kills : total (Worker.kills p t) w.workers = 0) : w.Detaching p t i := by
  have gone : w.tasks t = none := by
    rw [tasks]
    exact Function.update_self ..
  obtain ⟨idle, -, rest⟩ :=
    (orderly.turn p t).idle (Or.inr (Or.inl (by rw [state_eq found, finished])))
  have before := life.destroyed
  rw [found, if_neg (by simp)] at before
  refine ⟨by rw [made]; exact life.made, others, fun task' left => ?_,
    fun _ => ⟨here, ?_, back.trans rest, buries⟩, kills.trans buries.symm, ?_⟩
  · rw [gone] at left
    cases left
  · rw [timesPushed, timesReturned] at idle ⊢
    simp [log, Event.accepts, Event.ends, idle]
  · rw [timesDestroyed] at before
    rw [timesDestroyed, log, gone, if_pos rfl]
    simp [Event.destroys, before]

theorem Detaching.detaches (life : s.Detaching p t i) (orderly : s.Orderly) {c c' : Call}
    (there : s.calls[i]? = some c) (stepped : s.CallStepped c w c') :
    (w.setCall i c').Detaching p t i := by
  have calls : (w.setCall i c').calls = s.calls.set i c' := by rw [setCall, stepped.calls]
  have here : (w.setCall i c').calls[i]? = some c' := by
    rw [calls, List.getElem?_set_self (List.getElem?_eq_some_iff.mp there).1]
  have others : ∀ j d, j ≠ i → (w.setCall i c').calls[j]? = some d → d.uses t = 0 := by
    intro j d apart there'
    rw [calls, List.getElem?_set_ne apart.symm] at there'
    exact life.others j d apart there'
  have returned : c ≠ detached t .ok := stepped.going _ _
  cases found : s.tasks t with
  | none =>
      have back := (life.gone found).1
      rw [there, Option.some.injEq] at back
      exact absurd back returned
  | some task =>
      obtain ⟨pool, state, who, buries⟩ := life.present task found
      rcases who with ⟨at_i, alive⟩ | ⟨at_i, finished, alive⟩ | ⟨at_i, -⟩
      · rw [alive, if_neg (by simp)] at buries
        cases there.symm.trans at_i
        obtain ⟨task', found', ⟨alone, -⟩ | ⟨busy, rfl, rfl⟩ | ⟨finished, rfl, rfl⟩⟩ :=
          stepped.of_detach <;> cases found.symm.trans found'
        · rw [pool] at alone
          cases alone
        · have marked : ((s.setTask t (some { task with detached := true })).setCall i
              (detached t .ok)).tasks t = some { task with detached := true } :=
            Function.update_self ..
          refine ⟨life.made, others, fun task'' found'' => ?_, fun none => ?_, life.home, ?_⟩
          · rw [marked] at found''
            cases found''
            refine ⟨pool, state, Or.inr (Or.inr ⟨here, rfl⟩), ?_⟩
            rw [if_neg fun both => busy both.1]
            exact buries
          · cases marked.symm.trans none
          · rw [marked]
            have same := life.destroyed
            rw [found] at same
            exact same
        · refine ⟨life.made, others, fun task'' found'' => ?_, fun none => ?_, life.home,
            life.destroyed⟩
          · cases found.symm.trans found''
            refine ⟨pool, state, Or.inr (Or.inl ⟨here, finished, alive⟩), ?_⟩
            rw [alive, if_neg (by simp)]
            exact buries
          · cases found.symm.trans none
      · rw [alive, if_neg (by simp)] at buries
        cases there.symm.trans at_i
        obtain ⟨task', q, pool', found', taskPool, found'', rfl, rfl⟩ := stepped.of_detachRelease
        cases found.symm.trans found'
        cases pool.symm.trans taskPool
        exact life.ends orderly found finished rfl rfl rfl here others rfl buries
          (life.home.trans buries)
      · rw [there, Option.some.injEq] at at_i
        exact absurd at_i returned

theorem Detaching.alters (life : s.Detaching p t i) {task : Task} (found : s.tasks t = some task)
    (unfinished : task.state ≠ .finished) {state : TaskState}
    (known : state = .queued ∨ state = .running ∨ state = .finished)
    (tasks : w.tasks t = some { task with state := state }) (made : w.tasksMade = s.tasksMade)
    (calls : w.calls = s.calls)
    (log : w.log = s.log ∨ ∃ e, w.log = s.log ++ [e] ∧ e.destroys t = 0)
    (buries : total (Worker.buries t) w.workers =
      if state = .finished ∧ task.detached = true then 1 else 0)
    (home : total (Worker.kills p t) w.workers = total (Worker.buries t) w.workers) :
    w.Detaching p t i := by
  obtain ⟨pool, -, who, -⟩ := life.present task found
  refine ⟨by rw [made]; exact life.made, by rw [calls]; exact life.others, fun task' there => ?_,
    fun none => ?_, home, ?_⟩
  · rw [tasks] at there
    cases there
    refine ⟨pool, known, ?_, buries⟩
    rw [calls]
    rcases who with ⟨at_i, alive⟩ | ⟨-, finished, -⟩ | ⟨at_i, dead⟩
    · exact Or.inl ⟨at_i, alive⟩
    · exact absurd finished unfinished
    · exact Or.inr (Or.inr ⟨at_i, dead⟩)
  · rw [tasks] at none
    cases none
  · have before := life.destroyed
    rw [found, if_neg (by simp), timesDestroyed] at before
    rw [tasks, if_neg (by simp), timesDestroyed]
    rcases log with same | ⟨e, same, quiet⟩
    · rw [same, before]
    · rw [same, total_append, total_cons, quiet, before]
      rfl

theorem Detaching.at_home (life : s.Detaching p t i) {worker : Worker} (member : worker ∈ s.workers)
    {q : Option PoolId} (pc : worker.pc = .deleting t q) : q = some p := by
  by_contra astray
  have strict : worker.kills p t < worker.buries t := by
    simp [Worker.kills, Worker.buries, pc, astray]
  exact absurd life.home (Nat.ne_of_lt (total_lt (Worker.kills_le_buries p t) member strict))

-- Once the worker has the task in its hands, its function has not returned before it is finished.
theorem Orderly.unfinished (orderly : s.Orderly) {worker : Worker} (member : worker ∈ s.workers)
    (pc : worker.pc = .taken t ∨ worker.pc = .running t ∨ worker.pc = .ran t) {task : Task}
    (found : s.tasks t = some task) : task.state ≠ .finished := by
  intro finished
  have turn := orderly.turn worker.pool t
  obtain ⟨idle, waiting, ran⟩ := turn.idle (Or.inr (Or.inl (by rw [state_eq found, finished])))
  have takes := le_total (Worker.takes worker.pool t) member
  have calls := le_total (Worker.calls t) member
  have back := le_total (Worker.comesBack t) member
  have inside := turn.inside
  have due := turn.due
  rw [World.waiting] at waiting
  rcases pc with pc | pc | pc <;>
    simp only [Worker.takes, Worker.calls, Worker.comesBack, pc, and_self, if_true] at * <;> omega

theorem Detaching.forgets (life : s.Detaching p t i) (orderly : s.Orderly)
    (gone : s.tasks t = none) : s.Forgotten t := by
  obtain ⟨at_i, returned, back, buries⟩ := life.gone gone
  refine ⟨fun c member => ?_, fun q queued => ?_, fun worker member holds => ?_⟩
  · obtain ⟨j, there⟩ := List.mem_iff_getElem?.mp member
    by_cases here : j = i
    · rw [here, at_i] at there
      cases there
      rfl
    · exact life.others j c here there
  · have turn := orderly.turn q t
    have due := turn.due
    have inside := turn.inside
    have counted := List.count_pos_iff.mpr queued
    rw [World.waiting] at due
    omega
  · have turn := orderly.turn worker.pool t
    have due := turn.due
    have inside := turn.inside
    have takes := le_total (Worker.takes worker.pool t) member
    have calls := le_total (Worker.calls t) member
    have backs := le_total (Worker.comesBack t) member
    have ends := le_total (Worker.buries t) member
    rw [World.waiting] at due
    rcases holds with pc | pc | pc | ⟨q, pc⟩ <;>
      simp only [Worker.takes, Worker.calls, Worker.comesBack, Worker.buries, pc, and_self,
        if_true] at * <;>
      omega

theorem Detaching.works (life : s.Detaching p t i) (orderly : s.Orderly)
    {j : WorkerId} {worker : Worker} (there : s.workers[j]? = some worker)
    (holds : worker.Holds t) {pc : WorkerPc} (stepped : s.WorkerStepped worker w pc) :
    (w.setWorker j { worker with pc := pc }).Detaching p t i := by
  have member := List.mem_of_getElem? there
  have same : ∀ {t'}, worker.pc = .taken t' ∨ worker.pc = .running t' ∨ worker.pc = .ran t' ∨
      (∃ q, worker.pc = .deleting t' q) → t' = t := by
    intro t' at_pc
    rcases holds with h | h | h | ⟨q, h⟩ <;> rw [h] at at_pc <;> simp_all
  have buries := total_set (Worker.buries t) there { worker with pc := pc }
  have kills := total_set (Worker.kills p t) there { worker with pc := pc }
  have back := total_set (Worker.comesBack t) there { worker with pc := pc }
  have home := life.home
  cases stepped with
  | waits pool atPc | exits pool atPc | takes pool t' rest atPc =>
      rcases holds with h | h | h | ⟨q, h⟩ <;> rw [atPc] at h <;> cases h
  | starts t' task atPc found =>
      cases same (Or.inl atPc)
      have unfinished := orderly.unfinished member (Or.inl atPc) found
      obtain ⟨-, -, -, unburied⟩ := life.present task found
      refine life.alters found unfinished (Or.inr (Or.inl rfl)) (Function.update_self ..) rfl rfl
        (Or.inr ⟨.started t, rfl, rfl⟩) ?_ ?_ <;>
        change total _ (s.workers.set j _) = _
      · grind [Shifts, Worker.buries]
      · change _ = total _ (s.workers.set j _)
        grind [Shifts, Worker.buries, Worker.kills]
  | ends t' atPc =>
      cases same (Or.inr (Or.inl atPc))
      cases found : s.tasks t with
      | none => exact absurd holds ((life.forgets orderly found).2.2 worker member)
      | some task =>
          have unfinished := orderly.unfinished member (Or.inr (Or.inl atPc)) found
          obtain ⟨-, state, -, unburied⟩ := life.present task found
          refine life.alters found unfinished state found rfl rfl
            (Or.inr ⟨.ended t, rfl, rfl⟩) ?_ ?_ <;>
            change total _ (s.workers.set j _) = _
          · grind [Shifts, Worker.buries]
          · change _ = total _ (s.workers.set j _)
            grind [Shifts, Worker.buries, Worker.kills]
  | finishes t' task atPc found =>
      cases same (Or.inr (Or.inr (Or.inl atPc)))
      have unfinished := orderly.unfinished member (Or.inr (Or.inr atPc)) found
      obtain ⟨pool, -, -, unburied⟩ := life.present task found
      refine life.alters found unfinished (Or.inr (Or.inr rfl)) (Function.update_self ..) rfl rfl
        (Or.inl rfl) ?_ ?_ <;>
        change total _ (s.workers.set j _) = _
      · grind [Shifts, Worker.buries]
      · change _ = total _ (s.workers.set j _)
        grind [Shifts, Worker.buries, Worker.kills]
  | deletes t' task q pool atPc found there' =>
      cases same (Or.inr (Or.inr (Or.inr ⟨_, atPc⟩)))
      cases life.at_home member atPc
      obtain ⟨-, -, who, buried⟩ := life.present task found
      have own := le_total (Worker.buries t) member
      simp only [Worker.buries, atPc, if_true] at own
      have doomed : task.state = .finished ∧ task.detached = true := by
        by_contra other
        rw [if_neg other] at buried
        omega
      rw [if_pos doomed] at buried
      have at_i : s.calls[i]? = some (detached t .ok) := by
        rcases who with ⟨-, alive⟩ | ⟨-, -, alive⟩ | ⟨at_i, -⟩
        · exact absurd (doomed.2.symm.trans alive) (by simp)
        · exact absurd (doomed.2.symm.trans alive) (by simp)
        · exact at_i
      refine life.ends orderly found doomed.1 rfl rfl rfl at_i life.others ?_ ?_ ?_ <;>
        change total _ (s.workers.set j _) = _
      · grind [Shifts, Worker.comesBack]
      · grind [Shifts, Worker.buries]
      · grind [Shifts, Worker.buries, Worker.kills]

theorem Detaching.inside (life : s.Detaching p t i) : i < s.calls.length := by
  cases found : s.tasks t with
  | none => exact (List.getElem?_eq_some_iff.mp (life.gone found).1).1
  | some task =>
      obtain ⟨-, -, ⟨at_i, -⟩ | ⟨at_i, -⟩ | ⟨at_i, -⟩, -⟩ := life.present task found <;>
        exact (List.getElem?_eq_some_iff.mp at_i).1

theorem Detaching.step (life : s.Detaching p t i) (orderly : s.Orderly) {action : Action}
    {next : World} (apart : ∀ op, action = .begin op → op.task ≠ some t)
    (taken : s.step action = some next) : next.Detaching p t i := by
  cases action with
  | begin op => exact life.begins (apart op rfl) life.inside taken
  | call j choice =>
      obtain ⟨c, w, c', at_j, stepped, rfl⟩ := step_called taken
      by_cases here : j = i
      · subst here
        exact life.detaches orderly at_j (callStep_stepped stepped)
      · exact life.called here at_j (callStep_stepped stepped)
  | worker j =>
      obtain ⟨worker, w, pc, there, stepped, rfl⟩ := step_worked taken
      have stepped := workerStep_stepped stepped
      by_cases holds : worker.Holds t
      · exact life.works orderly there holds stepped
      · have calls : w.calls = s.calls := by cases stepped <;> rfl
        refine life.away (stepped.away holds there) ?_ ?_
        · rw [setWorker, calls]
        · rw [setWorker, calls]
          exact life.others

theorem InPool.detaches (pushed : s.InPool p t) (orderly : s.Orderly) (tended : s.Tended)
    {next : World} (taken : s.step (.begin (.detach (some t))) = some next) :
    next.Detaching p t s.calls.length := by
  cases taken
  obtain ⟨idle, task, there, pool, alive, state⟩ := pushed
  have made := made_of_fresh orderly.unmade there
  have here : (s.calls ++ [Call.detach t])[s.calls.length]? = some (.detach t) := by simp
  have unburied : total (Worker.buries t) s.workers = 0 := by
    rw [total_eq_zero]
    intro worker member
    unfold Worker.buries
    split
    · next t' q pc =>
        rw [if_neg]
        rintro rfl
        have dead := (tended.doomed worker member t' q pc).2 task there
        rw [alive] at dead
        cases dead
    · rfl
  have home : total (Worker.kills p t) s.workers = 0 :=
    Nat.le_zero.mp (unburied ▸ total_mono (Worker.kills_le_buries p t) s.workers)
  refine ⟨made, fun j c apart there' => ?_, fun task' there' => ?_, fun gone => ?_,
    home.trans unburied.symm, ?_⟩
  · rcases Nat.lt_or_ge j s.calls.length with before | beyond
    · exact idle c (List.mem_of_getElem? ((List.getElem?_append_left before).symm.trans there'))
    · have late : s.calls.length < j := Nat.lt_of_le_of_ne beyond (Ne.symm apart)
      rw [List.getElem?_eq_none (by simp [begin]; omega)] at there'
      cases there'
  · cases there.symm.trans there'
    exact ⟨pool, state, Or.inl ⟨here, alive⟩, by rw [if_neg (by simp [alive])]; exact unburied⟩
  · cases there.symm.trans gone
  · change s.timesDestroyed t = if s.tasks t = none then 1 else 0
    rw [there, if_neg (by simp)]
    exact tended.whole t task there

theorem Detaching.deletes (life : s.Detaching p t i) (orderly : s.Orderly) {op : Op}
    {result : Result} (at_i : s.calls[i]? = some (.returned op result))
    (returned : s.timesReturned t = s.timesPushed t)
    (free : ∀ worker ∈ s.workers, ¬worker.Holds t) : s.tasks t = none := by
  cases found : s.tasks t with
  | none => rfl
  | some task =>
      obtain ⟨-, state, who, buried⟩ := life.present task found
      have turn := orderly.turn p t
      have still : total (Worker.calls t) s.workers = 0 ∧
          total (Worker.comesBack t) s.workers = 0 ∧ total (Worker.buries t) s.workers = 0 := by
        simp only [total_eq_zero]
        refine ⟨fun worker member => if_neg fun pc => ?_, fun worker member => if_neg fun pc => ?_,
          fun worker member => ?_⟩
        · exact free worker member (Or.inr (Or.inl pc))
        · exact free worker member (Or.inr (Or.inr (Or.inl pc)))
        · unfold Worker.buries
          split
          · next t' q pc =>
              rw [if_neg]
              rintro rfl
              exact free worker member (Or.inr (Or.inr (Or.inr ⟨q, pc⟩)))
          · rfl
      obtain ⟨calls, back, buries⟩ := still
      rcases state with queued | running | finished
      · have later := (turn.queued (by rw [state_eq found, queued])).1
        omega
      · have later := (turn.active (by rw [state_eq found, running])).2.2
        omega
      · have dead : task.detached = true := by
          rcases who with ⟨at_i', -⟩ | ⟨at_i', -⟩ | ⟨-, dead⟩
          · cases at_i.symm.trans at_i'
          · cases at_i.symm.trans at_i'
          · exact dead
        rw [if_pos ⟨finished, dead⟩] at buried
        omega

theorem setPool_taken {pool : Pool} (there : s.pools p = some pool) :
    (s.setPool p (some { pool with taskCount := pool.taskCount - 1 })).count p =
      (s.count p).map (· - 1) := by
  rw [setPool_count, if_pos rfl, World.count, there]
  rfl

theorem Detaching.counts (life : s.Detaching p t i) {action : Action} {next : World}
    (concerns : s.Concerns i t action) (taken : s.step action = some next) :
    next.timesDestroyed t = s.timesDestroyed t ∧ next.count p = s.count p ∨
      next.timesDestroyed t = s.timesDestroyed t + 1 ∧
        next.count p = (s.count p).map (· - 1) := by
  cases action with
  | begin op => cases concerns
  | call j choice =>
      cases (concerns : j = i)
      obtain ⟨c, w, c', at_i, stepped, rfl⟩ := step_called taken
      have stepped := callStep_stepped stepped
      have calling : c = .detach t ∨ c = .detachRelease t ∧
          ∃ task, s.tasks t = some task ∧ task.pool = some p := by
        cases found : s.tasks t with
        | none =>
            have back := (life.gone found).1
            rw [at_i, Option.some.injEq] at back
            exact absurd back (stepped.going _ _)
        | some task =>
            obtain ⟨pool, -, ⟨at_i', -⟩ | ⟨at_i', -⟩ | ⟨at_i', -⟩, -⟩ := life.present task found <;>
              rw [at_i, Option.some.injEq] at at_i'
            · exact Or.inl at_i'
            · exact Or.inr ⟨at_i', task, rfl, pool⟩
            · exact absurd at_i' (stepped.going _ _)
      rcases calling with rfl | ⟨rfl, task, found, pool⟩
      · obtain ⟨task, -, ⟨-, rfl, rfl⟩ | ⟨-, rfl, rfl⟩ | ⟨-, rfl, rfl⟩⟩ := stepped.of_detach <;>
          exact Or.inl ⟨rfl, rfl⟩
      · obtain ⟨task', q, pool', found', taskPool, there, rfl, rfl⟩ := stepped.of_detachRelease
        cases found.symm.trans found'
        cases pool.symm.trans taskPool
        refine Or.inr ⟨?_, setPool_taken there⟩
        change ((s.setTask t none).emit (.autoDeleted p t)).timesDestroyed t = _
        rw [emit_timesDestroyed]
        simp [Event.destroys, timesDestroyed, setTask]
  | worker j =>
      obtain ⟨worker, there, holds⟩ := concerns
      obtain ⟨worker', w, pc, there', stepped, rfl⟩ := step_worked taken
      cases there.symm.trans there'
      have member := List.mem_of_getElem? there
      cases workerStep_stepped stepped with
      | waits pool atPc | exits pool atPc | takes pool t' rest atPc =>
          rcases holds with h | h | h | ⟨q, h⟩ <;> rw [atPc] at h <;> cases h
      | starts t' task atPc found =>
          refine Or.inl ⟨?_, rfl⟩
          change ((s.setTask t' _).emit (.started t')).timesDestroyed t = _
          rw [emit_timesDestroyed]
          rfl
      | ends t' atPc =>
          refine Or.inl ⟨?_, rfl⟩
          change (s.emit (.ended t')).timesDestroyed t = _
          rw [emit_timesDestroyed]
          rfl
      | finishes => exact Or.inl ⟨rfl, rfl⟩
      | deletes t' task q pool atPc found found' =>
          have own : t' = t := by
            rcases holds with h | h | h | ⟨q, h⟩ <;> rw [atPc] at h <;> cases h
            rfl
          subst own
          cases life.at_home member atPc
          refine Or.inr ⟨?_, setPool_taken found'⟩
          change ((s.setTask t' none).emit (.autoDeleted p t')).timesDestroyed t' = _
          rw [emit_timesDestroyed]
          simp [Event.destroys, timesDestroyed, setTask]

theorem Detaching.goes (life : s.Detaching p t i) (orderly : s.Orderly) {action : Action}
    (concerns : s.Concerns i t action) {pool : Pool} (there : s.pools p = some pool) :
    (∃ op result, s.calls[i]? = some (.returned op result) ∧ ∃ choice, action = .call i choice) ∨
      ∃ next, s.step action = some next := by
  cases action with
  | begin op => cases concerns
  | call j choice =>
      cases (concerns : j = i)
      cases found : s.tasks t with
      | none => exact Or.inl ⟨_, _, (life.gone found).1, choice, rfl⟩
      | some task =>
          obtain ⟨taskPool, -, ⟨at_i, -⟩ | ⟨at_i, -⟩ | ⟨at_i, -⟩, -⟩ := life.present task found
          · exact Or.inr (Option.isSome_iff_exists.mp
              (by simp [World.step, at_i, callStep, detach, found]))
          · exact Or.inr (Option.isSome_iff_exists.mp
              (by simp [World.step, at_i, callStep, detachRelease, found, taskPool, fetchSub,
                setTask, emit, there]))
          · exact Or.inl ⟨_, _, at_i, choice, rfl⟩
  | worker j =>
      obtain ⟨worker, there', holds⟩ := concerns
      have member := List.mem_of_getElem? there'
      cases found : s.tasks t with
      | none => exact absurd holds ((life.forgets orderly found).2.2 worker member)
      | some task =>
          refine Or.inr (Option.isSome_iff_exists.mp ?_)
          rcases holds with pc | pc | pc | ⟨q, pc⟩
          · simp [World.step, there', workerStep, pc, found]
          · simp [World.step, there', workerStep, pc]
          · simp [World.step, there', workerStep, pc, found]
          · cases life.at_home member pc
            simp [World.step, there', workerStep, pc, found, fetchSub, setTask, emit, there]

theorem task_detached {before after : List Action} {s₀ s : World} {p : PoolId} {t : TaskId}
    (reached : Run.exec step init before = some s₀) (pushed : s₀.InPool p t)
    (alone : ∀ op, .begin op ∈ after → op.task ≠ some t)
    (run : Run.exec step s₀ (.begin (.detach (some t)) :: after) = some s) :
    s.Detached p t s₀.calls.length := by
  have ground : ∀ (s : World) action next, s.Orderly ∧ s.Tended → s.step action = some next →
      next.Orderly ∧ next.Tended :=
    fun _ _ _ ⟨orderly, tended⟩ taken => ⟨orderly.step taken, tended.step orderly taken⟩
  have kept : ∀ (s : World) action next, s.Detaching p t s₀.calls.length ∧ s.Orderly →
      (∀ op, action = .begin op → op.task ≠ some t) → s.step action = some next →
        next.Detaching p t s₀.calls.length ∧ next.Orderly :=
    fun _ _ _ ⟨life, orderly⟩ apart taken => ⟨life.step orderly apart taken, orderly.step taken⟩
  obtain ⟨orderly, tended⟩ := Run.exec_invariant _ ground ⟨orderly_init, tended_init⟩ reached
  obtain ⟨next, taken, rest⟩ := (Run.exec_cons _ _ _ _).mp run
  obtain ⟨life, orderly⟩ := Run.exec_invariant_of_forall kept
    ⟨pushed.detaches orderly tended taken, orderly.step taken⟩
    (fun action member op same => alone op (same ▸ member)) rest
  exact ⟨life.destroyed, fun gone => (life.gone gone).2.1.symm, life.forgets orderly,
    fun _ _ at_i => life.deletes orderly at_i, fun _ _ => life.counts,
    fun _ concerns ⟨_, there⟩ => life.goes orderly concerns there⟩

def onePush : List Action :=
  [.begin (.poolNew 1 true), .begin (.taskNew true), .begin (.push (some 0) (some 0)),
    .call 2 onlyChoice, .call 2 onlyChoice, .call 2 onlyChoice, .call 2 onlyChoice]

def runDetached : List Action :=
  [.worker 0, .worker 0, .call 3 onlyChoice, .worker 0, .worker 0, .worker 0]

theorem task_detached_running : ∃ s₀ s, Run.exec step init onePush = some s₀ ∧
    Run.exec step s₀ (.begin (.detach (some 0)) :: runDetached) = some s ∧ s.tasks 0 = none ∧
      s.Detached 0 0 3 := by
  have first := (Option.some_get (show (Run.exec step init onePush).isSome by decide)).symm
  have rest := (Option.some_get (show (Run.exec step
    ((Run.exec step init onePush).get (by decide))
      (.begin (.detach (some 0)) :: runDetached)).isSome by decide)).symm
  refine ⟨_, _, first, rest, by decide, task_detached first ?_ (by simp [runDetached]) rest⟩
  exact ⟨by decide, { pool := some 0, state := .queued, detached := false }, by decide⟩

end World

end SystemProg.ThreadPool
