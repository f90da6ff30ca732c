import SystemProg.ThreadPool.Housed

set_option autoImplicit false

-- A busy task has a pool, and whoever is going to use a task or a pool keeps it from being deleted.
-- So every thread can go on, but for the one that waits for the threads of a pool it deletes.

namespace SystemProg.ThreadPool

def Task.Busy (task : Task) : Prop :=
  task.state = .queued ∨ task.state = .running ∨ task.state = .finished

namespace World

structure Placed (s : World) : Prop where
  placed : ∀ t task, s.tasks t = some task → task.Busy → task.pool ≠ none
  dying : ∀ worker ∈ s.workers, ∀ t home, worker.pc = .deleting t home → home = some worker.pool
  joining : ∀ t, .joinWait t ∈ s.calls ∨ .timedWait t ∈ s.calls →
    t < s.tasksMade ∧ ∀ task, s.tasks t = some task → task.state ≠ .new

structure Homed (s w : World) : Prop where
  placed : ∀ t task, w.tasks t = some task → task.Busy → task.pool ≠ none
  news : ∀ t task, w.tasks t = some task → task.state = .new → t < s.tasksMade →
    ∃ task', s.tasks t = some task' ∧ task'.state = .new
  made : s.tasksMade ≤ w.tasksMade

variable {s w : World}

theorem placed_init : init.Placed := by
  constructor <;> simp [init]

theorem Placed.keeps (placed : s.Placed) (tasks : w.tasks = s.tasks)
    (made : w.tasksMade = s.tasksMade) : s.Homed w where
  placed := by
    rw [tasks]
    exact placed.placed
  news t task there new _ := ⟨task, tasks ▸ there, new⟩
  made := Nat.le_of_eq made.symm

theorem Placed.sets (placed : s.Placed) {t : TaskId} (task' : Option Task)
    (tasks : w.tasks = (s.setTask t task').tasks) (made : w.tasksMade = s.tasksMade)
    (busy : ∀ task ∈ task', task.Busy → task.pool ≠ none)
    (old : ∀ task ∈ task', task.state ≠ .new ∨ ∃ before, s.tasks t = some before ∧
      before.state = task.state) : s.Homed w where
  placed t' task there := by
    rw [tasks, setTask_tasks] at there
    split at there
    · exact busy task there
    · exact placed.placed t' task there
  news t' task there new _ := by
    rw [tasks, setTask_tasks] at there
    split at there
    · next here =>
        rcases old task there with other | ⟨before, there', same⟩
        · exact absurd new other
        · exact ⟨before, here ▸ there', same.trans new⟩
    · exact ⟨task, there, new⟩
  made := Nat.le_of_eq made.symm

theorem Placed.moves (placed : s.Placed) (homed : s.Homed w) {next : World}
    (tasks : next.tasks = w.tasks) (made : next.tasksMade = w.tasksMade)
    (dying : ∀ worker ∈ next.workers, worker ∈ s.workers ∨
      ∀ t home, worker.pc = .deleting t home → home = some worker.pool)
    (joining : ∀ t, .joinWait t ∈ next.calls ∨ .timedWait t ∈ next.calls →
      (.joinWait t ∈ s.calls ∨ .timedWait t ∈ s.calls) ∨
        t < s.tasksMade ∧ ∀ task, s.tasks t = some task → task.state ≠ .new) : next.Placed where
  placed := by
    rw [tasks]
    exact homed.placed
  dying worker mem := by
    rcases dying worker mem with old | home
    · exact placed.dying worker old
    · exact home
  joining t mem := by
    obtain ⟨small, used⟩ := (joining t mem).elim (placed.joining t) id
    rw [tasks, made]
    refine ⟨Nat.lt_of_lt_of_le small homed.made, fun task there new => ?_⟩
    obtain ⟨task', there', new'⟩ := homed.news t task there new small
    exact used task' there' new'

theorem CallStepped.homed (placed : s.Placed) {c c' : Call} (stepped : s.CallStepped c w c') :
    s.Homed w := by
  have same : w.tasksMade = s.tasksMade := by
    cases stepped <;> rfl
  cases stepped with
  | accepts p t task there => exact placed.sets _ rfl same (by simp) (by simp)
  | joins c t task p joining there | joinsAlone c t task joining there =>
      exact placed.sets _ rfl same (by simp [Task.Busy]) (by simp)
  | timedJoins c t task p pool joining there | timedRejoins t task p pool there =>
      exact placed.sets _ rfl same (by simp [Task.Busy]) (by simp)
  | detaches t task there pool =>
      refine placed.sets _ rfl same (fun task' mem _ => ?_) fun task' mem => ?_
      · cases mem
        exact pool
      · cases mem
        exact Or.inr ⟨task, there, rfl⟩
  | detachReleases t task | deleteFrees t task =>
      exact placed.sets none rfl same (by simp) (by simp)
  | _ => exact placed.keeps rfl rfl

theorem WorkerStepped.homed (sound : s.Sound) (placed : s.Placed) {i : WorkerId} {worker : Worker}
    {pc : WorkerPc} (at_i : s.workers[i]? = some worker) (stepped : s.WorkerStepped worker w pc) :
    s.Homed w ∧ ∀ t home, pc = .deleting t home → home = some worker.pool := by
  cases stepped with
  | waits | exits | ends => exact ⟨placed.keeps rfl rfl, nofun⟩
  | takes => exact ⟨placed.keeps rfl rfl, nofun⟩
  | starts t task atPc there =>
      obtain ⟨pool, -⟩ := stage_some there (sound.taken at_i atPc)
      exact ⟨placed.sets _ rfl rfl (by simp [pool]) (by simp), nofun⟩
  | finishes t task atPc there =>
      obtain ⟨pool, -⟩ := stage_some there (sound.runs at_i (Or.inr atPc))
      refine ⟨placed.sets _ rfl rfl (by simp [pool]) (by simp), fun t' home same => ?_⟩
      split at same
      · cases same
        exact pool
      · cases same
  | deletes t task p pool => exact ⟨placed.sets none rfl rfl (by simp) (by simp), nofun⟩

theorem callStep_waits {choice : Choice} {c : Call} {t : TaskId}
    (taken : s.callStep choice c = some (w, .joinWait t) ∨
      s.callStep choice c = some (w, .timedWait t)) :
    c = .joinWait t ∨ c = .timedWait t ∨
      ∃ task, s.tasks t = some task ∧ task.state ≠ .new := by
  rcases taken with taken | taken
  · cases callStep_stepped taken with
    | joinWaits c t task joining there busy =>
        rcases joining with rfl | rfl
        · refine Or.inr (Or.inr ⟨task, there, fun new => ?_⟩)
          simp [callStep, there, new, joined] at taken
        · exact Or.inl rfl
  · cases callStep_stepped taken with
    | timedWaits c t task joining there busy =>
        rcases joining with rfl | rfl
        · refine Or.inr (Or.inr ⟨task, there, fun new => ?_⟩)
          simp [callStep, timedJoin, there, new, timedJoined] at taken
        · exact Or.inr (Or.inl rfl)

theorem begin_homed (placed : s.Placed) (op : Op) : s.Homed (s.begin op).1 ∧
    (s.begin op).1.workers = s.workers ∧
      ∀ t, (s.begin op).2 ≠ .joinWait t ∧ (s.begin op).2 ≠ .timedWait t := by
  have calls (t : TaskId) : (s.begin op).2 ≠ .joinWait t ∧ (s.begin op).2 ≠ .timedWait t := by
    unfold begin
    split <;> (try split) <;> exact ⟨nofun, nofun⟩
  obtain ⟨-, same | ⟨threadCount, -, -, same⟩ | same⟩ := begin_effect s op
  · rw [same]
    exact ⟨placed.keeps rfl rfl, rfl, calls⟩
  · rw [same]
    exact ⟨placed.keeps rfl rfl, rfl, calls⟩
  · rw [same]
    refine ⟨⟨fun t task there => ?_, fun t task there new small => ?_, Nat.le_succ _⟩, rfl, calls⟩
    · change (s.setTask s.tasksMade _).tasks t = some task at there
      rw [setTask_tasks] at there
      split at there
      · cases there
        simp [Task.Busy]
      · exact placed.placed t task there
    · change (s.setTask s.tasksMade _).tasks t = some task at there
      rw [setTask_tasks, if_neg (Nat.ne_of_lt small)] at there
      exact ⟨task, there, new⟩

theorem Placed.step (placed : s.Placed) (sound : s.Sound) {action : Action} {next : World}
    (taken : s.step action = some next) : next.Placed := by
  cases action with
  | begin op =>
      cases taken
      obtain ⟨homed, workers, calls⟩ := begin_homed placed op
      refine placed.moves homed rfl rfl (fun worker mem => Or.inl (workers ▸ mem)) fun t mem => ?_
      have old {c : Call} (mem : c ∈ s.calls ++ [(s.begin op).2]) (other : (s.begin op).2 ≠ c) :
          c ∈ s.calls :=
        (List.mem_append.mp mem).resolve_right fun last => other (List.mem_singleton.mp last).symm
      exact Or.inl (mem.imp (fun mem => old mem (calls t).1) fun mem => old mem (calls t).2)
  | call i choice =>
      obtain ⟨c, w, c', at_i, stepped, rfl⟩ := step_called taken
      have others := (callStep_stepped stepped).calls
      refine placed.moves ((callStep_stepped stepped).homed placed) rfl rfl (fun worker mem => ?_)
        fun t mem => ?_
      · cases callStep_pooled stepped with
        | retains retains workers => exact Or.inl (workers ▸ mem)
        | enqueues p t pool pool' workers enqueues there started same =>
            obtain ⟨k, eq⟩ := startThreads_eq p choice.creations
              { pool with queue := pool.queue ++ [t] } s.workers
            rw [started] at eq
            cases eq
            subst same
            rcases List.mem_append.mp mem with old | new
            · exact Or.inl old
            · rw [List.eq_of_mem_replicate new]
              exact Or.inr nofun
        | stops p pool stops there same =>
            subst same
            exact Or.inl mem
        | ends p pool ends there exited same =>
            subst same
            exact Or.inl mem
      · change .joinWait t ∈ w.calls.set i c' ∨ .timedWait t ∈ w.calls.set i c' at mem
        rw [others] at mem
        have here := List.mem_of_getElem? at_i
        have waits (same : c' = .joinWait t ∨ c' = .timedWait t) :
            (.joinWait t ∈ s.calls ∨ .timedWait t ∈ s.calls) ∨
              t < s.tasksMade ∧ ∀ task, s.tasks t = some task → task.state ≠ .new := by
          rcases callStep_waits (same.imp (fun same => same ▸ stepped) fun same => same ▸ stepped)
            with rfl | rfl | ⟨task, there, used⟩
          · exact Or.inl (Or.inl here)
          · exact Or.inl (Or.inr here)
          · refine Or.inr ⟨made_of_fresh sound.freshTasks there, fun task' there' => ?_⟩
            rw [there] at there'
            cases there'
            exact used
        rcases mem with mem | mem <;> rcases List.mem_or_eq_of_mem_set mem with old | same
        · exact Or.inl (Or.inl old)
        · exact waits (Or.inl same.symm)
        · exact Or.inl (Or.inr old)
        · exact waits (Or.inr same.symm)
  | worker i =>
      obtain ⟨worker, w, pc, at_i, stepped, rfl⟩ := step_worked taken
      obtain ⟨homed, home⟩ := (workerStep_stepped stepped).homed sound placed at_i
      obtain ⟨-, workers, calls, -, -⟩ := workerStep_retains (workerStep_stepped stepped)
      refine placed.moves homed rfl rfl (fun other mem => ?_) fun t mem => Or.inl ?_
      · change other ∈ w.workers.set i { worker with pc := pc } at mem
        rw [workers] at mem
        rcases List.mem_or_eq_of_mem_set mem with old | rfl
        · exact Or.inl old
        · exact Or.inr home
      · rw [← calls]
        exact mem

theorem Sound.pool_of_busy (sound : s.Sound) (placed : s.Placed) {t : TaskId} {task : Task}
    (there : s.tasks t = some task) (busy : task.Busy) :
    ∃ p pool, task.pool = some p ∧ s.pools p = some pool := by
  obtain ⟨p, home⟩ := Option.ne_none_iff_exists'.mp (placed.placed t task there busy)
  have listed := (sound.custody p t).listed
  rw [stage_eq there, if_pos home, if_pos (by simpa [Task.Busy] using busy)] at listed
  have some_ : s.count p ≠ none := by
    intro gone
    have empty := List.eq_nil_of_length_eq_zero ((sound.ledger p).gone gone).1
    rw [empty] at listed
    cases listed
  obtain ⟨n, counted⟩ := Option.ne_none_iff_exists'.mp some_
  rw [count, Option.map_eq_some_iff] at counted
  obtain ⟨pool, there', -⟩ := counted
  exact ⟨p, pool, home, there'⟩

theorem fetchSub_defined {p : PoolId} (there : s.pools p ≠ none) : s.fetchSub p ≠ none := by
  rw [fetchSub, ne_eq, Option.map_eq_none_iff]
  exact there

theorem workerStep_defined (sound : s.Sound) (housed : s.Housed) (placed : s.Placed)
    {i : WorkerId} {worker : Worker} (at_i : s.workers[i]? = some worker)
    (working : worker.pc ≠ .exited) : s.workerStep worker ≠ none := by
  obtain ⟨pool, there, -⟩ := housed.employed i worker at_i working
  unfold workerStep
  split
  · rw [there]
    dsimp only
    split
    · split <;> simp
    · simp
  · next t atPc =>
      have stage := sound.taken at_i atPc
      cases found : s.tasks t <;> simp [World.stage, found] at stage ⊢
  · simp
  · next t atPc =>
      have stage := sound.runs at_i (Or.inr atPc)
      cases found : s.tasks t <;> simp [World.stage, found] at stage ⊢
  · next t home atPc =>
      have same := placed.dying worker (List.mem_of_getElem? at_i) t home atPc
      subst same
      obtain ⟨stage, -⟩ := sound.kills at_i atPc
      cases found : s.tasks t with
      | none => simp [World.stage, found] at stage
      | some task =>
          simp only [ne_eq, Option.map_eq_none_iff]
          exact fetchSub_defined (by
            change s.pools worker.pool ≠ none
            rw [there]
            simp)
  · next atPc => exact absurd atPc working

theorem timedRelease_defined (sound : s.Sound) (placed : s.Placed) {t : TaskId} {task : Task}
    (there : s.tasks t = some task) (finished : task.state = .finished) :
    s.timedRelease t task ≠ none := by
  obtain ⟨p, pool, home, there'⟩ :=
    sound.pool_of_busy placed there (Or.inr (Or.inr finished))
  simp only [timedRelease, home, finished, if_true, ne_eq, Option.map_eq_none_iff]
  exact fetchSub_defined (by
    change s.pools p ≠ none
    rw [there']
    simp)

theorem callStep_defined (sound : s.Sound) (housed : s.Housed) (placed : s.Placed) {i : Nat}
    {c : Call} (at_i : s.calls[i]? = some c) (going : ∀ op result, c ≠ .returned op result)
    (other : ∀ p, c ≠ .poolJoin p) (choice : Choice) (first : ¬ s.Rejoins (.call i choice)) :
    s.callStep choice c ≠ none := by
  have mem := List.mem_of_getElem? at_i
  have used {p : PoolId} (positive : 0 < c.pushes p + c.closes p) : s.pools p ≠ none := by
    have pushes := le_total (Call.pushes p) mem
    have closes := le_total (Call.closes p) mem
    exact housed.used p (by omega)
  have usable {t : TaskId} (positive : 0 < c.visits t) : s.tasks t ≠ none := by
    obtain ⟨task, there, -⟩ :=
      (sound.access t).usable (Nat.lt_of_lt_of_le positive (le_total (Call.visits t) mem))
    simp [there]
  cases c with
  | pushLoad p t =>
      simp only [callStep, ne_eq, Option.map_eq_none_iff]
      exact used (by simp [Call.pushes, Call.closes])
  | pushTry p t expected =>
      simp only [callStep, pushTry]
      split
      · simp
      · simp only [ne_eq, Option.map_eq_none_iff]
        exact used (by simp [Call.pushes, Call.closes])
  | pushCheck p t =>
      simp only [callStep, pushCheck, ne_eq, Option.map_eq_none_iff]
      exact usable (by simp [Call.visits])
  | pushRollback p t =>
      simp only [callStep, ne_eq, Option.map_eq_none_iff]
      exact fetchSub_defined (used (by simp [Call.pushes, Call.closes]))
  | pushEnqueue p t =>
      simp only [callStep, World.pushEnqueue, ne_eq, Option.map_eq_none_iff]
      exact used (by simp [Call.pushes, Call.closes])
  | join t | joinWait t | isFinished t | isRunning t =>
      simp only [callStep, ne_eq, Option.map_eq_none_iff]
      exact usable (by simp [Call.visits])
  | joinRelease t p =>
      simp only [callStep, ne_eq, Option.map_eq_none_iff]
      refine fetchSub_defined fun gone => ?_
      have owes := le_total (Call.owes p) mem
      have none_ := ((sound.ledger p).gone (by rw [count, gone]; rfl)).2
      simp only [Call.owes, if_pos] at owes
      rw [debts] at none_
      omega
  | timedJoin t =>
      obtain ⟨task, there⟩ :=
        Option.ne_none_iff_exists'.mp (usable (by simp [Call.visits] : 0 < Call.visits t _))
      simp only [callStep, timedJoin, there]
      split
      · simp
      · next finished => exact timedRelease_defined sound placed there finished
      · next joined =>
          refine absurd ?_ first
          simp only [Rejoins, at_i, there]
          exact ⟨task, rfl, joined⟩
      · simp
  | timedWait t =>
      obtain ⟨task, there⟩ :=
        Option.ne_none_iff_exists'.mp (usable (by simp [Call.visits] : 0 < Call.visits t _))
      simp only [callStep, timedWait, there]
      split
      · simp
      · split
        · next finished => exact timedRelease_defined sound placed there finished
        · simp
        · simp
  | detach t =>
      simp only [callStep, detach, ne_eq, Option.map_eq_none_iff]
      exact usable (by simp [Call.visits])
  | detachRelease t =>
      obtain ⟨task, there, finished, -⟩ := (sound.access t).freed
        (Nat.lt_of_lt_of_le (by simp [Call.frees]) (le_total (Call.frees t) mem))
      obtain ⟨p, pool, home, there'⟩ :=
        sound.pool_of_busy placed there (Or.inr (Or.inr finished))
      simp only [callStep, detachRelease, there, home, ne_eq, Option.map_eq_none_iff]
      exact fetchSub_defined (by
        change s.pools p ≠ none
        rw [there']
        simp)
  | delete t =>
      simp only [callStep, delete, ne_eq, Option.map_eq_none_iff]
      exact usable (by simp [Call.visits])
  | deleteFree t =>
      obtain ⟨task, there, -⟩ := (sound.access t).deleted
        (Nat.lt_of_lt_of_le (by simp [Call.deletes]) (le_total (Call.deletes t) mem))
      simp [callStep, deleteFree, there]
  | poolDelete p | poolStop p =>
      simp only [callStep, ne_eq, Option.map_eq_none_iff]
      exact used (by simp [Call.pushes, Call.closes])
  | poolJoin p => exact absurd rfl (other p)
  | returned op result => exact absurd rfl (going op result)

-- No call is made on a task or pool that has been deleted, is being deleted or is detached, and no
-- task is joined again by `thread_task_timed_join`.
def Careful (s : World) (action : Action) : Prop :=
  (s.Proper action ∧ ¬s.Rejoins action) ∧ s.Grounded action

instance (s : World) (action : Action) : Decidable (s.Careful action) :=
  inferInstanceAs (Decidable (_ ∧ _))

structure Kept (s : World) : Prop where
  sound : s.Sound
  housed : s.Housed
  placed : s.Placed

theorem kept_init : init.Kept := ⟨sound_init, housed_init, placed_init⟩

theorem Kept.step (kept : s.Kept) {action : Action} {next : World} (careful : s.Careful action)
    (taken : s.step action = some next) : next.Kept :=
  ⟨kept.sound.step careful.1.1 careful.1.2 taken, kept.housed.step kept.sound careful.2 taken,
    kept.placed.step kept.sound taken⟩

structure Attended (s : World) : Prop where
  calls : ∀ (i : Nat) c choice, s.calls[i]? = some c → (∀ op result, c ≠ .returned op result) →
    (∀ p, c ≠ .poolJoin p) → ¬s.Rejoins (.call i choice) → s.step (.call i choice) ≠ none
  joins : ∀ (i : Nat) p choice, s.calls[i]? = some (.poolJoin p) → ∃ pool, s.pools p = some pool ∧
    (s.step (.call i choice) ≠ none ↔
      ∀ w ∈ pool.threads, s.workers[w]?.map Worker.pc = some .exited)
  workers : ∀ (i : Nat) worker, s.workers[i]? = some worker → worker.pc ≠ .exited →
    s.step (.worker i) ≠ none

theorem Kept.attended (kept : s.Kept) : s.Attended where
  calls i c choice at_i going other first := by
    have defined :=
      callStep_defined kept.sound kept.housed kept.placed at_i going other choice first
    simpa [World.step, at_i] using defined
  joins i p choice at_i := by
    have positive : 0 < total (Call.closes p) s.calls :=
      Nat.lt_of_lt_of_le (by simp [Call.closes])
        (le_total (Call.closes p) (List.mem_of_getElem? at_i))
    obtain ⟨pool, there⟩ :=
      Option.ne_none_iff_exists'.mp (kept.housed.used p (Nat.lt_of_lt_of_le positive (by omega)))
    refine ⟨pool, there, ?_⟩
    simp [World.step, at_i, callStep, poolJoin, there]
  workers i worker at_i working := by
    have defined := workerStep_defined kept.sound kept.housed kept.placed at_i working
    simpa [World.step, at_i] using defined

end World

end SystemProg.ThreadPool
