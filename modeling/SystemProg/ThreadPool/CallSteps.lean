import SystemProg.ThreadPool.Ledger

set_option autoImplicit false

namespace SystemProg.ThreadPool

namespace World

variable {s : World} {c : Call} {calls' : List Call}

-- The call looks at the world and goes on to less than it was up to.
theorem Sound.looks (sound : s.Sound) {c' : Call} (moves : Moves c c' s.calls calls')
    (owes : ∀ p, c'.owes p = c.owes p) (enqueues : ∀ p t, c'.enqueues p t = c.enqueues p t)
    (pushes : ∀ p, c'.pushes p ≤ c.pushes p) (closes : ∀ p, c'.closes p ≤ c.closes p)
    (drains : ∀ p, c'.drains p ≤ c.drains p) (visits : ∀ t, c'.visits t ≤ c.visits t)
    (frees : ∀ t, c'.frees t ≤ c.frees t) (deletes : ∀ t, c'.deletes t ≤ c.deletes t) :
    (s.withCalls calls').Sound := by
  apply Sound.moves moves s rfl _ _ _ sound.freshPools sound.freshTasks
  · intro p debts drains' closes' pushes' h1 h2 h3 h4
    have old := sound.ledger p
    have := owes p
    have := pushes p
    have := closes p
    have := drains p
    constructor <;> grind [Ledger, Shifts]
  · intro p t waiting h
    have old := sound.custody p t
    have := enqueues p t
    have same : waiting = s.waiting p t := by grind [Shifts]
    rw [same]
    exact old
  · intro t visits' frees' deletes' h1 h2 h3
    have old := sound.access t
    have := visits t
    have := frees t
    have := deletes t
    constructor <;> grind [Access, Shifts]

theorem Sound.returns (sound : s.Sound) {op : Op} {result : Result}
    (moves : Moves c (.returned op result) s.calls calls') (owes : ∀ p, c.owes p = 0)
    (enqueues : ∀ p t, c.enqueues p t = 0) : (s.withCalls calls').Sound :=
  sound.looks moves (fun p => (owes p).symm) (fun p t => (enqueues p t).symm)
    (fun _ => Nat.zero_le _) (fun _ => Nat.zero_le _) (fun _ => Nat.zero_le _)
    (fun _ => Nat.zero_le _) (fun _ => Nat.zero_le _) (fun _ => Nat.zero_le _)

theorem Sound.count_le (sound : s.Sound) {p : PoolId} {pool : Pool}
    (there : s.pools p = some pool) : pool.taskCount ≤ maxTasks :=
  (sound.ledger p).bound _ (by simp [count, there])

theorem Sound.pays (sound : s.Sound) {c' : Call} (moves : Moves c c' s.calls calls')
    {p : PoolId} {pool : Pool} (there : s.pools p = some pool) (pool' : Pool)
    (queue : pool'.queue = pool.queue)
    (count : pool'.taskCount + c.owes p = pool.taskCount + c'.owes p)
    (bound : pool'.taskCount ≤ maxTasks) (owes : ∀ p', p' ≠ p → c'.owes p' = c.owes p')
    (reserved : c'.owes p ≤ c.owes p ∨ 0 < c.pushes p)
    (enqueues : ∀ p t, c'.enqueues p t = c.enqueues p t)
    (pushes : ∀ p, c'.pushes p ≤ c.pushes p) (closes : ∀ p, c'.closes p ≤ c.closes p)
    (drains : ∀ p, c'.drains p ≤ c.drains p) (visits : ∀ t, c'.visits t ≤ c.visits t)
    (frees : ∀ t, c'.frees t ≤ c.frees t) (deletes : ∀ t, c'.deletes t ≤ c.deletes t) :
    ((s.setPool p (some pool')).withCalls calls').Sound := by
  apply Sound.moves moves (s.setPool p (some pool')) rfl _ _ _
    (fresh_setPool sound.freshPools there _) sound.freshTasks
  · intro p' debts drains' closes' pushes' h1 h2 h3 h4
    have old := sound.ledger p'
    have lookup := setPool_count s p (some pool') p'
    have here : s.count p = some pool.taskCount := by simp [World.count, there]
    have listed : (s.setPool p (some pool')).outstanding p' = s.outstanding p' := rfl
    have := owes p'
    have := pushes p'
    have := closes p'
    have := drains p'
    have := drains_le_closes p' s.calls
    constructor <;> grind [Ledger, Shifts]
  · intro p' t waiting h
    have old := sound.custody p' t
    have same : (s.setPool p (some pool')).queue p' = s.queue p' := by
      rw [setPool_queue]
      split
      · next at_p => simp [World.queue, at_p, there, queue]
      · rfl
    rw [same, enqueues] at h
    have : waiting = s.waiting p' t := by grind [Shifts]
    rw [this]
    exact old
  · intro t visits' frees' deletes' h1 h2 h3
    have old := sound.access t
    have := visits t
    have := frees t
    have := deletes t
    have same : (s.setPool p (some pool')).tasks = s.tasks := rfl
    constructor <;> grind [Access, Shifts]

theorem stage_eq {t : TaskId} {task : Task} (there : s.tasks t = some task) (p : PoolId) :
    s.stage p t = if task.pool = some p then some task.state else none := by
  rw [stage, there]
  rfl

theorem stage_some {p : PoolId} {t : TaskId} {task : Task} {state : TaskState}
    (found : s.tasks t = some task) (stage : s.stage p t = some state) :
    task.pool = some p ∧ task.state = state := by
  rw [stage_eq found] at stage
  split at stage
  · next pool => exact ⟨pool, Option.some_inj.mp stage⟩
  · cases stage

theorem dead_eq {t : TaskId} {task : Task} (there : s.tasks t = some task) :
    s.dead t = task.detached := by
  rw [dead, there]
  rfl

theorem count_eq {p : PoolId} {pool : Pool} (there : s.pools p = some pool) :
    s.count p = some pool.taskCount := by
  rw [count, there]
  rfl

theorem settle_joined (p p' : PoolId) (t : TaskId) (tasks : List TaskId) :
    Event.settle p' tasks (.joined (some p) t) = if p = p' then tasks.erase t else tasks := by
  simp only [Event.settle, Option.some_inj]

theorem released_count {p : PoolId} {pool : Pool} (there : s.pools p = some pool) (p' : PoolId) :
    (s.setPool p (some { pool with taskCount := pool.taskCount - 1 })).count p' =
      if p' = p then (s.count p').map (· - 1) else s.count p' := by
  rw [setPool_count]
  split
  · next here =>
      rw [here, count_eq there]
      rfl
  · rfl

structure Alters (s w : World) (t : TaskId) (task' : Option Task) : Prop where
  tasks : ∀ t', w.tasks t' = if t' = t then task' else s.tasks t'
  stage : ∀ p t', w.stage p t' = if t' = t then task'.bind (Task.stage p) else s.stage p t'
  dead : ∀ t', w.dead t' = if t' = t then (task'.map Task.detached).getD false else s.dead t'
  queue : ∀ p, w.queue p = s.queue p
  freshPools : ∀ p, w.poolsMade ≤ p → w.pools p = none
  freshTasks : ∀ t', w.tasksMade ≤ t' → w.tasks t' = none

theorem Sound.alters (sound : s.Sound) {t : TaskId} {task : Task} (there : s.tasks t = some task)
    (task' : Option Task) : s.Alters (s.setTask t task') t task' where
  tasks := setTask_tasks s t task'
  stage := setTask_stage s t task'
  dead := setTask_dead s t task'
  queue := fun _ => rfl
  freshPools := sound.freshPools
  freshTasks := fresh_setTask sound.freshTasks there task'

theorem Alters.pays {w : World} {t : TaskId} {task' : Option Task} (altered : s.Alters w t task')
    {p : PoolId} {pool : Pool} (there : w.pools p = some pool) {pool' : Pool}
    (same : pool'.queue = pool.queue) : s.Alters (w.setPool p (some pool')) t task' where
  tasks := altered.tasks
  stage := altered.stage
  dead := altered.dead
  queue := by
    intro p'
    rw [setPool_queue, ← altered.queue p']
    split
    · next at_p => simp [World.queue, at_p, there, same]
    · rfl
  freshPools := by
    intro p' fresh
    rw [setPool_pools]
    split
    · next at_p =>
        rw [altered.freshPools p (at_p ▸ fresh)] at there
        cases there
    · exact altered.freshPools p' fresh
  freshTasks := altered.freshTasks

theorem Alters.emits {w : World} {t : TaskId} {task' : Option Task} (altered : s.Alters w t task')
    (event : Event) : s.Alters (w.emit event) t task' :=
  ⟨altered.tasks, altered.stage, altered.dead, altered.queue, altered.freshPools,
    altered.freshTasks⟩

theorem Moves.visits {c' : Call} (moves : Moves c c' s.calls calls') {t : TaskId}
    (visiting : c.visits t = 1) : 0 < total (Call.visits t) s.calls := by
  have part := (moves (Call.visits t) fun _ _ => rfl).part
  omega

theorem Sound.alive (sound : s.Sound) {t : TaskId} (visited : 0 < total (Call.visits t) s.calls) :
    s.dead t = false := by
  obtain ⟨task, there, alive⟩ := (sound.access t).usable visited
  rw [dead_eq there, alive]

theorem Sound.accepts (sound : s.Sound) {p : PoolId} {t : TaskId} {task : Task}
    (moves : Moves (.pushCheck p t) (.pushEnqueue p t) s.calls calls')
    (there : s.tasks t = some task) (free : task.pool = none) {w : World}
    (altered : s.Alters w t (some { task with pool := some p, state := .queued }))
    (workers : w.workers = s.workers) (count : ∀ p', w.count p' = s.count p')
    (listed : ∀ p', w.outstanding p' =
      if p = p' then s.outstanding p' ++ [t] else s.outstanding p') :
    (w.withCalls calls').Sound := by
  apply Sound.moves moves w workers _ _ _ altered.freshPools altered.freshTasks
  · intro p' debts drains closes pushes h1 h2 h3 h4
    have old := sound.ledger p'
    have := drains_le_closes p' s.calls
    rw [count, listed]
    simp only [Call.owes, Call.drains, Call.closes, Call.pushes] at *
    constructor <;> grind [Ledger, Shifts]
  · intro p' t' waiting h
    have old := sound.custody p' t'
    have before := stage_eq there p'
    rw [altered.queue] at h
    rw [altered.stage, altered.dead, listed]
    simp only [Call.enqueues] at *
    constructor <;> grind [Custody, Shifts, Task.stage]
  · intro t' visits frees deletes h1 h2 h3
    have old := sound.access t'
    rw [altered.tasks]
    simp only [Call.visits, Call.frees, Call.deletes] at *
    constructor <;> grind [Access, Shifts]

-- What the weights of a joining call come to: it only visits its task.
structure Visiting (c : Call) (t : TaskId) : Prop where
  owes : ∀ p, c.owes p = 0
  enqueues : ∀ p t', c.enqueues p t' = 0
  drains : ∀ p, c.drains p = 0
  closes : ∀ p, c.closes p = 0
  pushes : ∀ p, c.pushes p = 0
  visits : ∀ t', c.visits t' = if t = t' then 1 else 0
  frees : ∀ t', c.frees t' = 0
  deletes : ∀ t', c.deletes t' = 0

theorem visiting_join {t : TaskId} (joining : c = .join t ∨ c = .joinWait t) : Visiting c t := by
  rcases joining with rfl | rfl <;> constructor <;> intros <;> rfl

theorem visiting_timedJoin {t : TaskId} (joining : c = .timedJoin t ∨ c = .timedWait t) :
    Visiting c t := by
  rcases joining with rfl | rfl <;> constructor <;> intros <;> rfl

theorem Sound.takesJoined (sound : s.Sound) {p : PoolId} {t : TaskId} {task task' : Task} {c' : Call}
    (visiting : Visiting c t) (moves : Moves c c' s.calls calls') (there : s.tasks t = some task)
    (state : task.state = .finished) (pool : task.pool = some p) {w : World}
    (altered : s.Alters w t (some task')) (state' : task'.state = .joined)
    (detached : task'.detached = task.detached) (workers : w.workers = s.workers)
    (listed : ∀ p', w.outstanding p' =
      if p = p' then (s.outstanding p').erase t else s.outstanding p')
    (enqueues : ∀ p t', c'.enqueues p t' = 0) (visits : ∀ t', c'.visits t' = 0)
    (frees : ∀ t', c'.frees t' = 0) (deletes : ∀ t', c'.deletes t' = 0)
    (ledger : ∀ p debts drains closes pushes,
      Shifts (c.owes p) (c'.owes p) (s.debts p) debts →
      Shifts (c.drains p) (c'.drains p) (total (Call.drains p) s.calls) drains →
      Shifts (c.closes p) (c'.closes p) (total (Call.closes p) s.calls) closes →
      Shifts (c.pushes p) (c'.pushes p) (total (Call.pushes p) s.calls) pushes →
      Ledger (w.count p) (w.outstanding p).length debts drains closes pushes) :
    (w.withCalls calls').Sound := by
  apply Sound.moves moves w workers ledger _ _ altered.freshPools altered.freshTasks
  · intro p' t' waiting h
    have old := sound.custody p' t'
    have before := stage_eq there p'
    have alive := sound.alive (moves.visits (by rw [visiting.visits, if_pos rfl]))
    rw [altered.queue, visiting.enqueues, enqueues] at h
    rw [altered.stage, altered.dead, listed, apply_ite (List.count t'), List.count_erase]
    constructor <;> grind [Custody, Shifts, Task.stage]
  · intro t' visited freed deleted h1 h2 h3
    have old := sound.access t'
    rw [visiting.visits, visits] at h1
    rw [visiting.frees, frees] at h2
    rw [visiting.deletes, deletes] at h3
    rw [altered.tasks]
    constructor <;> grind [Access, Shifts]

theorem Sound.joins (sound : s.Sound) {p : PoolId} {t : TaskId} {task : Task}
    (joining : c = .join t ∨ c = .joinWait t) (moves : Moves c (.joinRelease t p) s.calls calls')
    (there : s.tasks t = some task) (state : task.state = .finished) (pool : task.pool = some p)
    {w : World} (altered : s.Alters w t (some { task with state := .joined, pool := none }))
    (workers : w.workers = s.workers) (count : ∀ p', w.count p' = s.count p')
    (listed : ∀ p', w.outstanding p' =
      if p = p' then (s.outstanding p').erase t else s.outstanding p') :
    (w.withCalls calls').Sound := by
  have visiting := visiting_join joining
  refine sound.takesJoined visiting moves there state pool altered rfl rfl workers listed
    (fun _ _ => rfl) (fun _ => rfl) (fun _ => rfl) (fun _ => rfl) ?_
  intro p' debts drains closes pushes h1 h2 h3 h4
  have old := sound.ledger p'
  have held := sound.custody p' t
  have before := stage_eq there p'
  have mem : t ∈ s.outstanding p' ↔ 0 < (s.outstanding p').count t := List.count_pos_iff.symm
  have shorter := @List.length_erase_of_mem _ _ _ t (s.outstanding p')
  rw [visiting.owes] at h1
  rw [visiting.drains] at h2
  rw [visiting.closes] at h3
  rw [visiting.pushes] at h4
  rw [count, listed]
  simp only [Call.owes, Call.drains, Call.closes, Call.pushes] at *
  constructor <;> grind [Ledger, Shifts, Custody]

theorem Ledger_pays {count : Option Int} {listed debts drains closes pushes : Nat}
    (old : Ledger count listed debts drains closes pushes) (member : 0 < listed) :
    Ledger (count.map (· - 1)) (listed - 1) debts drains closes pushes := by
  cases count with
  | none => have := old.gone rfl; omega
  | some n =>
      have exact := old.exact n rfl
      have bound := old.bound n rfl
      have drained := old.drained
      refine ⟨?_, ?_, by simp, by omega, old.apart⟩
      · intro m same
        rw [Option.map_some, Option.some_inj] at same
        omega
      · intro m same
        rw [Option.map_some, Option.some_inj] at same
        omega

theorem Sound.leaves (sound : s.Sound) {p : PoolId} {t : TaskId} (stage : s.stage p t = some .finished)
    {w : World} {p' : PoolId}
    (count : w.count p' = if p' = p then (s.count p').map (· - 1) else s.count p')
    (listed : w.outstanding p' = if p = p' then (s.outstanding p').erase t else s.outstanding p') :
    Ledger (w.count p') (w.outstanding p').length (s.debts p') (total (Call.drains p') s.calls)
      (total (Call.closes p') s.calls) (total (Call.pushes p') s.calls) := by
  by_cases here : p' = p
  · subst here
    have member : t ∈ s.outstanding p' := by
      rw [← List.count_pos_iff, (sound.custody p' t).listed, stage]
      decide
    rw [count, listed, if_pos rfl, if_pos rfl, List.length_erase_of_mem member]
    exact Ledger_pays (sound.ledger p') (List.length_pos_of_mem member)
  · rw [count, listed, if_neg here, if_neg (Ne.symm here)]
    exact sound.ledger p'

theorem Sound.timedJoins (sound : s.Sound) {p : PoolId} {t : TaskId} {task : Task}
    {op : Op} {result : Result} (joining : c = .timedJoin t ∨ c = .timedWait t)
    (moves : Moves c (.returned op result) s.calls calls') (there : s.tasks t = some task)
    (state : task.state = .finished) (pool : task.pool = some p)
    {w : World} (altered : s.Alters w t (some { task with state := .joined }))
    (workers : w.workers = s.workers)
    (count : ∀ p', w.count p' = if p' = p then (s.count p').map (· - 1) else s.count p')
    (listed : ∀ p', w.outstanding p' =
      if p = p' then (s.outstanding p').erase t else s.outstanding p') :
    (w.withCalls calls').Sound := by
  have visiting := visiting_timedJoin joining
  refine sound.takesJoined visiting moves there state pool altered rfl rfl workers listed
    (fun _ _ => rfl) (fun _ => rfl) (fun _ => rfl) (fun _ => rfl) ?_
  intro p' debts drains closes pushes h1 h2 h3 h4
  have left := sound.leaves (by rw [stage_eq there, if_pos pool, state]) (count p') (listed p')
  rw [visiting.owes] at h1
  rw [visiting.drains] at h2
  rw [visiting.closes] at h3
  rw [visiting.pushes] at h4
  simp only [Call.owes, Call.drains, Call.closes, Call.pushes] at *
  grind [Shifts]

theorem Sound.detachReleases (sound : s.Sound) {p : PoolId} {t : TaskId} {task : Task}
    {op : Op} {result : Result}
    (moves : Moves (.detachRelease t) (.returned op result) s.calls calls')
    (there : s.tasks t = some task) (pool : task.pool = some p)
    {w : World} (altered : s.Alters w t none) (workers : w.workers = s.workers)
    (count : ∀ p', w.count p' = if p' = p then (s.count p').map (· - 1) else s.count p')
    (listed : ∀ p', w.outstanding p' =
      if p = p' then (s.outstanding p').erase t else s.outstanding p') :
    (w.withCalls calls').Sound := by
  have freeing := (moves (Call.frees t) fun _ _ => rfl).part
  have access := sound.access t
  have state : task.state = .finished ∧ task.detached = false := by
    obtain ⟨_, same, finished⟩ := access.freed (Nat.lt_of_lt_of_le (by simp [Call.frees]) freeing)
    rw [there, Option.some_inj] at same
    exact same ▸ finished
  apply Sound.moves moves w workers _ _ _ altered.freshPools altered.freshTasks
  · intro p' debts drains closes pushes h1 h2 h3 h4
    have left := sound.leaves (by rw [stage_eq there, if_pos pool, state.1]) (count p') (listed p')
    simp only [Call.owes, Call.drains, Call.closes, Call.pushes] at *
    grind [Shifts]
  · intro p' t' waiting h
    have old := sound.custody p' t'
    have before := stage_eq there p'
    have alive := dead_eq there
    rw [altered.queue] at h
    rw [altered.stage, altered.dead, listed, apply_ite (List.count t'), List.count_erase]
    simp only [Call.enqueues] at *
    constructor <;> grind [Custody, Shifts]
  · intro t' visits frees deletes h1 h2 h3
    have old := sound.access t'
    rw [altered.tasks]
    simp only [Call.visits, Call.frees, Call.deletes] at *
    constructor <;> grind [Access, Shifts]

theorem Sound.unlisted (sound : s.Sound) {t : TaskId} {task : Task} {task' : Option Task}
    {op : Op} {result : Result} (moves : Moves c (.returned op result) s.calls calls')
    (there : s.tasks t = some task)
    (idle : task.pool = none ∨ task.state = .new ∨ task.state = .joined)
    (stays : ∀ k ∈ task', (k.pool = none ∨ k.state = .joined) ∧ k.detached = task.detached)
    (using' : c.visits t = 1 ∧ task' ≠ none ∨ c.deletes t = 1 ∧ task' = none)
    (owes : ∀ p, c.owes p = 0) (enqueues : ∀ p t, c.enqueues p t = 0)
    {w : World} (altered : s.Alters w t task') (workers : w.workers = s.workers)
    (count : ∀ p', w.count p' = s.count p')
    (listed : ∀ p', w.outstanding p' = s.outstanding p') : (w.withCalls calls').Sound := by
  apply Sound.moves moves w workers _ _ _ altered.freshPools altered.freshTasks
  · intro p' debts drains closes pushes h1 h2 h3 h4
    have old := sound.ledger p'
    rw [count, listed]
    have := owes p'
    simp only [Call.owes, Call.drains, Call.closes, Call.pushes] at *
    constructor <;> grind [Ledger, Shifts]
  · intro p' t' waiting h
    have old := sound.custody p' t'
    have before := stage_eq there p'
    rw [altered.queue] at h
    rw [altered.stage, altered.dead, listed]
    have := enqueues p' t'
    cases task' with
    | none => 
        constructor <;> grind [Custody, Shifts, Call.enqueues]
    | some k =>
        have := stays k rfl
        constructor <;> grind [Custody, Shifts, Task.stage, Call.enqueues]
  · intro t' visits frees deletes h1 h2 h3
    have old := sound.access t'
    rw [altered.tasks]
    cases task' with
    | none => 
        constructor <;> grind [Access, Shifts, Call.visits, Call.frees, Call.deletes]
    | some k =>
        have := stays k rfl
        constructor <;> grind [Access, Shifts, Call.visits, Call.frees, Call.deletes]

theorem Sound.detaches (sound : s.Sound) {t : TaskId} {task : Task} {op : Op} {result : Result}
    (moves : Moves (.detach t) (.returned op result) s.calls calls')
    (there : s.tasks t = some task) (busy : task.state ≠ .finished)
    (alone : total (Call.visits t) s.calls = 1)
    {w : World} (altered : s.Alters w t (some { task with detached := true }))
    (workers : w.workers = s.workers) (count : ∀ p', w.count p' = s.count p')
    (listed : ∀ p', w.outstanding p' = s.outstanding p') : (w.withCalls calls').Sound := by
  apply Sound.moves moves w workers _ _ _ altered.freshPools altered.freshTasks
  · intro p' debts drains closes pushes h1 h2 h3 h4
    have old := sound.ledger p'
    rw [count, listed]
    simp only [Call.owes, Call.drains, Call.closes, Call.pushes] at *
    constructor <;> grind [Ledger, Shifts]
  · intro p' t' waiting h
    have old := sound.custody p' t'
    have before := stage_eq there p'
    rw [altered.queue] at h
    rw [altered.stage, altered.dead, listed]
    simp only [Call.enqueues] at *
    constructor <;> grind [Custody, Shifts, Task.stage]
  · intro t' visits frees deletes h1 h2 h3
    have old := sound.access t'
    rw [altered.tasks]
    simp only [Call.visits, Call.frees, Call.deletes] at *
    constructor <;> grind [Access, Shifts]

-- The only call on a task goes on to delete it.
theorem Sound.claims (sound : s.Sound) {c' : Call} {t : TaskId} {task : Task}
    (moves : Moves c c' s.calls calls') (there : s.tasks t = some task)
    (alone : total (Call.visits t) s.calls = 1)
    (deleting : c = .detach t ∧ c' = .detachRelease t ∧ task.state = .finished ∨
      c = .delete t ∧ c' = .deleteFree t ∧ (task.state = .new ∨ task.state = .joined)) :
    (s.withCalls calls').Sound := by
  apply Sound.moves moves s rfl _ _ _ sound.freshPools sound.freshTasks
  · intro p debts drains closes pushes h1 h2 h3 h4
    have old := sound.ledger p
    rcases deleting with ⟨rfl, rfl, -⟩ | ⟨rfl, rfl, -⟩ <;>
      simp only [Call.owes, Call.drains, Call.closes, Call.pushes] at * <;>
      constructor <;> grind [Ledger, Shifts]
  · intro p t' waiting h
    have same : waiting = s.waiting p t' := by
      rcases deleting with ⟨rfl, rfl, -⟩ | ⟨rfl, rfl, -⟩ <;>
        simp only [Call.enqueues] at * <;> grind [Shifts]
    rw [same]
    exact sound.custody p t'
  · intro t' visits frees deletes h1 h2 h3
    have old := sound.access t'
    rcases deleting with ⟨rfl, rfl, finished⟩ | ⟨rfl, rfl, idle⟩ <;>
      simp only [Call.visits, Call.frees, Call.deletes] at * <;>
      constructor <;> grind [Access, Shifts]

theorem Sound.passes (sound : s.Sound) {p : PoolId}
    (moves : Moves (.poolDelete p) (.poolStop p) s.calls calls') {pool : Pool}
    (there : s.pools p = some pool) (empty : pool.taskCount = 0) :
    (s.withCalls calls').Sound := by
  apply Sound.moves moves s rfl _ _ _ sound.freshPools sound.freshTasks
  · intro p' debts drains closes pushes h1 h2 h3 h4
    have old := sound.ledger p'
    have exact := (sound.ledger p).exact _ (count_eq there)
    simp only [Call.owes, Call.drains, Call.closes, Call.pushes] at *
    constructor <;> grind [Ledger, Shifts]
  · intro p' t' waiting h
    have same : waiting = s.waiting p' t' := by
      simp only [Call.enqueues] at *
      grind [Shifts]
    rw [same]
    exact sound.custody p' t'
  · intro t' visits frees deletes h1 h2 h3
    have old := sound.access t'
    simp only [Call.visits, Call.frees, Call.deletes] at *
    constructor <;> grind [Access, Shifts]

theorem Sound.ends (sound : s.Sound) {p : PoolId} {op : Op} {result : Result}
    (moves : Moves (.poolJoin p) (.returned op result) s.calls calls') {pool : Pool}
    (there : s.pools p = some pool) :
    ((s.setPool p none).withCalls calls').Sound := by
  have draining := (moves (Call.drains p) fun _ _ => rfl).part
  have drained := (sound.ledger p).drained (Nat.lt_of_lt_of_le (by simp [Call.drains]) draining)
  apply Sound.moves moves (s.setPool p none) rfl _ _ _ (fresh_setPool sound.freshPools there _)
    sound.freshTasks
  · intro p' debts drains closes pushes h1 h2 h3 h4
    have old := sound.ledger p'
    have listed : (s.setPool p none).outstanding p' = s.outstanding p' := rfl
    rw [setPool_count, listed]
    simp only [Call.owes, Call.drains, Call.closes, Call.pushes] at *
    constructor <;> grind [Ledger, Shifts]
  · intro p' t' waiting h
    have old := sound.custody p' t'
    have none_listed := List.count_le_length (a := t') (l := s.outstanding p)
    have in_queue : (s.queue p').count t' ≤ s.waiting p' t' := by
      simp only [World.waiting]
      omega
    have listed : (s.setPool p none).outstanding p' = s.outstanding p' := rfl
    have stage : (s.setPool p none).stage p' t' = s.stage p' t' := rfl
    have dead : (s.setPool p none).dead t' = s.dead t' := rfl
    rw [setPool_queue] at h
    rw [listed, stage, dead]
    simp only [Call.enqueues] at *
    constructor <;> grind [Custody, Shifts]
  · intro t' visits frees deletes h1 h2 h3
    have old := sound.access t'
    have same : (s.setPool p none).tasks = s.tasks := rfl
    rw [same]
    simp only [Call.visits, Call.frees, Call.deletes] at *
    constructor <;> grind [Access, Shifts]

theorem Sound.enqueues (sound : s.Sound) {p : PoolId} {t : TaskId} {op : Op} {result : Result}
    (moves : Moves (.pushEnqueue p t) (.returned op result) s.calls calls') {pool : Pool}
    (there : s.pools p = some pool) {pool' : Pool} (count : pool'.taskCount = pool.taskCount)
    (queue : pool'.queue = pool.queue ++ [t]) :
    ((s.setPool p (some pool')).withCalls calls').Sound := by
  apply Sound.moves moves (s.setPool p (some pool')) rfl _ _ _ (fresh_setPool sound.freshPools there _)
    sound.freshTasks
  · intro p' debts drains closes pushes h1 h2 h3 h4
    have old := sound.ledger p'
    have listed : (s.setPool p (some pool')).outstanding p' = s.outstanding p' := rfl
    have same : (s.setPool p (some pool')).count p' = s.count p' := by
      rw [setPool_count]
      split
      · next here => rw [here, count_eq there, Option.map_some, count]
      · rfl
    rw [same, listed]
    simp only [Call.owes, Call.drains, Call.closes, Call.pushes] at *
    constructor <;> grind [Ledger, Shifts]
  · intro p' t' waiting h
    have held : (s.setPool p (some pool')).queue p' =
        if p' = p then s.queue p ++ [t] else s.queue p' := by
      have was : s.queue p = pool.queue := by simp [World.queue, there]
      rw [setPool_queue, was, ← queue]
      rfl
    have same : waiting = s.waiting p' t' := by
      rw [held, apply_ite (List.count t'), List.count_append, List.count_singleton] at h
      simp only [Call.enqueues] at h
      grind [Shifts]
    rw [same]
    exact sound.custody p' t'
  · intro t' visits frees deletes h1 h2 h3
    have old := sound.access t'
    have same : (s.setPool p (some pool')).tasks = s.tasks := rfl
    rw [same]
    simp only [Call.visits, Call.frees, Call.deletes] at *
    constructor <;> grind [Access, Shifts]

end World

end SystemProg.ThreadPool
