import SystemProg.ThreadPool.CallSteps

set_option autoImplicit false

namespace SystemProg.ThreadPool

namespace World

variable {s : World}

-- A worker takes a step: what the workers hold changes by what it holds.
theorem Sound.works {i : WorkerId} {worker : Worker} (there : s.workers[i]? = some worker)
    (worker' : Worker) (w : World) (calls : w.calls = s.calls) (workers : w.workers = s.workers)
    (ledger : ∀ p, Ledger (w.count p) (w.outstanding p).length (s.debts p)
      (total (Call.drains p) s.calls) (total (Call.closes p) s.calls)
      (total (Call.pushes p) s.calls))
    (custody : ∀ p t waiting active dying,
      Shifts (worker.takes p t + (s.queue p).count t) (worker'.takes p t + (w.queue p).count t)
        (s.waiting p t) waiting →
      Shifts (worker.runs p t) (worker'.runs p t) (s.active p t) active →
      Shifts (worker.kills p t) (worker'.kills p t) (s.dying p t) dying →
      Custody (w.stage p t) (w.dead t) ((w.outstanding p).count t) waiting active dying)
    (access : ∀ t, Access (w.tasks t) (total (Call.visits t) s.calls)
      (total (Call.frees t) s.calls) (total (Call.deletes t) s.calls))
    (freshPools : ∀ p, w.poolsMade ≤ p → w.pools p = none)
    (freshTasks : ∀ t, w.tasksMade ≤ t → w.tasks t = none) :
    (w.setWorker i worker').Sound := by
  refine ⟨fun p => ?_, fun p t => ?_, fun t => ?_, freshPools, freshTasks⟩
  · have same : (w.setWorker i worker').calls = s.calls := calls
    rw [debts, same]
    exact ledger p
  · have same : (w.setWorker i worker').workers = s.workers.set i worker' :=
      congrArg (fun list => list.set i worker') workers
    have takes := total_set (Worker.takes p t) there worker'
    have part := takes.part
    have moved := takes.moved
    refine custody p t _ _ _ ⟨?_, ?_⟩ ?_ ?_
    · have held : (w.setWorker i worker').waiting p t = total (Call.enqueues p t) s.calls +
          (w.queue p).count t + total (Worker.takes p t) (s.workers.set i worker') := by
        rw [← calls, ← same]
        rfl
      rw [held, waiting]
      omega
    · rw [waiting]
      omega
    · rw [active, active, same]
      exact total_set (Worker.runs p t) there worker'
    · rw [dying, dying, same]
      exact total_set (Worker.kills p t) there worker'
  · have same : (w.setWorker i worker').calls = s.calls := calls
    rw [same]
    exact access t

theorem Sound.hires (sound : s.Sound) (p : PoolId) (started : Nat) :
    ({ s with workers := s.workers ++ List.replicate started { pool := p, pc := .waiting } } :
      World).Sound := by
  refine ⟨sound.ledger, fun p' t => ?_, sound.access, sound.freshPools, sound.freshTasks⟩
  have old := sound.custody p' t
  rw [waiting, active, dying] at old ⊢
  rw [total_hired _ (by simp [Worker.takes]), total_hired _ (by simp [Worker.runs]),
    total_hired _ (by simp [Worker.kills])]
  exact old

section

variable {i : WorkerId} {worker : Worker} (there : s.workers[i]? = some worker)

include there

theorem Sound.rests (sound : s.Sound) (pc : worker.pc = .waiting) {pc' : WorkerPc}
    (rests : pc' = .waiting ∨ pc' = .exited) :
    (s.setWorker i { worker with pc := pc' }).Sound := by
  apply Sound.works there _ s rfl rfl sound.ledger _ sound.access sound.freshPools sound.freshTasks
  intro p t waiting active dying h1 h2 h3
  have old := sound.custody p t
  have same : waiting = s.waiting p t ∧ active = s.active p t ∧ dying = s.dying p t := by
    rcases rests with rfl | rfl <;> simp [Worker.takes, Worker.runs, Worker.kills, pc] at * <;>
      grind [Shifts]
  obtain ⟨rfl, rfl, rfl⟩ := same
  exact old

theorem Sound.takes (sound : s.Sound) (pc : worker.pc = .waiting) {pool : Pool}
    (found : s.pools worker.pool = some pool) {t : TaskId} {rest : List TaskId}
    (queue : pool.queue = t :: rest) :
    ((s.setPool worker.pool (some { pool with queue := rest })).setWorker i
      { worker with pc := .taken t }).Sound := by
  apply Sound.works there _ (s.setPool worker.pool (some { pool with queue := rest })) rfl rfl _ _
    sound.access (fresh_setPool sound.freshPools found _) sound.freshTasks
  · intro p
    have same : (s.setPool worker.pool (some { pool with queue := rest })).count p = s.count p := by
      rw [setPool_count]
      split
      · next here => rw [here, count_eq found, Option.map_some]
      · rfl
    rw [same]
    exact sound.ledger p
  · intro p t' waiting active dying h1 h2 h3
    have old := sound.custody p t'
    have was : s.queue worker.pool = t :: rest := by simp [World.queue, found, queue]
    rw [setPool_queue] at h1
    have same : waiting = s.waiting p t' ∧ active = s.active p t' ∧ dying = s.dying p t' := by
      simp only [Worker.takes, Worker.runs, Worker.kills, pc] at *
      have := List.count_cons (a := t') (b := t) (l := rest)
      grind [Shifts]
    obtain ⟨rfl, rfl, rfl⟩ := same
    exact old

theorem Sound.taken (sound : s.Sound) {t : TaskId} (pc : worker.pc = .taken t) :
    s.stage worker.pool t = some .queued := by
  have part := le_total (Worker.takes worker.pool t) (List.mem_of_getElem? there)
  have held := (sound.custody worker.pool t).waiting
  simp only [Worker.takes, pc, World.waiting] at part held
  grind

theorem Sound.runs (sound : s.Sound) {t : TaskId}
    (pc : worker.pc = .running t ∨ worker.pc = .ran t) :
    s.stage worker.pool t = some .running := by
  have part := le_total (Worker.runs worker.pool t) (List.mem_of_getElem? there)
  have held := (sound.custody worker.pool t).active
  simp only [Worker.runs, World.active] at part held
  grind

theorem Sound.kills (sound : s.Sound) {t : TaskId} {p : PoolId}
    (pc : worker.pc = .deleting t (some p)) :
    s.stage p t = some .finished ∧ s.dead t = true := by
  have part := le_total (Worker.kills p t) (List.mem_of_getElem? there)
  have held := (sound.custody p t).dying
  simp only [Worker.kills, World.dying] at part held
  grind

theorem Sound.starts (sound : s.Sound) {t : TaskId} {task : Task} (pc : worker.pc = .taken t)
    (found : s.tasks t = some task) {w : World}
    (altered : s.Alters w t (some { task with state := .running })) (calls : w.calls = s.calls)
    (workers : w.workers = s.workers) (count : ∀ p, w.count p = s.count p)
    (listed : ∀ p, w.outstanding p = s.outstanding p) :
    (w.setWorker i { worker with pc := .running t }).Sound := by
  have stage := sound.taken there pc
  have state := stage_some found stage
  apply Sound.works there _ w calls workers _ _ _ altered.freshPools altered.freshTasks
  · intro p
    rw [count, listed]
    exact sound.ledger p
  · intro p t' waiting active dying h1 h2 h3
    have old := sound.custody p t'
    have before := stage_eq found p
    rw [altered.queue] at h1
    rw [altered.stage, altered.dead, listed]
    simp only [Worker.takes, Worker.runs, Worker.kills, pc] at *
    constructor <;> grind [Custody, Shifts, Task.stage]
  · intro t'
    have old := sound.access t'
    rw [altered.tasks]
    constructor <;> grind [Access]

theorem Sound.runsOn (sound : s.Sound) {t : TaskId} (pc : worker.pc = .running t) (event : Event)
    (ends : event = .ended t) : ((s.emit event).setWorker i { worker with pc := .ran t }).Sound := by
  have listed : ∀ p, (s.emit event).outstanding p = s.outstanding p := by
    intro p
    rw [emit_outstanding, ends]
    rfl
  apply Sound.works there _ (s.emit event) rfl rfl _ _ sound.access sound.freshPools
    sound.freshTasks
  · intro p
    rw [listed]
    exact sound.ledger p
  · intro p t' waiting active dying h1 h2 h3
    have old := sound.custody p t'
    rw [listed]
    have same : waiting = s.waiting p t' ∧ active = s.active p t' ∧ dying = s.dying p t' := by
      have queue : (s.emit event).queue p = s.queue p := rfl
      simp only [Worker.takes, Worker.runs, Worker.kills, pc] at *
      grind [Shifts]
    obtain ⟨rfl, rfl, rfl⟩ := same
    exact old

theorem Sound.finishes (sound : s.Sound) {t : TaskId} {task : Task} (pc : worker.pc = .ran t)
    (found : s.tasks t = some task) {w : World}
    (altered : s.Alters w t (some { task with state := .finished })) (calls : w.calls = s.calls)
    (workers : w.workers = s.workers) (count : ∀ p, w.count p = s.count p)
    (listed : ∀ p, w.outstanding p = s.outstanding p) :
    (w.setWorker i { worker with
      pc := if task.detached then .deleting t task.pool else .waiting }).Sound := by
  have stage := sound.runs there (Or.inr pc)
  have state := stage_some found stage
  have alive := dead_eq found
  apply Sound.works there _ w calls workers _ _ _ altered.freshPools altered.freshTasks
  · intro p
    rw [count, listed]
    exact sound.ledger p
  · intro p t' waiting active dying h1 h2 h3
    have old := sound.custody p t'
    have before := stage_eq found p
    rw [altered.queue] at h1
    rw [altered.stage, altered.dead, listed]
    simp only [Worker.takes, Worker.runs, Worker.kills, pc] at *
    constructor <;> grind [Custody, Shifts, Task.stage]
  · intro t'
    have old := sound.access t'
    rw [altered.tasks]
    constructor <;> grind [Access]

theorem Sound.autoDeletes (sound : s.Sound) {t : TaskId} {task : Task} {p : PoolId}
    (pc : worker.pc = .deleting t (some p)) (found : s.tasks t = some task) {w : World}
    (altered : s.Alters w t none) (calls : w.calls = s.calls) (workers : w.workers = s.workers)
    (count : ∀ p', w.count p' = if p' = p then (s.count p').map (· - 1) else s.count p')
    (listed : ∀ p', w.outstanding p' =
      if p = p' then (s.outstanding p').erase t else s.outstanding p') :
    (w.setWorker i { worker with pc := .waiting }).Sound := by
  obtain ⟨stage, dead⟩ := sound.kills there pc
  have state := stage_some found stage
  have alive := dead_eq found
  apply Sound.works there _ w calls workers _ _ _ altered.freshPools altered.freshTasks
  · intro p'
    exact sound.leaves stage (count p') (listed p')
  · intro p' t' waiting active dying h1 h2 h3
    have old := sound.custody p' t'
    have before := stage_eq found p'
    rw [altered.queue] at h1
    rw [altered.stage, altered.dead, listed, apply_ite (List.count t'), List.count_erase]
    simp only [Worker.takes, Worker.runs, Worker.kills, pc] at *
    constructor <;> grind [Custody, Shifts, Task.stage]
  · intro t'
    have old := sound.access t'
    rw [altered.tasks]
    constructor <;> grind [Access]

end

end World

end SystemProg.ThreadPool
