import SystemProg.Lib.Run
import SystemProg.ThreadPool.Effects
import SystemProg.ThreadPool.Ledger

set_option autoImplicit false

namespace SystemProg.ThreadPool

namespace Worker

def serves (p : PoolId) (worker : Worker) : Nat := if worker.pool = p then 1 else 0

-- The worker is not between taking a task and finishing it, and its thread has not returned.
def idles (p : PoolId) (worker : Worker) : Nat :=
  match worker.pc with
  | .waiting | .deleting _ _ => if worker.pool = p then 1 else 0
  | _ => 0

theorem idles_le_serves (p : PoolId) (worker : Worker) : worker.idles p ≤ worker.serves p := by
  unfold idles serves
  split <;> simp

end Worker

namespace World

section

variable (p : PoolId) {creations : Nat} {pool : Pool} {workers : List Worker}

theorem startThreads_limit (limit : (pool.threads.length : Int) ≤ pool.maxThreads) :
    ((startThreads p creations pool workers).1.threads.length : Int) ≤ pool.maxThreads := by
  induction creations generalizing pool workers with
  | zero => exact limit
  | succ creations ih =>
      unfold startThreads
      split
      · next more =>
          refine ih ?_
          rw [List.length_append, List.length_singleton]
          push_cast
          omega
      · exact limit

theorem startThreads_needed :
    (startThreads p creations pool workers).1.threads.length ≤
      max pool.threads.length pool.queue.length := by
  induction creations generalizing pool workers with
  | zero => exact Nat.le_max_left _ _
  | succ creations ih =>
      unfold startThreads
      split
      · next more =>
          have grown := @ih { pool with threads := pool.threads ++ [workers.length] }
            (workers ++ [{ pool := p, pc := .waiting }])
          rw [List.length_append, List.length_singleton] at grown
          dsimp only at grown more
          omega
      · exact Nat.le_max_left _ _

theorem startThreads_stops (enough : pool.maxThreads ≤ pool.threads.length + creations) :
    pool.maxThreads ≤ (startThreads p creations pool workers).1.threads.length ∨
      pool.queue.length ≤ (startThreads p creations pool workers).1.threads.length := by
  induction creations generalizing pool workers with
  | zero => exact Or.inl (by simpa [startThreads] using enough)
  | succ creations ih =>
      unfold startThreads
      split
      · refine @ih { pool with threads := pool.threads ++ [workers.length] }
          (workers ++ [{ pool := p, pc := .waiting }]) ?_
        rw [List.length_append, List.length_singleton]
        push_cast
        omega
      · next done =>
          rw [not_and_or] at done
          dsimp only
          exact done.imp (fun full => by omega) fun served => by omega

end

def idle (s : World) (p : PoolId) : Nat := total (Worker.idles p) s.workers

structure Hired (s : World) : Prop where
  hired : ∀ p pool, s.pools p = some pool →
    total (Worker.serves p) s.workers = pool.threads.length
  limit : ∀ p pool, s.pools p = some pool →
    (pool.threads.length : Int) ≤ pool.maxThreads ∧ pool.maxThreads ≤ maxThreads
  fresh : ∀ p, s.poolsMade ≤ p → s.pools p = none ∧ total (Worker.serves p) s.workers = 0

-- All threads of the pool have been started, or there are as many idle ones as queued tasks.
def Staffed (s : World) (p : PoolId) : Prop :=
  ∀ pool ∈ s.pools p,
    (pool.threads.length : Int) = pool.maxThreads ∨ pool.queue.length ≤ s.idle p

instance (s : World) (p : PoolId) : Decidable (s.Staffed p) := by
  unfold Staffed
  infer_instance

variable {s : World}

theorem Hired.idle_le (hired : s.Hired) {p : PoolId} {pool : Pool} (there : s.pools p = some pool) :
    s.idle p ≤ pool.threads.length := by
  rw [← hired.hired p pool there]
  exact total_mono (Worker.idles_le_serves p) s.workers

def Creates (_ : World) : Action → Prop
  | .call _ choice => maxThreads ≤ choice.creations
  | _ => True

instance (s : World) : (action : Action) → Decidable (s.Creates action)
  | .begin _ => inferInstanceAs (Decidable True)
  | .call _ choice => inferInstanceAs (Decidable (maxThreads ≤ choice.creations))
  | .worker _ => inferInstanceAs (Decidable True)

instance enqueueDecidable (found : Option Call) (holds : PoolId → Prop)
    [∀ p, Decidable (holds p)] :
    Decidable (match found with
      | some (.pushEnqueue p _) => holds p
      | _ => True) := by
  split <;> infer_instance

def Staffs (s : World) : Action → Prop
  | .call i choice =>
      match s.calls[i]? with
      | some (.pushEnqueue p _) => ∀ next ∈ s.step (.call i choice), next.Staffed p
      | _ => True
  | _ => True

instance (s : World) : (action : Action) → Decidable (s.Staffs action)
  | .begin _ => inferInstanceAs (Decidable True)
  | .call i choice =>
      enqueueDecidable s.calls[i]? fun p => ∀ next ∈ s.step (.call i choice), next.Staffed p
  | .worker _ => inferInstanceAs (Decidable True)

-- When a push puts its task into the queue, no worker of the pool is busy, or the idle ones are
-- enough, or the threads and the queued tasks are too many for a further thread anyway.
def Spare (s : World) : Action → Prop
  | .call i _ =>
      match s.calls[i]? with
      | some (.pushEnqueue p _) => ∀ pool ∈ s.pools p,
          s.idle p = pool.threads.length ∨ pool.queue.length + 1 ≤ s.idle p ∨
            pool.maxThreads ≤ pool.threads.length ∨ pool.maxThreads ≤ pool.queue.length + 1
      | _ => True
  | _ => True

instance (s : World) : (action : Action) → Decidable (s.Spare action)
  | .begin _ => inferInstanceAs (Decidable True)
  | .call i _ =>
      enqueueDecidable s.calls[i]? fun p => ∀ pool ∈ s.pools p,
        s.idle p = pool.threads.length ∨ pool.queue.length + 1 ≤ s.idle p ∨
          pool.maxThreads ≤ pool.threads.length ∨ pool.maxThreads ≤ pool.queue.length + 1
  | .worker _ => inferInstanceAs (Decidable True)

theorem Hired.enqueued (hired : s.Hired) {p : PoolId} {t : TaskId} {creations : Nat}
    {pool pool' : Pool} {workers : List Worker} (there : s.pools p = some pool)
    (started : startThreads p creations { pool with queue := pool.queue ++ [t] } s.workers =
      (pool', workers)) :
    ∃ k, pool'.threads.length = pool.threads.length + k ∧
      pool'.queue.length = pool.queue.length + 1 ∧ pool'.maxThreads = pool.maxThreads ∧
      workers = s.workers ++ List.replicate k { pool := p, pc := .waiting } ∧
      (pool'.threads.length : Int) ≤ pool.maxThreads ∧
      pool'.threads.length ≤ max pool.threads.length (pool.queue.length + 1) ∧
      (maxThreads ≤ creations → pool.maxThreads ≤ pool'.threads.length ∨
        pool.queue.length + 1 ≤ pool'.threads.length) := by
  obtain ⟨limit, atMost⟩ := hired.limit p pool there
  have within := @startThreads_limit p creations { pool with queue := pool.queue ++ [t] }
    s.workers limit
  have needed := @startThreads_needed p creations { pool with queue := pool.queue ++ [t] } s.workers
  have stops := @startThreads_stops p creations { pool with queue := pool.queue ++ [t] } s.workers
  obtain ⟨k, same⟩ := startThreads_eq p creations { pool with queue := pool.queue ++ [t] } s.workers
  rw [started] at same within needed stops
  cases same
  simp only [List.length_append, List.length_singleton] at needed stops
  refine ⟨k, by simp, by simp, rfl, rfl, within, ?_, fun enough => ?_⟩
  · rw [List.length_append]
    exact needed
  · rw [List.length_append]
    exact stops (by omega)

theorem idle_hired (p : PoolId) (k : Nat) (workers : List Worker) (p' : PoolId) :
    total (Worker.idles p') (workers ++ List.replicate k { pool := p, pc := .waiting }) =
        total (Worker.idles p') workers + (if p = p' then k else 0) ∧
      total (Worker.serves p') (workers ++ List.replicate k { pool := p, pc := .waiting }) =
        total (Worker.serves p') workers + (if p = p' then k else 0) := by
  induction k with
  | zero => simp
  | succ k ih =>
      obtain ⟨idles, serves⟩ := ih
      rw [total_append] at idles serves ⊢
      rw [total_append, List.replicate_succ, total_cons, total_cons]
      simp only [Worker.idles, Worker.serves]
      constructor <;> split <;> simp_all <;> omega

theorem WorkerStepped.staff {worker : Worker} {w : World} {pc : WorkerPc}
    (stepped : s.WorkerStepped worker w pc) {p : PoolId} {pool' : Pool}
    (there : w.pools p = some pool') :
    ∃ pool, s.pools p = some pool ∧ pool'.threads = pool.threads ∧
      pool'.maxThreads = pool.maxThreads ∧ (pool'.queue = [] ∨
        pool'.queue.length + worker.idles p ≤
          pool.queue.length + ({ worker with pc := pc } : Worker).idles p) := by
  cases stepped with
  | waits pool atPc found empty goesOn =>
      exact ⟨pool', there, rfl, rfl, Or.inr (by simp [Worker.idles, atPc])⟩
  | exits pool atPc found empty stopping =>
      refine ⟨pool', there, rfl, rfl, ?_⟩
      by_cases mine : worker.pool = p
      · subst mine
        rw [found, Option.some_inj] at there
        exact Or.inl (there ▸ empty)
      · exact Or.inr (by simp [Worker.idles, atPc, mine])
  | takes pool t rest atPc found queue =>
      rw [setPool_pools] at there
      split at there
      · next here =>
          cases there
          subst here
          exact ⟨pool, found, rfl, rfl, Or.inr (by simp [Worker.idles, atPc, queue])⟩
      · next other =>
          exact ⟨pool', there, rfl, rfl, Or.inr (by simp [Worker.idles, atPc, Ne.symm other])⟩
  | starts t task atPc found =>
      exact ⟨pool', there, rfl, rfl, Or.inr (by simp [Worker.idles, atPc])⟩
  | ends t atPc => exact ⟨pool', there, rfl, rfl, Or.inr (by simp [Worker.idles, atPc])⟩
  | finishes t task atPc found =>
      exact ⟨pool', there, rfl, rfl, Or.inr (by simp [Worker.idles, atPc])⟩
  | deletes t task q pool atPc found found' =>
      rw [setPool_pools] at there
      split at there
      · next here =>
          cases there
          subst here
          exact ⟨pool, found', rfl, rfl, Or.inr (by simp [Worker.idles, atPc])⟩
      · exact ⟨pool', there, rfl, rfl, Or.inr (by simp [Worker.idles, atPc])⟩

theorem WorkerStepped.poolsMade {worker : Worker} {w : World} {pc : WorkerPc}
    (stepped : s.WorkerStepped worker w pc) :
    w.workers = s.workers ∧ w.poolsMade = s.poolsMade := by
  cases stepped <;> exact ⟨rfl, rfl⟩

inductive Restaffed (s next : World) (p : PoolId) (pool' : Pool) : Prop where
  | made (fresh : s.poolsMade = p) (before : p < next.poolsMade) (threads : pool'.threads = [])
      (queue : pool'.queue = []) (limit : 0 < pool'.maxThreads ∧ pool'.maxThreads ≤ maxThreads)
  | stays (pool : Pool) (there : s.pools p = some pool) (threads : pool'.threads = pool.threads)
      (limit : pool'.maxThreads = pool.maxThreads)
      (queue : pool'.queue = [] ∨ pool'.queue.length + s.idle p ≤ pool.queue.length + next.idle p)

structure Keeps (s next : World) : Prop where
  poolsMade : s.poolsMade ≤ next.poolsMade
  serves : ∀ p, total (Worker.serves p) next.workers = total (Worker.serves p) s.workers
  pools : ∀ p pool', next.pools p = some pool' → s.Restaffed next p pool'

structure Enqueued (s next : World) (p : PoolId) (t : TaskId) (creations : Nat) (pool pool' : Pool) :
    Prop where
  there : s.pools p = some pool
  started : startThreads p creations { pool with queue := pool.queue ++ [t] } s.workers =
    (pool', next.workers)
  pools : next.pools = Function.update s.pools p (some pool')
  poolsMade : next.poolsMade = s.poolsMade

theorem keeps_begin (op : Op) (calls : List Call) : s.Keeps ((s.begin op).1.withCalls calls) := by
  obtain ⟨-, same | ⟨threadCount, positive, limit, same⟩ | same⟩ := begin_effect s op
  · rw [same]
    exact ⟨Nat.le_refl _, fun _ => rfl, fun p pool' there =>
      .stays pool' there rfl rfl (Or.inr (Nat.le_refl _))⟩
  · rw [same]
    refine ⟨Nat.le_succ _, fun _ => rfl, fun p pool' there => ?_⟩
    change (s.setPool s.poolsMade _).pools p = some pool' at there
    rw [setPool_pools] at there
    split at there
    · next here =>
        cases there
        exact .made here.symm (Nat.lt_succ_of_le (Nat.le_of_eq here)) rfl rfl ⟨positive, limit⟩
    · exact .stays pool' there rfl rfl (Or.inr (Nat.le_refl _))
  · rw [same]
    exact ⟨Nat.le_refl _, fun _ => rfl, fun p pool' there =>
      .stays pool' there rfl rfl (Or.inr (Nat.le_refl _))⟩

theorem Passive.keeps {c c' : Call} {w : World} (passive : s.Passive c w c') (i : Nat) :
    s.Keeps (w.setCall i c') where
  poolsMade := Nat.le_of_eq passive.made.1.symm
  serves p := by
    change total (Worker.serves p) w.workers = _
    rw [passive.workers]
  pools p pool' there := by
    obtain ⟨pool, before, threads, queue, limit⟩ := passive.pools p pool' there
    refine .stays pool before threads limit (Or.inr ?_)
    change pool'.queue.length + s.idle p ≤ _ + total (Worker.idles p) w.workers
    rw [passive.workers, queue]
    exact Nat.le_refl _

theorem WorkerStepped.keeps {i : WorkerId} {worker : Worker} {w : World} {pc : WorkerPc}
    (there : s.workers[i]? = some worker) (stepped : s.WorkerStepped worker w pc) :
    s.Keeps (w.setWorker i { worker with pc := pc }) := by
  obtain ⟨workers, made⟩ := stepped.poolsMade
  have same : (w.setWorker i { worker with pc := pc }).workers =
      s.workers.set i { worker with pc := pc } :=
    congrArg (fun list => list.set i { worker with pc := pc }) workers
  refine ⟨Nat.le_of_eq made.symm, fun p => ?_, fun p pool' there' => ?_⟩
  · have shift := (total_set (Worker.serves p) there { worker with pc := pc }).moved
    rw [same]
    simp only [Worker.serves] at shift ⊢
    omega
  · obtain ⟨pool, before, threads, limit, queue⟩ := stepped.staff there'
    refine .stays pool before threads limit (queue.imp_right fun shrinks => ?_)
    have shift := total_set (Worker.idles p) there { worker with pc := pc }
    have moved := shift.moved
    have part := shift.part
    rw [idle, idle, same]
    omega

theorem step_staff {action : Action} {next : World} (taken : s.step action = some next) :
    (∃ i choice p t pool pool', action = .call i choice ∧ s.calls[i]? = some (.pushEnqueue p t) ∧
      s.Enqueued next p t choice.creations pool pool') ∨
    ((∀ i choice p t, action = .call i choice → s.calls[i]? ≠ some (.pushEnqueue p t)) ∧
      s.Keeps next) := by
  cases action with
  | begin op =>
      cases taken
      exact Or.inr ⟨by simp, keeps_begin op _⟩
  | call i choice =>
      obtain ⟨c, w, c', at_i, stepped, rfl⟩ := step_called taken
      rcases (callStep_stepped stepped).effect with
        ⟨p, t, task, rfl, rfl, there, -, rfl⟩ | ⟨p, t, -, -, -, -, rfl, -⟩ | passive
      · refine Or.inr ⟨fun i' choice' p' t' same => ?_, Nat.le_refl _, fun _ => rfl,
          fun p' pool' there' => .stays pool' there' rfl rfl (Or.inr (Nat.le_refl _))⟩
        cases same
        rw [at_i]
        simp
      · rw [callStep, World.pushEnqueue, Option.map_eq_some_iff] at stepped
        obtain ⟨pool, there, same⟩ := stepped
        cases same
        exact Or.inl ⟨i, choice, p, t, pool, _, rfl, at_i, there, rfl, rfl, rfl⟩
      · refine Or.inr ⟨fun i' choice' p' t' same => ?_, passive.keeps i⟩
        cases same
        rw [at_i, ne_eq, Option.some_inj]
        exact (passive.enqueues p' t').1
  | worker i =>
      obtain ⟨worker, w, pc, at_i, stepped, rfl⟩ := step_worked taken
      exact Or.inr ⟨by simp, (workerStep_stepped stepped).keeps at_i⟩

theorem hired_init : init.Hired := by
  refine ⟨fun p pool there => ?_, fun p pool there => ?_, fun p _ => ⟨rfl, rfl⟩⟩ <;> cases there

theorem Hired.step (hired : s.Hired) {action : Action} {next : World}
    (taken : s.step action = some next) : next.Hired := by
  rcases step_staff taken with
    ⟨i, choice, p, t, pool, pool', rfl, at_i, enqueued⟩ | ⟨-, keeps⟩
  · obtain ⟨k, threads, -, limit, workers, within, -, -⟩ :=
      hired.enqueued enqueued.there enqueued.started
    have others : ∀ p' ≠ p, total (Worker.serves p') next.workers =
        total (Worker.serves p') s.workers := by
      intro p' other
      rw [workers, (idle_hired p k s.workers p').2, if_neg (Ne.symm other), Nat.add_zero]
    refine ⟨fun p' found there => ?_, fun p' found there => ?_, fun p' made => ?_⟩
    · rw [enqueued.pools, Function.update_apply] at there
      split at there
      · next here =>
          cases there
          subst here
          rw [workers, (idle_hired p' k s.workers p').2, if_pos rfl, threads,
            hired.hired p' pool enqueued.there]
      · next other => rw [others p' other, hired.hired p' found there]
    · rw [enqueued.pools, Function.update_apply] at there
      split at there
      · cases there
        rw [limit]
        exact ⟨within, (hired.limit p pool enqueued.there).2⟩
      · exact hired.limit p' found there
    · rw [enqueued.poolsMade] at made
      obtain ⟨none, nobody⟩ := hired.fresh p' made
      have other : p' ≠ p := by
        rintro rfl
        rw [enqueued.there] at none
        cases none
      rw [enqueued.pools, Function.update_of_ne other, others p' other]
      exact ⟨none, nobody⟩
  · refine ⟨fun p pool' there => ?_, fun p pool' there => ?_, fun p made => ?_⟩
    · rw [keeps.serves]
      cases keeps.pools p pool' there with
      | made fresh before threads =>
          rw [threads, (hired.fresh p (Nat.le_of_eq fresh)).2]
          rfl
      | stays pool before threads => rw [threads, hired.hired p pool before]
    · cases keeps.pools p pool' there with
      | made fresh before threads queue limit =>
          rw [threads]
          exact ⟨Int.le_of_lt limit.1, limit.2⟩
      | stays pool before threads limit =>
          rw [threads, limit]
          exact hired.limit p pool before
    · obtain ⟨none, nobody⟩ := hired.fresh p (Nat.le_trans keeps.poolsMade made)
      refine ⟨?_, (keeps.serves p).trans nobody⟩
      cases there : next.pools p with
      | none => rfl
      | some pool' =>
          cases keeps.pools p pool' there with
          | made fresh before => exact absurd made (Nat.not_le.mpr before)
          | stays pool before =>
              rw [none] at before
              cases before

theorem Hired.spare_iff (hired : s.Hired) {next : World} {p : PoolId} {t : TaskId}
    {creations : Nat} {pool pool' : Pool} (enqueued : s.Enqueued next p t creations pool pool')
    (creates : maxThreads ≤ creations) :
    next.Staffed p ↔ s.idle p = pool.threads.length ∨ pool.queue.length + 1 ≤ s.idle p ∨
      pool.maxThreads ≤ pool.threads.length ∨ pool.maxThreads ≤ pool.queue.length + 1 := by
  obtain ⟨k, threads, queue, limit, workers, within, needed, stops⟩ :=
    hired.enqueued enqueued.there enqueued.started
  have stopped := stops creates
  have atMost := hired.idle_le enqueued.there
  have idle : next.idle p = s.idle p + k := by
    rw [World.idle, workers, (idle_hired p k s.workers p).1, if_pos rfl]
    rfl
  have staffed : next.Staffed p ↔
      (pool'.threads.length : Int) = pool'.maxThreads ∨ pool'.queue.length ≤ next.idle p := by
    rw [Staffed, enqueued.pools, Function.update_self]
    simp
  rw [staffed, idle, threads, queue, limit]
  rw [threads] at within needed stopped
  constructor
  · rintro (full | enough) <;> omega
  · rintro (free | enough | full | many) <;> omega

theorem staffs_iff_spare (hired : s.Hired) {action : Action} {next : World}
    (creates : s.Creates action) (taken : s.step action = some next) :
    s.Staffs action ↔ s.Spare action := by
  rcases step_staff taken with
    ⟨i, choice, p, t, pool, pool', rfl, at_i, enqueued⟩ | ⟨other, -⟩
  · have push := hired.spare_iff enqueued creates
    simp only [Staffs, Spare, at_i, taken, enqueued.there, Option.mem_some_iff, forall_eq']
    exact push
  · cases action with
    | begin op => exact Iff.rfl
    | worker i => exact Iff.rfl
    | call i choice =>
        have none := other i choice
        simp only [Staffs, Spare]
        split
        · next p t at_i => exact absurd at_i (none p t rfl)
        · exact Iff.rfl

theorem Hired.staffed_step (hired : s.Hired) {action : Action} {next : World}
    (staffed : ∀ p, s.Staffed p) (creates : s.Creates action) (spare : s.Spare action)
    (taken : s.step action = some next) (p : PoolId) : next.Staffed p := by
  rcases step_staff taken with
    ⟨i, choice, q, t, pool, pool', rfl, at_i, enqueued⟩ | ⟨-, keeps⟩
  · by_cases here : p = q
    · subst here
      have staffs := (staffs_iff_spare hired creates taken).mpr spare
      simp only [Staffs, at_i] at staffs
      exact staffs next taken
    · obtain ⟨k, -, -, -, workers, -⟩ := hired.enqueued enqueued.there enqueued.started
      have idle : next.idle p = s.idle p := by
        rw [World.idle, workers, (idle_hired q k s.workers p).1, if_neg (Ne.symm here)]
        rfl
      rw [Staffed, enqueued.pools, Function.update_of_ne here, idle]
      exact staffed p
  · intro pool' there
    cases keeps.pools p pool' there with
    | made fresh before threads queue => exact Or.inr (by simp [queue])
    | stays pool before threads limit queue =>
        rcases queue with empty | shrinks
        · exact Or.inr (by simp [empty])
        · rw [threads, limit]
          exact (staffed p pool before).imp_right fun enough => by omega

theorem staffed_iff {actions : List Action} (creates : Run.EachStep step Creates init actions) :
    (Run.EachStep step Staffs init actions ↔ Run.EachStep step Spare init actions) ∧
      (Run.EachStep step Spare init actions →
        Run.Along step (fun s => ∀ p, s.Staffed p) init actions) := by
  constructor
  · exact Run.eachStep_iff (fun s action next (hired : s.Hired) taken => hired.step taken)
      (fun s action next hired creates taken => staffs_iff_spare hired creates taken)
      hired_init creates
  · intro spare
    have kept : Run.Along step (fun s => s.Hired ∧ ∀ p, s.Staffed p) init actions := by
      refine Run.along_of_eachStep (fun s action next holds met taken => ?_) ⟨hired_init, ?_⟩
        (Run.eachStep_and.mpr ⟨creates, spare⟩)
      · exact ⟨holds.1.step taken, holds.1.staffed_step holds.2 met.1 met.2 taken⟩
      · intro p pool there
        cases there
    exact kept.mono fun s holds => holds.2

def threadChoice : Choice := { spurious := false, timedOut := false, creations := 20 }

def pushOf (t : TaskId) (i : Nat) : List Action :=
  [.begin (.push (some 0) (some t)), .call i threadChoice, .call i threadChoice,
    .call i threadChoice, .call i threadChoice]

def twoPushes : List Action :=
  [.begin (.poolNew 2 true), .begin (.taskNew true), .begin (.taskNew true)] ++ pushOf 0 3 ++
    pushOf 1 4 ++ [.worker 0]

def pushWhileBusy : List Action :=
  [.begin (.poolNew 2 true), .begin (.taskNew true), .begin (.taskNew true)] ++ pushOf 0 3 ++
    [.worker 0] ++ pushOf 1 4

theorem staffed_twoPushes : Run.EachStep step Staffs init twoPushes ∧
    ((Run.exec step init twoPushes).bind (·.pools 0)).map (·.threads) = some [0, 1] :=
  ⟨(staffed_iff (by decide)).1.mpr (by decide), by decide⟩

theorem unstaffed_pushWhileBusy : ¬ ∀ actions : List Action,
    Run.EachStep step Creates init actions → Run.EachStep step Staffs init actions := by
  intro all
  exact absurd (all pushWhileBusy (by decide)) (by decide)

end World

end SystemProg.ThreadPool
