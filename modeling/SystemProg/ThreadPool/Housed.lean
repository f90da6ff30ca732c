import SystemProg.ThreadPool.Counts
import SystemProg.ThreadPool.Effects

set_option autoImplicit false

-- A pool is there as long as a call is about it or one of its threads has not returned, and it is
-- stopped only by the call that deletes it.

namespace SystemProg.ThreadPool

def Call.awaits (p : PoolId) : Call → Nat
  | .poolJoin p' => if p' = p then 1 else 0
  | _ => 0

-- The call goes on to no more than it was up to, unless that is to stop a pool.
def Call.Lighter (c c' : Call) : Prop :=
  ∀ p, c'.pushes p ≤ c.pushes p ∧ c'.closes p ≤ c.closes p ∧ c.drains p ≤ c'.drains p ∧
    c'.awaits p ≤ c.awaits p

theorem lighter_join {c c' : Call} {t : TaskId}
    (joining : (c = .join t ∨ c = .joinWait t) ∨ c = .timedJoin t ∨ c = .timedWait t)
    (next : c' = .joinWait t ∨ c' = .timedWait t ∨ (∃ p, c' = .joinRelease t p) ∨
      ∃ op result, c' = .returned op result) : c.Lighter c' := by
  intro p
  rcases joining with (rfl | rfl) | rfl | rfl <;>
    rcases next with rfl | rfl | ⟨p', rfl⟩ | ⟨op, result, rfl⟩ <;>
    exact ⟨Nat.le_refl _, Nat.le_refl _, Nat.le_refl _, Nat.le_refl _⟩

namespace World

-- A call is made on a pool while that is there, and no two calls delete one pool.
def Grounded (s : World) : Action → Prop
  | .begin (.push (some p) (some _)) => (s.pools p).isSome
  | .begin (.poolDelete (some p)) => (s.pools p).isSome ∧ total (Call.closes p) s.calls = 0
  | _ => True

instance (s : World) : (action : Action) → Decidable (s.Grounded action)
  | .begin (.push (some p) (some _)) => inferInstanceAs (Decidable ((s.pools p).isSome = true))
  | .begin (.poolDelete (some p)) =>
      inferInstanceAs (Decidable ((s.pools p).isSome = true ∧ total (Call.closes p) s.calls = 0))
  | .begin (.push none _) | .begin (.push (some _) none) | .begin (.poolDelete none)
  | .begin (.poolNew ..) | .begin (.taskNew _) | .begin (.isFinished _) | .begin (.isRunning _)
  | .begin (.join _) | .begin (.timedJoin _) | .begin (.taskDelete _) | .begin (.detach _)
  | .call .. | .worker _ => inferInstanceAs (Decidable True)

structure Housed (s : World) : Prop where
  used : ∀ p, 0 < total (Call.pushes p) s.calls + total (Call.closes p) s.calls →
    s.pools p ≠ none
  single : ∀ p, total (Call.closes p) s.calls ≤ 1
  known : ∀ worker ∈ s.workers, worker.pool < s.poolsMade
  employed : ∀ (i : Nat) worker, s.workers[i]? = some worker → worker.pc ≠ .exited →
    ∃ pool, s.pools worker.pool = some pool ∧ i ∈ pool.threads
  exited : ∀ worker ∈ s.workers, worker.pc = .exited → ∀ pool, s.pools worker.pool = some pool →
    pool.stopping = true
  threads : ∀ p pool, s.pools p = some pool → ∀ i ∈ pool.threads, ∃ worker,
    s.workers[i]? = some worker ∧ worker.pool = p
  stopped : ∀ p pool, s.pools p = some pool → pool.stopping = true →
    0 < total (Call.drains p) s.calls
  stops : ∀ p pool, s.pools p = some pool → 0 < total (Call.awaits p) s.calls →
    pool.stopping = true

variable {s w : World}

theorem housed_init : init.Housed := by
  constructor <;> simp [init]

structure Retains (s w : World) : Prop where
  back : ∀ p pool', w.pools p = some pool' → ∃ pool, s.pools p = some pool ∧
    pool'.threads = pool.threads ∧ pool'.stopping = pool.stopping ∧
      (pool'.queue ≠ [] → pool.queue ≠ []) ∧ pool'.maxThreads = pool.maxThreads
  stays : ∀ p, w.pools p = none → s.pools p = none
  made : w.poolsMade = s.poolsMade

theorem retains_same (pools : w.pools = s.pools) (made : w.poolsMade = s.poolsMade) :
    s.Retains w where
  back _ pool' there := ⟨pool', pools ▸ there, rfl, rfl, id, rfl⟩
  stays _ gone := pools ▸ gone
  made := made

theorem retains_setPool {p : PoolId} {pool : Pool} (there : s.pools p = some pool) (pool' : Pool)
    (threads : pool'.threads = pool.threads) (stopping : pool'.stopping = pool.stopping)
    (queue : pool'.queue ≠ [] → pool.queue ≠ []) (limit : pool'.maxThreads = pool.maxThreads)
    (pools : w.pools = (s.setPool p (some pool')).pools) (made : w.poolsMade = s.poolsMade) :
    s.Retains w where
  back p' found there' := by
    rw [pools, setPool_pools] at there'
    split at there'
    · next same =>
        cases there'
        exact ⟨pool, same ▸ there, threads, stopping, queue, limit⟩
    · exact ⟨found, there', rfl, rfl, id, rfl⟩
  stays p' gone := by
    rw [pools, setPool_pools] at gone
    split at gone
    · cases gone
    · exact gone
  made := made

theorem retains_count {p : PoolId} {pool : Pool} (there : s.pools p = some pool) (count : Int)
    (pools : w.pools = (s.setPool p (some { pool with taskCount := count })).pools)
    (made : w.poolsMade = s.poolsMade) : s.Retains w :=
  retains_setPool there { pool with taskCount := count } rfl rfl id rfl pools made

theorem Retains.forth (retains : s.Retains w) {p : PoolId} {pool : Pool}
    (there : s.pools p = some pool) :
    ∃ pool', w.pools p = some pool' ∧ pool'.threads = pool.threads ∧
      pool'.stopping = pool.stopping := by
  cases found : w.pools p with
  | none =>
      rw [retains.stays p found] at there
      cases there
  | some pool' =>
      obtain ⟨old, there', threads, stopping, -⟩ := retains.back p pool' found
      rw [there] at there'
      cases there'
      exact ⟨pool', rfl, threads, stopping⟩

theorem Housed.moves (housed : s.Housed) {c c' : Call} {calls' : List Call}
    (moves : Moves c c' s.calls calls') (retains : s.Retains w) (workers : w.workers = s.workers)
    (used : ∀ p, 0 < c'.pushes p + c'.closes p →
      0 < c.pushes p + c.closes p ∨ s.pools p ≠ none)
    (single : ∀ p, c'.closes p ≤ c.closes p ∨ total (Call.closes p) s.calls = 0)
    (drains : ∀ p, c.drains p ≤ c'.drains p) (awaits : ∀ p, c'.awaits p ≤ c.awaits p) :
    (w.withCalls calls').Housed where
  used p := by
    intro positive
    have pushes := moves (Call.pushes p) fun _ _ => rfl
    have closes := moves (Call.closes p) fun _ _ => rfl
    have here := used p
    change 0 < total (Call.pushes p) calls' + total (Call.closes p) calls' at positive
    intro gone
    have gone' := retains.stays p gone
    by_cases before : 0 < total (Call.pushes p) s.calls + total (Call.closes p) s.calls
    · exact housed.used p before gone'
    · have part := pushes.part
      have part' := closes.part
      have moved := pushes.moved
      have moved' := closes.moved
      rcases here (by omega) with more | there
      · omega
      · exact there gone'
  single p := by
    have closes := moves (Call.closes p) fun _ _ => rfl
    have moved := closes.moved
    have part := closes.part
    have before := housed.single p
    have own : c'.closes p ≤ 1 := by
      cases c' <;> simp only [Call.closes] <;> first | omega | (split <;> omega)
    change total (Call.closes p) calls' ≤ 1
    rcases single p with less | none <;> omega
  known worker mem := by
    rw [show (w.withCalls calls').poolsMade = s.poolsMade from retains.made]
    exact housed.known worker (workers ▸ mem)
  employed i worker there working := by
    change w.workers[i]? = some worker at there
    rw [workers] at there
    obtain ⟨pool, found, mem⟩ := housed.employed i worker there working
    obtain ⟨pool', found', threads, -⟩ := retains.forth found
    exact ⟨pool', found', threads ▸ mem⟩
  exited worker mem gone pool' found' := by
    obtain ⟨pool, found, -, stopping, -⟩ := retains.back _ _ found'
    rw [stopping]
    exact housed.exited worker (workers ▸ mem) gone pool found
  threads p pool' found' i mem := by
    obtain ⟨pool, found, threads, -⟩ := retains.back p pool' found'
    change ∃ worker, w.workers[i]? = some worker ∧ worker.pool = p
    rw [workers]
    exact housed.threads p pool found i (threads ▸ mem)
  stopped p pool' found' stopping' := by
    obtain ⟨pool, found, -, stopping, -⟩ := retains.back p pool' found'
    have before := housed.stopped p pool found (stopping ▸ stopping')
    have moved := (moves (Call.drains p) fun _ _ => rfl).moved
    have more := drains p
    change 0 < total (Call.drains p) calls'
    omega
  stops p pool' found' waiting := by
    obtain ⟨pool, found, -, stopping, -⟩ := retains.back p pool' found'
    have shift := moves (Call.awaits p) fun _ _ => rfl
    have moved := shift.moved
    have less := awaits p
    change 0 < total (Call.awaits p) calls' at waiting
    rw [stopping]
    exact housed.stops p pool found (by omega)

theorem Housed.works (housed : s.Housed) {i : WorkerId} {worker : Worker}
    (there : s.workers[i]? = some worker) (working : worker.pc ≠ .exited) (retains : s.Retains w)
    (workers : w.workers = s.workers) (calls : w.calls = s.calls) (pc : WorkerPc)
    (exits : pc = .exited → ∀ pool, s.pools worker.pool = some pool → pool.stopping = true) :
    (w.setWorker i { worker with pc := pc }).Housed := by
  have same : (w.setWorker i { worker with pc := pc }).workers =
      s.workers.set i { worker with pc := pc } :=
    congrArg (fun list => list.set i { worker with pc := pc }) workers
  have calls' : (w.setWorker i { worker with pc := pc }).calls = s.calls := calls
  have lookup (j : Nat) : (w.setWorker i { worker with pc := pc }).workers[j]? =
      if j = i then some { worker with pc := pc } else s.workers[j]? := by
    rw [same, List.getElem?_set]
    have within := (List.getElem?_eq_some_iff.mp there).1
    by_cases at_i : i = j
    · rw [if_pos at_i, if_pos within, if_pos at_i.symm]
    · rw [if_neg at_i, if_neg (Ne.symm at_i)]
  have members {other : Worker} (mem : other ∈ (w.setWorker i { worker with pc := pc }).workers) :
      other ∈ s.workers ∨ other = { worker with pc := pc } := by
    rw [same] at mem
    exact List.mem_or_eq_of_mem_set mem
  constructor
  · rw [calls']
    exact fun p positive gone => housed.used p positive (retains.stays p gone)
  · rw [calls']
    exact housed.single
  · intro other mem
    rw [show (w.setWorker i { worker with pc := pc }).poolsMade = s.poolsMade from retains.made]
    rcases members mem with mem | rfl
    · exact housed.known other mem
    · exact housed.known worker (List.mem_of_getElem? there)
  · intro j other there' working'
    rw [lookup] at there'
    have held : ∃ pool, s.pools other.pool = some pool ∧ j ∈ pool.threads := by
      split at there'
      · next at_i =>
          cases there'
          exact housed.employed j worker (at_i ▸ there) working
      · exact housed.employed j other there' working'
    obtain ⟨pool, found, mem⟩ := held
    obtain ⟨pool', found', threads, -⟩ := retains.forth found
    exact ⟨pool', found', threads ▸ mem⟩
  · intro other mem gone pool' found'
    obtain ⟨pool, found, -, stopping, -⟩ := retains.back _ _ found'
    rw [stopping]
    rcases members mem with mem | rfl
    · exact housed.exited other mem gone pool found
    · exact exits gone pool found
  · intro p pool' found' j mem
    obtain ⟨pool, found, threads, -⟩ := retains.back p pool' found'
    obtain ⟨other, there', home⟩ := housed.threads p pool found j (threads ▸ mem)
    rw [lookup]
    split
    · next at_i =>
        rw [at_i, there] at there'
        cases there'
        exact ⟨_, rfl, home⟩
    · exact ⟨other, there', home⟩
  · rw [calls']
    intro p pool' found' stopping'
    obtain ⟨pool, found, -, stopping, -⟩ := retains.back p pool' found'
    exact housed.stopped p pool found (stopping ▸ stopping')
  · rw [calls']
    intro p pool' found' waiting
    obtain ⟨pool, found, -, stopping, -⟩ := retains.back p pool' found'
    rw [stopping]
    exact housed.stops p pool found waiting

theorem awaits_le_closes (p : PoolId) (calls : List Call) :
    total (Call.awaits p) calls ≤ total (Call.closes p) calls :=
  total_mono (fun c => by cases c <;> simp [Call.awaits, Call.closes]) calls

theorem Housed.madePool (housed : s.Housed) (fresh : ∀ p, s.poolsMade ≤ p → s.pools p = none)
    (threadCount : Int) : (s.makePool threadCount).Housed := by
  have lookup (p : PoolId) : (s.makePool threadCount).pools p = if p = s.poolsMade then some
      { threads := [], queue := [], maxThreads := threadCount, taskCount := 0, stopping := false }
      else s.pools p :=
    setPool_pools s _ _ p
  have old {p : PoolId} (there : s.pools p ≠ none) : p ≠ s.poolsMade := by
    rintro rfl
    exact there (fresh _ (Nat.le_refl _))
  have found {p : PoolId} {pool : Pool} (there : (s.makePool threadCount).pools p = some pool) :
      (pool.threads = [] ∧ pool.stopping = false ∧ p = s.poolsMade) ∨ s.pools p = some pool := by
    rw [lookup] at there
    split at there
    · next here =>
        cases there
        exact Or.inl ⟨rfl, rfl, here⟩
    · exact Or.inr there
  constructor
  · intro p positive
    have there := housed.used p positive
    rw [lookup, if_neg (old there)]
    exact there
  · exact housed.single
  · exact fun worker mem => Nat.lt_succ_of_lt (housed.known worker mem)
  · intro i worker there working
    obtain ⟨pool, found, mem⟩ := housed.employed i worker there working
    refine ⟨pool, ?_, mem⟩
    rw [lookup, if_neg (old (by simp [found]))]
    exact found
  · intro worker mem gone pool there
    rcases found there with ⟨-, -, here⟩ | there
    · exact absurd (housed.known worker mem) (Nat.not_lt.mpr (Nat.le_of_eq here.symm))
    · exact housed.exited worker mem gone pool there
  · intro p pool there i mem
    rcases found there with ⟨none, -⟩ | there
    · rw [none] at mem
      cases mem
    · exact housed.threads p pool there i mem
  · intro p pool there stopping
    rcases found there with ⟨-, goes, -⟩ | there
    · rw [goes] at stopping
      cases stopping
    · exact housed.stopped p pool there stopping
  · intro p pool there waiting
    rcases found there with ⟨-, -, here⟩ | there
    · have less := awaits_le_closes p s.calls
      have positive : 0 < total (Call.awaits p) s.calls := waiting
      exact absurd here (old (housed.used p (by omega)))
    · exact housed.stops p pool there waiting

theorem Housed.enqueues (housed : s.Housed) (fresh : ∀ p, s.poolsMade ≤ p → s.pools p = none)
    {p : PoolId} {t : TaskId} {creations : Nat} {pool pool' : Pool} {workers : List Worker}
    (there : s.pools p = some pool)
    (started : startThreads p creations { pool with queue := pool.queue ++ [t] } s.workers =
      (pool', workers)) {i : Nat} (at_i : s.calls[i]? = some (.pushEnqueue p t)) (op : Op)
    (result : Result) :
    (({ s.setPool p (some pool') with workers := workers } : World).setCall i
      (.returned op result)).Housed := by
  obtain ⟨k, same⟩ := startThreads_eq p creations { pool with queue := pool.queue ++ [t] } s.workers
  rw [started] at same
  cases same
  -- First the call returns, and then the pool changes.
  have returned : (s.setCall i (.returned op result)).Housed :=
    housed.moves (moves_set at_i _) (retains_same rfl rfl) rfl (fun _ => by simp [Call.pushes,
      Call.closes]) (fun _ => Or.inl (by simp [Call.closes])) (fun _ => by simp [Call.drains])
      fun _ => by simp [Call.awaits]
  have lookup (p' : PoolId) := setPool_pools s p (some { pool with
    queue := pool.queue ++ [t], threads := pool.threads ++ List.range' s.workers.length k }) p'
  have members {worker : Worker}
      (mem : worker ∈ s.workers ++ List.replicate k { pool := p, pc := .waiting }) :
      worker ∈ s.workers ∨ worker = { pool := p, pc := .waiting } :=
    (List.mem_append.mp mem).imp_right List.eq_of_mem_replicate
  constructor
  · intro p' positive
    change (s.setPool p _).pools p' ≠ none
    rw [lookup]
    split
    · simp
    · exact returned.used p' positive
  · exact returned.single
  · intro worker mem
    rcases members mem with mem | rfl
    · exact housed.known worker mem
    · exact made_of_fresh fresh there
  · intro j worker at_j working
    change ∃ pool', (s.setPool p _).pools worker.pool = some pool' ∧ _
    rw [lookup]
    change (s.workers ++ List.replicate k { pool := p, pc := .waiting })[j]? = some worker at at_j
    rw [List.getElem?_append] at at_j
    split at at_j
    · obtain ⟨old, found, mem⟩ := housed.employed j worker at_j working
      split
      · next here =>
          rw [here, there] at found
          cases found
          exact ⟨_, rfl, List.mem_append_left _ mem⟩
      · exact ⟨old, found, mem⟩
    · next beyond =>
        rw [List.getElem?_replicate] at at_j
        split at at_j
        · cases at_j
          rw [if_pos rfl]
          exact ⟨_, rfl, List.mem_append_right _ (List.mem_range'_1.mpr (by omega))⟩
        · cases at_j
  · intro worker mem gone found there'
    change (s.setPool p _).pools worker.pool = some found at there'
    rw [lookup] at there'
    rcases members mem with mem | rfl
    · split at there'
      · next here =>
          cases there'
          exact housed.exited worker mem gone pool (here ▸ there)
      · exact housed.exited worker mem gone found there'
    · cases gone
  · intro p' found there' j mem
    change (s.setPool p _).pools p' = some found at there'
    change ∃ worker,
      (s.workers ++ List.replicate k { pool := p, pc := .waiting })[j]? = some worker ∧
        worker.pool = p'
    have old {pool' : Pool} (there'' : s.pools p' = some pool') (mem : j ∈ pool'.threads) :
        ∃ worker, (s.workers ++ List.replicate k { pool := p, pc := .waiting })[j]? = some worker ∧
          worker.pool = p' := by
      obtain ⟨worker, at_j, home⟩ := housed.threads p' pool' there'' j mem
      rw [List.getElem?_append, if_pos (List.getElem?_eq_some_iff.mp at_j).1]
      exact ⟨worker, at_j, home⟩
    rw [lookup] at there'
    split at there'
    · next here =>
        cases there'
        rcases List.mem_append.mp mem with mem | mem
        · exact old (here ▸ there) mem
        · rw [List.mem_range'_1] at mem
          rw [List.getElem?_append, if_neg (by omega), List.getElem?_replicate, if_pos (by omega)]
          exact ⟨_, rfl, here.symm⟩
    · exact old there' mem
  · intro p' found there' stopping
    change (s.setPool p _).pools p' = some found at there'
    rw [lookup] at there'
    split at there'
    · next here =>
        cases there'
        exact returned.stopped p' pool (here ▸ there) stopping
    · exact returned.stopped p' found there' stopping
  · intro p' found there' waiting
    change (s.setPool p _).pools p' = some found at there'
    rw [lookup] at there'
    split at there'
    · next here =>
        cases there'
        exact returned.stops p' pool (here ▸ there) waiting
    · exact returned.stops p' found there' waiting

theorem Housed.stopsPool (housed : s.Housed) {p : PoolId} {pool : Pool}
    (there : s.pools p = some pool) {i : Nat} (at_i : s.calls[i]? = some (.poolStop p)) :
    ((s.setPool p (some { pool with stopping := true })).setCall i (.poolJoin p)).Housed := by
  have lookup (p' : PoolId) := setPool_pools s p (some { pool with stopping := true }) p'
  have found {p' : PoolId} {pool' : Pool}
      (there' : (s.setPool p (some { pool with stopping := true })).pools p' = some pool') :
      p' = p ∧ pool' = { pool with stopping := true } ∨ p' ≠ p ∧ s.pools p' = some pool' := by
    rw [lookup] at there'
    split at there'
    · next here => exact Or.inl ⟨here, (Option.some.inj there').symm⟩
    · next other => exact Or.inr ⟨other, there'⟩
  have shift (weight : Call → Nat) := total_set weight at_i (.poolJoin p)
  constructor
  · intro p' positive gone
    have pushes := (shift (Call.pushes p')).moved
    have closes := (shift (Call.closes p')).moved
    simp only [Call.pushes, Call.closes] at pushes closes
    change 0 < total (Call.pushes p') (s.calls.set i (.poolJoin p)) +
      total (Call.closes p') (s.calls.set i (.poolJoin p)) at positive
    change (s.setPool p _).pools p' = none at gone
    rw [lookup] at gone
    split at gone
    · cases gone
    · exact housed.used p' (by omega) gone
  · intro p'
    have closes := (shift (Call.closes p')).moved
    have before := housed.single p'
    simp only [Call.closes] at closes
    change total (Call.closes p') (s.calls.set i (.poolJoin p)) ≤ 1
    omega
  · exact housed.known
  · intro j worker at_j working
    obtain ⟨old, there', mem⟩ := housed.employed j worker at_j working
    change ∃ pool', (s.setPool p _).pools worker.pool = some pool' ∧ _
    rw [lookup]
    split
    · next here =>
        rw [here, there] at there'
        cases there'
        exact ⟨_, rfl, mem⟩
    · exact ⟨old, there', mem⟩
  · intro worker mem gone pool' there'
    rcases found there' with ⟨-, rfl⟩ | ⟨-, there'⟩
    · rfl
    · exact housed.exited worker mem gone pool' there'
  · intro p' pool' there' j mem
    rcases found there' with ⟨rfl, rfl⟩ | ⟨-, there'⟩
    · exact housed.threads p' pool there j mem
    · exact housed.threads p' pool' there' j mem
  · intro p' pool' there' stopping
    have drains := (shift (Call.drains p')).moved
    have part := (shift (Call.drains p')).part
    simp only [Call.drains] at drains part
    change 0 < total (Call.drains p') (s.calls.set i (.poolJoin p))
    rcases found there' with ⟨rfl, -⟩ | ⟨-, there'⟩
    · rw [if_pos rfl] at drains part
      omega
    · have before := housed.stopped p' pool' there' stopping
      omega
  · intro p' pool' there' waiting
    rcases found there' with ⟨-, rfl⟩ | ⟨other, there'⟩
    · rfl
    · have awaits := (shift (Call.awaits p')).moved
      simp only [Call.awaits, if_neg (Ne.symm other)] at awaits
      change 0 < total (Call.awaits p') (s.calls.set i (.poolJoin p)) at waiting
      exact housed.stops p' pool' there' (by omega)

theorem Housed.ends (housed : s.Housed) (sound : s.Sound) {p : PoolId} {pool : Pool}
    (there : s.pools p = some pool)
    (exited : ∀ i ∈ pool.threads, s.workers[i]?.map Worker.pc = some .exited)
    {i : Nat} (at_i : s.calls[i]? = some (.poolJoin p)) (op : Op) (result : Result) :
    ((s.setPool p none).setCall i (.returned op result)).Housed := by
  have returned : (s.setCall i (.returned op result)).Retains s := retains_same rfl rfl
  have shift (weight : Call → Nat) := total_set weight at_i (.returned op result)
  have found {p' : PoolId} {pool' : Pool} (there' : (s.setPool p none).pools p' = some pool') :
      p' ≠ p ∧ s.pools p' = some pool' := by
    rw [setPool_pools] at there'
    split at there'
    · cases there'
    · next other => exact ⟨other, there'⟩
  constructor
  · intro p' positive gone
    have pushes := (shift (Call.pushes p')).moved
    have closes := (shift (Call.closes p')).moved
    have part := (shift (Call.closes p')).part
    have single := housed.single p'
    have apart := (sound.ledger p').apart
    simp only [Call.pushes, Call.closes] at pushes closes part
    change 0 < total (Call.pushes p') (s.calls.set i (.returned op result)) +
      total (Call.closes p') (s.calls.set i (.returned op result)) at positive
    change (s.setPool p none).pools p' = none at gone
    rw [setPool_pools] at gone
    split at gone
    · next here =>
        rw [if_pos here.symm] at closes part
        have nobody := apart part
        omega
    · exact housed.used p' (by omega) gone
  · intro p'
    have closes := (shift (Call.closes p')).moved
    have before := housed.single p'
    simp only [Call.closes] at closes
    change total (Call.closes p') (s.calls.set i (.returned op result)) ≤ 1
    omega
  · exact housed.known
  · intro j worker at_j working
    obtain ⟨old, there', mem⟩ := housed.employed j worker at_j working
    change ∃ pool', (s.setPool p none).pools worker.pool = some pool' ∧ _
    rw [setPool_pools]
    split
    · next here =>
        rw [here, there] at there'
        cases there'
        have gone := exited j mem
        rw [show s.workers[j]? = some worker from at_j] at gone
        exact absurd (Option.some.inj gone) working
    · exact ⟨old, there', mem⟩
  · exact fun worker mem gone pool' there' => housed.exited worker mem gone pool' (found there').2
  · exact fun p' pool' there' => housed.threads p' pool' (found there').2
  · intro p' pool' there' stopping
    obtain ⟨other, there'⟩ := found there'
    have drains := (shift (Call.drains p')).moved
    have before := housed.stopped p' pool' there' stopping
    simp only [Call.drains, if_neg (Ne.symm other)] at drains
    change 0 < total (Call.drains p') (s.calls.set i (.returned op result))
    omega
  · intro p' pool' there' waiting
    have awaits := (shift (Call.awaits p')).moved
    simp only [Call.awaits] at awaits
    change 0 < total (Call.awaits p') (s.calls.set i (.returned op result)) at waiting
    exact housed.stops p' pool' (found there').2 (by omega)

inductive Pooled (s : World) (choice : Choice) (c : Call) (w : World) (c' : Call) : Prop where
  | retains (retains : s.Retains w) (workers : w.workers = s.workers)
      (pushes : ∀ p, c'.pushes p ≤ c.pushes p) (closes : ∀ p, c'.closes p ≤ c.closes p)
      (drains : ∀ p, c.drains p ≤ c'.drains p) (awaits : ∀ p, c'.awaits p ≤ c.awaits p)
  | enqueues (p : PoolId) (t : TaskId) (pool pool' : Pool) (workers : List Worker)
      (enqueues : c = .pushEnqueue p t) (there : s.pools p = some pool)
      (started : startThreads p choice.creations { pool with queue := pool.queue ++ [t] }
        s.workers = (pool', workers))
      (same : w = { s.setPool p (some pool') with workers := workers })
      (returns : c' = pushed p t .ok)
  | stops (p : PoolId) (pool : Pool) (stops : c = .poolStop p) (there : s.pools p = some pool)
      (same : w = s.setPool p (some { pool with stopping := true })) (joins : c' = .poolJoin p)
  | ends (p : PoolId) (pool : Pool) (ends : c = .poolJoin p) (there : s.pools p = some pool)
      (exited : ∀ i ∈ pool.threads, s.workers[i]?.map Worker.pc = some .exited)
      (same : w = s.setPool p none) (returns : c' = poolDeleted p .ok)

theorem callStep_pooled {choice : Choice} {c c' : Call}
    (taken : s.callStep choice c = some (w, c')) :
    s.Pooled choice c w c' := by
  have counts {c c' : Call} (retains : s.Retains w) (workers : w.workers = s.workers)
      (lighter : c.Lighter c') : s.Pooled choice c w c' :=
    .retains retains workers (fun p => (lighter p).1) (fun p => (lighter p).2.1)
      (fun p => (lighter p).2.2.1) fun p => (lighter p).2.2.2
  cases callStep_stepped taken with
  | enqueues p t creations pool pool' workers there started =>
      rw [callStep, World.pushEnqueue, Option.map_eq_some_iff] at taken
      obtain ⟨pool, there, same⟩ := taken
      rw [Prod.mk.injEq] at same
      exact .enqueues p t pool _ _ rfl there rfl same.1.symm same.2.symm
  | poolStops p pool there => exact .stops p pool rfl there rfl rfl
  | poolEnds p pool there exited => exact .ends p pool rfl there exited rfl rfl
  | joinWaits c t task joining | joinAgain c t task joining | joinsAlone c t task joining =>
      exact counts (retains_same rfl rfl) rfl (lighter_join (Or.inl joining) (by simp [joined]))
  | joins c t task p joining =>
      exact counts (retains_same rfl rfl) rfl (lighter_join (Or.inl joining) (by simp))
  | timedWaits c t task joining =>
      exact counts (retains_same rfl rfl) rfl (lighter_join (Or.inr joining) (by simp))
  | timedJoins c t task p pool joining there state taskPool there' =>
      exact counts (retains_count there' _ rfl rfl) rfl
        (lighter_join (Or.inr joining) (by simp [timedJoined]))
  | reserves p t pool there | rollsBack p t pool there | joinReleases t p pool there
  | timedRejoins t task p pool found state taskPool there
  | detachReleases t task p pool found taskPool there =>
      refine counts (retains_count there _ rfl rfl) rfl fun p' => ?_
      simp [Call.pushes, Call.closes, Call.drains, Call.awaits, pushed, joined, timedJoined,
        detached]
  | loads | full | retries | rejects | accepts | joinNew | timedNew | timesOut | timedAgain
  | detachAlone | detaches | detachEnds | deleteRefuses | deletePasses | deleteFrees | poolRefuses
  | poolPasses | looksFinished | looksRunning =>
      refine counts (retains_same rfl rfl) rfl fun p' => ?_
      simp [Call.pushes, Call.closes, Call.drains, Call.awaits, pushed, joined, timedJoined,
        detached, deleted, poolDeleted]

theorem workerStep_retains {worker : Worker} {pc : WorkerPc}
    (stepped : s.WorkerStepped worker w pc) :
    s.Retains w ∧ w.workers = s.workers ∧ w.calls = s.calls ∧ worker.pc ≠ .exited ∧
      (pc = .exited → ∀ pool, s.pools worker.pool = some pool → pool.stopping = true) := by
  cases stepped with
  | waits pool atPc there | starts t task atPc there | ends t atPc =>
      exact ⟨retains_same rfl rfl, rfl, rfl, by simp [atPc], nofun⟩
  | finishes t task atPc there =>
      refine ⟨retains_same rfl rfl, rfl, rfl, by simp [atPc], fun exits => ?_⟩
      split at exits <;> cases exits
  | exits pool atPc there empty stopping =>
      refine ⟨retains_same rfl rfl, rfl, rfl, by simp [atPc], fun _ pool' there' => ?_⟩
      rw [there] at there'
      cases there'
      exact stopping
  | takes pool t rest atPc there queue =>
      exact ⟨retains_setPool there { pool with queue := rest } rfl rfl (fun _ => by simp [queue])
        rfl rfl rfl, rfl, rfl, by simp [atPc], nofun⟩
  | deletes t task p pool atPc there there' =>
      exact ⟨retains_count there' _ rfl rfl, rfl, rfl, by simp [atPc], nofun⟩

theorem Housed.enters (housed : s.Housed) {c' : Call}
    (used : ∀ p, 0 < c'.pushes p + c'.closes p → s.pools p ≠ none)
    (single : ∀ p, c'.closes p = 0 ∨ total (Call.closes p) s.calls = 0)
    (awaits : ∀ p, c'.awaits p = 0) : (s.withCalls (s.calls ++ [c'])).Housed :=
  housed.moves (moves_begin (.taskNew true) (.flag true) c' s.calls) (retains_same rfl rfl) rfl
    (fun p positive => Or.inr (used p positive))
    (fun p => (single p).imp_left fun none => Nat.le_of_eq none) (fun _ => Nat.zero_le _)
    fun p => Nat.le_of_eq (awaits p)

theorem Housed.madeTask (housed : s.Housed) : s.makeTask.Housed := by
  obtain ⟨used, single, known, employed, exited, threads, stopped, stops⟩ := housed
  exact ⟨used, single, known, employed, exited, threads, stopped, stops⟩

theorem Housed.begins (housed : s.Housed) (fresh : ∀ p, s.poolsMade ≤ p → s.pools p = none)
    {op : Op} (grounded : s.Grounded (.begin op)) :
    ((s.begin op).1.withCalls (s.calls ++ [(s.begin op).2])).Housed := by
  have plain {w : World} (housed : w.Housed) {c' : Call} (weightless : ∀ p, c'.pushes p = 0 ∧
      c'.closes p = 0 ∧ c'.awaits p = 0) : (w.withCalls (w.calls ++ [c'])).Housed :=
    housed.enters (fun p positive => by have := weightless p; omega)
      (fun p => Or.inl (weightless p).2.1) fun p => (weightless p).2.2
  cases op with
  | poolNew threadCount out =>
      unfold begin
      dsimp only
      split
      · exact plain housed fun _ => ⟨rfl, rfl, rfl⟩
      · next fits =>
          exact plain (housed.madePool fresh _) fun _ => ⟨rfl, rfl, rfl⟩
  | taskNew out =>
      unfold begin
      dsimp only
      split
      · exact plain housed fun _ => ⟨rfl, rfl, rfl⟩
      · exact plain housed.madeTask fun _ => ⟨rfl, rfl, rfl⟩
  | push pool task =>
      cases pool with
      | none => cases task <;> exact plain housed fun _ => ⟨rfl, rfl, rfl⟩
      | some p =>
          cases task with
          | none => exact plain housed fun _ => ⟨rfl, rfl, rfl⟩
          | some t =>
              refine housed.enters (fun p' positive => ?_) (fun _ => Or.inl rfl) fun _ => rfl
              simp only [begin, Call.pushes, Call.closes] at positive
              split at positive
              · next here =>
                  rw [← here]
                  exact Option.isSome_iff_ne_none.mp grounded
              · cases positive
  | poolDelete pool =>
      cases pool with
      | none => exact plain housed fun _ => ⟨rfl, rfl, rfl⟩
      | some p =>
          obtain ⟨there, alone⟩ := grounded
          refine housed.enters (fun p' positive => ?_) (fun p' => ?_) fun _ => rfl
          · simp only [begin, Call.pushes, Call.closes] at positive
            split at positive
            · next here =>
                rw [← here]
                exact Option.isSome_iff_ne_none.mp there
            · cases positive
          · simp only [begin, Call.closes]
            split
            · next here => exact Or.inr (here ▸ alone)
            · exact Or.inl rfl
  | isFinished task | isRunning task | join task | timedJoin task | taskDelete task | detach task =>
      cases task <;> exact plain housed fun _ => ⟨rfl, rfl, rfl⟩

theorem Housed.step (housed : s.Housed) (sound : s.Sound) {action : Action} {next : World}
    (grounded : s.Grounded action) (taken : s.step action = some next) : next.Housed := by
  cases action with
  | begin op =>
      cases taken
      exact housed.begins sound.freshPools grounded
  | call i choice =>
      obtain ⟨c, w, c', at_i, stepped, rfl⟩ := step_called taken
      have others := (callStep_stepped stepped).calls
      cases callStep_pooled stepped with
      | retains retains workers pushes closes drains awaits =>
          have moved := housed.moves (moves_set at_i c') retains workers
            (fun p positive => Or.inl (by have := pushes p; have := closes p; omega))
            (fun p => Or.inl (closes p)) drains awaits
          have same : w.setCall i c' = w.withCalls (s.calls.set i c') := by
            rw [setCall, others]
            rfl
          rw [same]
          exact moved
      | enqueues p t pool pool' workers enqueues there started same returns =>
          subst enqueues same returns
          exact housed.enqueues sound.freshPools there started at_i _ _
      | stops p pool stops there same joins =>
          subst stops same joins
          exact housed.stopsPool there at_i
      | ends p pool ends there exited same returns =>
          subst ends same returns
          exact housed.ends sound there exited at_i _ _
  | worker i =>
      obtain ⟨worker, w, pc, at_i, stepped, rfl⟩ := step_worked taken
      obtain ⟨retains, workers, calls, working, exits⟩ :=
        workerStep_retains (workerStep_stepped stepped)
      exact housed.works at_i working retains workers calls pc exits

def Starts (_ : World) : Action → Prop
  | .call _ choice => 0 < choice.creations
  | _ => True

instance (s : World) : (action : Action) → Decidable (s.Starts action)
  | .begin _ => inferInstanceAs (Decidable True)
  | .call _ choice => inferInstanceAs (Decidable (0 < choice.creations))
  | .worker _ => inferInstanceAs (Decidable True)

structure Manned (s : World) : Prop where
  threads : ∀ p pool, s.pools p = some pool → pool.queue ≠ [] → pool.threads ≠ []
  room : ∀ p pool, s.pools p = some pool → 0 < pool.maxThreads

theorem manned_init : init.Manned := ⟨nofun, nofun⟩

theorem startThreads_some {p : PoolId} {creations : Nat} {pool : Pool} {workers : List Worker}
    (starts : 0 < creations) (room : 0 < pool.maxThreads) (queue : pool.queue ≠ []) :
    (startThreads p creations pool workers).1.threads ≠ [] := by
  obtain ⟨k, rfl⟩ := Nat.exists_eq_add_of_lt starts
  rw [Nat.zero_add]
  by_cases none : pool.threads = []
  · have positive := List.length_pos_iff.mpr queue
    rw [startThreads, if_pos (by simp [none, room, positive])]
    obtain ⟨started, same⟩ := startThreads_eq p k
      { pool with threads := pool.threads ++ [workers.length] }
      (workers ++ [{ pool := p, pc := .waiting }])
    rw [same]
    simp
  · obtain ⟨started, same⟩ := startThreads_eq p (k + 1) pool workers
    rw [same]
    simp [none]

theorem Manned.retains (manned : s.Manned) (retains : s.Retains w) : w.Manned where
  threads p pool' found' queue := by
    obtain ⟨pool, found, threads, -, queued, -⟩ := retains.back p pool' found'
    rw [threads]
    exact manned.threads p pool found (queued queue)
  room p pool' found' := by
    obtain ⟨pool, found, -, -, -, limit⟩ := retains.back p pool' found'
    rw [limit]
    exact manned.room p pool found

theorem Manned.setPool (manned : s.Manned) {p : PoolId} (pool' : Option Pool)
    (threads : ∀ pool ∈ pool', pool.queue ≠ [] → pool.threads ≠ [])
    (room : ∀ pool ∈ pool', 0 < pool.maxThreads)
    (pools : w.pools = (s.setPool p pool').pools) : w.Manned where
  threads p' found there := by
    rw [pools, setPool_pools] at there
    split at there
    · exact threads found there
    · exact manned.threads p' found there
  room p' found there := by
    rw [pools, setPool_pools] at there
    split at there
    · exact room found there
    · exact manned.room p' found there

theorem Manned.step (manned : s.Manned) {action : Action} {next : World} (starts : s.Starts action)
    (taken : s.step action = some next) : next.Manned := by
  cases action with
  | begin op =>
      cases taken
      obtain ⟨-, same | ⟨threadCount, positive, -, same⟩ | same⟩ := begin_effect s op
      · exact manned.retains (retains_same (by rw [same]) (by rw [same]))
      · refine manned.setPool (some ⟨[], [], threadCount, 0, false⟩) ?_ ?_ (by rw [same]; rfl) <;>
          simp [positive]
      · exact manned.retains (retains_same (by rw [same]; rfl) (by rw [same]; rfl))
  | call i choice =>
      obtain ⟨c, w, c', at_i, stepped, rfl⟩ := step_called taken
      cases callStep_pooled stepped with
      | retains retains => exact (manned.retains retains).retains (retains_same rfl rfl)
      | enqueues p t pool pool' workers enqueues there started same returns =>
          subst same
          have some_ := @startThreads_some p choice.creations
            { pool with queue := pool.queue ++ [t] } s.workers starts (manned.room p pool there)
            (by simp)
          obtain ⟨k, eq⟩ := startThreads_eq p choice.creations
            { pool with queue := pool.queue ++ [t] } s.workers
          rw [started] at eq some_
          cases eq
          refine manned.setPool (some _) ?_ ?_ rfl
          · rintro pool' ⟨⟩ -
            exact some_
          · rintro pool' ⟨⟩
            exact manned.room p pool there
      | stops p pool stops there same joins =>
          subst same
          refine manned.setPool (some _) ?_ ?_ rfl
          · rintro pool' ⟨⟩
            exact manned.threads p pool there
          · rintro pool' ⟨⟩
            exact manned.room p pool there
      | ends p pool ends there exited same returns =>
          subst same
          exact manned.setPool none nofun nofun rfl
  | worker i =>
      obtain ⟨worker, w, pc, at_i, stepped, rfl⟩ := step_worked taken
      obtain ⟨retains, -⟩ := workerStep_retains (workerStep_stepped stepped)
      exact (manned.retains retains).retains (retains_same rfl rfl)

end World

end SystemProg.ThreadPool
