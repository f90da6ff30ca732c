import SystemProg.Lib.Run
import SystemProg.ThreadPool.WorkerSteps

set_option autoImplicit false

namespace SystemProg.ThreadPool

def Op.task : Op → Option TaskId
  | .push _ t | .isFinished t | .isRunning t | .join t | .timedJoin t | .taskDelete t
  | .detach t => t
  | _ => none

namespace World

-- The task is neither deleted nor detached, and no call is going to delete it.
def Usable (s : World) (t : TaskId) : Prop :=
  (∃ task ∈ s.tasks t, task.detached = false) ∧
    total (Call.frees t) s.calls + total (Call.deletes t) s.calls = 0

instance (s : World) (t : TaskId) : Decidable (s.Usable t) := by
  unfold Usable
  infer_instance

-- No call is made on a deleted or detached task, none is in progress on a task that is being
-- deleted or detached, and no push is concurrent with the pool's deletion.
def Proper (s : World) : Action → Prop
  | .begin (.push (some p) (some t)) => s.Usable t ∧ total (Call.closes p) s.calls = 0
  | .begin (.poolDelete (some p)) => total (Call.pushes p) s.calls = 0
  | .begin op => ∀ t ∈ op.task, s.Usable t
  | .call i _ =>
      match s.calls[i]? with
      | some (.detach t) =>
          (∃ task ∈ s.tasks t, task.pool = none) ∨ total (Call.visits t) s.calls = 1
      | some (.delete t) =>
          (∃ task ∈ s.tasks t, task.state ≠ .new ∧ task.state ≠ .joined) ∨
            total (Call.visits t) s.calls = 1
      | _ => True
  | .worker _ => True

instance (s : World) (action : Action) : Decidable (s.Proper action) := by
  unfold Proper
  split
  · infer_instance
  · infer_instance
  · infer_instance
  · split <;> infer_instance
  · infer_instance

-- `thread_task_timed_join` finds the task JOINED at its first check.
def Rejoins (s : World) : Action → Prop
  | .call i _ =>
      match s.calls[i]? with
      | some (.timedJoin t) => ∃ task ∈ s.tasks t, task.state = .joined
      | _ => False
  | _ => False

instance (s : World) (action : Action) : Decidable (s.Rejoins action) := by
  unfold Rejoins
  split
  · split <;> infer_instance
  · infer_instance

variable {s : World}

theorem Sound.enters (sound : s.Sound) {c' : Call} (owes : ∀ p, c'.owes p = 0)
    (enqueues : ∀ p t, c'.enqueues p t = 0) (drains : ∀ p, c'.drains p = 0)
    (frees : ∀ t, c'.frees t = 0) (deletes : ∀ t, c'.deletes t = 0)
    (usable : ∀ t, c'.visits t ≠ 0 → s.Usable t)
    (pushing : ∀ p, c'.pushes p ≠ 0 → total (Call.closes p) s.calls = 0 ∧ c'.closes p = 0)
    (closing : ∀ p, c'.closes p ≠ 0 → total (Call.pushes p) s.calls = 0 ∧ c'.pushes p = 0) :
    (s.withCalls (s.calls ++ [c'])).Sound := by
  apply Sound.moves (moves_begin (.taskNew false) (.code .ok) c' s.calls) s rfl _ _ _
    sound.freshPools sound.freshTasks
  · intro p debts drains' closes pushes h1 h2 h3 h4
    have old := sound.ledger p
    have := owes p
    have := drains p
    have := pushing p
    have := closing p
    change Shifts 0 _ _ _ at h1 h2 h3 h4
    constructor <;> grind [Ledger, Shifts]
  · intro p t waiting h
    have := enqueues p t
    have same : waiting = s.waiting p t := by
      change Shifts (0 + _) _ _ _ at h
      grind [Shifts]
    rw [same]
    exact sound.custody p t
  · intro t visits frees' deletes' h1 h2 h3
    have old := sound.access t
    have := frees t
    have := deletes t
    have reached : c'.visits t ≠ 0 → (∃ task, s.tasks t = some task ∧ task.detached = false) ∧
        total (Call.frees t) s.calls + total (Call.deletes t) s.calls = 0 := by
      intro visited
      obtain ⟨⟨task, there, alive⟩, free⟩ := usable t visited
      exact ⟨⟨task, there, alive⟩, free⟩
    change Shifts 0 _ _ _ at h1 h2 h3
    constructor <;> grind [Access, Shifts]

theorem Sound.madePool (sound : s.Sound) (threadCount : Int) : (s.makePool threadCount).Sound := by
  have fresh := sound.freshPools s.poolsMade (Nat.le_refl _)
  have unknown : s.count s.poolsMade = none := by
    rw [count, fresh]
    rfl
  have empty : s.queue s.poolsMade = [] := by
    rw [queue, fresh]
    rfl
  refine ⟨fun p => ?_, fun p t => ?_, sound.access, fun p made => ?_, sound.freshTasks⟩
  · have old := sound.ledger p
    have count : (s.makePool threadCount).count p =
        if p = s.poolsMade then some 0 else s.count p := setPool_count _ _ _ _
    change Ledger ((s.makePool threadCount).count p) (s.outstanding p).length (s.debts p) _ _ _
    rw [count]
    split
    · next here =>
        subst here
        obtain ⟨listed, debts⟩ := old.gone unknown
        refine ⟨?_, ?_, by simp, old.drained, old.apart⟩ <;>
          simp [listed, debts, maxTasks]
    · exact old
  · have queue : (s.makePool threadCount).queue p = s.queue p := by
      have lookup : (s.makePool threadCount).queue p =
          if p = s.poolsMade then [] else s.queue p := setPool_queue _ _ _ _
      rw [lookup]
      split
      · next here => rw [here, empty]
      · rfl
    have same : (s.makePool threadCount).waiting p t = s.waiting p t := by
      rw [waiting, queue]
      rfl
    have old := sound.custody p t
    rw [← same] at old
    exact old
  · have later : s.poolsMade + 1 ≤ p := made
    have other : p ≠ s.poolsMade := Nat.ne_of_gt later
    have lookup : (s.makePool threadCount).pools p = if p = s.poolsMade then _ else s.pools p :=
      setPool_pools _ _ _ _
    rw [lookup, if_neg other]
    exact sound.freshPools p (Nat.le_of_succ_le later)

theorem Sound.madeTask (sound : s.Sound) : s.makeTask.Sound := by
  have fresh := sound.freshTasks s.tasksMade (Nat.le_refl _)
  have tasks : ∀ t, s.makeTask.tasks t = if t = s.tasksMade then _ else s.tasks t :=
    setTask_tasks _ _ _
  refine ⟨sound.ledger, fun p t => ?_, fun t => ?_, sound.freshPools, fun t made => ?_⟩
  · have old := sound.custody p t
    have stage : s.makeTask.stage p t = s.stage p t := by
      simp only [World.stage, tasks]
      split
      · next here =>
          rw [here, fresh]
          rfl
      · rfl
    have dead : s.makeTask.dead t = s.dead t := by
      simp only [World.dead, tasks]
      split
      · next here =>
          rw [here, fresh]
          rfl
      · rfl
    rw [← stage, ← dead] at old
    exact old
  · have old := sound.access t
    rw [tasks]
    split
    · next here =>
        rw [here, fresh] at old
        change Access _ (total (Call.visits t) s.calls) (total (Call.frees t) s.calls)
          (total (Call.deletes t) s.calls)
        constructor <;> grind [Access]
    · exact old
  · have later : s.tasksMade + 1 ≤ t := made
    rw [tasks, if_neg (Nat.ne_of_gt later)]
    exact sound.freshTasks t (Nat.le_of_succ_le later)

theorem Sound.answers (sound : s.Sound) (op : Op) (result : Result) :
    (s.withCalls (s.calls ++ [.returned op result])).Sound := by
  apply sound.enters <;> intros <;> first | rfl | exact absurd rfl ‹_›

theorem Sound.asks (sound : s.Sound) {t : TaskId} (usable : s.Usable t) {c' : Call}
    (asks : c' = .isFinished t ∨ c' = .isRunning t ∨ c' = .join t ∨ c' = .timedJoin t ∨
      c' = .delete t ∨ c' = .detach t) : (s.withCalls (s.calls ++ [c'])).Sound := by
  rcases asks with rfl | rfl | rfl | rfl | rfl | rfl <;>
    apply sound.enters <;>
    simp_all [Call.owes, Call.enqueues, Call.drains, Call.frees, Call.deletes, Call.visits,
      Call.pushes, Call.closes]

theorem Sound.begins (sound : s.Sound) {op : Op} (proper : s.Proper (.begin op)) :
    ((s.begin op).1.withCalls (s.calls ++ [(s.begin op).2])).Sound := by
  cases op with
  | poolNew threadCount out =>
      unfold begin
      dsimp only
      split
      · exact sound.answers _ _
      · exact (sound.madePool threadCount).answers _ _
  | taskNew out =>
      unfold begin
      dsimp only
      split
      · exact sound.answers _ _
      · exact sound.madeTask.answers _ _
  | poolDelete pool =>
      cases pool with
      | none => exact sound.answers _ _
      | some p =>
          have pushing : total (Call.pushes p) s.calls = 0 := proper
          apply sound.enters <;>
            simp_all [begin, Call.owes, Call.enqueues, Call.drains, Call.frees, Call.deletes,
              Call.visits, Call.pushes, Call.closes]
  | push pool task =>
      cases pool with
      | none => exact sound.answers _ _
      | some p =>
          cases task with
          | none => exact sound.answers _ _
          | some t =>
              obtain ⟨usable, closing⟩ : s.Usable t ∧ total (Call.closes p) s.calls = 0 := proper
              apply sound.enters <;>
                simp_all [begin, Call.owes, Call.enqueues, Call.drains, Call.frees, Call.deletes,
                  Call.visits, Call.pushes, Call.closes]
  | isFinished task =>
      cases task with
      | none => exact sound.answers _ _
      | some t => exact sound.asks (proper t rfl) (by simp [begin])
  | isRunning task =>
      cases task with
      | none => exact sound.answers _ _
      | some t => exact sound.asks (proper t rfl) (by simp [begin])
  | join task =>
      cases task with
      | none => exact sound.answers _ _
      | some t => exact sound.asks (proper t rfl) (by simp [begin])
  | timedJoin task =>
      cases task with
      | none => exact sound.answers _ _
      | some t => exact sound.asks (proper t rfl) (by simp [begin])
  | taskDelete task =>
      cases task with
      | none => exact sound.answers _ _
      | some t => exact sound.asks (proper t rfl) (by simp [begin])
  | detach task =>
      cases task with
      | none => exact sound.answers _ _
      | some t => exact sound.asks (proper t rfl) (by simp [begin])

theorem Sound.called (sound : s.Sound) {i : Nat} {c c' : Call} {w : World}
    (at_i : s.calls[i]? = some c) (stepped : s.CallStepped c w c') (choice : Choice)
    (proper : s.Proper (.call i choice)) (first : ¬ s.Rejoins (.call i choice)) :
    (w.setCall i c').Sound := by
  have moves := moves_set at_i c'
  rw [Proper, at_i] at proper
  rw [Rejoins, at_i] at first
  have same : w.setCall i c' = w.withCalls (s.calls.set i c') := by
    rw [setCall, withCalls, stepped.calls]
  rw [same]
  cases stepped with
  | loads p t pool there =>
      apply sound.looks moves <;> simp [Call.owes, Call.enqueues, Call.drains, Call.frees,
        Call.deletes, Call.visits, Call.pushes, Call.closes]
  | retries p t expected pool there =>
      apply sound.looks moves <;> simp [Call.owes, Call.enqueues, Call.drains, Call.frees,
        Call.deletes, Call.visits, Call.pushes, Call.closes]
  | rejects p t task there busy =>
      apply sound.looks moves <;> simp [Call.owes, Call.enqueues, Call.drains, Call.frees,
        Call.deletes, Call.visits, Call.pushes, Call.closes]
  | joinWaits _ t task joining there busy =>
      rcases joining with rfl | rfl <;> apply sound.looks moves <;>
        simp [Call.owes, Call.enqueues, Call.drains, Call.frees, Call.deletes, Call.visits,
          Call.pushes, Call.closes]
  | timedWaits _ t task joining there busy =>
      rcases joining with rfl | rfl <;> apply sound.looks moves <;>
        simp [Call.owes, Call.enqueues, Call.drains, Call.frees, Call.deletes, Call.visits,
          Call.pushes, Call.closes]
  | full p t expected many => exact sound.returns moves (fun _ => rfl) fun _ _ => rfl
  | joinNew t task there state => exact sound.returns moves (fun _ => rfl) fun _ _ => rfl
  | joinAgain _ t task joining there state =>
      rcases joining with rfl | rfl <;> exact sound.returns moves (fun _ => rfl) fun _ _ => rfl
  | timedNew t task there state => exact sound.returns moves (fun _ => rfl) fun _ _ => rfl
  | timesOut t task there => exact sound.returns moves (fun _ => rfl) fun _ _ => rfl
  | timedAgain t task there state => exact sound.returns moves (fun _ => rfl) fun _ _ => rfl
  | detachAlone t task there pool => exact sound.returns moves (fun _ => rfl) fun _ _ => rfl
  | deleteRefuses t task there busy => exact sound.returns moves (fun _ => rfl) fun _ _ => rfl
  | poolRefuses p pool there busy => exact sound.returns moves (fun _ => rfl) fun _ _ => rfl
  | looksFinished t task there => exact sound.returns moves (fun _ => rfl) fun _ _ => rfl
  | looksRunning t task there => exact sound.returns moves (fun _ => rfl) fun _ _ => rfl
  | reserves p t pool there room =>
      apply sound.pays moves there <;> simp [Call.owes, Call.enqueues, Call.drains, Call.frees,
        Call.deletes, Call.visits, Call.pushes, Call.closes]
      · exact room
      · exact fun p' other same => absurd same (Ne.symm other)
  | rollsBack p t pool there =>
      have bound := sound.count_le there
      apply sound.pays moves there <;> simp [Call.owes, Call.enqueues, Call.drains, Call.frees,
        Call.deletes, Call.visits, Call.pushes, Call.closes, pushed]
      · omega
      · exact fun p' other same => absurd same (Ne.symm other)
  | joinReleases t p pool there =>
      have bound := sound.count_le there
      apply sound.pays moves there <;> simp [Call.owes, Call.enqueues, Call.drains, Call.frees,
        Call.deletes, Call.visits, Call.pushes, Call.closes, joined]
      · omega
      · exact fun p' other same => absurd same (Ne.symm other)
  | poolStops p pool there =>
      apply sound.pays moves there <;> simp [Call.owes, Call.enqueues, Call.drains, Call.frees,
        Call.deletes, Call.visits, Call.pushes, Call.closes, sound.count_le there]
  | accepts p t task there free idle =>
      exact sound.accepts moves there free ((sound.alters there _).emits _) rfl (fun _ => rfl)
        fun p' => emit_outstanding _ _ p'
  | enqueues p t creations pool pool' workers there started =>
      obtain ⟨k, same'⟩ := startThreads_eq p creations { pool with queue := pool.queue ++ [t] } s.workers
      rw [started] at same'
      cases same'
      exact (sound.enqueues moves there (by rfl) (by rfl)).hires p k
  | joins _ t task p joining there state pool =>
      refine sound.joins joining moves there state pool ((sound.alters there _).emits _) rfl
        (fun _ => rfl) fun p' => ?_
      rw [emit_outstanding, settle_joined]
      rfl
  | joinsAlone _ t task joining there state pool =>
      have stays : ∀ k ∈ some ({ task with state := .joined, pool := none } : Task),
          (k.pool = none ∨ k.state = .joined) ∧ k.detached = task.detached := by
        rintro k same
        cases same
        exact ⟨Or.inl rfl, rfl⟩
      have listed : ∀ p', World.outstanding (emit (s.setTask t
          (some { task with state := .joined, pool := none })) (.joined none t)) p' =
            s.outstanding p' := by
        intro p'
        rw [emit_outstanding, Event.settle, if_neg (by simp)]
        rfl
      rcases joining with rfl | rfl <;>
        exact sound.unlisted moves there (Or.inl pool) stays
          (Or.inl ⟨by simp [Call.visits], by simp⟩) (fun _ => rfl) (fun _ _ => rfl)
          ((sound.alters there _).emits _) rfl (fun _ => rfl) listed
  | timedJoins _ t task p pool joining there state taskPool there' =>
      refine sound.timedJoins joining moves there state taskPool
        (((sound.alters there _).emits _).pays there' rfl) rfl (released_count there') fun p' => ?_
      exact (emit_outstanding _ _ p').trans (settle_joined p p' t _)
  | timedRejoins t task p pool there state taskPool there' =>
      exact absurd ⟨task, there, state⟩ first
  | detaches t task there pool busy =>
      have alone : total (Call.visits t) s.calls = 1 := by
        refine proper.resolve_left ?_
        rintro ⟨_, same, free⟩
        rw [there] at same
        cases same
        exact pool free
      exact sound.detaches moves there busy alone (sound.alters there _) rfl (fun _ => rfl)
        fun _ => rfl
  | detachEnds t task there pool state =>
      have alone : total (Call.visits t) s.calls = 1 := by
        refine proper.resolve_left ?_
        rintro ⟨_, same, free⟩
        rw [there] at same
        cases same
        exact pool free
      exact sound.claims moves there alone (Or.inl ⟨rfl, rfl, state⟩)
  | detachReleases t task p pool there taskPool there' =>
      exact sound.detachReleases moves there taskPool
        (((sound.alters there _).emits _).pays there' rfl) rfl (released_count there')
        fun p' => emit_outstanding _ _ p'
  | deletePasses t task there idle =>
      have alone : total (Call.visits t) s.calls = 1 := by
        refine proper.resolve_left ?_
        rintro ⟨_, same, notNew, notJoined⟩
        rw [there] at same
        cases same
        exact idle.elim notNew notJoined
      exact sound.claims moves there alone (Or.inr ⟨rfl, rfl, idle⟩)
  | deleteFrees t task there =>
      have deleting : 0 < total (Call.deletes t) s.calls :=
        Nat.lt_of_lt_of_le (by simp [Call.deletes]) (moves (Call.deletes t) fun _ _ => rfl).part
      have idle : task.state = .new ∨ task.state = .joined := by
        obtain ⟨_, same, idle⟩ := (sound.access t).deleted deleting
        rw [there, Option.some_inj] at same
        exact same ▸ idle
      exact sound.unlisted moves there (Or.inr idle) (by simp)
        (Or.inr ⟨by simp [Call.deletes], rfl⟩) (fun _ => rfl) (fun _ _ => rfl)
        ((sound.alters there _).emits _) rfl (fun _ => rfl) fun p' => emit_outstanding _ _ p'
  | poolPasses p pool there empty => exact sound.passes moves there empty
  | poolEnds p pool there exited => exact sound.ends moves there

theorem Sound.worked (sound : s.Sound) {i : WorkerId} {worker : Worker} {w : World} {pc : WorkerPc}
    (there : s.workers[i]? = some worker) (stepped : s.WorkerStepped worker w pc) :
    (w.setWorker i { worker with pc := pc }).Sound := by
  cases stepped with
  | waits pool atPc found empty goesOn => exact sound.rests there atPc (Or.inl rfl)
  | exits pool atPc found empty stopping => exact sound.rests there atPc (Or.inr rfl)
  | takes pool t rest atPc found queue => exact sound.takes there atPc found queue
  | starts t task atPc found =>
      exact sound.starts there atPc found ((sound.alters found _).emits _) rfl rfl (fun _ => rfl)
        fun p => emit_outstanding _ _ p
  | ends t atPc => exact sound.runsOn there atPc _ rfl
  | finishes t task atPc found =>
      exact sound.finishes there atPc found (sound.alters found _) rfl rfl (fun _ => rfl)
        fun _ => rfl
  | deletes t task p pool atPc found found' =>
      exact sound.autoDeletes there atPc found (((sound.alters found _).emits _).pays found' rfl)
        rfl rfl (released_count found') fun p' => emit_outstanding _ _ p'

theorem sound_init : init.Sound := by
  refine ⟨fun p => ?_, fun p t => ?_, fun t => ?_, fun _ _ => rfl, fun _ _ => rfl⟩ <;>
    constructor <;> simp [init, count, outstanding, debts, stage, waiting, active, dying, queue]

theorem Sound.step (sound : s.Sound) {action : Action} {next : World}
    (proper : s.Proper action) (first : ¬ s.Rejoins action)
    (taken : s.step action = some next) : next.Sound := by
  cases action with
  | begin op =>
      cases taken
      have same : { (s.begin op).1 with calls := s.calls ++ [(s.begin op).2] } =
          (s.begin op).1.withCalls (s.calls ++ [(s.begin op).2]) := rfl
      exact sound.begins proper
  | call i choice =>
      obtain ⟨c, w, c', at_i, stepped, rfl⟩ := step_called taken
      exact sound.called at_i (callStep_stepped stepped) choice proper first
  | worker i =>
      obtain ⟨worker, w, pc, at_i, stepped, rfl⟩ := step_worked taken
      exact sound.worked at_i (workerStep_stepped stepped)

def Quiet (s : World) : Prop := ∀ c ∈ s.calls, ∃ op result, c = .returned op result

def Vacant (s : World) (p : PoolId) : Prop :=
  s.outstanding p = [] ∧
    ∀ t task, s.tasks t = some task → task.pool = some p → task.state = .new ∨ task.state = .joined

-- The count of each pool is the number of its tasks, and `thread_pool_delete` relies on it.
structure Counted (s : World) : Prop where
  exact : s.Quiet → ∀ p pool, s.pools p = some pool → pool.taskCount = (s.outstanding p).length
  bounds : ∀ p pool, s.pools p = some pool → 0 ≤ pool.taskCount ∧ pool.taskCount ≤ maxTasks
  deletes : ∀ i choice p next, s.step (.call i choice) = some next →
    next.calls[i]? = some (poolDeleted p .ok) → s.Vacant p

theorem CallStepped.deletes {c : Call} {w : World} {p : PoolId}
    (stepped : s.CallStepped c w (poolDeleted p .ok)) : c = .poolJoin p := by
  generalize returned : poolDeleted p .ok = c' at stepped
  cases stepped <;> cases returned
  rfl

theorem Sound.vacant (sound : s.Sound) {i : Nat} {p : PoolId}
    (joining : s.calls[i]? = some (.poolJoin p)) : s.Vacant p := by
  have draining : 0 < total (Call.drains p) s.calls :=
    Nat.lt_of_lt_of_le (by simp [Call.drains])
      (le_total (Call.drains p) (List.mem_of_getElem? joining))
  have empty := List.eq_nil_of_length_eq_zero ((sound.ledger p).drained draining).1
  refine ⟨empty, fun t task there pool => ?_⟩
  have listed := (sound.custody p t).listed
  rw [empty, stage_eq there, if_pos pool] at listed
  cases state : task.state <;> simp [state] at listed ⊢

theorem Sound.counted (sound : s.Sound) : s.Counted where
  exact quiet p pool there := by
    have exact := (sound.ledger p).exact _ (count_eq there)
    have settled : s.debts p = 0 := by
      rw [debts, total_eq_zero]
      intro c mem
      obtain ⟨op, result, rfl⟩ := quiet c mem
      rfl
    omega
  bounds p pool there := by
    have exact := (sound.ledger p).exact _ (count_eq there)
    exact ⟨by omega, sound.count_le there⟩
  deletes i choice p next taken returned := by
    obtain ⟨c, w, c', at_i, stepped, rfl⟩ := step_called taken
    have stepped := callStep_stepped stepped
    have within : i < w.calls.length := by
      rw [stepped.calls]
      exact (List.getElem?_eq_some_iff.mp at_i).1
    have same : c' = poolDeleted p .ok := by
      simpa [setCall, List.getElem?_set, within] using returned
    subst same
    exact sound.vacant (stepped.deletes ▸ at_i)

theorem count_exact {actions : List Action}
    (kept : Run.EachStep step (fun s action => s.Proper action ∧ ¬ s.Rejoins action) init actions) :
    Run.Along step Counted init actions := by
  have sound := Run.along_of_eachStep
    (fun s action next (sound : s.Sound) ⟨proper, first⟩ taken => sound.step proper first taken)
    sound_init kept
  exact sound.mono fun s => Sound.counted

def onlyChoice : Choice := { spurious := false, timedOut := false, creations := 1 }

def oneTask : List Action :=
  [.begin (.poolNew 1 true), .begin (.taskNew true), .begin (.push (some 0) (some 0)),
    .call 2 onlyChoice, .call 2 onlyChoice, .call 2 onlyChoice, .call 2 onlyChoice,
    .worker 0, .worker 0, .worker 0, .worker 0]

def oneJoin : List Action :=
  oneTask ++ [.begin (.timedJoin (some 0)), .call 3 onlyChoice, .begin (.poolDelete (some 0)),
    .call 4 onlyChoice, .call 4 onlyChoice, .worker 0, .call 4 onlyChoice]

def twoJoins : List Action :=
  oneTask ++ [.begin (.timedJoin (some 0)), .call 3 onlyChoice, .begin (.timedJoin (some 0)),
    .call 4 onlyChoice]

theorem count_exact_joined : Run.Along step Counted init oneJoin ∧
    ((Run.exec step init oneJoin).map World.calls).bind (·[4]?) = some (poolDeleted 0 .ok) :=
  ⟨count_exact (by decide), by decide⟩

theorem count_negative : ¬ ∀ actions : List Action,
    Run.EachStep step Proper init actions → Run.Along step Counted init actions := by
  intro all
  have run := (Option.some_get (show (Run.exec step init twoJoins).isSome by decide)).symm
  have bounds := ((all twoJoins (by decide)).last run).bounds
  obtain ⟨notNegative, -⟩ := bounds 0
    { threads := [0], queue := [], maxThreads := 1, taskCount := -1, stopping := false } (by decide)
  exact absurd notNegative (by decide)

end World

end SystemProg.ThreadPool
