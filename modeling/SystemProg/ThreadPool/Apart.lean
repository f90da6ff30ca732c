import SystemProg.ThreadPool.Counts
import SystemProg.ThreadPool.Turns

set_option autoImplicit false

namespace SystemProg.ThreadPool

namespace Call

-- The call is going to use or to delete the task.
def uses (t : TaskId) (c : Call) : Nat := c.visits t + c.frees t + c.deletes t

end Call

namespace Event

def task : Event → TaskId
  | .accepted _ t | .started t | .ended t | .joined _ t | .autoDeleted _ t | .deleted t => t

def destroys (t : TaskId) : Event → Nat
  | .autoDeleted _ t' | .deleted t' => if t' = t then 1 else 0
  | _ => 0

end Event

namespace Worker

def Holds (t : TaskId) (worker : Worker) : Prop :=
  worker.pc = .taken t ∨ worker.pc = .running t ∨ worker.pc = .ran t ∨
    ∃ q, worker.pc = .deleting t q

def buries (t : TaskId) (worker : Worker) : Nat :=
  match worker.pc with
  | .deleting t' _ => if t' = t then 1 else 0
  | _ => 0

theorem kills_le_buries (p : PoolId) (t : TaskId) (worker : Worker) :
    worker.kills p t ≤ worker.buries t := by
  unfold kills
  split
  · next pc => simp [buries, pc]
  · exact Nat.zero_le _

end Worker

namespace World

def timesDestroyed (s : World) (t : TaskId) : Nat := total (Event.destroys t) s.log

variable {s w : World} {t : TaskId}

theorem emit_timesDestroyed (s : World) (event : Event) (t : TaskId) :
    (s.emit event).timesDestroyed t = s.timesDestroyed t + event.destroys t := by
  simp [timesDestroyed, emit]

structure Away (s w : World) (t : TaskId) : Prop where
  task : w.tasks t = s.tasks t
  made : s.tasksMade ≤ w.tasksMade
  log : ∃ events, w.log = s.log ++ events ∧ ∀ e ∈ events, e.task ≠ t
  hands : ∀ weight : Worker → Nat,
    (∀ worker, worker.pc ≠ .ran t → (∀ q, worker.pc ≠ .deleting t q) → weight worker = 0) →
      total weight w.workers = total weight s.workers

theorem away_refl (s : World) (t : TaskId) : s.Away s t where
  task := rfl
  made := Nat.le_refl _
  log := ⟨[], by simp, by simp⟩
  hands _ _ := rfl

theorem Away.setPool (away : s.Away w t) (p : PoolId) (pool : Option Pool) :
    s.Away (w.setPool p pool) t :=
  ⟨away.task, away.made, away.log, away.hands⟩

theorem Away.setTask (away : s.Away w t) {t' : TaskId} (other : t' ≠ t) (task : Option Task) :
    s.Away (w.setTask t' task) t where
  task := by rw [setTask_tasks, if_neg (Ne.symm other), away.task]
  made := away.made
  log := away.log
  hands := away.hands

theorem Away.emit (away : s.Away w t) {event : Event} (other : event.task ≠ t) :
    s.Away (w.emit event) t where
  task := away.task
  made := away.made
  log := by
    obtain ⟨events, log, apart⟩ := away.log
    refine ⟨events ++ [event], by rw [World.emit, log, List.append_assoc], fun e member => ?_⟩
    rcases List.mem_append.mp member with old | new
    · exact apart e old
    · rw [List.mem_singleton.mp new]
      exact other
  hands := away.hands

theorem Away.setCall (away : s.Away w t) (i : Nat) (c : Call) : s.Away (w.setCall i c) t :=
  ⟨away.task, away.made, away.log, away.hands⟩

theorem Away.setWorker (away : s.Away w t) {i : WorkerId} {worker worker' : Worker}
    (there : w.workers[i]? = some worker)
    (before : worker.pc ≠ .ran t ∧ ∀ q, worker.pc ≠ .deleting t q)
    (after : worker'.pc ≠ .ran t ∧ ∀ q, worker'.pc ≠ .deleting t q) :
    s.Away (w.setWorker i worker') t where
  task := away.task
  made := away.made
  log := away.log
  hands weight nothing := by
    obtain ⟨moved, -⟩ := total_set weight there worker'
    rw [nothing worker before.1 before.2, nothing worker' after.1 after.2] at moved
    exact moved.trans (away.hands weight nothing)

theorem away_log {events : List Event} (apart : ∀ e ∈ events, e.task ≠ t) :
    total (Event.destroys t) events = 0 ∧ total (Event.accepts t) events = 0 ∧
      total (Event.ends t) events = 0 := by
  simp only [total_eq_zero]
  refine ⟨fun e member => ?_, fun e member => ?_, fun e member => ?_⟩ <;>
    have other := apart e member <;>
    cases e <;> simp_all [Event.destroys, Event.accepts, Event.ends, Event.task]

theorem Away.counts (away : s.Away w t) : w.timesDestroyed t = s.timesDestroyed t ∧
    w.timesPushed t = s.timesPushed t ∧ w.timesReturned t = s.timesReturned t := by
  obtain ⟨events, log, apart⟩ := away.log
  obtain ⟨destroys, accepts, ends⟩ := away_log apart
  simp [timesDestroyed, timesPushed, timesReturned, log, destroys, accepts, ends]

theorem CallStepped.away {c c' : Call} (stepped : s.CallStepped c w c') (apart : c.uses t = 0) :
    s.Away w t ∧ c'.uses t = 0 := by
  cases stepped with
  | accepts p t' task there free idle =>
      have other : t' ≠ t := by simpa [Call.uses, Call.visits, Call.frees, Call.deletes] using apart
      exact ⟨((away_refl s t).setTask other _).emit other, rfl⟩
  | enqueues p t' creations pool pool' workers there started =>
      obtain ⟨k, same⟩ :=
        startThreads_eq p creations { pool with queue := pool.queue ++ [t'] } s.workers
      rw [started] at same
      cases same
      refine ⟨⟨rfl, Nat.le_refl _, ⟨[], (List.append_nil _).symm, by simp⟩, ?_⟩, rfl⟩
      intro weight nothing
      exact total_hired weight (nothing _ (by simp) (by simp)) s.workers k
  | joins _ t' task p joining there state pool =>
      have other : t' ≠ t := by
        rcases joining with rfl | rfl <;>
          simpa [Call.uses, Call.visits, Call.frees, Call.deletes] using apart
      exact ⟨((away_refl s t).setTask other _).emit other, rfl⟩
  | joinsAlone _ t' task joining there state pool =>
      have other : t' ≠ t := by
        rcases joining with rfl | rfl <;>
          simpa [Call.uses, Call.visits, Call.frees, Call.deletes] using apart
      exact ⟨((away_refl s t).setTask other _).emit other, rfl⟩
  | timedJoins _ t' task p pool joining there state taskPool there' =>
      have other : t' ≠ t := by
        rcases joining with rfl | rfl <;>
          simpa [Call.uses, Call.visits, Call.frees, Call.deletes] using apart
      exact ⟨(((away_refl s t).setTask other _).emit (by exact other)).setPool _ _, rfl⟩
  | timedRejoins t' task p pool there state taskPool there' =>
      have other : t' ≠ t := by simpa [Call.uses, Call.visits, Call.frees, Call.deletes] using apart
      exact ⟨((away_refl s t).setTask other _).setPool _ _, rfl⟩
  | detaches t' task there pool busy =>
      have other : t' ≠ t := by simpa [Call.uses, Call.visits, Call.frees, Call.deletes] using apart
      exact ⟨(away_refl s t).setTask other _, rfl⟩
  | detachReleases t' task p pool there taskPool there' =>
      have other : t' ≠ t := by simpa [Call.uses, Call.visits, Call.frees, Call.deletes] using apart
      exact ⟨(((away_refl s t).setTask other _).emit (by exact other)).setPool _ _, rfl⟩
  | deleteFrees t' task there =>
      have other : t' ≠ t := by simpa [Call.uses, Call.visits, Call.frees, Call.deletes] using apart
      exact ⟨((away_refl s t).setTask other _).emit other, rfl⟩
  | reserves | rollsBack | joinReleases | poolStops | poolEnds =>
      refine ⟨(away_refl s t).setPool _ _, ?_⟩
      simp_all [Call.uses, Call.visits, Call.frees, Call.deletes, pushed, joined, poolDeleted]
  | joinWaits _ t' task joining | joinAgain _ t' task joining | timedWaits _ t' task joining =>
      refine ⟨away_refl s t, ?_⟩
      rcases joining with rfl | rfl <;>
        simp_all [Call.uses, Call.visits, Call.frees, Call.deletes, joined]
  | _ =>
      refine ⟨away_refl s t, ?_⟩
      simp_all [Call.uses, Call.visits, Call.frees, Call.deletes, pushed, joined, timedJoined,
        detached, deleted, poolDeleted]

theorem WorkerStepped.away {worker : Worker} {pc : WorkerPc}
    (stepped : s.WorkerStepped worker w pc) (apart : ¬worker.Holds t) {i : WorkerId}
    (there : s.workers[i]? = some worker) : s.Away (w.setWorker i { worker with pc := pc }) t := by
  have other : ∀ {t'}, worker.pc = .taken t' ∨ worker.pc = .running t' ∨ worker.pc = .ran t' ∨
      (∃ q, worker.pc = .deleting t' q) → t' ≠ t := by
    rintro t' holds rfl
    exact apart holds
  have before : worker.pc ≠ .ran t ∧ ∀ q, worker.pc ≠ .deleting t q :=
    ⟨fun same => apart (Or.inr (Or.inr (Or.inl same))),
      fun q same => apart (Or.inr (Or.inr (Or.inr ⟨q, same⟩)))⟩
  cases stepped with
  | waits | exits => exact (away_refl s t).setWorker there before (by simp)
  | takes => exact ((away_refl s t).setPool _ _).setWorker there before (by simp)
  | starts t' task atPc found =>
      have apart' := other (Or.inl atPc)
      exact (((away_refl s t).setTask apart' _).emit (by exact apart')).setWorker there before
        (by simp)
  | ends t' atPc =>
      have apart' := other (Or.inr (Or.inl atPc))
      exact ((away_refl s t).emit (by exact apart')).setWorker there before (by simp [apart'])
  | finishes t' task atPc found =>
      have apart' := other (Or.inr (Or.inr (Or.inl atPc)))
      refine ((away_refl s t).setTask apart' _).setWorker there before ⟨?_, fun q same => ?_⟩
      · dsimp only
        split <;> simp
      · dsimp only at same
        split at same
        · cases same
          exact apart' rfl
        · cases same
  | deletes t' task p pool atPc found found' =>
      have apart' := other (Or.inr (Or.inr (Or.inr ⟨_, atPc⟩)))
      exact ((((away_refl s t).setTask apart' _).emit (by exact apart')).setPool _ _).setWorker
        there before (by simp)

theorem begin_uses {op : Op} (other : op.task ≠ some t) : (s.begin op).2.uses t = 0 := by
  cases op with
  | poolNew | taskNew =>
      unfold begin
      dsimp only
      split <;> rfl
  | push pool task =>
      cases pool <;> cases task <;>
        simp_all [begin, Op.task, Call.uses, Call.visits, Call.frees, Call.deletes]
  | poolDelete arg | isFinished arg | isRunning arg | join arg | timedJoin arg | taskDelete arg
  | detach arg =>
      cases arg <;> simp_all [begin, Op.task, Call.uses, Call.visits, Call.frees, Call.deletes]

theorem begin_away (op : Op) (made : t < s.tasksMade) : s.Away (s.begin op).1 t := by
  obtain ⟨-, same | ⟨n, -, -, same⟩ | same⟩ := begin_effect s op <;> rw [same]
  · exact away_refl s t
  · have set := (away_refl s t).setPool s.poolsMade
      (some { threads := [], queue := [], maxThreads := n, taskCount := 0, stopping := false })
    exact ⟨set.task, set.made, set.log, set.hands⟩
  · have set := (away_refl s t).setTask (Nat.ne_of_gt made)
      (some { pool := none, state := .new, detached := false })
    exact ⟨set.task, Nat.le_succ _, set.log, set.hands⟩

end World

end SystemProg.ThreadPool
