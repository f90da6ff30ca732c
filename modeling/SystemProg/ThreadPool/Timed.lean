import SystemProg.ThreadPool.Answers

set_option autoImplicit false

-- One run with a timed join in it, and the same run with a join in its place.

namespace SystemProg.ThreadPool

namespace World

-- What `thread_task_join` leaves in the place of the call that takes the last step: it returns with
-- this step, or with the one behind it that takes the task from the count.
def joinLeaves (s : World) (i : Nat) (t : TaskId) (actions : List Action) (choice : Choice) :
    Option World :=
  (Run.exec step (s.setCall i (.join t)) (actions ++ [.call i choice])).bind fun next =>
    match next.calls[i]? with
    | some (.joinRelease _ _) => next.step (.call i choice)
    | _ => some next

-- In the place of the call `thread_task_join` also returns 0, and leaves the task and the counts as
-- they are in `next`, so that every later call on the task gives the same result.
def AgreesWithJoin (s : World) (i : Nat) (t : TaskId) (actions : List Action) (choice : Choice)
    (next : World) : Prop :=
  ∃ other, s.joinLeaves i t actions choice = some other ∧
    other.calls[i]? = some (joined t .ok) ∧ next.Same t other ∧
      ∀ op, op.task = some t → next.answer op = other.answer op

def Action.isOther (i : Nat) : Action → Bool
  | .call j _ => j ≠ i
  | _ => true

variable {s : World}

theorem timedRelease_withCalls (s : World) (calls : List Call) (t : TaskId) (task : Task) :
    (s.withCalls calls).timedRelease t task =
      (s.timedRelease t task).map fun done => (done.1.withCalls calls, done.2) := by
  unfold timedRelease fetchSub
  cases task.pool with
  | none => rfl
  | some p =>
      dsimp only
      split <;> cases there : s.pools p <;> simp [withCalls, setTask, emit, setPool, there]

theorem callStep_withCalls (s : World) (calls : List Call) (choice : Choice) (c : Call) :
    (s.withCalls calls).callStep choice c =
      (s.callStep choice c).map fun done => (done.1.withCalls calls, done.2) := by
  cases c with
  | returned => rfl
  | pushLoad p t | poolDelete p | poolStop p =>
      simp only [callStep, withCalls]
      cases s.pools p <;> rfl
  | pushTry p t expected =>
      simp only [callStep, pushTry, withCalls]
      split
      · rfl
      · cases s.pools p with
        | none => rfl
        | some pool =>
            dsimp only [Option.map_some]
            split <;> rfl
  | pushCheck p t =>
      simp only [callStep, pushCheck, withCalls]
      cases s.tasks t with
      | none => rfl
      | some task =>
          dsimp only [Option.map_some]
          split <;> rfl
  | pushRollback p t | joinRelease t p =>
      simp only [callStep, fetchSub, withCalls]
      cases s.pools p <;> rfl
  | pushEnqueue p t =>
      simp only [callStep, pushEnqueue, withCalls]
      cases s.pools p <;> rfl
  | join t =>
      simp only [callStep, withCalls]
      cases s.tasks t with
      | none => rfl
      | some task =>
          dsimp only [Option.map_some]
          split
          · rfl
          · unfold joinCheck
            cases task.state <;> rfl
  | joinWait t =>
      simp only [callStep, withCalls]
      cases s.tasks t with
      | none => rfl
      | some task =>
          simp only [Option.map_some, joinCheck]
          cases task.state <;> rfl
  | timedJoin t =>
      simp only [callStep, timedJoin]
      have same : (s.withCalls calls).tasks t = s.tasks t := rfl
      rw [same]
      cases s.tasks t with
      | none => rfl
      | some task =>
          dsimp only
          cases task.state <;> first | rfl | exact timedRelease_withCalls s calls t task
  | timedWait t =>
      simp only [callStep, timedWait]
      have same : (s.withCalls calls).tasks t = s.tasks t := rfl
      rw [same]
      cases s.tasks t with
      | none => rfl
      | some task =>
          dsimp only
          split
          · rfl
          · cases task.state <;> first | rfl | exact timedRelease_withCalls s calls t task
  | detach t =>
      simp only [callStep, detach, withCalls]
      cases s.tasks t with
      | none => rfl
      | some task =>
          dsimp only [Option.map_some]
          split_ifs <;> rfl
  | detachRelease t =>
      simp only [callStep, detachRelease, fetchSub, withCalls]
      cases s.tasks t with
      | none => rfl
      | some task =>
          obtain ⟨pool, state, detached⟩ := task
          cases pool with
          | none => rfl
          | some p => cases there : s.pools p <;> simp [there, setTask, emit, setPool]
  | delete t =>
      simp only [callStep, delete, withCalls]
      cases s.tasks t with
      | none => rfl
      | some task =>
          dsimp only [Option.map_some]
          split <;> rfl
  | deleteFree t | isFinished t | isRunning t =>
      simp only [callStep, deleteFree, withCalls]
      cases s.tasks t <;> rfl
  | poolJoin p =>
      simp only [callStep, poolJoin, withCalls]
      cases s.pools p with
      | none => rfl
      | some pool =>
          dsimp only
          by_cases exited : ∀ w ∈ pool.threads, (s.workers[w]?.map Worker.pc) = some .exited
          · exact (if_pos exited).trans (by rw [if_pos exited]; rfl)
          · exact (if_neg exited).trans (by rw [if_neg exited]; rfl)

theorem workerStep_withCalls (s : World) (calls : List Call) (worker : Worker) :
    (s.withCalls calls).workerStep worker =
      (s.workerStep worker).map fun done => (done.1.withCalls calls, done.2) := by
  obtain ⟨p, pc⟩ := worker
  cases pc with
  | waiting =>
      simp only [workerStep, withCalls]
      cases s.pools p with
      | none => rfl
      | some pool =>
          obtain ⟨threads, queue, limit, count, stopping⟩ := pool
          cases queue with
          | nil => cases stopping <;> rfl
          | cons t rest => rfl
  | taken t | ran t =>
      simp only [workerStep, withCalls]
      cases s.tasks t <;> rfl
  | running t => rfl
  | deleting t taskPool =>
      simp only [workerStep, withCalls, fetchSub]
      cases s.tasks t with
      | none => rfl
      | some task =>
          cases taskPool with
          | none => rfl
          | some p => cases there : s.pools p <;> simp [there, setTask, emit, setPool]
  | exited => rfl

theorem begin_withCalls (s : World) (calls : List Call) (op : Op) :
    (s.withCalls calls).begin op = ((s.begin op).1.withCalls calls, (s.begin op).2) := by
  cases op with
  | poolNew threadCount out =>
      simp only [begin]
      split <;> rfl
  | taskNew out =>
      simp only [begin]
      split <;> rfl
  | push pool task => cases pool <;> cases task <;> rfl
  | poolDelete arg | isFinished arg | isRunning arg | join arg | timedJoin arg | taskDelete arg
  | detach arg => cases arg <;> rfl

-- What another call or a worker does, it also does beside a different `i`-th call.
theorem step_setCall {next : World} {a : Action} {i : Nat} (inside : i < s.calls.length)
    (other : a.isOther i) (taken : s.step a = some next) (c : Call) :
    (s.setCall i c).step a = some (next.setCall i c) ∧ next.calls[i]? = s.calls[i]? := by
  have changed : s.setCall i c = s.withCalls (s.calls.set i c) := rfl
  cases a with
  | begin op =>
      have begun : (s.begin op).1.withCalls (s.calls ++ [(s.begin op).2]) = next :=
        Option.some.inj taken
      subst begun
      rw [changed]
      refine ⟨?_, List.getElem?_append_left inside⟩
      rw [step, begin_withCalls]
      refine congrArg some ?_
      change (s.begin op).1.withCalls (s.calls.set i c ++ [(s.begin op).2]) =
        (s.begin op).1.withCalls ((s.calls ++ [(s.begin op).2]).set i c)
      rw [List.set_append_left _ _ inside]
  | worker w =>
      obtain ⟨worker, w', pc, at_w, stepped, rfl⟩ := step_worked taken
      have calls : w'.calls = s.calls := by
        have framed := workerStep_withCalls s s.calls worker
        change s.workerStep worker = _ at framed
        rw [stepped] at framed
        have same := congrArg World.calls (Prod.mk.inj (Option.some.inj framed)).1
        exact same
      refine ⟨?_, by rw [setWorker, calls]⟩
      rw [changed, step]
      change (s.workers[w]?).bind _ = _
      rw [at_w, Option.bind_some, workerStep_withCalls, stepped]
      change some _ = some _
      simp only [setCall, setWorker, withCalls, calls]
  | call j choice =>
      obtain ⟨cj, w', c', at_j, stepped, rfl⟩ := step_called taken
      have apart : j ≠ i := by simpa [Action.isOther] using other
      have calls : w'.calls = s.calls := (callStep_stepped stepped).calls
      refine ⟨?_, ?_⟩
      · rw [changed, step]
        change ((s.calls.set i c)[j]?).bind _ = _
        rw [List.getElem?_set_ne apart.symm, at_j, Option.bind_some, callStep_withCalls, stepped]
        change some _ = some _
        simp only [setCall, withCalls, calls]
        rw [List.set_comm _ _ apart.symm]
      · rw [setCall, calls, List.getElem?_set_ne apart]

inductive TimedStepped (s : World) (t : TaskId) : Call → World → Call → Prop where
  | refuses (task : Task) (there : s.tasks t = some task) (state : task.state = .new) :
      TimedStepped s t (.timedJoin t) s (timedJoined t .taskNotPushed)
  | waits (c : Call) (task : Task) (there : s.tasks t = some task)
      (busy : task.state ≠ .finished ∧ task.state ≠ .joined)
      (pushed : c = .timedJoin t → task.state ≠ .new) : TimedStepped s t c s (.timedWait t)
  | timesOut : TimedStepped s t (.timedWait t) s (timedJoined t .timeout)
  | again (task : Task) (there : s.tasks t = some task) (state : task.state = .joined) :
      TimedStepped s t (.timedWait t) s (timedJoined t .ok)
  | releases (c : Call) (task : Task) (p : PoolId) (pool : Pool) (w : World)
      (there : s.tasks t = some task)
      (state : task.state = .finished ∨ c = .timedJoin t ∧ task.state = .joined)
      (taskPool : task.pool = some p) (there' : s.pools p = some pool)
      (task' : w.tasks t = some { task with state := .joined })
      (count : w.count p = some (pool.taskCount - 1)) : TimedStepped s t c w (timedJoined t .ok)

theorem timedRelease_releases {c c' : Call} {t : TaskId} {task : Task} {w : World}
    (there : s.tasks t = some task)
    (state : task.state = .finished ∨ c = .timedJoin t ∧ task.state = .joined)
    (released : s.timedRelease t task = some (w, c')) : s.TimedStepped t c w c' := by
  unfold timedRelease at released
  split at released
  · cases released
  · next p taskPool =>
      rw [Option.map_eq_some_iff] at released
      obtain ⟨w', fetched, same⟩ := released
      cases same
      obtain ⟨pool, there', rfl⟩ := fetchSub_eq fetched
      have pools : s.pools p = some pool := by
        split at there' <;> exact there'
      refine .releases c task p pool _ there state taskPool pools ?_ ?_
      · split <;> exact Function.update_self ..
      · rw [setPool_count, if_pos rfl, Option.map_some]

theorem timed_stepped {c c' : Call} {t : TaskId} {choice : Choice} {w : World}
    (timed : c = .timedJoin t ∨ c = .timedWait t) (stepped : s.callStep choice c = some (w, c')) :
    s.TimedStepped t c w c' := by
  rcases timed with rfl | rfl
  · change s.timedJoin t = _ at stepped
    unfold timedJoin at stepped
    split at stepped
    · cases stepped
    · next task there =>
        split at stepped
        · next state =>
            cases stepped
            exact .refuses task there state
        · next state => exact timedRelease_releases there (Or.inl state) stepped
        · next state => exact timedRelease_releases there (Or.inr ⟨rfl, state⟩) stepped
        · next notNew notFinished notJoined =>
            cases stepped
            exact .waits _ task there ⟨notFinished, notJoined⟩ fun _ => notNew
  · change s.timedWait t choice.timedOut = _ at stepped
    unfold timedWait at stepped
    split at stepped
    · cases stepped
    · next task there =>
        split at stepped
        · cases stepped
          exact .timesOut
        · split at stepped
          · next state => exact timedRelease_releases there (Or.inl state) stepped
          · next state =>
              cases stepped
              exact .again task there state
          · next notFinished notJoined =>
              cases stepped
              exact .waits _ task there ⟨notFinished, notJoined⟩ (by simp)

-- The join that stands where the timed join stands.
def beside : Call → Call
  | .timedJoin t => .join t
  | .timedWait t => .joinWait t
  | c => c

theorem step_call {i : Nat} {choice : Choice} {c c' : Call} {w : World}
    (there : s.calls[i]? = some c) (stepped : s.callStep choice c = some (w, c')) :
    s.step (.call i choice) = some (w.setCall i c') := by
  rw [step, there, Option.bind_some, stepped, Option.map_some]

theorem setCall_setCall (i : Nat) (c d : Call) : (s.setCall i c).setCall i d = s.setCall i d := by
  rw [setCall, setCall, setCall]
  dsimp only
  rw [List.set_set]

theorem returned_step {i : Nat} {choice : Choice} {op : Op} {result : Result}
    (there : s.calls[i]? = some (.returned op result)) : s.step (.call i choice) = none := by
  rw [step, there]
  rfl

variable {i : Nat} {t : TaskId} {next last : World} {actions : List Action} {choice : Choice}

theorem timed_step {c : Call} (there : s.calls[i]? = some c)
    (timed : c = .timedJoin t ∨ c = .timedWait t) (taken : s.step (.call i choice) = some next) :
    ∃ w c', s.TimedStepped t c w c' ∧ w.calls = s.calls ∧ next = w.setCall i c' := by
  obtain ⟨d, w, c', there', stepped, rfl⟩ := step_called taken
  cases there.symm.trans there'
  exact ⟨w, c', timed_stepped timed stepped, (callStep_stepped stepped).calls, rfl⟩

theorem Action.not_isOther {a : Action} (own : ¬a.isOther i = true) :
    ∃ choice, a = .call i choice := by
  cases a with
  | begin | worker => simp [Action.isOther] at own
  | call j choice =>
      have same : j = i := by simpa [Action.isOther] using own
      exact ⟨choice, by rw [same]⟩

theorem exec_timed (called : ∃ c, s.calls[i]? = some c ∧ (c = .timedJoin t ∨ c = .timedWait t))
    (run : Run.exec step s actions = some last) :
    (∃ c, last.calls[i]? = some c ∧ (c = .timedJoin t ∨ c = .timedWait t)) ∨
      ∃ code, last.calls[i]? = some (timedJoined t code) := by
  refine Run.exec_invariant (fun s => (∃ c, s.calls[i]? = some c ∧
    (c = .timedJoin t ∨ c = .timedWait t)) ∨ ∃ code, s.calls[i]? = some (timedJoined t code))
    ?_ (Or.inl called) run
  intro s a next place taken
  have inside : i < s.calls.length := by
    rcases place with ⟨c, there, -⟩ | ⟨code, there⟩ <;>
      exact (List.getElem?_eq_some_iff.mp there).1
  by_cases other : a.isOther i
  · rw [(step_setCall inside other taken (.join t)).2]
    exact place
  · obtain ⟨choice, rfl⟩ := Action.not_isOther other
    rcases place with ⟨c, there, timed⟩ | ⟨code, there⟩
    · obtain ⟨w, c', stepped, calls, rfl⟩ := timed_step there timed taken
      rw [← calls] at there
      rw [setCall_at there]
      cases stepped with
      | waits => exact Or.inl ⟨_, rfl, Or.inr rfl⟩
      | refuses | timesOut | again | releases => exact Or.inr ⟨_, rfl⟩
    · rw [timedJoined] at there
      rw [returned_step there] at taken
      cases taken

theorem returned_stays {code : Code} (there : s.calls[i]? = some (timedJoined t code))
    (run : Run.exec step s actions = some last) :
    last.calls[i]? = some (timedJoined t code) := by
  refine Run.exec_invariant (fun s => s.calls[i]? = some (timedJoined t code)) ?_ there run
  intro s a next there taken
  by_cases other : a.isOther i
  · rw [(step_setCall (List.getElem?_eq_some_iff.mp there).1 other taken (.join t)).2]
    exact there
  · obtain ⟨choice, rfl⟩ := Action.not_isOther other
    rw [timedJoined] at there
    rw [returned_step there] at taken
    cases taken

theorem join_waits {c : Call} (timed : c = .timedJoin t ∨ c = .timedWait t) {task : Task}
    (there : s.tasks t = some task) (busy : task.state ≠ .finished ∧ task.state ≠ .joined)
    (pushed : c = .timedJoin t → task.state ≠ .new) :
    s.callStep choice (beside c) = some (s, .joinWait t) := by
  have check : s.joinCheck t task = (s, .joinWait t) := by
    unfold joinCheck
    split
    · next state => exact absurd state busy.1
    · next state => exact absurd state busy.2
    · rfl
  rcases timed with rfl | rfl
  · rw [beside, callStep, there, Option.map_some, if_neg (pushed rfl), check]
  · rw [beside, callStep, there, Option.map_some, check]

theorem exec_beside {c c' : Call} (run : Run.exec step s actions = some last)
    (first : s.calls[i]? = some c) (timed : c = .timedJoin t ∨ c = .timedWait t)
    (at_last : last.calls[i]? = some c') (timed' : c' = .timedJoin t ∨ c' = .timedWait t) :
    Run.exec step (s.setCall i (beside c)) actions = some (last.setCall i (beside c')) ∧
      ∀ d, Run.exec step (s.setCall i d) (actions.filter (Action.isOther i)) =
        some (last.setCall i d) := by
  induction actions generalizing s c with
  | nil =>
      cases run
      cases first.symm.trans at_last
      exact ⟨rfl, fun d => rfl⟩
  | cons a rest ih =>
      obtain ⟨next, taken, finished⟩ := (Run.exec_cons _ _ _ _).mp run
      have inside : i < s.calls.length := (List.getElem?_eq_some_iff.mp first).1
      by_cases other : a.isOther i
      · have along := step_setCall inside other taken
        obtain ⟨join, rest'⟩ := ih finished ((along c).2.trans first) timed
        refine ⟨(Run.exec_cons _ _ _ _).mpr ⟨_, (along _).1, join⟩, fun d => ?_⟩
        rw [List.filter_cons_of_pos other]
        exact (Run.exec_cons _ _ _ _).mpr ⟨_, (along d).1, rest' d⟩
      · obtain ⟨choice, rfl⟩ := Action.not_isOther other
        rw [List.filter_cons_of_neg other]
        obtain ⟨w, c'', stepped, calls, rfl⟩ := timed_step first timed taken
        have returned : ∀ code, c'' ≠ timedJoined t code := by
          rintro code rfl
          have stays := returned_stays (setCall_at (calls ▸ first) _) finished
          rw [at_last] at stays
          rcases timed' with rfl | rfl <;> cases stays
        cases stepped with
        | refuses | timesOut | again | releases => exact absurd rfl (returned _)
        | waits _ task there busy pushed =>
            obtain ⟨join, rest'⟩ := ih finished (setCall_at first _) (Or.inr rfl)
            rw [setCall_setCall] at join
            refine ⟨(Run.exec_cons _ _ _ _).mpr ⟨_, ?_, join⟩, fun d => ?_⟩
            · have joins : (s.setCall i (beside c)).callStep choice (beside c) =
                  some (s.setCall i (beside c), .joinWait t) :=
                join_waits timed there busy pushed
              rw [step_call (setCall_at first _) joins, setCall_setCall]
              rfl
            · have later := rest' d
              rw [setCall_setCall] at later
              exact later

theorem joinLeaves_eq {c : Call} (first : s.calls[i]? = some (.timedJoin t))
    (run : Run.exec step s actions = some last) (at_last : last.calls[i]? = some c)
    (timed : c = .timedJoin t ∨ c = .timedWait t) : s.joinLeaves i t actions choice =
      ((last.setCall i (beside c)).step (.call i choice)).bind fun next =>
        match next.calls[i]? with
        | some (.joinRelease _ _) => next.step (.call i choice)
        | _ => some next := by
  have along := (exec_beside run first (Or.inl rfl) at_last timed).1
  rw [beside] at along
  rw [joinLeaves]
  congr 1
  cases stepped : (last.setCall i (beside c)).step (.call i choice) with
  | some next =>
      exact (Run.exec_append _ _ _ _).mpr
        ⟨_, along, (Run.exec_cons _ _ _ _).mpr ⟨_, stepped, rfl⟩⟩
  | none =>
      cases ran : Run.exec step (s.setCall i (.join t)) (actions ++ [.call i choice]) with
      | none => rfl
      | some next =>
          obtain ⟨middle, front, back⟩ := (Run.exec_append _ _ _ _).mp ran
          cases along.symm.trans front
          obtain ⟨next', taken, -⟩ := (Run.exec_cons _ _ _ _).mp back
          rw [stepped] at taken
          cases taken

theorem join_again {c : Call} (timed : c = .timedJoin t ∨ c = .timedWait t) {task : Task}
    (there : s.tasks t = some task) (state : task.state = .joined) :
    s.callStep choice (beside c) = some (s, joined t .ok) := by
  have check : s.joinCheck t task = (s, joined t .ok) := by rw [joinCheck, state]
  rcases timed with rfl | rfl
  · rw [beside, callStep, there, Option.map_some, if_neg (by rw [state]; simp), check]
  · rw [beside, callStep, there, Option.map_some, check]

theorem joinLeaves_again {c : Call} (first : s.calls[i]? = some (.timedJoin t))
    (run : Run.exec step s actions = some last) (at_last : last.calls[i]? = some c)
    (timed : c = .timedJoin t ∨ c = .timedWait t) {task : Task}
    (there : last.tasks t = some task) (state : task.state = .joined) :
    s.joinLeaves i t actions choice = some (last.setCall i (joined t .ok)) := by
  have stepped : (last.setCall i (beside c)).callStep choice (beside c) =
      some (last.setCall i (beside c), joined t .ok) :=
    join_again timed there state
  rw [joinLeaves_eq first run at_last timed, step_call (setCall_at at_last _) stepped,
    Option.bind_some, setCall_setCall, setCall_at at_last]
  rfl

theorem joinLeaves_finished {c : Call} (first : s.calls[i]? = some (.timedJoin t))
    (run : Run.exec step s actions = some last) (at_last : last.calls[i]? = some c)
    (timed : c = .timedJoin t ∨ c = .timedWait t) {task : Task}
    (there : last.tasks t = some task) (state : task.state = .finished) {other : World}
    (left : s.joinLeaves i t actions choice = some other) :
    other.tasks t = some { task with state := .joined, pool := none } := by
  have stepped : (last.setCall i (beside c)).callStep choice (beside c) =
      some ((last.setCall i (beside c)).joinCheck t task) := by
    have there' : (last.setCall i (beside c)).tasks t = some task := there
    rcases timed with rfl | rfl
    · rw [beside, callStep, ← beside, there', Option.map_some, if_neg (by rw [state]; simp)]
    · rw [beside, callStep, ← beside, there', Option.map_some]
  have tasks : ((last.setCall i (beside c)).joinCheck t task).1.tasks t =
      some { task with state := .joined, pool := none } := by
    rw [joinCheck, state]
    exact Function.update_self ..
  rw [joinLeaves_eq first run at_last timed, step_call (setCall_at at_last _) stepped,
    Option.bind_some] at left
  split at left
  · next t' p at_i =>
      obtain ⟨d, w', d', there', released, rfl⟩ := step_called left
      cases at_i.symm.trans there'
      rw [callStep, Option.map_eq_some_iff] at released
      obtain ⟨w'', fetched, same⟩ := released
      cases same
      obtain ⟨pool, -, rfl⟩ := fetchSub_eq fetched
      exact tasks
  · cases left
    exact tasks

def FindsJoined (s : World) (i : Nat) (t : TaskId) : Prop :=
  s.calls[i]? = some (.timedWait t) ∧ ∃ task, s.tasks t = some task ∧ task.state = .joined

theorem agreesWithJoin_iff (first : s.calls[i]? = some (.timedJoin t))
    (run : Run.exec step s actions = some last) (taken : last.step (.call i choice) = some next)
    (ok : next.calls[i]? = some (timedJoined t .ok)) :
    s.AgreesWithJoin i t actions choice next ↔ last.FindsJoined i t := by
  rcases exec_timed ⟨_, first, Or.inl rfl⟩ run with ⟨c, at_last, timed⟩ | ⟨code, at_last⟩
  · obtain ⟨w, c', stepped, calls, rfl⟩ := timed_step at_last timed taken
    rw [setCall_at (calls ▸ at_last)] at ok
    cases stepped with
    | refuses | waits | timesOut => cases ok
    | again task there state =>
        have same : (last.setCall i (timedJoined t .ok)).Same t (last.setCall i (joined t .ok)) :=
          ⟨rfl, fun p => rfl⟩
        exact iff_of_true ⟨_, joinLeaves_again first run at_last timed there state,
          setCall_at at_last _, same, fun op about => same.answer about⟩
          ⟨at_last, task, there, state⟩
    | releases _ task p pool _ there state taskPool there' task' count =>
        refine iff_of_false ?_ ?_
        · rintro ⟨other, left, -, same, -⟩
          rcases state with state | ⟨-, state⟩
          · have tasks := same.task
            rw [joinLeaves_finished first run at_last timed there state left] at tasks
            change w.tasks t = _ at tasks
            rw [task', Option.some.injEq, Task.mk.injEq, taskPool] at tasks
            cases tasks.1
          · rw [joinLeaves_again first run at_last timed there state] at left
            cases left
            have counts := same.count p
            change w.count p = last.count p at counts
            rw [count, World.count, there', Option.map_some, Option.some.injEq] at counts
            omega
        · rintro ⟨at_last', task'', there'', state'⟩
          cases there.symm.trans there''
          rcases state with state | ⟨rfl, -⟩
          · rw [state] at state'
            cases state'
          · cases at_last.symm.trans at_last'
  · rw [timedJoined] at at_last
    rw [returned_step at_last] at taken
    cases taken

theorem timesOut_unchanged (first : s.calls[i]? = some (.timedJoin t))
    (run : Run.exec step s actions = some last) (taken : last.step (.call i choice) = some next)
    (timeout : next.calls[i]? = some (timedJoined t .timeout)) (d : Call) :
    Run.exec step (s.setCall i d) (actions.filter (Action.isOther i)) =
      some (next.setCall i d) := by
  rcases exec_timed ⟨_, first, Or.inl rfl⟩ run with ⟨c, at_last, timed⟩ | ⟨code, at_last⟩
  · obtain ⟨w, c', stepped, calls, rfl⟩ := timed_step at_last timed taken
    rw [setCall_at (calls ▸ at_last)] at timeout
    cases stepped with
    | refuses | waits | again | releases => cases timeout
    | timesOut =>
        rw [setCall_setCall]
        exact (exec_beside run first (Or.inl rfl) at_last timed).2 d
  · rw [timedJoined] at at_last
    rw [returned_step at_last] at taken
    cases taken

theorem timedJoin_agrees_iff (called : s.calls[i]? = some (.timedJoin t))
    (run : Run.exec step s (actions ++ [.call i choice]) = some next) :
    (next.calls[i]? = some (timedJoined t .ok) →
      (s.AgreesWithJoin i t actions choice next ↔
        ∀ last, Run.exec step s actions = some last → last.FindsJoined i t)) ∧
    (next.calls[i]? = some (timedJoined t .timeout) → ∀ d,
      Run.exec step (s.setCall i d) (actions.filter (Action.isOther i)) =
        some (next.setCall i d)) := by
  obtain ⟨last, front, back⟩ := (Run.exec_append _ _ _ _).mp run
  obtain ⟨next', taken, same⟩ := (Run.exec_cons _ _ _ _).mp back
  cases same
  refine ⟨fun ok => ?_, fun timeout => timesOut_unchanged called front taken timeout⟩
  rw [agreesWithJoin_iff called front taken ok, front]
  simp

def runningJoin : List Action := oneTask.dropLast.dropLast ++ [.begin (.timedJoin (some 0))]

-- It waits, another thread joins the task, and it wakes up.
def othersJoin : List Action :=
  [.call 3 onlyChoice, .begin (.join (some 0)), .call 4 onlyChoice, .worker 0, .worker 0,
    .call 4 onlyChoice, .call 4 onlyChoice]

theorem timedJoin_agrees_woken : ∃ s, Run.exec step init runningJoin = some s ∧
    (∃ next, Run.exec step s (othersJoin ++ [.call 3 onlyChoice]) = some next ∧
      s.AgreesWithJoin 3 0 othersJoin onlyChoice next) ∧
    ∃ next, Run.exec step s ([.call 3 onlyChoice] ++ [.call 3 { onlyChoice with timedOut := true }]) =
      some next ∧ ∀ d, Run.exec step (s.setCall 3 d) [] = some (next.setCall 3 d) := by
  obtain ⟨s, before⟩ := Option.isSome_iff_exists.mp
    (show (Run.exec step init runningJoin).isSome by decide)
  have calls : (Run.exec step init runningJoin).bind (fun s => s.calls[3]?) =
      some (.timedJoin 0) := by decide
  have joins : (Run.exec step init runningJoin).bind (fun s =>
      (Run.exec step s (othersJoin ++ [.call 3 onlyChoice])).bind fun next => next.calls[3]?) =
        some (timedJoined 0 .ok) := by decide
  have gives : (Run.exec step init runningJoin).bind (fun s =>
      (Run.exec step s ([.call 3 onlyChoice] ++
        [.call 3 { onlyChoice with timedOut := true }])).bind fun next => next.calls[3]?) =
          some (timedJoined 0 .timeout) := by decide
  have finds : (Run.exec step init runningJoin).bind (fun s =>
      (Run.exec step s othersJoin).map fun last =>
        (last.calls[3]?, (last.tasks 0).map Task.state)) =
          some (some (.timedWait 0), some .joined) := by decide
  rw [before, Option.bind_some] at calls joins gives finds
  obtain ⟨next, run, ok⟩ := Option.bind_eq_some_iff.mp joins
  obtain ⟨next', run', timeout⟩ := Option.bind_eq_some_iff.mp gives
  refine ⟨s, before, ⟨next, run, ?_⟩, next', run', (timedJoin_agrees_iff calls run').2 timeout⟩
  refine ((timedJoin_agrees_iff calls run).1 ok).mpr fun last reached => ?_
  rw [reached, Option.map_some, Option.some_inj, Prod.mk.injEq] at finds
  obtain ⟨waits, state⟩ := finds
  exact ⟨waits, Option.map_eq_some_iff.mp state⟩

def oneTimedJoin : List Action := oneTask ++ [.begin (.timedJoin (some 0))]

theorem timedJoin_keeps_pool : ∃ s next, Run.exec step init oneTimedJoin = some s ∧
    s.calls[3]? = some (.timedJoin 0) ∧ Run.exec step s [.call 3 onlyChoice] = some next ∧
      next.calls[3]? = some (timedJoined 0 .ok) ∧ ¬s.AgreesWithJoin 3 0 [] onlyChoice next := by
  obtain ⟨s, before⟩ := Option.isSome_iff_exists.mp
    (show (Run.exec step init oneTimedJoin).isSome by decide)
  have calls : (Run.exec step init oneTimedJoin).bind (fun s => s.calls[3]?) =
      some (.timedJoin 0) := by decide
  have returns : (Run.exec step init oneTimedJoin).bind (fun s =>
      (s.step (.call 3 onlyChoice)).bind fun next => next.calls[3]?) =
        some (timedJoined 0 .ok) := by decide
  rw [before, Option.bind_some] at calls returns
  obtain ⟨next, taken, ok⟩ := Option.bind_eq_some_iff.mp returns
  refine ⟨s, next, before, calls, by simp [Run.exec, taken], ok, fun agrees => ?_⟩
  have waits := ((agreesWithJoin_iff calls rfl taken ok).mp agrees).1
  cases calls.symm.trans waits

end World

end SystemProg.ThreadPool
