import SystemProg.IoCore.Sound

set_option autoImplicit false

-- An operation makes its system call when it is started and at each event. It gives a result, or
-- the descriptor is not ready any more, and then the task does not count on it.

namespace SystemProg.IoCore

structure Work where
  eventsReady : Mask
  asyncOp : Option AsyncOperation

def IOTask.work (task : IOTask) : Work :=
  { eventsReady := task.eventsReady, asyncOp := task.asyncOp }

def Work.Attends (work : Work) (d : Direction) : Prop :=
  work.eventsReady d = true ∧ ∀ op ∈ work.asyncOp, op.kind.bit ≠ d

namespace IOCore

def work (s : IOCore) (t : TaskId) : Option Work := (s.heap t).map IOTask.work

-- A call of an operation, or none where the task knows that it would be in vain.
structure Attempts (s next : IOCore) (t : TaskId) (task : IOTask) (d : Direction) (done : Bool) :
    Prop where
  others : ∀ x ≠ t, next.heap x = s.heap x
  keeps : s.epoll.Keeps next.epoll fun _ => False
  elsewhere : ∀ fd ≠ task.fd, s.epoll.Same next.epoll fd
  started : next.started = s.started
  log : next.log = s.log
  after : ∃ ready, next.heap t = some { task with eventsReady := ready } ∧
    (∀ d' ≠ d, ready d' = task.eventsReady d') ∧
    (done = true → ready = task.eventsReady) ∧
    (done = false → task.eventsReady d = true → next.epoll.level task.fd d = false)

-- A task has been told something, and its operation has been started, has waited on or has its
-- result.
structure Serves (s next : IOCore) (t : TaskId) (task : IOTask) (work : Work) (mask : Mask) :
    Prop where
  before : s.heap t = some task
  after : next.work t = some work
  others : ∀ x ≠ t, next.work x = s.work x
  keeps : s.epoll.Keeps next.epoll fun _ => False
  elsewhere : ∀ fd ≠ task.fd, s.epoll.Same next.epoll fd
  attends : ∀ d, task.work.Attends d ∨ mask d = true → next.epoll.level task.fd d = true →
    work.Attends d

section Rules

variable {s middle next : IOCore} {t : TaskId} {task : IOTask} {d : Direction} {done : Bool}

theorem work_of (found : s.heap t = some task) : s.work t = some task.work := by
  simp [IOCore.work, found]

theorem Attempts.none (found : s.heap t = some task)
    (vain : done = false → task.eventsReady d = true → s.epoll.level task.fd d = false) :
    s.Attempts s t task d done :=
  ⟨fun _ _ => rfl, .refl _, fun _ _ => .refl _ _, rfl, rfl, task.eventsReady, found,
    fun _ _ => rfl, fun _ => rfl, vain⟩

theorem execute_attempts {kind : OpKind} {answer : Answer} (found : s.heap t = some task)
    (executed : s.execute t task kind answer = some (done, next)) :
    s.Attempts next t task kind.bit done := by
  unfold execute at executed
  split at executed
  · next clear =>
      cases executed
      exact .none found fun _ ready => by simp [clear] at ready
  · split at executed
    · split at executed
      · cases executed
      · next still _ =>
          cases still <;> cases executed
          · exact ⟨fun _ _ => rfl, Epoll.lower_keeps _ _ _,
              fun _ => Epoll.lower_same _ _, rfl, rfl, task.eventsReady, found,
              fun _ _ => rfl, fun _ => rfl, by simp⟩
          · exact .none found (by simp)
    · split at executed
      · cases executed
      · next level =>
          cases executed
          exact ⟨fun x other => Function.update_of_ne other _ _, .refl _,
            fun _ _ => .refl _ _, rfl, rfl, _,
            Function.update_self _ _ _, fun d other => Function.update_of_ne other _ _, by simp,
            fun _ _ => eq_false_of_ne_true level⟩
    · cases executed

theorem construct_attempts {kind : OpKind} {answer : Answer} (found : s.heap t = some task)
    (constructed : s.construct t task kind answer = some (done, next)) :
    s.Attempts next t task kind.bit done := by
  cases kind with
  | connect =>
      cases answer with
      | done still =>
          cases constructed
          exact .none found (by simp)
      | wouldBlock =>
          cases constructed
          refine ⟨fun x other => Function.update_of_ne other _ _, Epoll.lower_keeps _ _ _,
            fun _ => Epoll.lower_same _ _, rfl, rfl, _,
            Function.update_self _ _ _, fun d other => Function.update_of_ne other _ _, by simp,
            fun _ _ => ?_⟩
          exact (Epoll.lower_level _ _ _ _ _).trans (if_pos ⟨rfl, rfl⟩)
      | failed => cases constructed
  | recv | send | accept => exact execute_attempts found constructed

theorem onIOEvent_attempts {op : AsyncOperation} {answer : Answer} (found : s.heap t = some task)
    (handled : s.onIOEvent t task op answer = some (done, next)) : ∃ middle,
      s.Attempts middle t task op.kind.bit done ∧
        (done = false ∧ next = middle ∨ done = true ∧ ∃ result, next = middle.complete op.id t result ∧
          (result = .canceled → task.state = .deleting)) := by
  unfold onIOEvent at handled
  split at handled
  · next clear =>
      have vain (done : Bool) : s.Attempts s t task op.kind.bit done :=
        .none found fun _ ready => by simp [clear] at ready
      split at handled
      · next deleting =>
          cases handled
          exact ⟨s, vain true, Or.inr ⟨rfl, .canceled, rfl, fun _ => deleting⟩⟩
      · cases handled
        exact ⟨s, vain false, Or.inl ⟨rfl, rfl⟩⟩
  · split at handled
    · cases handled
      exact ⟨s, .none found (by simp), Or.inr ⟨rfl, .done, rfl, by simp⟩⟩
    · rw [Option.map_eq_some_iff] at handled
      obtain ⟨⟨ready, middle⟩, executed, same⟩ := handled
      have attempts := execute_attempts found executed
      cases ready <;> cases same
      · exact ⟨middle, attempts, Or.inl ⟨rfl, rfl⟩⟩
      · exact ⟨middle, attempts, Or.inr ⟨rfl, .done, rfl, by simp⟩⟩

theorem work_others (others : ∀ x ≠ t, next.heap x = s.heap x) {x : TaskId} (other : x ≠ t) :
    next.work x = s.work x := by
  rw [IOCore.work, others x other, IOCore.work]

theorem awaitSuspend_eq {op : AsyncOperation} (suspended : s.awaitSuspend t op = some next)
    (found : s.heap t = some task) :
    task.asyncOp = none ∧ next = s.setTask t { task with asyncOp := some op } := by
  unfold awaitSuspend at suspended
  rw [found] at suspended
  dsimp only at suspended
  split at suspended
  · cases suspended
  · next free =>
      cases suspended
      exact ⟨by simpa using free, rfl⟩

theorem await_serves {kind : OpKind} {answer : Answer} (awaited : s.await t kind answer = some next) :
    ∃ task work, s.Serves next t task work (fun _ => false) ∧
      next.started = s.started ++ [t] ∧
      (work.asyncOp = task.asyncOp ∧
          next.log = s.log ++ [{ op := s.started.length, task := t, result := .done }] ∨
        task.asyncOp = none ∧ work.asyncOp = some { id := s.started.length, kind := kind } ∧
          next.log = s.log) := by
  unfold await at awaited
  split at awaited
  · split at awaited
    · cases awaited
    · next task found =>
        rw [Option.bind_eq_some_iff] at awaited
        obtain ⟨⟨done, middle⟩, constructed, awaited⟩ := awaited
        have attempts := construct_attempts found constructed
        obtain ⟨ready, after, rest, kept, consumed⟩ := attempts.after
        cases done with
        | true =>
            obtain rfl := kept rfl
            cases awaited
            refine ⟨task, task.work, ⟨found, work_of after, ?_, attempts.keeps,
              attempts.elsewhere, ?_⟩, rfl,
              Or.inl ⟨rfl, congrArg (· ++ _) attempts.log⟩⟩
            · exact fun x other => work_others attempts.others other
            · rintro d (attends | told) _
              · exact attends
              · cases told
        | false =>
            have suspended : IOCore.awaitSuspend { middle with started := s.started ++ [t] } t
                { id := s.started.length, kind := kind } = some next := awaited
            obtain ⟨free, rfl⟩ := awaitSuspend_eq suspended after
            refine ⟨task, _, ⟨found, work_of (Function.update_self _ _ _), ?_, attempts.keeps,
              attempts.elsewhere, ?_⟩,
              rfl, Or.inr ⟨free, rfl, attempts.log⟩⟩
            · intro x other
              exact work_others (fun x other =>
                (Function.update_of_ne other _ _).trans (attempts.others x other)) other
            · rintro d (attends | told) level
              · have apart : d ≠ kind.bit := by
                  rintro rfl
                  cases (consumed rfl attends.1).symm.trans level
                refine ⟨(rest d apart).trans attends.1, ?_⟩
                rintro _ ⟨⟩
                exact apart.symm
              · cases told
  · cases awaited

theorem handleEvent_serves {mask : Mask} {rest : List (TaskId × Mask)} {answer : Answer}
    (phase : s.phase = .events ((t, mask) :: rest)) (handled : s.handleEvent answer = some next) :
    ∃ task work, s.Serves next t task work mask ∧ next.batch = rest ∧ next.started = s.started ∧
      (task.asyncOp = none → next.epoll = s.epoll) ∧
      (work.asyncOp = task.asyncOp ∧ next.log = s.log ∨ ∃ op result, task.asyncOp = some op ∧
        work.asyncOp = none ∧ next.log = s.log ++ [{ op := op.id, task := t, result := result }] ∧
        (result = .canceled → task.state = .deleting)) := by
  unfold handleEvent at handled
  rw [phase] at handled
  dsimp only at handled
  split at handled
  · cases handled
  split at handled
  · cases handled
  next task found =>
  have told {d : Direction} (known : task.work.Attends d ∨ mask d = true) :
      (task.eventsReady d || mask d) = true := by
    rcases known with attends | told
    · simp [show task.eventsReady d = true from attends.1]
    · simp [told]
  split at handled
  · next idle =>
      cases handled
      refine ⟨task, _, ⟨found, work_of (Function.update_self _ _ _), ?_, .refl _,
        fun _ _ => .refl _ _, ?_⟩, rfl, rfl, fun _ => rfl, Or.inl ⟨rfl, rfl⟩⟩
      · exact fun x other => work_others (fun x other => Function.update_of_ne other _ _) other
      · exact fun d known _ => ⟨told known, by simp [IOTask.work, idle]⟩
  · next op waits =>
      rw [Option.bind_eq_some_iff] at handled
      obtain ⟨⟨done, after⟩, onEvent, handled⟩ := handled
      obtain ⟨middle, attempts, fate⟩ := onIOEvent_attempts (by simp [setTask]) onEvent
      obtain ⟨ready, there, kept, same, consumed⟩ := attempts.after
      have others (x : TaskId) (other : x ≠ t) : middle.heap x = s.heap x :=
        (attempts.others x other).trans (Function.update_of_ne other _ _)
      dsimp only at handled
      rcases fate with ⟨rfl, rfl⟩ | ⟨rfl, result, rfl, closing⟩
      · -- The operation stays where it was.
        rw [if_neg (by simp), restore, there, Option.map_some, Option.map_some] at handled
        cases handled
        refine ⟨task, _, ⟨found, work_of (Function.update_self _ _ _), ?_, attempts.keeps,
              attempts.elsewhere, ?_⟩, rfl,
          attempts.started, by simp [waits], Or.inl ⟨waits.symm, attempts.log⟩⟩
        · exact fun x other => work_others (fun x other =>
            (Function.update_of_ne other _ _).trans (others x other)) other
        · intro d known level
          have apart : d ≠ op.kind.bit := by
            rintro rfl
            cases (consumed rfl (told known)).symm.trans level
          refine ⟨(kept d apart).trans (told known), ?_⟩
          rintro _ ⟨⟩
          exact apart.symm
      · rw [if_pos rfl] at handled
        cases handled
        obtain rfl := same rfl
        refine ⟨task, _, ⟨found, work_of there, ?_, attempts.keeps,
              attempts.elsewhere, ?_⟩, rfl, attempts.started,
          by simp [waits], Or.inr ⟨op, result, waits, rfl, congrArg (· ++ _) attempts.log, closing⟩⟩
        · exact fun x other => work_others others other
        · exact fun d known _ => ⟨told known, by simp [IOTask.work]⟩

theorem setTask_work (s : IOCore) (t : TaskId) (task : IOTask) :
    (s.setTask t task).work t = some task.work :=
  work_of (Function.update_self _ _ _)

structure Spares (s next : IOCore) (t : TaskId) : Prop where
  others : ∀ x ≠ t, next.work x = s.work x
  started : next.started = s.started
  stopped : next.stopped = s.stopped
  keeps : s.epoll.Keeps next.epoll fun _ => False

theorem subscribe_spares {fd : Fd} (subscribed : s.subscribe fd = some next) :
    s.Spares next s.made ∧ next.log = s.log ∧ next.work s.made = some (IOTask.new fd).work ∧
      next.epoll = s.epoll.raise eventFd .read := by
  unfold subscribe at subscribed
  split at subscribed
  · cases subscribed
  · cases subscribed
    refine ⟨⟨fun x other => ?_, rfl, rfl, Epoll.raise_keeps _ _ _⟩, rfl, ?_, rfl⟩
    · exact work_others (fun x other => Function.update_of_ne other _ _) other
    · exact work_of (Function.update_self _ _ _)

theorem unsubscribe_spares (unsubscribed : s.unsubscribe t = some next) :
    s.Spares next t ∧ next.log = s.log ∧ next.work t = s.work t ∧
      next.epoll = s.epoll.raise eventFd .read := by
  unfold unsubscribe at unsubscribed
  split at unsubscribed
  · cases unsubscribed
  · next task found =>
      split at unsubscribed
      · cases unsubscribed
      · cases unsubscribed
        refine ⟨⟨fun x other => ?_, rfl, rfl, Epoll.raise_keeps _ _ _⟩, rfl, ?_, rfl⟩
        · exact work_others (fun x other => Function.update_of_ne other _ _) other
        · rw [work_of found]
          exact setTask_work s t { task with state := .deleting }

theorem addTask_spares {rest : List TaskId} (added : s.addTask t task rest = some next) :
    s.Spares next t ∧ next.log = s.log ∧
      next.work t = some { eventsReady := fun d => d ≠ .error, asyncOp := task.asyncOp } ∧
      s.epoll.add task.fd t = some next.epoll := by
  unfold addTask at added
  rw [Option.map_eq_some_iff] at added
  obtain ⟨epoll, added, rfl⟩ := added
  refine ⟨⟨fun x other => ?_, rfl, rfl, Epoll.add_keeps added⟩, rfl, ?_, added⟩
  · exact work_others (fun x other => Function.update_of_ne other _ _) other
  · exact setTask_work s t { task with
      state := .working, eventsReady := fun d => d ≠ .error, idx := some s.tasks.length }

theorem deleteTask_spares {rest : List TaskId} (deleted : s.deleteTask t rest = some next) :
    s.Spares next t ∧ next.log = s.log ∧ next.work t = none ∧ next.phase = .queues rest ∧
      next.made = s.made ∧ ∃ task, s.heap t = some task ∧ next.epoll = s.epoll.close task.fd ∧
        task.state = .deleting ∧ task.asyncOp = none := by
  unfold deleteTask at deleted
  split at deleted
  · cases deleted
  · next task found =>
      split at deleted
      · cases deleted
      · next checked =>
          cases deleted
          refine ⟨⟨fun x other => ?_, rfl, rfl, Epoll.close_keeps _ _⟩, rfl, ?_, rfl, rfl, task, found,
            rfl, ?_⟩
          · exact work_others (fun x other => Function.update_of_ne other _ _) other
          · simp [IOCore.work]
          · simpa using checked

theorem moveBack_spares {i : Nat} (moves : s.moveBack i = some next) :
    next.work = s.work ∧ next.log = s.log ∧ next.started = s.started ∧
      next.stopped = s.stopped ∧ next.epoll = s.epoll ∧
      ∀ x task, next.heap x = some task → ∃ old, s.heap x = some old ∧ task.fd = old.fd := by
  unfold moveBack at moves
  rw [Option.bind_eq_some_iff] at moves
  obtain ⟨back, -, moves⟩ := moves
  rw [Option.map_eq_some_iff] at moves
  obtain ⟨task, found, rfl⟩ := moves
  refine ⟨funext fun x => ?_, rfl, rfl, rfl, rfl, fun x task' there => ?_⟩
  · by_cases same : x = back
    · rw [same, work_of found]
      exact setTask_work s back { task with idx := some i }
    · exact work_others (fun x other => Function.update_of_ne other _ _) same
  · change Function.update s.heap back _ x = some task' at there
    rw [Function.update_apply] at there
    split at there
    · next same =>
        cases there
        exact ⟨task, by rw [same, found], rfl⟩
    · exact ⟨task', there, rfl⟩

theorem dropTask_spares {rest : List TaskId} (found : s.heap t = some task)
    (deleting : task.state = .deleting) (dropped : s.dropTask t task rest = some next) :
    s.Spares next t ∧ (∀ fd ≠ task.fd, s.epoll.Same next.epoll fd) ∧
      (next.phase = .queues rest ∧ next.work t = none ∧ next.log = s.log ∧
          task.asyncOp = none ∨
        next.phase = .canceled t rest ∧ ∃ op, task.asyncOp = some op ∧
          next.work t = some { eventsReady := fun _ => false, asyncOp := some op } ∧
          next.log = s.log ++ [{ op := op.id, task := t, result := .canceled }]) := by
  unfold dropTask at dropped
  split at dropped
  · cases dropped
  next i idx =>
  split at dropped
  · cases dropped
  simp only [Option.bind_eq_some_iff] at dropped
  obtain ⟨moved, moves, epoll, removed, dropped⟩ := dropped
  obtain ⟨work, log, started, stopped, same, fds⟩ := moveBack_spares moves
  have elsewhere (fd : Fd) (other : fd ≠ task.fd) : s.epoll.Same epoll fd :=
    same ▸ Epoll.del_same removed other
  have keeps : s.epoll.Keeps epoll fun _ => False := same ▸ Epoll.del_keeps removed
  split at dropped
  · next idle =>
      obtain ⟨spares, log', gone, phase, -, task', there, closed, -⟩ := deleteTask_spares dropped
      refine ⟨⟨fun x other => ?_, spares.started.trans started,
        spares.stopped.trans stopped, keeps.trans spares.keeps⟩, ?_,
        Or.inl ⟨phase, gone, log'.trans log, idle⟩⟩
      · rw [spares.others x other]
        exact congrFun work x
      · intro fd other
        obtain ⟨old, there', own⟩ := fds t task' there
        cases found.symm.trans there'
        rw [closed]
        exact (elsewhere fd other).trans (Epoll.close_same _ (own ▸ other))
  · next op waits =>
      rw [Option.map_eq_some_iff] at dropped
      obtain ⟨⟨done, after⟩, handled, rfl⟩ := dropped
      simp only [onIOEvent, deleting, if_true, Option.some.injEq, Prod.mk.injEq] at handled
      obtain ⟨-, rfl⟩ := handled
      refine ⟨⟨fun x other => ?_, started, stopped, keeps⟩, elsewhere, Or.inr ⟨rfl, op, waits, ?_, ?_⟩⟩
      · rw [← work]
        exact work_others (fun x other => Function.update_of_ne other _ _) other
      · rw [← waits]
        exact setTask_work moved t { task with
          state := .deleting, eventsReady := fun _ => false }
      · exact congrArg (· ++ _) log

end Rules

end IOCore

end SystemProg.IoCore
