import SystemProg.IoCore.Attempts

set_option autoImplicit false

-- What the callers keep to: a descriptor has one task at a time, a task is closed once, when the
-- loop works on it, and no operation is started on a task that has one. A coroutine that is resumed
-- for a deletion closes nothing, as `processQueues` holds the mutex. Every task has been closed
-- when the core is destroyed, and nobody uses the core after that.

namespace SystemProg.IoCore

namespace IOCore

def Answers (s : IOCore) (fd : Fd) (d : Direction) : Answer → Prop
  | .done _ => s.epoll.level fd d = true
  | .wouldBlock => s.epoll.level fd d = false
  | .failed => False

instance (s : IOCore) (fd : Fd) (d : Direction) : (answer : Answer) →
    Decidable (s.Answers fd d answer)
  | .done _ => inferInstanceAs (Decidable (_ = _))
  | .wouldBlock => inferInstanceAs (Decidable (_ = _))
  | .failed => inferInstanceAs (Decidable False)

-- The answer fits the call that the operation makes, if it makes one: that of `connect` is made
-- once, and it needs no event.
def Fits (s : IOCore) (task : IOTask) (ready : Mask) (kind : OpKind) (answer : Answer) : Prop :=
  kind ≠ .connect → ready kind.bit = true → s.Answers task.fd kind.bit answer

instance (s : IOCore) (task : IOTask) (ready : Mask) (kind : OpKind) (answer : Answer) :
    Decidable (s.Fits task ready kind answer) :=
  inferInstanceAs (Decidable (_ → _ → _))

def With (s : IOCore) (t : TaskId) (condition : IOTask → Prop) : Prop :=
  match s.heap t with
  | none => False
  | some task => condition task

instance (s : IOCore) (t : TaskId) (condition : IOTask → Prop)
    [(task : IOTask) → Decidable (condition task)] : Decidable (s.With t condition) :=
  match h : s.heap t with
  | none => .isFalse (by simp [With, h])
  | some task => decidable_of_iff (condition task) (by simp [With, h])

theorem With.some {s : IOCore} {t : TaskId} {condition : IOTask → Prop}
    (holds : s.With t condition) : ∃ task, s.heap t = some task ∧ condition task := by
  unfold With at holds
  split at holds
  · cases holds
  · next task found => exact ⟨task, found, holds⟩

def At (s : IOCore) : Action → Prop
  | .ret => (∃ rest, s.phase = .resumed rest) ∨ ∃ t rest, s.phase = .canceled t rest
  | .roll => s.phase = .outside ∧ s.stopped = false
  | .queue => ∃ rest, s.phase = .queues rest
  | .wait _ | .interrupted => s.phase = .polling
  | .event _ => ∃ rest, s.phase = .events rest
  | .destroy => s.phase = .outside
  | _ => True

def Ends (s : IOCore) : Prop := ∀ task ∈ s.heap eventSub, task.state = .deleting

instance (s : IOCore) : Decidable s.Ends := by
  unfold Ends
  infer_instance

def Unused (s : IOCore) (fd : Fd) : Prop := ∀ t < s.made, ∀ task ∈ s.heap t, task.fd ≠ fd

instance (s : IOCore) (fd : Fd) : Decidable (s.Unused fd) := by
  unfold Unused
  infer_instance

def Permits (s : IOCore) : Action → Prop
  | .subscribe fd => ¬s.Locked ∧ ¬s.Ends ∧ s.Unused fd
  | .unsubscribe t => ¬s.Locked ∧ t ≠ eventSub ∧ s.With t fun task => task.state = .working
  | .stop | .wakeup | .interrupted => ¬s.Ends
  | .await t kind answer => s.Runs ∧ t ≠ eventSub ∧ (kind = .connect → answer ≠ .failed) ∧
      s.With t fun task => task.asyncOp = none ∧ s.Fits task task.eventsReady kind answer
  | .wait fds => ¬s.Ends ∧ fds ≠ [] ∧ fds.Nodup ∧ fds.length ≤ epollBatchSize ∧
      ∀ fd ∈ fds, s.epoll.Reports fd
  | .event answer => ∀ event ∈ s.batch.head?, event.2 .error = false ∧
      s.With event.1 fun task => ∀ op ∈ task.asyncOp,
        s.Fits task (fun d => task.eventsReady d || event.2 d) op.kind answer
  | .destroy => (s.With eventSub fun task => task.state = .working) ∧
      ∀ t < s.made, t ≠ eventSub → ∀ task ∈ s.heap t, task.state = .deleting
  | _ => True

instance (s : IOCore) (action : Action) : Decidable (s.Permits action) := by
  unfold Permits
  split <;> infer_instance

-- No assertion fails in the next step, and nothing deleted is used.
structure Intact (s : IOCore) : Prop where
  defined : ∀ action, s.At action → s.Permits action → s.step action ≠ none
  indexed : ∀ i t, s.members[i]? = some t → ∃ task, s.heap t = some task ∧ task.idx = some i
  told : ∀ event ∈ s.batch, s.heap event.1 ≠ none
  -- What `processQueues` looks at without the mutex hides nothing.
  processed : s.size = 0 → s.queue = []
  -- The assertions at the end of `~IOCore()`, and each task has been deleted.
  emptied : s.Ends → s.phase = .polling → s.tasks = [] ∧ s.queue = [] ∧ ∀ t, s.heap t = none

section Defined

variable {s : IOCore} {t : TaskId} {task : IOTask} {rest : List TaskId}

theorem Sound.unused (sound : s.Sound) {fd : Fd} (unused : s.Unused fd) (t : TaskId) (seat : Seat)
    (there : s.seat t = some seat) : seat.fd ≠ fd := by
  obtain ⟨task, found, rfl⟩ := heap_of there
  refine unused t ?_ task found
  by_contra unmade
  rw [sound.fresh t (Nat.le_of_not_lt unmade)] at there
  cases there

theorem Sound.there (sound : s.Sound) (mem : t ∈ s.members) : ∃ task, s.heap t = some task := by
  obtain ⟨seat, i, found, -⟩ := sound.member mem
  obtain ⟨task, found, -⟩ := heap_of found
  exact ⟨task, found⟩

theorem Sound.subscribe_defined (sound : s.Sound) {fd : Fd} (free : ¬s.Locked)
    (unused : s.Unused fd) : s.subscribe fd ≠ none := by
  obtain ⟨members, left, -⟩ := unlocked free
  have none_ : ¬∃ t ∈ s.tasks ++ s.queue, s.Holds fd t := by
    rintro ⟨t, mem, holds⟩
    have there : ∃ task, s.heap t = some task := by
      rcases List.mem_append.mp mem with inside | queued
      · exact sound.there (members ▸ inside)
      · obtain ⟨seat, found, -⟩ := sound.queued t (left ▸ queued)
        obtain ⟨task, found, -⟩ := heap_of found
        exact ⟨task, found⟩
    obtain ⟨task, found⟩ := there
    have other := sound.unused unused t task.seat (seat_of found)
    rw [Holds, found] at holds
    exact other (by simpa [IOTask.seat] using holds)
  rw [subscribe, if_neg (not_or.mpr ⟨free, none_⟩)]
  exact Option.some_ne_none _

theorem Sound.unsubscribe_defined (sound : s.Sound) (free : ¬s.Locked)
    (found : s.heap t = some task) (working : task.state = .working) :
    s.unsubscribe t ≠ none := by
  obtain ⟨members, left, cancels⟩ := unlocked free
  have later : t ∉ s.queue := by
    rw [← left]
    intro mem
    obtain ⟨seat, there, waits⟩ := sound.queued t mem
    rw [seat_of found] at there
    cases there
    rcases waits with ⟨state, -⟩ | ⟨state, -⟩ <;> cases working.symm.trans state
  have inside : t ∈ s.members := by
    rcases sound.placed t task.seat (seat_of found) with waits | works | cancel
    · exact absurd (left ▸ waits) later
    · exact works.2
    · rw [cancels] at cancel
      cases cancel
  obtain ⟨seat, i, there, idx, at_i, -⟩ := sound.member inside
  rw [seat_of found] at there
  cases there
  have place : task.idx.bind (fun i => s.tasks[i]?) = some t := by
    rw [show task.idx = some i from idx, ← members]
    exact at_i
  simp [unsubscribe, found, free, later, place, working]

theorem execute_defined {kind : OpKind} {answer : Answer} (other : kind ≠ .connect)
    (fits : s.Fits task task.eventsReady kind answer) : s.execute t task kind answer ≠ none := by
  unfold execute
  split
  · simp
  · next ready =>
      have answers := fits other (by simpa using ready)
      cases answer with
      | done still => simp [show s.epoll.level _ _ = true from answers]
      | wouldBlock => simp [show s.epoll.level _ _ = false from answers]
      | failed => exact answers.elim

theorem construct_defined {kind : OpKind} {answer : Answer} (found : s.heap t = some task)
    (connects : kind = .connect → answer ≠ .failed)
    (fits : s.Fits task task.eventsReady kind answer) : ∃ done next,
      s.construct t task kind answer = some (done, next) ∧
        ∃ task', next.heap t = some task' ∧ task'.asyncOp = task.asyncOp := by
  have keeps {done : Bool} {next : IOCore} (kind : OpKind)
      (executed : s.execute t task kind answer = some (done, next)) :
      ∃ task', next.heap t = some task' ∧ task'.asyncOp = task.asyncOp := by
    unfold execute at executed
    split at executed
    · cases executed
      exact ⟨task, found, rfl⟩
    · split at executed
      · split at executed
        · cases executed
        · next still _ => cases still <;> cases executed <;> exact ⟨task, found, rfl⟩
      · split at executed
        · cases executed
        · cases executed
          exact ⟨_, Function.update_self _ _ _, rfl⟩
      · cases executed
  cases kind with
  | connect =>
      cases answer with
      | done still => exact ⟨_, _, rfl, task, found, rfl⟩
      | wouldBlock => exact ⟨_, _, rfl, _, Function.update_self _ _ _, rfl⟩
      | failed => exact absurd rfl (connects rfl)
  | recv | send | accept =>
      obtain ⟨⟨done, next⟩, executed⟩ :=
        Option.ne_none_iff_exists'.mp (execute_defined (by simp) fits)
      exact ⟨done, next, executed, keeps _ executed⟩

theorem await_defined {kind : OpKind} {answer : Answer} (runs : s.Runs)
    (found : s.heap t = some task) (idle : task.asyncOp = none)
    (connects : kind = .connect → answer ≠ .failed)
    (fits : s.Fits task task.eventsReady kind answer) : s.await t kind answer ≠ none := by
  obtain ⟨done, next, constructed, task', found', op⟩ := construct_defined found connects fits
  rw [await, if_pos runs, found]
  dsimp only
  rw [constructed, Option.bind_some]
  cases done with
  | true => simp
  | false => simp [awaitSuspend, found', op, idle]

theorem onIOEvent_defined {op : AsyncOperation} {answer : Answer}
    (fits : s.Fits task task.eventsReady op.kind answer) :
    s.onIOEvent t task op answer ≠ none := by
  unfold onIOEvent
  split
  · split <;> simp
  · split
    · simp
    · next other =>
        simpa using execute_defined (by simpa using other) fits

theorem Sound.add_defined (sound : s.Sound) (phase : s.phase = .queues (t :: rest))
    (found : s.heap t = some task) (new : task.state = .new) : s.addTask t task rest ≠ none := by
  have outside : t ∉ s.members := by
    obtain ⟨seat, there, waits⟩ := sound.queued t (by simp [left, phase])
    rw [seat_of found] at there
    cases there
    rcases waits with ⟨-, outside⟩ | ⟨state, -⟩
    · exact outside
    · cases new.symm.trans state
  have free : s.epoll.watched task.fd = none := by
    by_contra taken
    obtain ⟨t', watched⟩ := Option.ne_none_iff_exists'.mp taken
    obtain ⟨mem, seat, there, fd⟩ := (sound.watched _ _).mp watched
    rw [sound.single t' t seat _ there (seat_of found) fd] at mem
    exact outside mem
  simp [addTask, Epoll.add, free]

theorem deleteTask_defined (found : s.heap t = some task) (deleting : task.state = .deleting)
    (idle : task.asyncOp = none) : s.deleteTask t rest ≠ none := by
  simp [deleteTask, found, deleting, idle]

-- The task itself may be the one that is moved.
theorem Sound.moveBack_defined (sound : s.Sound) (members : s.members = s.tasks) {i : Nat}
    {x : TaskId} (at_i : s.tasks[i]? = some x) (found : s.heap t = some task) : ∃ moved,
      s.moveBack i = some moved ∧ moved.epoll = s.epoll ∧ ∃ task', moved.heap t = some task' ∧
        task'.state = task.state ∧ task'.asyncOp = task.asyncOp := by
  have nonempty : s.tasks ≠ [] := List.ne_nil_of_mem (List.mem_of_getElem? at_i)
  have last := List.getLast?_eq_some_getLast nonempty
  have mem : s.tasks.getLast nonempty ∈ s.members := by
    rw [members]
    exact List.getLast_mem nonempty
  obtain ⟨back, found'⟩ := sound.there mem
  refine ⟨{ s.setTask (s.tasks.getLast nonempty) { back with idx := some i } with
    tasks := s.tasks.set i (s.tasks.getLast nonempty) }, ?_, rfl, ?_⟩
  · rw [moveBack, last, Option.bind_some, found', Option.map_some]
  · by_cases same : t = s.tasks.getLast nonempty
    · rw [← same, found] at found'
      cases found'
      rw [← same]
      exact ⟨_, Function.update_self _ _ _, rfl, rfl⟩
    · exact ⟨task, (Function.update_of_ne same _ _).trans found, rfl, rfl⟩

theorem Sound.drop_defined (sound : s.Sound) (phase : s.phase = .queues (t :: rest))
    (found : s.heap t = some task) (deleting : task.state = .deleting) :
    s.dropTask t task rest ≠ none := by
  have members : s.members = s.tasks := by simp [members, phase]
  have inside : t ∈ s.members := by
    obtain ⟨seat, there, waits⟩ := sound.queued t (by simp [left, phase])
    rw [seat_of found] at there
    cases there
    rcases waits with ⟨state, -⟩ | ⟨-, inside⟩
    · cases deleting.symm.trans state
    · exact inside
  obtain ⟨seat, i, there, idx, at_i, -⟩ := sound.member inside
  rw [seat_of found] at there
  cases there
  replace idx : task.idx = some i := idx
  rw [members] at at_i
  have watched := (sound.watched task.fd t).mpr ⟨inside, _, seat_of found, rfl⟩
  obtain ⟨moved, moves, same, task', there, state, op⟩ :=
    sound.moveBack_defined members at_i found
  obtain ⟨epoll, deleted⟩ : ∃ epoll, moved.epoll.del task.fd = some epoll := by
    simp [same, Epoll.del, watched]
  unfold dropTask
  simp only [idx, at_i, ne_eq, not_true_eq_false, if_false, moves, deleted, Option.bind_some]
  cases waits : task.asyncOp with
  | none => exact deleteTask_defined there (state.trans deleting) (op.trans waits)
  | some op => simp [onIOEvent, deleting]

theorem Sound.queue_defined (sound : s.Sound) (phase : s.phase = .queues rest) :
    s.processQueue ≠ none := by
  cases rest with
  | nil => simp [processQueue, phase]
  | cons t rest =>
      obtain ⟨seat, there, waits⟩ := sound.queued t (by simp [left, phase])
      obtain ⟨task, found, rfl⟩ := heap_of there
      simp only [processQueue, phase, found]
      rcases waits with ⟨new, -⟩ | ⟨deleting, -⟩
      · rw [show task.state = _ from new]
        exact sound.add_defined phase found new
      · rw [show task.state = _ from deleting]
        exact sound.drop_defined phase found deleting

theorem Sound.handle_defined (sound : s.Sound) {events : List (TaskId × Mask)} {answer : Answer}
    (phase : s.phase = .events events) (permits : s.Permits (.event answer)) :
    s.handleEvent answer ≠ none := by
  cases events with
  | nil => simp [handleEvent, phase]
  | cons event rest =>
      obtain ⟨t, mask⟩ := event
      obtain ⟨sane, holds⟩ := permits (t, mask) (by simp [batch, phase])
      obtain ⟨task, found, fits⟩ := holds.some
      have some_ : (mask .read || mask .write) = true := by
        have any := (sound.batched (t, mask) (by simp [batch, phase])).2
        simpa [Mask.any, show mask .error = false from sane] using any
      have known : ¬(mask .error = true ∨ (mask .read || mask .write) = false) := by
        simp [show mask .error = false from sane, some_]
      simp only [handleEvent, phase, if_neg known, found]
      split
      · simp
      · next op waits =>
          obtain ⟨⟨done, next⟩, handled⟩ := Option.ne_none_iff_exists'.mp
            (@onIOEvent_defined (s.setTask t { task with
              eventsReady := fun d => task.eventsReady d || mask d, asyncOp := none }) t
              { task with eventsReady := fun d => task.eventsReady d || mask d, asyncOp := none }
              op answer (fits op waits))
          rw [handled, Option.bind_some]
          have alike := onIOEvent_alike (by simp [setTask]) handled
          have there : next.seat t ≠ none := by
            rw [alike.seat, setTask_seat, Function.update_self]
            simp
          obtain ⟨seat, there⟩ := Option.ne_none_iff_exists'.mp there
          obtain ⟨task', found', -⟩ := heap_of there
          cases done <;> simp [restore, found']

theorem Sound.ret_defined (sound : s.Sound) (at_ : s.At .ret) : s.ret ≠ none := by
  rcases at_ with ⟨rest, phase⟩ | ⟨t, rest, phase⟩
  · simp [ret, phase]
  · obtain ⟨⟨seat, there, deleting⟩, -⟩ := sound.canceled t (by simp [cancels, phase])
    obtain ⟨task, found, rfl⟩ := heap_of there
    simp only [ret, phase, found]
    exact deleteTask_defined (Function.update_self _ _ _) deleting rfl

theorem Sound.step_defined (sound : s.Sound) {action : Action} (at_ : s.At action)
    (permits : s.Permits action) : s.step action ≠ none := by
  cases action with
  | subscribe fd => exact sound.subscribe_defined permits.1 permits.2.2
  | unsubscribe t =>
      obtain ⟨free, -, holds⟩ := permits
      obtain ⟨task, found, working⟩ := holds.some
      exact sound.unsubscribe_defined free found working
  | stop | wakeup | kernel => exact Option.some_ne_none _
  | await t kind answer =>
      obtain ⟨runs, -, connects, holds⟩ := permits
      obtain ⟨task, found, idle, fits⟩ := holds.some
      exact await_defined runs found idle connects fits
  | ret => exact sound.ret_defined at_
  | roll =>
      obtain ⟨outside, going⟩ := at_
      have running : ¬s.stopped = true := by simp [going]
      simp only [IOCore.step, roll, outside, if_neg running]
      split <;> exact Option.some_ne_none _
  | queue =>
      obtain ⟨rest, phase⟩ := at_
      exact sound.queue_defined phase
  | wait fds =>
      obtain ⟨-, nonempty, distinct, short, reports⟩ := permits
      have polling : s.phase = .polling := at_
      simp only [IOCore.step, epollWait, polling, short, if_true, Epoll.collect]
      rw [if_neg (by simpa [nonempty, distinct] using reports)]
      exact Option.some_ne_none _
  | interrupted =>
      have polling : s.phase = .polling := at_
      simp [IOCore.step, interrupted, polling]
  | event answer =>
      obtain ⟨rest, phase⟩ := at_
      exact sound.handle_defined phase permits
  | destroy =>
      have outside : s.phase = .outside := at_
      obtain ⟨task, found, working⟩ := permits.1.some
      have unlocked : ¬s.Locked := by simp [Locked, outside]
      simpa [IOCore.step, destroy, outside] using sound.unsubscribe_defined unlocked found working

end Defined

structure Ages (s next : IOCore) : Prop where
  back : ∀ t seat, next.seat t = some seat → ∃ old, s.seat t = some old ∧
    (seat.state = old.state ∨ old.state = .new ∧ seat.state = .working ∨
      t ≠ eventSub ∧ seat.state = .deleting)
  gone : next.seat eventSub = none → s.Ends

-- From the call of `~IOCore()` on, every task is closed, and its `processQueues` drops them all.
structure Ending (s : IOCore) : Prop where
  closed : s.Ends → ∀ t seat, s.seat t = some seat → seat.state = .deleting
  drained : s.Ends → s.Locked ∨ s.phase = .polling ∧ s.queue = []

section Ending

variable {s next : IOCore} {t : TaskId} {task : IOTask} {rest : List TaskId}

theorem ends_iff : s.Ends ↔ ∀ seat ∈ s.seat eventSub, seat.state = .deleting := by
  unfold Ends IOCore.seat
  cases s.heap eventSub <;> simp [IOTask.seat]

theorem Ages.ends (ages : s.Ages next) (ends : next.Ends) : s.Ends := by
  rw [ends_iff] at ends
  cases here : next.seat eventSub with
  | none => exact ages.gone here
  | some seat =>
      have deleting := ends seat here
      obtain ⟨old, there, same | new | other⟩ := ages.back eventSub seat here
      · rw [ends_iff, there]
        rintro _ ⟨⟩
        exact same.symm.trans deleting
      · cases deleting.symm.trans new.2
      · exact absurd rfl other.1

theorem Ages.of_seat (same : next.seat = s.seat) : s.Ages next where
  back t seat there := ⟨seat, by rw [← same, there], Or.inl rfl⟩
  gone none_ := by
    rw [same] at none_
    rw [ends_iff, none_]
    simp

theorem unsubscribe_ages (other : t ≠ eventSub) (unsubscribed : s.unsubscribe t = some next) :
    s.Ages next := by
  obtain ⟨seat, there, -, enqueues, -⟩ := unsubscribe_enqueues unsubscribed
  constructor
  · intro t' seat' there'
    rw [enqueues.seat, Function.update_apply] at there'
    split at there'
    · next same =>
        cases there'
        exact ⟨seat, by rw [same, there], Or.inr (Or.inr ⟨same ▸ other, rfl⟩)⟩
    · exact ⟨seat', there', Or.inl rfl⟩
  · rw [enqueues.seat, Function.update_of_ne other.symm, ends_iff]
    intro none_
    simp [none_]

theorem Adds.ages {fd : Fd} (adds : s.Adds next t fd rest) {old : Seat}
    (there : s.seat t = some old) (new : old.state = .new) : s.Ages next := by
  constructor
  · intro t' seat' there'
    rw [adds.seat, Function.update_apply] at there'
    split at there'
    · next same =>
        cases there'
        exact ⟨old, by rw [same, there], Or.inr (Or.inl ⟨new, rfl⟩)⟩
    · exact ⟨seat', there', Or.inl rfl⟩
  · intro none_
    rw [adds.seat, Function.update_apply] at none_
    split at none_
    · cases none_
    · rw [ends_iff, none_]
      simp

theorem Drops.ages {fd : Fd} {i : Nat} {back : TaskId} (drops : s.Drops next t fd i back) :
    s.Ages next := by
  constructor
  · intro t' seat' there'
    rw [drops.seat] at there'
    split at there'
    · next same =>
        rw [Option.map_eq_some_iff] at there'
        obtain ⟨old, there, rfl⟩ := there'
        exact ⟨old, by rw [same, there], Or.inl rfl⟩
    · exact ⟨seat', there', Or.inl rfl⟩
  · intro none_
    rw [drops.seat] at none_
    rw [ends_iff]
    split at none_
    · next same => simp [same, Option.map_eq_none_iff.mp none_]
    · simp [none_]

theorem deleteTask_ages (deleted : s.deleteTask t rest = some next) : s.Ages next := by
  unfold deleteTask at deleted
  split at deleted
  · cases deleted
  next task found =>
  split at deleted
  · cases deleted
  next checked =>
  cases deleted
  simp only [not_or, not_not] at checked
  constructor
  · intro t' seat there
    by_cases same : t' = t
    · subst same
      simp [IOCore.seat] at there
    · exact ⟨seat, by simpa [IOCore.seat, same] using there, Or.inl rfl⟩
  · intro none_
    rw [ends_iff]
    by_cases same : eventSub = t
    · rw [same, seat_of found]
      rintro _ ⟨⟩
      exact checked.1
    · have there : s.seat eventSub = none := by simpa [IOCore.seat, same] using none_
      simp [there]

theorem Ending.ages (ending : s.Ending) (ages : s.Ages next)
    (drained : s.Locked ∨ s.phase = .polling ∧ s.queue = [] →
      next.Locked ∨ next.phase = .polling ∧ next.queue = []) : next.Ending where
  closed ends t seat there := by
    have before := ages.ends ends
    obtain ⟨old, there', same | new | deleting⟩ := ages.back t seat there
    · exact same.trans (ending.closed before t old there')
    · cases new.1.symm.trans (ending.closed before t old there')
    · exact deleting.2
  drained ends := drained (ending.drained (ages.ends ends))

theorem Ending.alike (ending : s.Ending) (seat : next.seat = s.seat) (phase : next.phase = s.phase)
    (queue : next.queue = s.queue) : next.Ending := by
  refine ending.ages (.of_seat seat) ?_
  simp only [Locked, phase, queue, imp_self]

theorem Ending.queue (ending : s.Ending) (processed : s.processQueue = some next) :
    next.Ending := by
  unfold processQueue at processed
  split at processed
  · cases processed
    exact ending.ages (.of_seat rfl) fun _ => Or.inr ⟨rfl, rfl⟩
  · next t rest phase =>
      split at processed
      · cases processed
      · next task found =>
          split at processed
          · next new =>
              have adds := addTask_adds processed
              refine ending.ages (adds.ages (seat_of found) new) fun _ => Or.inl ?_
              simp [Locked, adds.phase]
          · obtain ⟨i, back, middle, -, drops, after, same⟩ := dropTask_drops found processed
            have dropped : middle.Ending :=
              ending.ages drops.ages fun _ => Or.inl (by simp [Locked, after])
            rcases same with ⟨-, deleted⟩ | ⟨-, alike⟩
            · refine dropped.ages (deleteTask_ages deleted) fun _ => Or.inl ?_
              simp [Locked, (deleteTask_spares deleted).2.2.2.1]
            · exact dropped.alike alike.seat alike.phase alike.queue
          · cases processed
  · cases processed

theorem Ending.of_open (ages : s.Ages next) (stays : ¬s.Ends) : next.Ending where
  closed ends := absurd (ages.ends ends) stays
  drained ends := absurd (ages.ends ends) stays

theorem Ending.subscribe (sound : s.Sound) {fd : Fd} (stays : ¬s.Ends)
    (subscribed : s.subscribe fd = some next) : next.Ending := by
  obtain ⟨enqueues, -⟩ := subscribe_enqueues subscribed
  have stays' : ¬next.Ends := by
    rw [ends_iff] at stays ⊢
    rw [enqueues.seat, Function.update_of_ne]
    · exact stays
    · intro same
      rw [same, sound.fresh s.made (Nat.le_refl _)] at stays
      simp at stays
  exact ⟨fun ends => absurd ends stays', fun ends => absurd ends stays'⟩

theorem Ending.destroy (sound : s.Sound) (permits : s.Permits .destroy)
    (destroyed : s.destroy = some next) : next.Ending := by
  unfold IOCore.destroy at destroyed
  split at destroyed
  · rw [Option.map_eq_some_iff] at destroyed
    obtain ⟨middle, unsubscribed, rfl⟩ := destroyed
    obtain ⟨seat, there, -, enqueues, -⟩ := unsubscribe_enqueues unsubscribed
    refine ⟨fun _ t seat' there' => ?_, fun _ => Or.inl (by simp [Locked, IOCore.setPhase])⟩
    change middle.seat t = some seat' at there'
    rw [enqueues.seat, Function.update_apply] at there'
    split at there'
    · cases there'
      rfl
    · next other =>
        obtain ⟨task, found, rfl⟩ := heap_of there'
        refine permits.2 t ?_ other task found
        by_contra unmade
        rw [sound.fresh t (Nat.le_of_not_lt unmade)] at there'
        cases there'
  · cases destroyed

theorem Ending.ret (ending : s.Ending) (returned : s.ret = some next) : next.Ending := by
  unfold IOCore.ret at returned
  split at returned
  · next phase =>
      cases returned
      refine ending.ages (.of_seat rfl) ?_
      simp [Locked, phase]
  · split at returned
    · cases returned
    · next task found =>
        have set : IOCore.Ending (s.setTask _ { task with asyncOp := none }) :=
          ending.alike (setTask_same found rfl) rfl rfl
        refine set.ages (deleteTask_ages returned) fun _ => Or.inl ?_
        simp [Locked, (deleteTask_spares returned).2.2.2.1]
  · cases returned

theorem Ending.outside (ending : s.Ending) (seat : next.seat = s.seat) (unlocked : ¬s.Locked)
    (phase : s.phase ≠ .polling) : next.Ending := by
  refine ending.ages (.of_seat seat) ?_
  rintro (locked | ⟨polling, -⟩)
  · exact absurd locked unlocked
  · exact absurd polling phase

theorem Ending.step (sound : s.Sound) (ending : s.Ending) {action : Action}
    (permits : s.Permits action) (taken : s.step action = some next) : next.Ending := by
  cases action with
  | subscribe fd => exact Ending.subscribe sound permits.2.1 taken
  | unsubscribe t =>
      obtain ⟨-, other, holds⟩ := permits
      obtain ⟨task, found, working⟩ := holds.some
      refine .of_open (unsubscribe_ages other taken) fun ends => ?_
      cases working.symm.trans (ending.closed ends t task.seat (seat_of found))
  | stop | wakeup | kernel =>
      cases taken
      exact ending.alike rfl rfl rfl
  | await t kind answer =>
      have alike := await_alike taken
      exact ending.alike alike.seat alike.phase alike.queue
  | ret => exact ending.ret taken
  | roll =>
      simp only [IOCore.step, IOCore.roll] at taken
      split at taken
      · next phase =>
          have moved : next.seat = s.seat := by
            split at taken
            · cases taken
            · split at taken <;> cases taken <;> rfl
          exact ending.outside moved (by simp [Locked, phase]) (by simp [phase])
      · cases taken
  | queue => exact ending.queue taken
  | wait fds =>
      simp only [IOCore.step, epollWait] at taken
      split at taken
      · split at taken
        · rw [Option.map_eq_some_iff] at taken
          obtain ⟨_, -, rfl⟩ := taken
          exact .of_open (.of_seat rfl) permits.1
        · cases taken
      · cases taken
  | interrupted =>
      simp only [IOCore.step, interrupted] at taken
      split at taken
      · cases taken
        exact .of_open (.of_seat rfl) permits
      · cases taken
  | event answer =>
      obtain ⟨middle, phase, alike, rfl, moves⟩ := handleEvent_moves taken
      refine ending.outside alike.seat ?_ ?_ <;>
        rcases moves with ⟨before, -⟩ | ⟨_, _, before, -⟩ <;> simp [Locked, before]
  | destroy => exact Ending.destroy sound permits taken

theorem Ending.init : IOCore.init.Ending := by
  have stays : ¬IOCore.init.Ends := by decide
  exact ⟨fun ends => absurd ends stays, fun ends => absurd ends stays⟩

theorem Sound.intact (sound : s.Sound) (ending : s.Ending) : s.Intact where
  defined action at_ permits := sound.step_defined at_ permits
  indexed i t at_i := by
    obtain ⟨seat, there, idx, -⟩ := sound.seated i t at_i
    obtain ⟨task, found, rfl⟩ := heap_of there
    exact ⟨task, found, idx⟩
  told event mem := by
    obtain ⟨task, found⟩ := sound.there (sound.batched event mem).1
    simp [found]
  processed empty := by
    by_contra waits
    exact sound.counted waits empty
  emptied ends phase := by
    have unlocked : ¬s.Locked := by simp [Locked, phase]
    obtain ⟨members, left, cancels⟩ := IOCore.unlocked unlocked
    have empty : s.queue = [] := by
      rcases ending.drained ends with locked | drained
      · exact absurd locked unlocked
      · exact drained.2
    have gone (t : TaskId) : s.heap t = none := by
      by_contra there
      obtain ⟨task, found⟩ := Option.ne_none_iff_exists'.mp there
      rcases sound.placed t task.seat (seat_of found) with waits | works | cancel
      · simp [left, empty] at waits
      · cases works.1.symm.trans (ending.closed ends t task.seat (seat_of found))
      · rw [cancels] at cancel
        cases cancel
    refine ⟨?_, empty, gone⟩
    rw [← members, List.eq_nil_iff_forall_not_mem]
    intro t mem
    obtain ⟨task, found⟩ := sound.there mem
    rw [gone t] at found
    cases found

end Ending

theorem sound_of_run {actions : List Action} {last : IOCore}
    (run : Run.exec step init actions = some last) : last.Sound :=
  Run.exec_invariant Sound (fun _ _ _ sound taken => sound.step taken) Sound.init run

theorem never_fails {actions : List Action} (careful : Run.EachStep step Permits init actions) :
    Run.Along step Intact init actions :=
  have kept : Run.Along step (fun s => s.Sound ∧ s.Ending) init actions :=
    Run.along_of_eachStep (fun _ _ _ kept permits taken =>
      ⟨kept.1.step taken, .step kept.1 kept.2 permits taken⟩) ⟨Sound.init, Ending.init⟩ careful
  kept.mono fun _ kept => kept.1.intact kept.2

def lifetime : List Action :=
  [.roll, .queue, .queue, .subscribe 7, .wait [eventFd], .event .wouldBlock, .event .wouldBlock,
    .await 1 .recv .wouldBlock, .roll, .queue, .queue, .kernel 7 .read, .wait [7],
    .event (.done false), .await 1 .send .wouldBlock, .ret, .event .wouldBlock, .unsubscribe 1,
    .roll, .queue, .ret, .queue, .interrupted, .destroy, .queue, .queue]

theorem never_fails_lifetime : (Run.exec step init lifetime).isSome = true ∧
    Run.Along step Intact init lifetime :=
  ⟨by decide, never_fails (by decide)⟩

end IOCore

end SystemProg.IoCore
