import Mathlib.Data.List.Nodup
import SystemProg.IoCore.Model
import SystemProg.Lib.SwapRemove

set_option autoImplicit false

-- A task is in `myTasks` from its first turn in `processQueues` to its deletion, at its `myIdx`,
-- and its descriptor is watched as long. What waits in `myQueue` is new or is to be deleted.

namespace SystemProg.IoCore

structure Seat where
  state : TaskState
  fd : Fd
  idx : Option Nat
deriving DecidableEq

def IOTask.seat (task : IOTask) : Seat := { state := task.state, fd := task.fd, idx := task.idx }

namespace IOCore

def seat (s : IOCore) (t : TaskId) : Option Seat := (s.heap t).map IOTask.seat

-- `myTasks`, without the entry that `processQueues` still has to drop.
def members (s : IOCore) : List TaskId :=
  match s.phase with
  | .canceled _ _ => s.tasks.dropLast
  | _ => s.tasks

def left (s : IOCore) : List TaskId :=
  match s.phase with
  | .queues rest | .canceled _ rest => rest
  | _ => s.queue

def batch (s : IOCore) : List (TaskId × Mask) :=
  match s.phase with
  | .events rest | .resumed rest => rest
  | _ => []

def cancels (s : IOCore) : Option TaskId :=
  match s.phase with
  | .canceled t _ => some t
  | _ => none

structure Sound (s : IOCore) : Prop where
  seated : ∀ i t, s.members[i]? = some t →
    ∃ seat, s.seat t = some seat ∧ seat.idx = some i ∧ seat.state ≠ .new
  leftDistinct : s.left.Nodup
  queued : ∀ t ∈ s.left, ∃ seat, s.seat t = some seat ∧
    (seat.state = .new ∧ t ∉ s.members ∨ seat.state = .deleting ∧ t ∈ s.members)
  placed : ∀ t seat, s.seat t = some seat → t ∈ s.left ∨ seat.state = .working ∧ t ∈ s.members ∨
    s.cancels = some t
  fresh : ∀ t, s.made ≤ t → s.seat t = none
  single : ∀ t t' seat seat', s.seat t = some seat → s.seat t' = some seat' →
    seat.fd = seat'.fd → t = t'
  watched : ∀ fd t, s.epoll.watched fd = some t ↔
    t ∈ s.members ∧ ∃ seat, s.seat t = some seat ∧ seat.fd = fd
  batched : ∀ event ∈ s.batch, event.1 ∈ s.members ∧ event.2.any = true
  counted : s.queue ≠ [] → s.size ≠ 0
  canceled : ∀ t, s.cancels = some t →
    (∃ seat, s.seat t = some seat ∧ seat.state = .deleting) ∧ t ∉ s.left ∧ t ∉ s.members

section Seats

variable {s next : IOCore} {t : TaskId} {task : IOTask} {seat : Seat}

theorem seat_of (found : s.heap t = some task) : s.seat t = some task.seat := by
  simp [IOCore.seat, found]

theorem heap_of (found : s.seat t = some seat) : ∃ task, s.heap t = some task ∧
    task.seat = seat := by
  simpa [IOCore.seat] using found

theorem setTask_seat (s : IOCore) (t : TaskId) (task : IOTask) :
    (s.setTask t task).seat = Function.update s.seat t (some task.seat) := by
  funext t'
  by_cases same : t' = t
  · subst same
    simp [IOCore.seat, setTask]
  · simp [IOCore.seat, setTask, same]

theorem setTask_same (found : s.heap t = some task) {task' : IOTask}
    (same : task'.seat = task.seat) : (s.setTask t task').seat = s.seat := by
  rw [setTask_seat, same, ← seat_of found, Function.update_eq_self]

theorem Sound.member (sound : s.Sound) (mem : t ∈ s.members) : ∃ seat i, s.seat t = some seat ∧
    seat.idx = some i ∧ s.members[i]? = some t ∧ seat.state ≠ .new := by
  obtain ⟨i, at_i⟩ := List.mem_iff_getElem?.mp mem
  obtain ⟨seat, found, idx, known⟩ := sound.seated i t at_i
  exact ⟨seat, i, found, idx, at_i, known⟩

theorem Sound.once (sound : s.Sound) {i j : Nat} (at_i : s.members[i]? = some t)
    (at_j : s.members[j]? = some t) : j = i := by
  obtain ⟨seat, found, idx, -⟩ := sound.seated i t at_i
  obtain ⟨seat', found', idx', -⟩ := sound.seated j t at_j
  rw [found] at found'
  cases found'
  exact Option.some_inj.mp (idx'.symm.trans idx)

end Seats

-- Only the operations of the tasks are different, and what the descriptors are ready for.
structure Alike (s next : IOCore) : Prop where
  seat : next.seat = s.seat
  made : next.made = s.made
  tasks : next.tasks = s.tasks
  queue : next.queue = s.queue
  size : next.size = s.size
  stopped : next.stopped = s.stopped
  phase : next.phase = s.phase
  watched : next.epoll.watched = s.epoll.watched

section Alike

variable {s middle next : IOCore} {t : TaskId} {task : IOTask}

theorem Alike.refl (s : IOCore) : s.Alike s := ⟨rfl, rfl, rfl, rfl, rfl, rfl, rfl, rfl⟩

theorem Alike.trans (first : s.Alike middle) (second : middle.Alike next) : s.Alike next where
  seat := second.seat.trans first.seat
  made := second.made.trans first.made
  tasks := second.tasks.trans first.tasks
  queue := second.queue.trans first.queue
  size := second.size.trans first.size
  stopped := second.stopped.trans first.stopped
  phase := second.phase.trans first.phase
  watched := second.watched.trans first.watched

theorem setTask_alike (found : s.heap t = some task) {task' : IOTask}
    (same : task'.seat = task.seat) : s.Alike (s.setTask t task') :=
  ⟨setTask_same found same, rfl, rfl, rfl, rfl, rfl, rfl, rfl⟩

theorem complete_alike (s : IOCore) (op : OpId) (t : TaskId) (result : OpResult) :
    s.Alike (s.complete op t result) :=
  ⟨rfl, rfl, rfl, rfl, rfl, rfl, rfl, rfl⟩

theorem lower_alike (s : IOCore) (fd : Fd) (d : Direction) :
    s.Alike { s with epoll := s.epoll.lower fd d } :=
  ⟨rfl, rfl, rfl, rfl, rfl, rfl, rfl, rfl⟩

theorem execute_alike {kind : OpKind} {answer : Answer} {done : Bool}
    (found : s.heap t = some task) (executed : s.execute t task kind answer = some (done, next)) :
    s.Alike next := by
  unfold execute at executed
  split at executed
  · cases executed
    exact .refl s
  · split at executed
    · split at executed
      · cases executed
      · next still _ =>
          cases still <;> cases executed
          · exact lower_alike s _ _
          · exact .refl s
    · split at executed
      · cases executed
      · cases executed
        exact setTask_alike found rfl
    · cases executed

theorem construct_alike {kind : OpKind} {answer : Answer} {done : Bool}
    (found : s.heap t = some task)
    (constructed : s.construct t task kind answer = some (done, next)) : s.Alike next := by
  cases kind with
  | connect =>
      cases answer with
      | done still =>
          cases constructed
          exact .refl s
      | wouldBlock =>
          cases constructed
          exact ⟨setTask_same found rfl, rfl, rfl, rfl, rfl, rfl, rfl, rfl⟩
      | failed => cases constructed
  | recv | send | accept => exact execute_alike found constructed

theorem awaitSuspend_alike {op : AsyncOperation} (suspended : s.awaitSuspend t op = some next) :
    s.Alike next := by
  unfold awaitSuspend at suspended
  split at suspended
  · cases suspended
  · next task found =>
      split at suspended
      · cases suspended
      · cases suspended
        exact setTask_alike found rfl

theorem await_alike {kind : OpKind} {answer : Answer} (awaited : s.await t kind answer = some next) :
    s.Alike next := by
  unfold await at awaited
  split at awaited
  · split at awaited
    · cases awaited
    · next task found =>
        rw [Option.bind_eq_some_iff] at awaited
        obtain ⟨⟨done, s'⟩, constructed, awaited⟩ := awaited
        have begun : s.Alike { s' with started := s.started ++ [t] } :=
          (construct_alike found constructed).trans ⟨rfl, rfl, rfl, rfl, rfl, rfl, rfl, rfl⟩
        dsimp only at awaited
        split at awaited
        · cases awaited
          exact begun.trans (complete_alike _ _ _ _)
        · exact begun.trans (awaitSuspend_alike awaited)
  · cases awaited

theorem onIOEvent_alike {op : AsyncOperation} {answer : Answer} {done : Bool}
    (found : s.heap t = some task) (handled : s.onIOEvent t task op answer = some (done, next)) :
    s.Alike next := by
  unfold onIOEvent at handled
  split at handled
  · split at handled
    · cases handled
      exact complete_alike _ _ _ _
    · cases handled
      exact .refl s
  · split at handled
    · cases handled
      exact complete_alike _ _ _ _
    · rw [Option.map_eq_some_iff] at handled
      obtain ⟨⟨ready, s'⟩, executed, same⟩ := handled
      have alike := execute_alike found executed
      cases ready <;> cases same
      · exact alike
      · exact alike.trans (complete_alike _ _ _ _)

theorem restore_alike {op : AsyncOperation} (restored : s.restore t op = some next) :
    s.Alike next := by
  unfold restore at restored
  rw [Option.map_eq_some_iff] at restored
  obtain ⟨task, found, rfl⟩ := restored
  exact setTask_alike found rfl

theorem raise_alike (s : IOCore) (fd : Fd) (d : Direction) :
    s.Alike { s with epoll := s.epoll.raise fd d } :=
  ⟨rfl, rfl, rfl, rfl, rfl, rfl, rfl, rfl⟩

end Alike

section Rules

variable {s next : IOCore} {t : TaskId} {task : IOTask} {rest : List TaskId}

theorem Sound.transfer (sound : s.Sound) (seat : next.seat = s.seat) (made : next.made = s.made)
    (members : next.members = s.members) (left : next.left = s.left)
    (cancels : next.cancels = s.cancels) (watched : next.epoll.watched = s.epoll.watched)
    (batched : ∀ event ∈ next.batch, event.1 ∈ s.members ∧ event.2.any = true)
    (counted : next.queue ≠ [] → next.size ≠ 0) : next.Sound where
  seated := by
    rw [seat, members]
    exact sound.seated
  leftDistinct := by
    rw [left]
    exact sound.leftDistinct
  queued := by
    rw [seat, members, left]
    exact sound.queued
  placed := by
    rw [seat, members, left, cancels]
    exact sound.placed
  fresh := by
    rw [seat, made]
    exact sound.fresh
  single := by
    rw [seat]
    exact sound.single
  watched := by
    rw [seat, members, watched]
    exact sound.watched
  batched := by
    rw [members]
    exact batched
  counted := counted
  canceled := by
    rw [seat, members, left, cancels]
    exact sound.canceled

theorem Alike.lists (alike : s.Alike next) : next.members = s.members ∧ next.left = s.left ∧
    next.cancels = s.cancels ∧ next.batch = s.batch := by
  simp only [members, left, cancels, batch, alike.phase, alike.tasks, alike.queue, and_self]

theorem Alike.sound (sound : s.Sound) (alike : s.Alike next) : next.Sound := by
  obtain ⟨members, left, cancels, batch⟩ := alike.lists
  refine sound.transfer alike.seat alike.made members left cancels alike.watched ?_ ?_
  · rw [batch]
    exact sound.batched
  · rw [alike.queue, alike.size]
    exact sound.counted

theorem nodup_snoc {ts : List TaskId} (distinct : ts.Nodup) (other : t ∉ ts) :
    (ts ++ [t]).Nodup := by
  rw [← List.concat_eq_append]
  exact List.Nodup.concat other distinct

theorem unlocked (free : ¬s.Locked) :
    s.members = s.tasks ∧ s.left = s.queue ∧ s.cancels = none := by
  unfold Locked at free
  unfold members left cancels
  cases phase : s.phase <;> simp_all

theorem batch_phase (phase : next.phase = s.phase) : next.batch = s.batch := by
  simp only [batch, phase]

structure Enqueues (s next : IOCore) (t : TaskId) (seat : Seat) : Prop where
  free : ¬s.Locked
  phase : next.phase = s.phase
  seat : next.seat = Function.update s.seat t (some seat)
  tasks : next.tasks = s.tasks
  queue : next.queue = s.queue ++ [t]
  size : next.size = s.size + 1
  watched : next.epoll.watched = s.epoll.watched

theorem Enqueues.lists {seat : Seat} (enqueues : s.Enqueues next t seat) :
    next.members = s.members ∧ next.left = s.left ++ [t] ∧ next.cancels = none ∧
      next.batch = s.batch ∧ s.cancels = none := by
  have free : ¬next.Locked := by
    have same := enqueues.free
    unfold Locked at same ⊢
    rwa [enqueues.phase]
  obtain ⟨members, left, cancels⟩ := unlocked enqueues.free
  obtain ⟨members', left', cancels'⟩ := unlocked free
  refine ⟨?_, ?_, cancels', batch_phase enqueues.phase, cancels⟩
  · rw [members', members, enqueues.tasks]
  · rw [left', left, enqueues.queue]

theorem subscribe_enqueues {fd : Fd} (subscribed : s.subscribe fd = some next) :
    s.Enqueues next s.made { state := .new, fd := fd, idx := none } ∧ next.made = s.made + 1 := by
  unfold subscribe at subscribed
  split at subscribed
  · cases subscribed
  · next found =>
      cases subscribed
      rw [not_or] at found
      exact ⟨⟨found.1, rfl, setTask_seat s s.made (.new fd), rfl, rfl, rfl, rfl⟩, rfl⟩

theorem unsubscribe_enqueues (unsubscribed : s.unsubscribe t = some next) : ∃ seat,
    s.seat t = some seat ∧ seat.state = .working ∧
      s.Enqueues next t { seat with state := .deleting } ∧ next.made = s.made := by
  unfold unsubscribe at unsubscribed
  split at unsubscribed
  · cases unsubscribed
  · next task found =>
      split at unsubscribed
      · cases unsubscribed
      · next checked =>
          cases unsubscribed
          simp only [not_or, not_not] at checked
          exact ⟨task.seat, seat_of found, checked.2.2.2,
            ⟨checked.1, rfl, setTask_seat s t _, rfl, rfl, rfl, rfl⟩, rfl⟩

theorem Sound.subscribe_unused (sound : s.Sound) {fd : Fd} (subscribed : s.subscribe fd = some next)
    (t : TaskId) (seat : Seat) (there : s.seat t = some seat) : seat.fd ≠ fd := by
  unfold subscribe at subscribed
  split at subscribed
  · cases subscribed
  · next checked =>
      rw [not_or] at checked
      obtain ⟨members, left, cancels⟩ := unlocked checked.1
      obtain ⟨task, found, rfl⟩ := heap_of there
      intro same
      refine checked.2 ⟨t, ?_, by simpa [Holds, found, IOTask.seat] using same⟩
      rw [List.mem_append, ← members, ← left]
      rcases sound.placed t _ there with waits | works | cancel
      · exact Or.inr waits
      · exact Or.inl works.2
      · rw [cancels] at cancel
        cases cancel

theorem Sound.subscribes (sound : s.Sound) {fd : Fd} (subscribed : s.subscribe fd = some next) :
    next.Sound := by
  have unused := sound.subscribe_unused subscribed
  obtain ⟨enqueues, made⟩ := subscribe_enqueues subscribed
  obtain ⟨members, left, cancels, batch, before⟩ := enqueues.lists
  have look (t : TaskId) : next.seat t =
      if t = s.made then some { state := .new, fd := fd, idx := none } else s.seat t := by
    rw [enqueues.seat]
    exact Function.update_apply _ _ _ _
  have kept {t : TaskId} {seat : Seat} (there : s.seat t = some seat) : t ≠ s.made := by
    rintro rfl
    rw [sound.fresh _ (Nat.le_refl _)] at there
    cases there
  have outside : s.made ∉ s.members := by
    intro mem
    obtain ⟨seat, i, there, -⟩ := sound.member mem
    exact kept there rfl
  have later : s.made ∉ s.left := by
    intro mem
    obtain ⟨seat, there, -⟩ := sound.queued _ mem
    exact kept there rfl
  constructor
  · rw [members]
    intro i t at_i
    obtain ⟨seat, there, idx⟩ := sound.seated i t at_i
    exact ⟨seat, by rw [look, if_neg (kept there), there], idx⟩
  · rw [left]
    exact nodup_snoc sound.leftDistinct later
  · rw [left, members]
    intro t mem
    rcases List.mem_append.mp mem with old | new
    · obtain ⟨seat, there, waits⟩ := sound.queued t old
      exact ⟨seat, by rw [look, if_neg (kept there), there], waits⟩
    · obtain rfl := List.mem_singleton.mp new
      exact ⟨_, by rw [look, if_pos rfl], Or.inl ⟨rfl, outside⟩⟩
  · rw [left, members]
    intro t seat there
    rw [look] at there
    split at there
    · next same => exact Or.inl (by simp [same])
    · rcases sound.placed t seat there with waits | works | cancel
      · exact Or.inl (List.mem_append_left _ waits)
      · exact Or.inr (Or.inl works)
      · rw [before] at cancel
        cases cancel
  · rw [made]
    intro t unmade
    rw [look, if_neg (Nat.ne_of_gt unmade)]
    exact sound.fresh t (Nat.le_of_succ_le unmade)
  · intro t t' seat seat' there there' same
    rw [look] at there there'
    split at there <;> split at there'
    · next here here' => rw [here, here']
    · cases there
      exact absurd same.symm (unused t' seat' there')
    · cases there'
      exact absurd same (unused t seat there)
    · exact sound.single t t' seat seat' there there' same
  · rw [members, enqueues.watched]
    intro fd' t
    refine (sound.watched fd' t).trans (and_congr_right fun mem => ?_)
    obtain ⟨seat, i, there, -⟩ := sound.member mem
    rw [look, if_neg (kept there)]
  · rw [members, batch]
    exact sound.batched
  · rw [enqueues.size]
    exact fun _ => Nat.succ_ne_zero _
  · rw [cancels]
    simp

theorem Sound.unsubscribes (sound : s.Sound) (unsubscribed : s.unsubscribe t = some next) :
    next.Sound := by
  obtain ⟨seat, there, working, enqueues, made⟩ := unsubscribe_enqueues unsubscribed
  obtain ⟨members, left, cancels, batch, before⟩ := enqueues.lists
  have look (t' : TaskId) : next.seat t' =
      if t' = t then some { seat with state := .deleting } else s.seat t' := by
    rw [enqueues.seat]
    exact Function.update_apply _ _ _ _
  -- Nothing but the state of the task is different.
  have back {t' : TaskId} {seat' : Seat} (there' : next.seat t' = some seat') : ∃ old,
      s.seat t' = some old ∧ seat'.fd = old.fd ∧ seat'.idx = old.idx ∧
        (seat' = old ∨ t' = t ∧ seat'.state = .deleting) := by
    rw [look] at there'
    split at there'
    · next same =>
        cases there'
        exact ⟨seat, same ▸ there, rfl, rfl, Or.inr ⟨same, rfl⟩⟩
    · exact ⟨seat', there', rfl, rfl, Or.inl rfl⟩
  have forth {t' : TaskId} {old : Seat} (there' : s.seat t' = some old) : ∃ seat',
      next.seat t' = some seat' ∧ seat'.fd = old.fd ∧ seat'.idx = old.idx ∧
        (seat' = old ∨ t' = t ∧ seat'.state = .deleting) := by
    rw [look]
    split
    · next same =>
        rw [same, there] at there'
        cases there'
        exact ⟨_, rfl, rfl, rfl, Or.inr ⟨same, rfl⟩⟩
    · exact ⟨old, there', rfl, rfl, Or.inl rfl⟩
  have later : t ∉ s.left := by
    intro mem
    obtain ⟨seat', there', waits⟩ := sound.queued t mem
    rw [there] at there'
    cases there'
    rcases waits with ⟨state, -⟩ | ⟨state, -⟩ <;> rw [working] at state <;> cases state
  have inside : t ∈ s.members := by
    rcases sound.placed t seat there with waits | works | cancel
    · exact absurd waits later
    · exact works.2
    · rw [before] at cancel
      cases cancel
  constructor
  · rw [members]
    intro i t' at_i
    obtain ⟨old, there', idx, known⟩ := sound.seated i t' at_i
    obtain ⟨seat', there'', -, idx', same⟩ := forth there'
    refine ⟨seat', there'', idx'.trans idx, ?_⟩
    rcases same with rfl | ⟨-, deleting⟩
    · exact known
    · simp [deleting]
  · rw [left]
    exact nodup_snoc sound.leftDistinct later
  · rw [left, members]
    intro t' mem
    rcases List.mem_append.mp mem with old | new
    · obtain ⟨seat', there', waits⟩ := sound.queued t' old
      exact ⟨seat', by rw [look, if_neg (by rintro rfl; exact later old), there'], waits⟩
    · obtain rfl := List.mem_singleton.mp new
      exact ⟨_, by rw [look, if_pos rfl], Or.inr ⟨rfl, inside⟩⟩
  · rw [left, members]
    intro t' seat' there'
    obtain ⟨old, there'', -, -, rfl | ⟨rfl, -⟩⟩ := back there'
    · rcases sound.placed t' seat' there'' with waits | works | cancel
      · exact Or.inl (List.mem_append_left _ waits)
      · exact Or.inr (Or.inl works)
      · rw [before] at cancel
        cases cancel
    · exact Or.inl (by simp)
  · rw [made]
    intro t' unmade
    rw [look, if_neg]
    · exact sound.fresh t' unmade
    · rintro rfl
      rw [sound.fresh t' unmade] at there
      cases there
  · intro t₁ t₂ seat₁ seat₂ there₁ there₂ same
    obtain ⟨old₁, before₁, fd₁, -⟩ := back there₁
    obtain ⟨old₂, before₂, fd₂, -⟩ := back there₂
    exact sound.single t₁ t₂ old₁ old₂ before₁ before₂ (fd₁.symm.trans (same.trans fd₂))
  · rw [members, enqueues.watched]
    intro fd t'
    refine (sound.watched fd t').trans (and_congr_right fun mem => ⟨?_, ?_⟩)
    · rintro ⟨old, there', rfl⟩
      obtain ⟨seat', there'', fd', -⟩ := forth there'
      exact ⟨seat', there'', fd'⟩
    · rintro ⟨seat', there', rfl⟩
      obtain ⟨old, there'', fd', -⟩ := back there'
      exact ⟨old, there'', fd'.symm⟩
  · rw [members, batch]
    exact sound.batched
  · rw [enqueues.size]
    exact fun _ => Nat.succ_ne_zero _
  · rw [cancels]
    simp

structure Adds (s next : IOCore) (t : TaskId) (fd : Fd) (rest : List TaskId) : Prop where
  seat : next.seat =
    Function.update s.seat t (some { state := .working, fd := fd, idx := some s.tasks.length })
  made : next.made = s.made
  tasks : next.tasks = s.tasks ++ [t]
  queue : next.queue = s.queue
  size : next.size = s.size
  phase : next.phase = .queues rest
  watched : next.epoll.watched = Function.update s.epoll.watched fd (some t)

theorem addTask_adds (added : s.addTask t task rest = some next) :
    s.Adds next t task.fd rest := by
  unfold addTask at added
  rw [Option.map_eq_some_iff] at added
  obtain ⟨epoll, added, rfl⟩ := added
  exact ⟨setTask_seat s t _, rfl, rfl, rfl, rfl, rfl, (Epoll.add_eq added).2.2.1⟩

theorem Sound.adds (sound : s.Sound) (phase : s.phase = .queues (t :: rest))
    (found : s.heap t = some task) (new : task.state = .new) (adds : s.Adds next t task.fd rest) :
    next.Sound := by
  have members : s.members = s.tasks := by simp [members, phase]
  have left : s.left = t :: rest := by simp [left, phase]
  have cancels : s.cancels = none := by simp [cancels, phase]
  have here := seat_of found
  have distinct := sound.leftDistinct
  rw [left, List.nodup_cons] at distinct
  have outside : t ∉ s.tasks := by
    obtain ⟨seat, there, waits⟩ := sound.queued t (by simp [left])
    rw [here] at there
    cases there
    rcases waits with ⟨-, outside⟩ | ⟨deleting, -⟩
    · rwa [members] at outside
    · rw [show task.state = _ from deleting] at new
      cases new
  have look (t' : TaskId) : next.seat t' = if t' = t then
      some { state := .working, fd := task.fd, idx := some s.tasks.length } else s.seat t' := by
    rw [adds.seat]
    exact Function.update_apply _ _ _ _
  have tasks : next.members = s.tasks ++ [t] := by simp [IOCore.members, adds.phase, adds.tasks]
  have later : next.left = rest := by simp [IOCore.left, adds.phase]
  have waits {t' : TaskId} (mem : t' ∈ rest) : t' ≠ t := by
    rintro rfl
    exact distinct.1 mem
  constructor
  · rw [tasks]
    intro i t' at_i
    rw [List.getElem?_append] at at_i
    split at at_i
    · obtain ⟨seat, there, idx⟩ := sound.seated i t' (by rw [members, at_i])
      refine ⟨seat, ?_, idx⟩
      rw [look, if_neg, there]
      rintro rfl
      exact outside (List.mem_of_getElem? at_i)
    · obtain ⟨first, rfl⟩ : i - s.tasks.length = 0 ∧ t = t' := by
        rw [List.getElem?_singleton] at at_i
        split at at_i
        · next first => exact ⟨first, Option.some_inj.mp at_i⟩
        · cases at_i
      exact ⟨_, by rw [look, if_pos rfl], by rw [show i = s.tasks.length by omega], by simp⟩
  · rw [later]
    exact distinct.2
  · rw [later, tasks]
    intro t' mem
    obtain ⟨seat, there, case⟩ := sound.queued t' (by simp [left, mem])
    rw [members] at case
    refine ⟨seat, by rw [look, if_neg (waits mem), there], ?_⟩
    simpa [waits mem] using case
  · rw [later, tasks]
    intro t' seat there
    rw [look] at there
    split at there
    · next same =>
        cases there
        exact Or.inr (Or.inl ⟨rfl, by simp [same]⟩)
    · next other =>
        rcases sound.placed t' seat there with queued | works | cancel
        · rw [left, List.mem_cons] at queued
          exact Or.inl (queued.resolve_left other)
        · rw [members] at works
          exact Or.inr (Or.inl ⟨works.1, List.mem_append_left _ works.2⟩)
        · rw [cancels] at cancel
          cases cancel
  · rw [adds.made]
    intro t' unmade
    rw [look, if_neg]
    · exact sound.fresh t' unmade
    · rintro rfl
      rw [sound.fresh t' unmade] at here
      cases here
  · have back {t' : TaskId} {seat : Seat} (there : next.seat t' = some seat) :
        ∃ old, s.seat t' = some old ∧ seat.fd = old.fd := by
      rw [look] at there
      split at there
      · next same =>
          cases there
          exact ⟨task.seat, by rw [same, here], rfl⟩
      · exact ⟨seat, there, rfl⟩
    intro t₁ t₂ seat₁ seat₂ there₁ there₂ same
    obtain ⟨old₁, before₁, fd₁⟩ := back there₁
    obtain ⟨old₂, before₂, fd₂⟩ := back there₂
    exact sound.single t₁ t₂ old₁ old₂ before₁ before₂ (fd₁.symm.trans (same.trans fd₂))
  · rw [tasks]
    intro fd t'
    have watched : next.epoll.watched fd =
        if fd = task.fd then some t else s.epoll.watched fd := by
      rw [adds.watched]
      exact Function.update_apply _ _ _ _
    rw [watched, List.mem_append, List.mem_singleton]
    have before := sound.watched fd t'
    rw [members] at before
    by_cases same : t' = t
    · subst same
      rw [look, if_pos rfl]
      by_cases own : fd = task.fd
      · simp [own]
      · rw [if_neg own, before]
        simp [outside, Ne.symm own]
    · rw [look, if_neg same]
      split
      · next own =>
          constructor
          · intro mine
            exact absurd (Option.some_inj.mp mine).symm same
          · rintro ⟨-, seat, there, fd'⟩
            exact absurd (sound.single t' t seat _ there here (fd'.trans own)) same
      · rw [before]
        simp [same]
  · simp [batch, adds.phase]
  · rw [adds.queue, adds.size]
    exact sound.counted
  · simp [IOCore.cancels, adds.phase]

structure Drops (s dropped : IOCore) (t : TaskId) (fd : Fd) (i : Nat) (back : TaskId) : Prop where
  here : s.tasks[i]? = some t
  last : s.tasks.getLast? = some back
  seat : ∀ x, dropped.seat x =
    if x = back then (s.seat back).map fun seat => { seat with idx := some i } else s.seat x
  made : dropped.made = s.made
  tasks : dropped.tasks = s.tasks.set i back
  queue : dropped.queue = s.queue
  size : dropped.size = s.size
  watched : dropped.epoll.watched = Function.update s.epoll.watched fd none

theorem moveBack_drops {i : Nat} {moved : IOCore} {epoll : Epoll Fd TaskId} {fd : Fd}
    (here : s.tasks[i]? = some t) (moves : s.moveBack i = some moved)
    (deleted : moved.epoll.del fd = some epoll) :
    ∃ back, s.Drops { moved with epoll := epoll } t fd i back := by
  unfold moveBack at moves
  rw [Option.bind_eq_some_iff] at moves
  obtain ⟨back, last, moves⟩ := moves
  rw [Option.map_eq_some_iff] at moves
  obtain ⟨task, found, rfl⟩ := moves
  refine ⟨back, here, last, fun x => ?_, rfl, rfl, rfl, rfl, (Epoll.del_eq deleted).2.1⟩
  rw [seat_of found]
  exact (congrFun (setTask_seat s back _) x).trans (Function.update_apply _ _ _ _)

-- The deletion without an operation passes through the same state, in one step.
theorem dropTask_drops (found : s.heap t = some task) (dropped : s.dropTask t task rest = some next) :
    ∃ i back middle, task.idx = some i ∧ s.Drops middle t task.fd i back ∧
      middle.phase = .canceled t rest ∧
      (task.asyncOp = none ∧ middle.deleteTask t rest = some next ∨
        task.asyncOp.isSome ∧ middle.Alike next) := by
  unfold dropTask at dropped
  split at dropped
  · cases dropped
  next i idx =>
  split at dropped
  · cases dropped
  next here =>
  rw [not_not] at here
  simp only [Option.bind_eq_some_iff] at dropped
  obtain ⟨moved, moves, epoll, deleted, dropped⟩ := dropped
  obtain ⟨back, drops⟩ := moveBack_drops here moves deleted
  have drops' : s.Drops ({ moved with epoll := epoll }.setPhase (.canceled t rest)) t task.fd i
      back := ⟨here, drops.last, drops.seat, drops.made, drops.tasks, drops.queue, drops.size,
    drops.watched⟩
  refine ⟨i, back, _, idx, drops', rfl, ?_⟩
  -- The object of the task itself is as before.
  have found' : moved.heap t = some task := by
    unfold moveBack at moves
    rw [Option.bind_eq_some_iff] at moves
    obtain ⟨back', -, moves⟩ := moves
    rw [Option.map_eq_some_iff] at moves
    obtain ⟨task', there, rfl⟩ := moves
    by_cases same : t = back'
    · subst same
      rw [found] at there
      cases there
      simp [setTask, ← idx]
    · simp [setTask, same, found]
  split at dropped
  · next none_ => exact Or.inl ⟨none_, dropped⟩
  · next op waits =>
      rw [Option.map_eq_some_iff] at dropped
      obtain ⟨⟨done, after⟩, handled, rfl⟩ := dropped
      refine Or.inr ⟨by simp [waits], ?_⟩
      have set := @setTask_alike { moved with epoll := epoll } t task found'
        { task with eventsReady := fun _ => false } rfl
      have alike := set.trans (onIOEvent_alike (by simp [setTask]) handled)
      exact ⟨alike.seat, alike.made, alike.tasks, alike.queue, alike.size, alike.stopped, rfl,
        alike.watched⟩

theorem Sound.drops (sound : s.Sound) {i : Nat} {back : TaskId}
    (phase : s.phase = .queues (t :: rest)) (found : s.heap t = some task)
    (deleting : task.state = .deleting)
    (drops : s.Drops next t task.fd i back) (after : next.phase = .canceled t rest) :
    next.Sound := by
  have members : s.members = s.tasks := by simp [members, phase]
  have left : s.left = t :: rest := by simp [left, phase]
  have cancels : s.cancels = none := by simp [cancels, phase]
  have here := seat_of found
  have distinct := sound.leftDistinct
  rw [left, List.nodup_cons] at distinct
  have once (j : Nat) (at_j : s.tasks[j]? = some t) : j = i := by
    rw [← members] at at_j
    exact sound.once (members ▸ drops.here) at_j
  have tasks : next.members = (s.tasks.set i back).dropLast := by
    simp [IOCore.members, after, drops.tasks]
  have later : next.left = rest := by simp [IOCore.left, after]
  have cancels' : next.cancels = some t := by simp [IOCore.cancels, after]
  have inside (t' : TaskId) : t' ∈ next.members ↔ t' ∈ s.members ∧ t' ≠ t := by
    rw [tasks, members]
    exact swapRemove_mem drops.last drops.here once t'
  have forth {t' : TaskId} {old : Seat} (there : s.seat t' = some old) : ∃ seat,
      next.seat t' = some seat ∧ seat.state = old.state ∧ seat.fd = old.fd := by
    rw [drops.seat]
    split
    · next same => exact ⟨{ old with idx := some i }, by rw [← same, there]; rfl, rfl, rfl⟩
    · exact ⟨old, there, rfl, rfl⟩
  have back' {t' : TaskId} {seat : Seat} (there : next.seat t' = some seat) : ∃ old,
      s.seat t' = some old ∧ seat.state = old.state ∧ seat.fd = old.fd := by
    rw [drops.seat] at there
    split at there
    · next same =>
        rw [Option.map_eq_some_iff] at there
        obtain ⟨old, there, rfl⟩ := there
        exact ⟨old, by rw [same, there], rfl, rfl⟩
    · exact ⟨seat, there, rfl, rfl⟩
  constructor
  · rw [tasks]
    intro j t' at_j
    obtain ⟨short, place⟩ := swapRemove_getElem?.mp at_j
    split at place
    · next same =>
        have end_ : s.tasks[s.tasks.length - 1]? = some back := by
          rw [← drops.last, List.getLast?_eq_getElem?]
        obtain ⟨old, there, -, known⟩ := sound.seated _ back (members ▸ end_)
        refine ⟨{ old with idx := some i }, ?_, by rw [same], known⟩
        rw [place, drops.seat, if_pos rfl, there]
        rfl
    · obtain ⟨old, there, idx', known⟩ := sound.seated j t' (members ▸ place)
      refine ⟨old, ?_, idx', known⟩
      rw [drops.seat, if_neg, there]
      rintro rfl
      -- The last task is not before its own place.
      have end_ : s.tasks[s.tasks.length - 1]? = some t' := by
        rw [← drops.last, List.getLast?_eq_getElem?]
      have place' : s.members[j]? = some t' := by rw [members, place]
      have end' : s.members[s.tasks.length - 1]? = some t' := by rw [members, end_]
      have := sound.once place' end'
      omega
  · rw [later]
    exact distinct.2
  · rw [later]
    intro t' mem
    have other : t' ≠ t := by
      rintro rfl
      exact distinct.1 mem
    obtain ⟨old, there, waits⟩ := sound.queued t' (by simp [left, mem])
    obtain ⟨seat, there', state, -⟩ := forth there
    rw [← state] at waits
    exact ⟨seat, there', by simpa [inside, other] using waits⟩
  · rw [later, cancels']
    intro t' seat there
    obtain ⟨old, there', state, -⟩ := back' there
    by_cases same : t' = t
    · exact Or.inr (Or.inr (by rw [same]))
    · rcases sound.placed t' old there' with queued | works | cancel
      · rw [left, List.mem_cons] at queued
        exact Or.inl (queued.resolve_left same)
      · exact Or.inr (Or.inl ⟨state.trans works.1, (inside t').mpr ⟨works.2, same⟩⟩)
      · rw [cancels] at cancel
        cases cancel
  · rw [drops.made]
    intro t' unmade
    by_contra there
    obtain ⟨seat, there⟩ := Option.ne_none_iff_exists'.mp there
    obtain ⟨old, there', -⟩ := back' there
    rw [sound.fresh t' unmade] at there'
    cases there'
  · intro t₁ t₂ seat₁ seat₂ there₁ there₂ same
    obtain ⟨old₁, before₁, -, fd₁⟩ := back' there₁
    obtain ⟨old₂, before₂, -, fd₂⟩ := back' there₂
    exact sound.single t₁ t₂ old₁ old₂ before₁ before₂ (fd₁.symm.trans (same.trans fd₂))
  · intro fd t'
    rw [drops.watched, Function.update_apply, inside]
    have before := sound.watched fd t'
    constructor
    · intro watched
      split at watched
      · cases watched
      · next other =>
          obtain ⟨mem, old, there, fd'⟩ := before.mp watched
          obtain ⟨seat, there', -, same⟩ := forth there
          refine ⟨⟨mem, ?_⟩, seat, there', same.trans fd'⟩
          rintro rfl
          rw [here] at there
          cases there
          exact other fd'.symm
    · rintro ⟨⟨mem, other⟩, seat, there, fd'⟩
      obtain ⟨old, there', -, same⟩ := back' there
      rw [if_neg]
      · exact before.mpr ⟨mem, old, there', same.symm.trans fd'⟩
      · intro own
        exact other (sound.single t' t old _ there' here (same.symm.trans (fd'.trans own)))
  · simp [batch, after]
  · rw [drops.queue, drops.size]
    exact sound.counted
  · rw [cancels', later]
    intro t' same
    cases same
    obtain ⟨seat, there, state, -⟩ := forth here
    exact ⟨⟨seat, there, state.trans deleting⟩, distinct.1, by simp [inside]⟩

theorem Sound.deletes (sound : s.Sound) (phase : s.phase = .canceled t rest)
    (deleted : s.deleteTask t rest = some next) : next.Sound := by
  unfold deleteTask at deleted
  split at deleted
  · cases deleted
  next task found =>
  split at deleted
  · cases deleted
  cases deleted
  have members : s.members = s.tasks.dropLast := by simp [members, phase]
  have left : s.left = rest := by simp [left, phase]
  have cancels : s.cancels = some t := by simp [cancels, phase]
  obtain ⟨-, later, outside⟩ := sound.canceled t cancels
  have look (t' : TaskId) : IOCore.seat { s with
      heap := Function.update s.heap t none, epoll := s.epoll.close task.fd,
      tasks := s.tasks.dropLast, phase := .queues rest } t' =
        if t' = t then none else s.seat t' := by
    by_cases same : t' = t
    · subst same
      simp [IOCore.seat]
    · simp [IOCore.seat, same]
  have kept {t' : TaskId} {seat : Seat} (other : t' ≠ t) (there : s.seat t' = some seat) :=
    (look t').trans ((if_neg other).trans there)
  have back {t' : TaskId} {seat : Seat} (there : IOCore.seat { s with
      heap := Function.update s.heap t none, epoll := s.epoll.close task.fd,
      tasks := s.tasks.dropLast, phase := .queues rest } t' = some seat) :
        t' ≠ t ∧ s.seat t' = some seat := by
    rw [look] at there
    split at there
    · cases there
    · next other => exact ⟨other, there⟩
  constructor
  · intro i t' at_i
    have at_i' : s.members[i]? = some t' := members ▸ at_i
    obtain ⟨seat, there, idx⟩ := sound.seated i t' at_i'
    refine ⟨seat, kept ?_ there, idx⟩
    rintro rfl
    exact outside (List.mem_of_getElem? at_i')
  · exact left ▸ sound.leftDistinct
  · intro t' mem
    replace mem : t' ∈ s.left := left ▸ mem
    obtain ⟨seat, there, waits⟩ := sound.queued t' mem
    rw [members] at waits
    refine ⟨seat, kept ?_ there, waits⟩
    rintro rfl
    exact later mem
  · intro t' seat there
    obtain ⟨other, there⟩ := back there
    rcases sound.placed t' seat there with waits | works | cancel
    · exact Or.inl (left ▸ waits)
    · exact Or.inr (Or.inl (members ▸ works))
    · rw [cancels] at cancel
      exact absurd (Option.some_inj.mp cancel).symm other
  · intro t' unmade
    rw [look]
    split
    · rfl
    · exact sound.fresh t' unmade
  · intro t₁ t₂ seat₁ seat₂ there₁ there₂ same
    exact sound.single t₁ t₂ seat₁ seat₂ (back there₁).2 (back there₂).2 same
  · intro fd t'
    refine (sound.watched fd t').trans ?_
    rw [members]
    refine and_congr_right fun mem => ?_
    rw [look, if_neg]
    rintro rfl
    exact outside (members ▸ mem)
  · simp [batch]
  · exact sound.counted
  · simp [IOCore.cancels]

theorem Sound.setPhase (sound : s.Sound) {phase : Phase}
    (members : (s.setPhase phase).members = s.members) (left : (s.setPhase phase).left = s.left)
    (cancels : (s.setPhase phase).cancels = s.cancels)
    (batched : ∀ event ∈ (s.setPhase phase).batch, event ∈ s.batch) : (s.setPhase phase).Sound :=
  sound.transfer rfl rfl members left cancels rfl
    (fun event mem => sound.batched event (batched event mem)) sound.counted

theorem Sound.queue (sound : s.Sound) (processed : s.processQueue = some next) : next.Sound := by
  unfold processQueue at processed
  split at processed
  · next phase =>
      cases processed
      refine sound.transfer rfl rfl ?_ ?_ ?_ rfl ?_ ?_ <;>
        simp [members, left, cancels, batch, phase]
  · next t rest phase =>
      split at processed
      · cases processed
      · next task found =>
          split at processed
          · next new => exact sound.adds phase found new (addTask_adds processed)
          · next deleting =>
              obtain ⟨i, back, middle, -, drops, after, same⟩ := dropTask_drops found processed
              have dropped := sound.drops phase found deleting drops after
              rcases same with ⟨-, deleted⟩ | ⟨-, alike⟩
              · exact dropped.deletes after deleted
              · exact alike.sound dropped
          · cases processed
  · cases processed

theorem Sound.rolls (sound : s.Sound) (rolled : s.roll = some next) : next.Sound := by
  unfold roll at rolled
  split at rolled
  · next phase =>
      split at rolled
      · cases rolled
      · split at rolled <;> cases rolled <;> apply sound.setPhase <;>
          simp [members, left, cancels, batch, IOCore.setPhase, phase]
  · cases rolled

theorem Sound.waits (sound : s.Sound) {fds : List Fd} (waited : s.epollWait fds = some next) :
    next.Sound := by
  unfold epollWait at waited
  split at waited
  · next phase =>
      split at waited
      · rw [Option.map_eq_some_iff] at waited
        obtain ⟨⟨events, epoll⟩, collected, rfl⟩ := waited
        obtain ⟨reports, same, -, watched, -⟩ := Epoll.collect_eq collected
        refine sound.transfer rfl rfl ?_ ?_ ?_ watched ?_ sound.counted <;>
          simp only [members, left, cancels, batch, phase]
        intro event mem
        rw [same, List.mem_filterMap] at mem
        obtain ⟨fd, known, told⟩ := mem
        obtain ⟨t, watches, rfl⟩ := Option.map_eq_some_iff.mp told
        have inside := ((sound.watched fd t).mp watches).1
        rw [members, phase] at inside
        exact ⟨inside, (reports fd known).2.2⟩
      · cases waited
  · cases waited

theorem handleEvent_moves {answer : Answer} (handled : s.handleEvent answer = some next) :
    ∃ middle phase, s.Alike middle ∧ next = middle.setPhase phase ∧
      (s.phase = .events [] ∧ phase = .outside ∨ ∃ event rest,
        s.phase = .events (event :: rest) ∧ (phase = .events rest ∨ phase = .resumed rest)) := by
  unfold handleEvent at handled
  split at handled
  · next phase =>
      cases handled
      exact ⟨s, _, .refl s, rfl, Or.inl ⟨phase, rfl⟩⟩
  · next t mask rest phase =>
      split at handled
      · cases handled
      split at handled
      · cases handled
      · next task found =>
          dsimp only at handled
          split at handled
          · cases handled
            exact ⟨_, _, @setTask_alike s t task found
              { task with eventsReady := fun d => task.eventsReady d || mask d } rfl, rfl,
              Or.inr ⟨_, _, phase, Or.inl rfl⟩⟩
          · next op waits =>
              rw [Option.bind_eq_some_iff] at handled
              obtain ⟨⟨done, middle⟩, onEvent, handled⟩ := handled
              have set := @setTask_alike s t task found { task with
                eventsReady := fun d => task.eventsReady d || mask d, asyncOp := none } rfl
              have alike := set.trans (onIOEvent_alike (by simp [setTask]) onEvent)
              dsimp only at handled
              split at handled
              · cases handled
                exact ⟨_, _, alike, rfl, Or.inr ⟨_, _, phase, Or.inr rfl⟩⟩
              · rw [Option.map_eq_some_iff] at handled
                obtain ⟨after, restored, rfl⟩ := handled
                exact ⟨_, _, alike.trans (restore_alike restored), rfl,
                  Or.inr ⟨_, _, phase, Or.inl rfl⟩⟩
  · cases handled

theorem Sound.handles (sound : s.Sound) {answer : Answer}
    (handled : s.handleEvent answer = some next) : next.Sound := by
  obtain ⟨middle, phase, alike, rfl, moves⟩ := handleEvent_moves handled
  have same := alike.phase
  refine (alike.sound sound).setPhase ?_ ?_ ?_ ?_ <;>
    rcases moves with ⟨before, rfl⟩ | ⟨event, rest, before, rfl | rfl⟩ <;> rw [before] at same <;>
    simp +contextual [members, left, cancels, batch, IOCore.setPhase, same]

theorem Sound.returns (sound : s.Sound) (returned : s.ret = some next) : next.Sound := by
  unfold ret at returned
  split at returned
  · next phase =>
      cases returned
      apply sound.setPhase <;> simp [members, left, cancels, batch, IOCore.setPhase, phase]
  · next phase =>
      split at returned
      · cases returned
      · next task found =>
          have alike := @setTask_alike s _ task found { task with asyncOp := none } rfl
          exact (alike.sound sound).deletes phase returned
  · cases returned

theorem Sound.destroys (sound : s.Sound) (destroyed : s.destroy = some next) : next.Sound := by
  unfold destroy at destroyed
  split at destroyed
  · next phase =>
      rw [Option.map_eq_some_iff] at destroyed
      obtain ⟨middle, unsubscribed, rfl⟩ := destroyed
      obtain ⟨_, -, -, enqueues, -⟩ := unsubscribe_enqueues unsubscribed
      have same := enqueues.phase.trans phase
      apply (sound.unsubscribes unsubscribed).setPhase <;>
        simp [members, left, cancels, batch, IOCore.setPhase, same]
  · cases destroyed

theorem Sound.init : init.Sound := by
  have look (t : TaskId) : IOCore.init.seat t =
      if t = eventSub then some { state := .new, fd := eventFd, idx := none } else none := by
    by_cases same : t = eventSub
    · subst same
      rfl
    · simp [IOCore.seat, IOCore.init, same]
  constructor
  · simp [members, IOCore.init]
  · simp [left, IOCore.init]
  · intro t mem
    obtain rfl : t = eventSub := by simpa [left, IOCore.init] using mem
    exact ⟨_, rfl, Or.inl ⟨rfl, by simp [members, IOCore.init]⟩⟩
  · intro t seat there
    rw [look] at there
    split at there
    · next same => exact Or.inl (by simp [left, IOCore.init, same])
    · cases there
  · intro t unmade
    have made : 1 ≤ t := unmade
    rw [look, if_neg]
    rintro rfl
    simp [eventSub] at made
  · intro t t' seat seat' there there' _
    rw [look] at there there'
    split at there <;> split at there' <;> simp_all
  · simp [IOCore.init, members, Epoll.raise, Epoll.empty]
  · simp [batch, IOCore.init]
  · simp [IOCore.init]
  · simp [cancels, IOCore.init]

theorem Sound.step (sound : s.Sound) {action : Action} (taken : s.step action = some next) :
    next.Sound := by
  cases action with
  | subscribe fd => exact sound.subscribes taken
  | unsubscribe t => exact sound.unsubscribes taken
  | stop =>
      cases taken
      exact sound.transfer rfl rfl rfl rfl rfl rfl sound.batched sound.counted
  | wakeup =>
      cases taken
      exact (raise_alike s eventFd .read).sound sound
  | await t kind answer => exact (await_alike taken).sound sound
  | ret => exact sound.returns taken
  | roll => exact sound.rolls taken
  | queue => exact sound.queue taken
  | wait fds => exact sound.waits taken
  | interrupted =>
      simp only [IOCore.step, interrupted] at taken
      split at taken
      · next phase =>
          cases taken
          apply sound.setPhase <;> simp [members, left, cancels, batch, IOCore.setPhase, phase]
      · cases taken
  | event answer => exact sound.handles taken
  | destroy => exact sound.destroys taken
  | kernel fd d =>
      cases taken
      exact (raise_alike s fd d).sound sound

end Rules

end IOCore

end SystemProg.IoCore
