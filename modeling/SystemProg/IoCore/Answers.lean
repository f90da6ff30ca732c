import SystemProg.IoCore.Asserts

set_option autoImplicit false

-- A `co_await` gives its result at once, at an event, or when its task is deleted. Until then it is
-- the operation that its task waits for, and a task is not deleted with one.

namespace SystemProg.IoCore

namespace IOCore

-- The coroutine of the operation is suspended. The task that is being deleted has resumed its
-- coroutine already.
def Waits (s : IOCore) (t : TaskId) (op : OpId) : Prop :=
  s.cancels ≠ some t ∧ ∃ work, s.work t = some work ∧ ∃ found ∈ work.asyncOp, found.id = op

structure Answered (s : IOCore) : Prop where
  fates : ∀ op t, s.started[op]? = some t ↔
    s.Waits t op ∨ ∃ result, { op := op, task := t, result := result } ∈ s.log
  apart : ∀ t completion, completion ∈ s.log → ¬s.Waits t completion.op
  once : (s.log.map Completion.op).Nodup
  -- Only what has been closed is canceled.
  closed : ∀ completion ∈ s.log, completion.result = .canceled →
    ∀ seat, s.seat completion.task = some seat → seat.state = .deleting

structure Books (s : IOCore) : Prop extends Answered s where
  known : ∀ completion ∈ s.log, completion.task < s.made
  resumed : ∀ t, s.cancels = some t → ∃ work, s.work t = some work ∧ work.asyncOp.isSome

section Books

variable {s next : IOCore} {t : TaskId} {task : IOTask} {rest : List TaskId}

theorem Sound.made (sound : s.Sound) (found : s.heap t = some task) : t < s.made := by
  by_contra unmade
  have none_ := sound.fresh t (Nat.le_of_not_lt unmade)
  rw [seat_of found] at none_
  cases none_

theorem getElem?_snoc {A : Type} {l : List A} {x y : A} {i : Nat} :
    (l ++ [x])[i]? = some y ↔ l[i]? = some y ∨ i = l.length ∧ x = y := by
  rcases Nat.lt_trichotomy i l.length with early | rfl | late
  · rw [List.getElem?_append_left early]
    simp [Nat.ne_of_lt early]
  · simp
  · rw [List.getElem?_eq_none (by rw [List.length_append]; exact late),
      List.getElem?_eq_none (Nat.le_of_lt late)]
    simp [Nat.ne_of_gt late]

theorem logged_snoc {log : List Completion} {last : Completion} {op : OpId} :
    (∃ result, { op := op, task := t, result := result } ∈ log ++ [last]) ↔
      (∃ result, { op := op, task := t, result := result } ∈ log) ∨
        op = last.op ∧ t = last.task := by
  simp only [List.mem_append, List.mem_singleton, exists_or]
  refine or_congr_right ⟨?_, ?_⟩
  · rintro ⟨result, rfl⟩
    exact ⟨rfl, rfl⟩
  · rintro ⟨rfl, rfl⟩
    exact ⟨last.result, rfl⟩

theorem Waits.unique {op op' : OpId} (waits : s.Waits t op) (waits' : s.Waits t op') : op' = op := by
  obtain ⟨-, work, there, found, mem, rfl⟩ := waits
  obtain ⟨-, work', there', found', mem', rfl⟩ := waits'
  cases there.symm.trans there'
  cases (show work.asyncOp = some found from mem).symm.trans mem'
  rfl

theorem Books.started_of (books : s.Books) {op : OpId} (waits : s.Waits t op) :
    s.started[op]? = some t :=
  (books.fates op t).mpr (Or.inl waits)

structure Grows (s next : IOCore) : Prop where
  closed : ∀ t, t < s.made → (∀ seat, s.seat t = some seat → seat.state = .deleting) →
    ∀ seat, next.seat t = some seat → seat.state = .deleting
  made : s.made ≤ next.made
  resumed : ∀ t, next.cancels = some t → ∃ work, next.work t = some work ∧ work.asyncOp.isSome

theorem Ages.closed (ages : s.Ages next)
    (closed : ∀ seat, s.seat t = some seat → seat.state = .deleting) (seat : Seat)
    (there : next.seat t = some seat) : seat.state = .deleting := by
  obtain ⟨old, there', same | new | deleting⟩ := ages.back t seat there
  · exact same.trans (closed old there')
  · cases new.1.symm.trans (closed old there')
  · exact deleting.2

theorem Ages.grows (ages : s.Ages next) (made : next.made = s.made)
    (resumed : ∀ t, next.cancels = some t →
      ∃ work, next.work t = some work ∧ work.asyncOp.isSome) : s.Grows next where
  closed _ _ closed := ages.closed closed
  made := Nat.le_of_eq made.symm
  resumed := resumed

theorem Books.silent (books : s.Books) (grows : s.Grows next) (started : next.started = s.started)
    (log : next.log = s.log) (waits : ∀ t op, next.Waits t op ↔ s.Waits t op) : next.Books where
  fates op t := by
    rw [started, log, waits]
    exact books.fates op t
  apart t completion mem := by
    rw [waits]
    exact books.apart t completion (log ▸ mem)
  once := by
    rw [log]
    exact books.once
  closed completion mem canceled := by
    rw [log] at mem
    exact grows.closed _ (books.known completion mem) (books.closed completion mem canceled)
  known completion mem := Nat.lt_of_lt_of_le (books.known completion (log ▸ mem)) grows.made
  resumed := grows.resumed

theorem Books.suspends (books : s.Books) (grows : s.Grows next)
    (started : next.started = s.started ++ [t]) (log : next.log = s.log)
    (waits : ∀ t' op, next.Waits t' op ↔ s.Waits t' op ∨ t' = t ∧ op = s.started.length) :
    next.Books where
  fates op t' := by
    rw [started, log, waits, getElem?_snoc, books.fates, or_right_comm]
    simp [and_comm, eq_comm]
  apart t' completion mem := by
    rw [log] at mem
    rw [waits]
    rintro (before | ⟨-, fresh⟩)
    · exact books.apart t' completion mem before
    · have early := (books.fates completion.op completion.task).mpr (Or.inr ⟨_, mem⟩)
      rw [fresh, List.getElem?_eq_none (Nat.le_refl _)] at early
      cases early
  once := by
    rw [log]
    exact books.once
  closed completion mem canceled := by
    rw [log] at mem
    exact grows.closed _ (books.known completion mem) (books.closed completion mem canceled)
  known completion mem := Nat.lt_of_lt_of_le (books.known completion (log ▸ mem)) grows.made
  resumed := grows.resumed

theorem Books.resumes (books : s.Books) (grows : s.Grows next) {op : OpId} {result : OpResult}
    (before : s.Waits t op) (started : next.started = s.started)
    (log : next.log = s.log ++ [{ op := op, task := t, result := result }])
    (waits : ∀ t' op', next.Waits t' op' ↔ s.Waits t' op' ∧ t' ≠ t)
    (canceled : result = .canceled → ∀ seat, s.seat t = some seat → seat.state = .deleting)
    (made : t < s.made) : next.Books where
  fates op' t' := by
    rw [started, log, waits, books.fates, logged_snoc]
    constructor
    · rintro (waits' | logged)
      · by_cases same : t' = t
        · subst same
          exact Or.inr (Or.inr ⟨before.unique waits', rfl⟩)
        · exact Or.inl ⟨waits', same⟩
      · exact Or.inr (Or.inl logged)
    · rintro (⟨waits', -⟩ | logged | ⟨rfl, rfl⟩)
      · exact Or.inl waits'
      · exact Or.inr logged
      · exact Or.inl before
  apart t' completion mem := by
    rw [waits]
    rintro ⟨waits', other⟩
    rw [log] at mem
    rcases List.mem_append.mp mem with old | new
    · exact books.apart t' completion old waits'
    · cases List.mem_singleton.mp new
      exact other (Option.some_inj.mp ((books.started_of waits').symm.trans
        (books.started_of before)))
  once := by
    rw [log, List.map_append]
    refine nodup_snoc books.once fun mem => ?_
    obtain ⟨completion, mem, same⟩ := List.mem_map.mp mem
    exact books.apart t completion mem (same ▸ before)
  closed completion mem how := by
    rw [log] at mem
    rcases List.mem_append.mp mem with old | new
    · exact grows.closed _ (books.known completion old) (books.closed completion old how)
    · cases List.mem_singleton.mp new
      exact grows.closed t made (canceled how)
  known completion mem := by
    rw [log] at mem
    rcases List.mem_append.mp mem with old | new
    · exact Nat.lt_of_lt_of_le (books.known completion old) grows.made
    · cases List.mem_singleton.mp new
      exact Nat.lt_of_lt_of_le made grows.made
  resumed := grows.resumed

theorem Books.immediate (books : s.Books) (grows : s.Grows next)
    (started : next.started = s.started ++ [t])
    (log : next.log = s.log ++ [{ op := s.started.length, task := t, result := .done }])
    (waits : ∀ t' op, next.Waits t' op ↔ s.Waits t' op) (made : t < s.made) : next.Books where
  fates op t' := by
    rw [started, log, waits, getElem?_snoc, books.fates, logged_snoc, or_assoc]
    simp [eq_comm]
  apart t' completion mem := by
    rw [waits]
    rw [log] at mem
    rcases List.mem_append.mp mem with old | new
    · exact books.apart t' completion old
    · cases List.mem_singleton.mp new
      intro before
      have early := books.started_of before
      rw [List.getElem?_eq_none (Nat.le_refl _)] at early
      cases early
  once := by
    rw [log, List.map_append]
    refine nodup_snoc books.once fun mem => ?_
    obtain ⟨completion, mem, same⟩ := List.mem_map.mp mem
    have early := (books.fates completion.op completion.task).mpr (Or.inr ⟨_, mem⟩)
    rw [same, List.getElem?_eq_none (Nat.le_refl _)] at early
    cases early
  closed completion mem canceled := by
    rw [log] at mem
    rcases List.mem_append.mp mem with old | new
    · exact grows.closed _ (books.known completion old) (books.closed completion old canceled)
    · cases List.mem_singleton.mp new
      cases canceled
  known completion mem := by
    rw [log] at mem
    rcases List.mem_append.mp mem with old | new
    · exact Nat.lt_of_lt_of_le (books.known completion old) grows.made
    · cases List.mem_singleton.mp new
      exact Nat.lt_of_lt_of_le made grows.made
  resumed := grows.resumed

theorem waits_congr {op : OpId} (work : next.work t = s.work t)
    (cancels : next.cancels = some t ↔ s.cancels = some t) : next.Waits t op ↔ s.Waits t op := by
  simp only [Waits, ne_eq, work, cancels]

theorem not_waits {op : OpId} (idle : ∀ work, s.work t = some work → work.asyncOp = none) :
    ¬s.Waits t op := by
  rintro ⟨-, work, there, found, mem, -⟩
  rw [idle work there] at mem
  cases mem

theorem Books.moves (books : s.Books) (work : next.work = s.work) (seat : next.seat = s.seat)
    (made : next.made = s.made) (started : next.started = s.started) (log : next.log = s.log)
    (before : s.cancels = none) (after : next.cancels = none) : next.Books := by
  refine books.silent ((Ages.of_seat seat).grows made (by simp [after])) started log ?_
  exact fun t op => waits_congr (congrFun work t) (by simp [before, after])

theorem Books.subscribe (books : s.Books) (sound : s.Sound) {fd : Fd}
    (subscribed : s.subscribe fd = some next) : next.Books := by
  obtain ⟨enqueues, made⟩ := subscribe_enqueues subscribed
  obtain ⟨spares, log, work, -⟩ := subscribe_spares subscribed
  obtain ⟨-, -, after, -, before⟩ := enqueues.lists
  refine books.silent ⟨?_, by omega, by simp [after]⟩ spares.started log ?_
  · intro t old closed
    rwa [enqueues.seat, Function.update_of_ne (Nat.ne_of_lt old)]
  · intro t op
    by_cases same : t = s.made
    · subst same
      have none_ : s.work s.made = none := by
        by_contra there
        obtain ⟨work, there⟩ := Option.ne_none_iff_exists'.mp there
        obtain ⟨task, found, -⟩ := Option.map_eq_some_iff.mp there
        exact Nat.lt_irrefl _ (sound.made found)
      refine iff_of_false (not_waits ?_) (not_waits (by simp [none_]))
      rw [work]
      rintro _ ⟨⟩
      rfl
    · exact waits_congr (spares.others t same) (by simp [before, after])

theorem Books.unsubscribe (books : s.Books) (unsubscribed : s.unsubscribe t = some next) :
    next.Books := by
  obtain ⟨_, -, -, enqueues, made⟩ := unsubscribe_enqueues unsubscribed
  obtain ⟨spares, log, work, -⟩ := unsubscribe_spares unsubscribed
  obtain ⟨-, -, after, -, before⟩ := enqueues.lists
  refine books.silent ⟨?_, Nat.le_of_eq made.symm, by simp [after]⟩ spares.started log ?_
  · intro t' _ closed seat there
    rw [enqueues.seat, Function.update_apply] at there
    split at there
    · cases there
      rfl
    · exact closed seat there
  · intro t' op
    refine waits_congr ?_ (by simp [before, after])
    by_cases same : t' = t
    · rw [same, work]
    · exact spares.others t' same

theorem Books.await (books : s.Books) (sound : s.Sound) {kind : OpKind} {answer : Answer}
    (awaited : s.await t kind answer = some next) : next.Books := by
  have alike := await_alike awaited
  have cancels : next.cancels = s.cancels := alike.lists.2.2.1
  obtain ⟨task, work, serves, started, fate⟩ := await_serves awaited
  -- A task that is being deleted cannot wait again.
  have free (idle : task.asyncOp = none) : s.cancels ≠ some t := by
    intro cancel
    obtain ⟨work', there, waits⟩ := books.resumed t cancel
    cases (work_of serves.before).symm.trans there
    simp [IOTask.work, idle] at waits
  have resumed (t' : TaskId) (cancel : next.cancels = some t') :
      ∃ work, next.work t' = some work ∧ work.asyncOp.isSome := by
    rw [cancels] at cancel
    by_cases same : t' = t
    · subst same
      obtain ⟨work', there, waits⟩ := books.resumed t' cancel
      cases (work_of serves.before).symm.trans there
      refine ⟨work, serves.after, ?_⟩
      rcases fate with ⟨kept, -⟩ | ⟨idle, -⟩
      · rw [kept]
        exact waits
      · exact absurd cancel (free idle)
    · rw [serves.others t' same]
      exact books.resumed t' cancel
  have grows := (Ages.of_seat alike.seat).grows alike.made resumed
  rcases fate with ⟨kept, log⟩ | ⟨idle, waits, log⟩
  · refine books.immediate grows started log (fun t' op => ?_) (sound.made serves.before)
    by_cases same : t' = t
    · subst same
      simp only [Waits, cancels, serves.after, work_of serves.before, Option.some.injEq,
        exists_eq_left', kept]
      rfl
    · exact waits_congr (serves.others t' same) (by rw [cancels])
  · refine books.suspends grows started log fun t' op => ?_
    by_cases same : t' = t
    · subst same
      have before : ¬s.Waits t' op := by
        refine not_waits fun work' there => ?_
        cases (work_of serves.before).symm.trans there
        exact idle
      have after : next.Waits t' op ↔ op = s.started.length := by
        simp [Waits, cancels, serves.after, waits, free idle, eq_comm]
      simp [after, before]
    · rw [waits_congr (serves.others t' same) (by rw [cancels])]
      simp [same]

theorem Books.event (books : s.Books) (sound : s.Sound) {answer : Answer}
    (handled : s.handleEvent answer = some next) : next.Books := by
  obtain ⟨middle, phase, alike, same, moves⟩ := handleEvent_moves handled
  have seat : next.seat = s.seat := by
    rw [same]
    exact alike.seat
  have made : next.made = s.made := by
    rw [same]
    exact alike.made
  have after : next.cancels = none := by
    rw [same]
    rcases moves with ⟨-, rfl⟩ | ⟨_, _, -, rfl | rfl⟩ <;> rfl
  have before : s.cancels = none := by
    rcases moves with ⟨before, -⟩ | ⟨_, _, before, -⟩ <;> rw [IOCore.cancels, before]
  have grows : s.Grows next := (Ages.of_seat seat).grows made (by simp [after])
  rcases moves with ⟨done, -⟩ | ⟨⟨t, mask⟩, rest, events, -⟩
  · unfold handleEvent at handled
    rw [done] at handled
    cases handled
    exact books.moves rfl rfl rfl rfl rfl before after
  · obtain ⟨task, work, serves, -, started, -, fate⟩ := handleEvent_serves events handled
    have others {t' : TaskId} (other : t' ≠ t) (op : OpId) : next.Waits t' op ↔ s.Waits t' op :=
      waits_congr (serves.others t' other) (by simp [before, after])
    rcases fate with ⟨kept, log⟩ | ⟨op, result, waits, taken, log, closing⟩
    · refine books.silent grows started log fun t' op => ?_
      by_cases same : t' = t
      · subst same
        simp only [Waits, before, after, serves.after, work_of serves.before, Option.some.injEq,
          exists_eq_left', kept]
        rfl
      · exact others same op
    · have waiting : s.Waits t op.id :=
        ⟨by simp [before], task.work, work_of serves.before, op, waits, rfl⟩
      refine books.resumes grows waiting started log (fun t' op' => ?_) ?_ (sound.made serves.before)
      · by_cases same : t' = t
        · subst same
          refine iff_of_false (not_waits ?_) (by simp)
          rw [serves.after]
          rintro _ ⟨⟩
          exact taken
        · simp [others same, same]
      · intro how seat there
        cases (seat_of serves.before).symm.trans there
        exact closing how

theorem Books.drop (books : s.Books) (sound : s.Sound) (phase : s.phase = .queues (t :: rest))
    (found : s.heap t = some task) (deleting : task.state = .deleting)
    (dropped : s.dropTask t task rest = some next) : next.Books := by
  have before : s.cancels = none := by simp [cancels, phase]
  obtain ⟨i, back, middle, -, drops, -, same⟩ := dropTask_drops found dropped
  obtain ⟨spares, -, fate⟩ := dropTask_spares found deleting dropped
  have made : next.made = s.made := by
    rcases same with ⟨-, deleted⟩ | ⟨-, alike⟩
    · exact (deleteTask_spares deleted).2.2.2.2.1.trans drops.made
    · exact alike.made.trans drops.made
  have closed (t : TaskId) (closed : ∀ seat, s.seat t = some seat → seat.state = .deleting)
      (seat : Seat) (there : next.seat t = some seat) : seat.state = .deleting := by
    have closed' := drops.ages.closed closed
    rcases same with ⟨-, deleted⟩ | ⟨-, alike⟩
    · exact (deleteTask_ages deleted).closed closed' seat there
    · exact closed' seat (by rw [← alike.seat, there])
  rcases fate with ⟨after, gone, log, idle⟩ | ⟨after, op, waits, work, log⟩
  · have after' : next.cancels = none := by simp [cancels, after]
    refine books.silent ⟨fun t _ => closed t, Nat.le_of_eq made.symm, by simp [after']⟩
      spares.started log fun t' op => ?_
    by_cases own : t' = t
    · subst own
      refine iff_of_false (not_waits (by simp [gone])) (not_waits fun work there => ?_)
      cases (work_of found).symm.trans there
      exact idle
    · exact waits_congr (spares.others t' own) (by simp [before, after'])
  · have after' : next.cancels = some t := by simp [cancels, after]
    refine books.resumes ⟨fun t _ => closed t, Nat.le_of_eq made.symm, ?_⟩
      ⟨by simp [before], task.work, work_of found, op, waits, rfl⟩ spares.started log
      (fun t' op' => ?_) ?_ (sound.made found)
    · rw [after']
      rintro _ ⟨⟩
      exact ⟨_, work, rfl⟩
    · by_cases own : t' = t
      · simp [Waits, own, after']
      · have others : next.Waits t' op' ↔ s.Waits t' op' :=
          waits_congr (spares.others t' own) (by simp [before, after', Ne.symm own])
        simp [others, own]
    · intro _ seat there
      cases (seat_of found).symm.trans there
      exact deleting

theorem Books.add (books : s.Books) (phase : s.phase = .queues (t :: rest))
    (found : s.heap t = some task) (new : task.state = .new)
    (added : s.addTask t task rest = some next) : next.Books := by
  have adds := addTask_adds added
  obtain ⟨spares, log, work, -⟩ := addTask_spares added
  have before : s.cancels = none := by simp [cancels, phase]
  have after : next.cancels = none := by simp [cancels, adds.phase]
  refine books.silent ((adds.ages (seat_of found) new).grows adds.made (by simp [after]))
    spares.started log fun t' op => ?_
  by_cases same : t' = t
  · subst same
    simp only [Waits, before, after, work, work_of found, Option.some.injEq, exists_eq_left']
    rfl
  · exact waits_congr (spares.others t' same) (by simp [before, after])

theorem Books.queue (books : s.Books) (sound : s.Sound) (processed : s.processQueue = some next) :
    next.Books := by
  unfold processQueue at processed
  split at processed
  · next phase =>
      cases processed
      exact books.moves rfl rfl rfl rfl rfl (by rw [cancels, phase]) rfl
  · next t rest phase =>
      split at processed
      · cases processed
      · next task found =>
          split at processed
          · next new => exact books.add phase found new processed
          · next deleting => exact books.drop sound phase found deleting processed
          · cases processed
  · cases processed

theorem Books.ret (books : s.Books) (returned : s.ret = some next) : next.Books := by
  unfold IOCore.ret at returned
  split at returned
  · next phase =>
      cases returned
      exact books.moves rfl rfl rfl rfl rfl (by rw [cancels, phase]) rfl
  · next t rest phase =>
      split at returned
      · cases returned
      · next task found =>
          have before : s.cancels = some t := by rw [cancels, phase]
          obtain ⟨spares, log, gone, after, made, -⟩ := deleteTask_spares returned
          have after' : next.cancels = none := by rw [cancels, after]
          have set := @setTask_same s t task found { task with asyncOp := none } rfl
          have grows : s.Grows next := by
            refine ⟨fun t _ closed => ?_, Nat.le_of_eq made.symm, by simp [after']⟩
            exact (deleteTask_ages returned).closed (by rwa [set])
          refine books.silent grows spares.started log fun t' op => ?_
          by_cases same : t' = t
          · subst same
            exact iff_of_false (not_waits (by simp [gone])) (by simp [Waits, before])
          · refine waits_congr ((spares.others t' same).trans ?_) ?_
            · exact work_others (fun x other => Function.update_of_ne other _ _) same
            · simp [before, after', Ne.symm same]
  · cases returned

theorem Books.destroy (books : s.Books) (destroyed : s.destroy = some next) : next.Books := by
  unfold IOCore.destroy at destroyed
  split at destroyed
  · next phase =>
      rw [Option.map_eq_some_iff] at destroyed
      obtain ⟨middle, unsubscribed, rfl⟩ := destroyed
      obtain ⟨_, -, -, enqueues, -⟩ := unsubscribe_enqueues unsubscribed
      exact (books.unsubscribe unsubscribed).moves rfl rfl rfl rfl rfl enqueues.lists.2.2.1 rfl
  · cases destroyed

theorem Books.step (books : s.Books) (sound : s.Sound) {action : Action}
    (taken : s.step action = some next) : next.Books := by
  cases action with
  | subscribe fd => exact books.subscribe sound taken
  | unsubscribe t => exact books.unsubscribe taken
  | stop | wakeup | kernel =>
      cases taken
      refine books.silent (Ages.grows (.of_seat rfl) rfl ?_) rfl rfl fun t op => ?_
      · exact books.resumed
      · exact waits_congr rfl Iff.rfl
  | await t kind answer => exact books.await sound taken
  | ret => exact books.ret taken
  | roll =>
      simp only [IOCore.step, roll] at taken
      split at taken
      · next phase =>
          split at taken
          · cases taken
          · split at taken <;> cases taken <;>
              exact books.moves rfl rfl rfl rfl rfl (by rw [cancels, phase]) rfl
      · cases taken
  | queue => exact books.queue sound taken
  | wait fds =>
      simp only [IOCore.step, epollWait] at taken
      split at taken
      · next phase =>
          split at taken
          · rw [Option.map_eq_some_iff] at taken
            obtain ⟨_, -, rfl⟩ := taken
            exact books.moves rfl rfl rfl rfl rfl (by rw [cancels, phase]) rfl
          · cases taken
      · cases taken
  | interrupted =>
      simp only [IOCore.step, interrupted] at taken
      split at taken
      · next phase =>
          cases taken
          exact books.moves rfl rfl rfl rfl rfl (by rw [cancels, phase]) rfl
      · cases taken
  | event answer => exact books.event sound taken
  | destroy => exact books.destroy taken

theorem Books.init : IOCore.init.Books := by
  have none_ (t : TaskId) (op : OpId) : ¬IOCore.init.Waits t op := by
    refine not_waits fun work there => ?_
    by_cases same : t = eventSub
    · subst same
      cases there
      rfl
    · simp [IOCore.work, IOCore.init, same] at there
  refine ⟨⟨fun op t => ?_, ?_, ?_, ?_⟩, ?_, ?_⟩
  · rw [or_iff_right (none_ t op)]
    simp [IOCore.init]
  · simp [IOCore.init]
  · simp [IOCore.init]
  · simp [IOCore.init]
  · simp [IOCore.init]
  · simp [IOCore.init, cancels]

end Books

theorem operations_answered (actions : List Action) : Run.Along step Answered init actions :=
  have kept : Run.Along step (fun s => s.Sound ∧ s.Books) init actions :=
    Run.along_invariant (fun _ _ _ kept taken => ⟨kept.1.step taken, kept.2.step kept.1 taken⟩)
      ⟨Sound.init, Books.init⟩ actions
  kept.mono fun _ kept => kept.2.toAnswered

end IOCore

end SystemProg.IoCore
