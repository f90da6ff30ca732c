import SystemProg.IoCore.Asserts

set_option autoImplicit false

-- The kernel tells each event once. Until a call has found that the descriptor is not ready, the
-- event is with the kernel, in the batch of the loop, or in the mask of the task with nobody
-- waiting for it.

namespace SystemProg.IoCore

namespace IOCore

-- The loop has been told that the descriptor of the task is ready.
def Noticed (s : IOCore) (t : TaskId) (d : Direction) : Prop :=
  (∃ mask, (t, mask) ∈ s.batch ∧ mask d = true) ∨ ∃ work, s.work t = some work ∧ work.Attends d

def Tells (s : IOCore) : Prop :=
  ∀ fd t d, s.epoll.watched fd = some t → s.epoll.level fd d = true →
    s.epoll.pending fd = true ∨ s.Noticed t d

section Tells

variable {s middle next : IOCore} {t : TaskId} {task : IOTask} {rest : List TaskId}

theorem Tells.step_of {told : Fd → Prop} (tells : s.Tells)
    (keeps : s.epoll.Keeps next.epoll told)
    (reported : ∀ fd t d, told fd → next.epoll.watched fd = some t →
      next.epoll.level fd d = true → next.Noticed t d)
    (stays : ∀ fd t d, s.epoll.watched fd = some t → next.epoll.watched fd = some t →
      next.epoll.level fd d = true → s.Noticed t d → next.Noticed t d) : next.Tells := by
  intro fd t d watched level
  rcases keeps fd d (by simp [watched]) level with pending | known | ⟨same, level', quiet⟩
  · exact Or.inl pending
  · exact Or.inr (reported fd t d known watched level)
  · have watched' := same.symm.trans watched
    rcases tells fd t d watched' level' with pending | noticed
    · cases pending.symm.trans quiet
    · exact Or.inr (stays fd t d watched' watched level noticed)

theorem Tells.spares (tells : s.Tells) (spares : s.Spares next t) (batch : next.batch = s.batch)
    (own : ∀ fd d, s.epoll.watched fd = some t → next.epoll.watched fd = some t →
      s.Noticed t d → next.Noticed t d) : next.Tells := by
  refine tells.step_of spares.keeps (fun _ _ _ => False.elim) ?_
  intro fd x d watched watched' _ noticed
  by_cases same : x = t
  · rw [same] at watched watched' noticed ⊢
    exact own fd d watched watched' noticed
  · simpa only [Noticed, batch, spares.others x same] using noticed

theorem Tells.same (tells : s.Tells) (work : next.work = s.work) (batch : next.batch = s.batch)
    (keeps : s.epoll.Keeps next.epoll fun _ => False) : next.Tells := by
  refine tells.step_of keeps (fun _ _ _ => False.elim) ?_
  intro _ _ _ _ _ _ noticed
  simpa only [Noticed, batch, work] using noticed

theorem Tells.serves (tells : s.Tells) {work : Work} {mask : Mask} (sound : s.Sound)
    (serves : s.Serves next t task work mask)
    (batch : ∀ t' mask', (t', mask') ∈ s.batch → (t', mask') ∈ next.batch ∨ t' = t ∧ mask' = mask) :
    next.Tells := by
  refine tells.step_of serves.keeps (fun _ _ _ => False.elim) ?_
  intro fd x d watched _ level noticed
  by_cases same : x = t
  · subst same
    have own : fd = task.fd := by
      obtain ⟨-, seat, there, rfl⟩ := (sound.watched fd x).mp watched
      cases (seat_of serves.before).symm.trans there
      rfl
    subst own
    have attends (known : task.work.Attends d ∨ mask d = true) : next.Noticed x d :=
      Or.inr ⟨work, serves.after, serves.attends d known level⟩
    rcases noticed with ⟨mask', mem, told⟩ | ⟨work', there, waits⟩
    · rcases batch x mask' mem with later | ⟨-, rfl⟩
      · exact Or.inl ⟨mask', later, told⟩
      · exact attends (Or.inr told)
    · cases (work_of serves.before).symm.trans there
      exact attends (Or.inl waits)
  · rcases noticed with ⟨mask', mem, told⟩ | waits
    · rcases batch x mask' mem with later | ⟨rfl, -⟩
      · exact Or.inl ⟨mask', later, told⟩
      · exact absurd rfl same
    · refine Or.inr ?_
      rwa [serves.others x same]

theorem Sound.unwatched (sound : s.Sound) (outside : t ∉ s.members) {fd : Fd} :
    s.epoll.watched fd ≠ some t := by
  intro watched
  exact outside ((sound.watched fd t).mp watched).1

theorem Tells.subscribe (tells : s.Tells) (sound : s.Sound) {fd : Fd}
    (subscribed : s.subscribe fd = some next) : next.Tells := by
  obtain ⟨spares, -⟩ := subscribe_spares subscribed
  obtain ⟨-, -, -, batch, -⟩ := (subscribe_enqueues subscribed).1.lists
  refine tells.spares spares batch fun fd d watched _ _ => ?_
  refine absurd watched (sound.unwatched fun mem => ?_)
  obtain ⟨seat, i, there, -⟩ := sound.member mem
  cases (sound.fresh s.made (Nat.le_refl _)).symm.trans there

theorem Tells.unsubscribe (tells : s.Tells) (unsubscribed : s.unsubscribe t = some next) :
    next.Tells := by
  obtain ⟨spares, -, work, -⟩ := unsubscribe_spares unsubscribed
  obtain ⟨_, -, -, enqueues, -⟩ := unsubscribe_enqueues unsubscribed
  obtain ⟨-, -, -, batch, -⟩ := enqueues.lists
  refine tells.spares spares batch fun fd d _ _ noticed => ?_
  simpa only [Noticed, batch, work] using noticed

theorem Tells.queue (tells : s.Tells) (sound : s.Sound) (processed : s.processQueue = some next) :
    next.Tells := by
  have sound' := sound.queue processed
  unfold processQueue at processed
  split at processed
  · next phase =>
      cases processed
      exact tells.same rfl (by simp [batch, phase]) (.refl _)
  · next t rest phase =>
      have batch : s.batch = [] := by simp [batch, phase]
      split at processed
      · cases processed
      · next task found =>
          split at processed
          · next new =>
              have adds := addTask_adds processed
              refine tells.spares (addTask_spares processed).1 ?_ fun fd d watched _ _ => ?_
              · rw [batch, IOCore.batch, adds.phase]
              · refine absurd watched (sound.unwatched fun mem => ?_)
                obtain ⟨seat, _, there, -, -, known⟩ := sound.member mem
                cases (seat_of found).symm.trans there
                exact known new
          · next deleting =>
              obtain ⟨spares, -, fate⟩ := dropTask_spares found deleting processed
              have batch' : next.batch = [] := by
                rcases fate with ⟨phase, -⟩ | ⟨phase, -⟩ <;> rw [IOCore.batch, phase]
              refine tells.spares spares (batch'.trans batch.symm) fun fd d _ watched _ => ?_
              refine absurd watched (sound'.unwatched fun mem => ?_)
              rcases fate with ⟨-, gone, -⟩ | ⟨phase, -⟩
              · obtain ⟨task, found⟩ := sound'.there mem
                cases gone.symm.trans (work_of found)
              · exact (sound'.canceled t (by rw [cancels, phase])).2.2 mem
          · cases processed
  · cases processed

theorem Tells.wait (tells : s.Tells) {fds : List Fd} (waited : s.epollWait fds = some next) :
    next.Tells := by
  unfold epollWait at waited
  split at waited
  · next phase =>
      split at waited
      · rw [Option.map_eq_some_iff] at waited
        obtain ⟨⟨events, epoll⟩, collected, rfl⟩ := waited
        obtain ⟨-, -, levels, watches, -⟩ := Epoll.collect_eq collected
        refine tells.step_of (Epoll.collect_keeps collected) ?_ ?_
        · intro fd t d known watched level
          rw [show epoll.watched = _ from watches] at watched
          rw [show epoll.level = _ from levels] at level
          exact Or.inl ⟨_, Epoll.collect_tells collected known watched, level⟩
        · rintro fd t d - - - (⟨mask, mem, -⟩ | attends)
          · simp [batch, phase] at mem
          · exact Or.inr attends
      · cases waited
  · cases waited

theorem Tells.event (tells : s.Tells) (sound : s.Sound) {answer : Answer}
    (handled : s.handleEvent answer = some next) : next.Tells := by
  obtain ⟨middle, phase, -, -, ⟨before, rfl⟩ | ⟨⟨t, mask⟩, rest, before, -⟩⟩ :=
    handleEvent_moves handled
  · unfold handleEvent at handled
    rw [before] at handled
    cases handled
    exact tells.same rfl (by simp [batch, before, IOCore.setPhase]) (.refl _)
  · obtain ⟨task, work, serves, batch, -⟩ := handleEvent_serves before handled
    refine tells.serves sound serves fun t' mask' mem => ?_
    rw [IOCore.batch, before, List.mem_cons] at mem
    rw [batch]
    rcases mem with same | later
    · cases same
      exact Or.inr ⟨rfl, rfl⟩
    · exact Or.inl later

theorem Tells.ret (tells : s.Tells) (sound : s.Sound) (returned : s.ret = some next) :
    next.Tells := by
  unfold IOCore.ret at returned
  split at returned
  · next phase =>
      cases returned
      exact tells.same rfl (by simp [batch, phase, IOCore.setPhase]) (.refl _)
  · next t rest phase =>
      split at returned
      · cases returned
      · next task found =>
          obtain ⟨spares, -, -, after, -, -⟩ := deleteTask_spares returned
          have spares' : s.Spares next t := by
            refine ⟨fun x other => (spares.others x other).trans ?_, spares.started, spares.stopped,
              spares.keeps⟩
            exact work_others (fun x other => Function.update_of_ne other _ _) other
          refine tells.spares spares' (by simp [batch, phase, after]) fun fd d watched _ _ => ?_
          exact absurd watched (sound.unwatched (sound.canceled t (by rw [cancels, phase])).2.2)
  · cases returned

theorem Tells.destroy (tells : s.Tells) (destroyed : s.destroy = some next) : next.Tells := by
  unfold IOCore.destroy at destroyed
  split at destroyed
  · next phase =>
      rw [Option.map_eq_some_iff] at destroyed
      obtain ⟨middle, unsubscribed, rfl⟩ := destroyed
      obtain ⟨_, -, -, enqueues, -⟩ := unsubscribe_enqueues unsubscribed
      refine (tells.unsubscribe unsubscribed).same rfl ?_ (.refl _)
      simp [batch, IOCore.setPhase, enqueues.phase, phase]
  · cases destroyed

theorem Tells.step (tells : s.Tells) (sound : s.Sound) {action : Action}
    (taken : s.step action = some next) : next.Tells := by
  cases action with
  | subscribe fd => exact tells.subscribe sound taken
  | unsubscribe t => exact tells.unsubscribe taken
  | stop | wakeup | kernel =>
      cases taken
      exact tells.same rfl rfl (Epoll.raise_keeps _ _ _)
  | await t kind answer =>
      obtain ⟨task, work, serves, -⟩ := await_serves taken
      refine tells.serves sound serves fun t' mask' mem => Or.inl ?_
      rwa [(await_alike taken).lists.2.2.2]
  | ret => exact tells.ret sound taken
  | roll =>
      simp only [IOCore.step, roll] at taken
      split at taken
      · next phase =>
          split at taken
          · cases taken
          · split at taken <;> cases taken <;>
              exact tells.same rfl (by simp [batch, phase, IOCore.setPhase]) (.refl _)
      · cases taken
  | queue => exact tells.queue sound taken
  | wait fds => exact tells.wait taken
  | interrupted =>
      simp only [IOCore.step, interrupted] at taken
      split at taken
      · next phase =>
          cases taken
          exact tells.same rfl (by simp [batch, phase, IOCore.setPhase]) (.refl _)
      · cases taken
  | event answer => exact tells.event sound taken
  | destroy => exact tells.destroy taken

theorem Tells.init : IOCore.init.Tells := by
  intro fd t d watched
  simp [IOCore.init, Epoll.raise, Epoll.empty] at watched

end Tells

def Called (s : IOCore) : Prop :=
  s.stopped = true ∧ (s.Locked ∨ s.phase = .polling) ∨ s.phase = .polling ∧ s.queue ≠ []

-- The descriptor of the loop itself wakes it, once its task has been added.
structure Alarmed (s : IOCore) : Prop where
  seat : ∃ seat, s.seat eventSub = some seat ∧ seat.fd = eventFd ∧ seat.state ≠ .deleting ∧
    (s.phase = .polling → seat.state ≠ .new)
  idle : ∀ work, s.work eventSub = some work → work.asyncOp = none
  level : s.epoll.level eventFd .read = true
  called : s.Called → s.epoll.pending eventFd = true ∨ s.epoll.watched eventFd = none

section Alarmed

variable {s next : IOCore} {t : TaskId} {task : IOTask} {rest : List TaskId}

theorem raise_pending (e : Epoll Fd TaskId) (fd : Fd) (d : Direction) :
    (e.raise fd d).pending fd = true ∨ (e.raise fd d).watched fd = none := by
  rw [show (e.raise fd d).pending fd = _ from Function.update_self _ _ _]
  cases watched : e.watched fd
  · exact Or.inr watched
  · simp

theorem raise_ready (e : Epoll Fd TaskId) (fd fd' : Fd) (d d' : Direction)
    (level : e.level fd d = true) : (e.raise fd' d').level fd d = true := by
  rw [Epoll.raise_level]
  split
  · rfl
  · exact level

theorem Alarmed.other (alarmed : s.Alarmed) (sound : s.Sound) (found : s.heap t = some task)
    (other : t ≠ eventSub) : eventFd ≠ task.fd := by
  obtain ⟨seat, there, fd, -⟩ := alarmed.seat
  intro same
  exact other (sound.single t eventSub _ seat (seat_of found) there (same.symm.trans fd.symm))

def Stays (s next : IOCore) (t : TaskId) : Prop :=
  ∀ seat, s.seat t = some seat → ∃ seat', next.seat t = some seat' ∧ seat'.fd = seat.fd ∧
    seat'.state = seat.state

theorem Stays.of_eq (same : next.seat t = s.seat t) : s.Stays next t :=
  fun seat there => ⟨seat, same.trans there, rfl, rfl⟩

theorem Drops.stays {fd : Fd} {i : Nat} {back : TaskId} (drops : s.Drops next t fd i back)
    (x : TaskId) : s.Stays next x := by
  intro seat there
  rw [drops.seat]
  split
  · next same =>
      rw [← same, there]
      exact ⟨_, rfl, rfl, rfl⟩
  · exact ⟨seat, there, rfl, rfl⟩

theorem deleteTask_stays (deleted : s.deleteTask t rest = some next) {x : TaskId} (other : x ≠ t) :
    s.Stays next x := by
  refine .of_eq ?_
  unfold deleteTask at deleted
  split at deleted
  · cases deleted
  · split at deleted <;> cases deleted
    simp [IOCore.seat, other]

theorem Alarmed.same (alarmed : s.Alarmed) (stays : s.Stays next eventSub)
    (work : next.work eventSub = s.work eventSub) (phase : next.phase = .polling → s.phase = .polling)
    (epoll : s.epoll.Same next.epoll eventFd) (called : next.Called → s.Called) : next.Alarmed where
  seat := by
    obtain ⟨seat, there, fd, open_, added⟩ := alarmed.seat
    obtain ⟨seat', there', fd', state⟩ := stays seat there
    exact ⟨seat', there', fd'.trans fd, state ▸ open_, fun polling => state ▸ added (phase polling)⟩
  idle := by
    rw [work]
    exact alarmed.idle
  level := by
    rw [epoll.level]
    exact alarmed.level
  called calls := by
    rw [epoll.pending, epoll.watched]
    exact alarmed.called (called calls)

theorem Alarmed.woken (alarmed : s.Alarmed) (seat : next.seat eventSub = s.seat eventSub)
    (work : next.work eventSub = s.work eventSub) (phase : next.phase = s.phase) {d : Direction}
    (epoll : next.epoll = s.epoll.raise eventFd d) : next.Alarmed where
  seat := by
    rw [seat, phase]
    exact alarmed.seat
  idle := by
    rw [work]
    exact alarmed.idle
  level := by
    rw [epoll]
    exact raise_ready _ _ _ _ _ alarmed.level
  called _ := by
    rw [epoll]
    exact raise_pending _ _ _

theorem Alarmed.subscribe (alarmed : s.Alarmed) (sound : s.Sound) {fd : Fd}
    (subscribed : s.subscribe fd = some next) : next.Alarmed := by
  obtain ⟨enqueues, -⟩ := subscribe_enqueues subscribed
  obtain ⟨spares, -, -, epoll⟩ := subscribe_spares subscribed
  have other : eventSub ≠ s.made := by
    obtain ⟨seat, there, -⟩ := alarmed.seat
    intro same
    rw [same, sound.fresh _ (Nat.le_refl _)] at there
    cases there
  refine alarmed.woken ?_ (spares.others _ other) enqueues.phase epoll
  rw [enqueues.seat, Function.update_of_ne other]

theorem Alarmed.unsubscribe (alarmed : s.Alarmed) (other : t ≠ eventSub)
    (unsubscribed : s.unsubscribe t = some next) : next.Alarmed := by
  obtain ⟨_, -, -, enqueues, -⟩ := unsubscribe_enqueues unsubscribed
  obtain ⟨spares, -, -, epoll⟩ := unsubscribe_spares unsubscribed
  refine alarmed.woken ?_ (spares.others _ other.symm) enqueues.phase epoll
  rw [enqueues.seat, Function.update_of_ne other.symm]

theorem Alarmed.add (alarmed : s.Alarmed) (sound : s.Sound) (phase : s.phase = .queues (t :: rest))
    (found : s.heap t = some task) (added : s.addTask t task rest = some next) : next.Alarmed := by
  have adds := addTask_adds added
  obtain ⟨spares, -, work, epoll⟩ := addTask_spares added
  have notPolling : next.phase ≠ .polling := by simp [adds.phase]
  by_cases same : t = eventSub
  · subst same
    obtain ⟨seat, there, fd, -⟩ := alarmed.seat
    cases (seat_of found).symm.trans there
    obtain ⟨-, levels, -, pends⟩ := Epoll.add_eq epoll
    constructor
    · rw [adds.seat, Function.update_self]
      exact ⟨_, rfl, fd, by simp, by simp⟩
    · rw [work]
      rintro _ ⟨⟩
      exact alarmed.idle task.work (work_of found)
    · rw [levels]
      exact alarmed.level
    · intro _
      rw [pends, ← show task.fd = eventFd from fd, Function.update_self]
      refine Or.inl (Mask.any_of (d := .read) ?_)
      rw [show task.fd = eventFd from fd]
      exact alarmed.level
  · have elsewhere := Epoll.add_same epoll (alarmed.other sound found same)
    refine alarmed.same (.of_eq ?_) (spares.others _ (Ne.symm same)) ?_ elsewhere ?_
    · rw [adds.seat, Function.update_of_ne (Ne.symm same)]
    · exact fun polling => absurd polling notPolling
    · rintro (⟨stopped, -⟩ | ⟨polling, -⟩)
      · exact Or.inl ⟨spares.stopped ▸ stopped, Or.inl (by simp [Locked, phase])⟩
      · exact absurd polling notPolling

theorem Alarmed.apart (alarmed : s.Alarmed) (found : s.heap t = some task)
    (deleting : task.state = .deleting) : t ≠ eventSub := by
  obtain ⟨seat, there, -, open_, -⟩ := alarmed.seat
  rintro rfl
  cases (seat_of found).symm.trans there
  exact open_ deleting

theorem Alarmed.drop (alarmed : s.Alarmed) (sound : s.Sound) (phase : s.phase = .queues (t :: rest))
    (found : s.heap t = some task) (deleting : task.state = .deleting)
    (dropped : s.dropTask t task rest = some next) : next.Alarmed := by
  have other := alarmed.apart found deleting
  obtain ⟨i, back, middle, -, drops, -, fate⟩ := dropTask_drops found dropped
  obtain ⟨spares, elsewhere, phases⟩ := dropTask_spares found deleting dropped
  have notPolling : next.phase ≠ .polling := by
    rcases phases with ⟨after, -⟩ | ⟨after, -⟩ <;> simp [after]
  refine alarmed.same ?_ (spares.others _ other.symm) (fun polling => absurd polling notPolling)
    (elsewhere _ (alarmed.other sound found other)) ?_
  · intro seat there
    obtain ⟨seat', there', fd, state⟩ := drops.stays eventSub seat there
    rcases fate with ⟨-, deleted⟩ | ⟨-, alike⟩
    · obtain ⟨seat'', there'', fd', state'⟩ := deleteTask_stays deleted other.symm seat' there'
      exact ⟨seat'', there'', fd'.trans fd, state'.trans state⟩
    · exact ⟨seat', by rw [alike.seat, there'], fd, state⟩
  · rintro (⟨stopped, -⟩ | ⟨polling, -⟩)
    · exact Or.inl ⟨spares.stopped ▸ stopped, Or.inl (by simp [Locked, phase])⟩
    · exact absurd polling notPolling

theorem Alarmed.queue (alarmed : s.Alarmed) (sound : s.Sound)
    (processed : s.processQueue = some next) : next.Alarmed := by
  unfold processQueue at processed
  split at processed
  · next phase =>
      cases processed
      obtain ⟨seat, there, fd, open_, -⟩ := alarmed.seat
      -- All that has waited is processed, the task of the loop too.
      have added : seat.state ≠ .new := by
        intro new
        rcases sound.placed eventSub seat there with waits | works | cancel
        · simp [left, phase] at waits
        · cases new.symm.trans works.1
        · simp [cancels, phase] at cancel
      refine ⟨⟨seat, there, fd, open_, fun _ => added⟩, alarmed.idle, alarmed.level, ?_⟩
      rintro (⟨stopped, -⟩ | ⟨-, waits⟩)
      · exact alarmed.called (Or.inl ⟨stopped, Or.inl (by simp [Locked, phase])⟩)
      · exact absurd rfl waits
  · next t rest phase =>
      split at processed
      · cases processed
      · next task found =>
          split at processed
          · exact alarmed.add sound phase found processed
          · next deleting => exact alarmed.drop sound phase found deleting processed
          · cases processed
  · cases processed

theorem Alarmed.awake (alarmed : s.Alarmed) (stays : s.Stays next eventSub)
    (idle : ∀ work, next.work eventSub = some work → work.asyncOp = none)
    (level : next.epoll.level eventFd = s.epoll.level eventFd) (unlocked : ¬next.Locked)
    (phase : next.phase ≠ .polling) : next.Alarmed where
  seat := by
    obtain ⟨seat, there, fd, open_, -⟩ := alarmed.seat
    obtain ⟨seat', there', fd', state⟩ := stays seat there
    exact ⟨seat', there', fd'.trans fd, state ▸ open_, fun polling => absurd polling phase⟩
  idle := idle
  level := by
    rw [level]
    exact alarmed.level
  called := by
    rintro (⟨-, locked | polling⟩ | ⟨polling, -⟩)
    · exact absurd locked unlocked
    · exact absurd polling phase
    · exact absurd polling phase

theorem Alarmed.event (alarmed : s.Alarmed) (sound : s.Sound) {answer : Answer}
    (handled : s.handleEvent answer = some next) : next.Alarmed := by
  obtain ⟨middle, phase, alike, same, moves⟩ := handleEvent_moves handled
  have stays : s.Stays next eventSub := by
    refine .of_eq ?_
    rw [same]
    exact congrFun alike.seat eventSub
  have awake : ¬next.Locked ∧ next.phase ≠ .polling := by
    rw [same]
    rcases moves with ⟨-, rfl⟩ | ⟨-, -, -, rfl | rfl⟩ <;> simp [Locked, IOCore.setPhase]
  rcases moves with ⟨before, -⟩ | ⟨⟨t, mask⟩, rest, before, -⟩
  · unfold handleEvent at handled
    rw [before] at handled
    cases handled
    exact alarmed.awake stays alarmed.idle rfl awake.1 awake.2
  · obtain ⟨task, work, serves, -, -, quiet, fate⟩ := handleEvent_serves before handled
    by_cases same : t = eventSub
    · subst same
      have idle : task.asyncOp = none := alarmed.idle task.work (work_of serves.before)
      refine alarmed.awake stays ?_ (by rw [quiet idle]) awake.1 awake.2
      rw [serves.after]
      rintro _ ⟨⟩
      rcases fate with ⟨kept, -⟩ | ⟨_, _, -, taken, -⟩
      · exact kept.trans idle
      · exact taken
    · refine alarmed.awake stays ?_ ?_ awake.1 awake.2
      · rw [serves.others _ (Ne.symm same)]
        exact alarmed.idle
      · exact (serves.elsewhere _ (alarmed.other sound serves.before same)).level

theorem Alarmed.await (alarmed : s.Alarmed) (sound : s.Sound) (other : t ≠ eventSub) {kind : OpKind}
    {answer : Answer} (awaited : s.await t kind answer = some next) : next.Alarmed := by
  have alike := await_alike awaited
  obtain ⟨task, work, serves, -⟩ := await_serves awaited
  refine alarmed.same (.of_eq (congrFun alike.seat eventSub)) (serves.others _ other.symm)
    (fun polling => alike.phase ▸ polling)
    (serves.elsewhere _ (alarmed.other sound serves.before other)) ?_
  simp only [Called, Locked, alike.stopped, alike.phase, alike.queue, imp_self]

theorem Alarmed.ret (alarmed : s.Alarmed) (sound : s.Sound) (returned : s.ret = some next) :
    next.Alarmed := by
  unfold IOCore.ret at returned
  split at returned
  · cases returned
    refine alarmed.awake (.of_eq rfl) alarmed.idle rfl ?_ ?_ <;> simp [Locked, IOCore.setPhase]
  · next t rest phase =>
      obtain ⟨⟨seat, there, deleting⟩, -⟩ := sound.canceled t (by rw [cancels, phase])
      split at returned
      · cases returned
      · next task found =>
          cases (seat_of found).symm.trans there
          have other := alarmed.apart found deleting
          obtain ⟨spares, -, -, after, -, task', found', closed, -⟩ := deleteTask_spares returned
          have own : task'.fd = task.fd := by
            cases (Function.update_self t _ s.heap).symm.trans found'
            rfl
          have stays : s.Stays next eventSub := by
            intro seat there
            refine deleteTask_stays returned other.symm seat ?_
            exact (congrFun (@setTask_same s t task found { task with asyncOp := none } rfl) _).trans
              there
          refine alarmed.same stays ?_ (by simp [after]) ?_ ?_
          · rw [spares.others _ other.symm]
            exact work_others (fun x other => Function.update_of_ne other _ _) other.symm
          · rw [closed, own]
            exact Epoll.close_same _ (alarmed.other sound found other)
          · rintro (⟨stopped, -⟩ | ⟨polling, -⟩)
            · exact Or.inl ⟨spares.stopped ▸ stopped, Or.inl (by simp [Locked, phase])⟩
            · simp [after] at polling
  · cases returned

theorem Alarmed.roll (alarmed : s.Alarmed) (sound : s.Sound) (rolled : s.roll = some next) :
    next.Alarmed := by
  unfold IOCore.roll at rolled
  split at rolled
  · next phase =>
      split at rolled
      · cases rolled
      · next running =>
          split at rolled
          · next empty =>
              cases rolled
              have none_ : s.queue = [] := by
                by_contra waits
                exact sound.counted waits (empty.resolve_right waits)
              obtain ⟨seat, there, fd, open_, -⟩ := alarmed.seat
              have added : seat.state ≠ .new := by
                intro new
                rcases sound.placed eventSub seat there with waits | works | cancel
                · simp [left, phase, none_] at waits
                · cases new.symm.trans works.1
                · simp [cancels, phase] at cancel
              refine ⟨⟨seat, there, fd, open_, fun _ => added⟩, alarmed.idle, alarmed.level, ?_⟩
              rintro (⟨stopped, -⟩ | ⟨-, waits⟩)
              · exact absurd stopped running
              · exact absurd none_ waits
          · cases rolled
            refine alarmed.same (.of_eq rfl) rfl (by simp [IOCore.setPhase]) (.refl _ _) ?_
            rintro (⟨stopped, -⟩ | ⟨polling, -⟩)
            · exact absurd stopped running
            · simp [IOCore.setPhase] at polling
  · cases rolled

theorem Alarmed.step (alarmed : s.Alarmed) (sound : s.Sound) {action : Action}
    (permits : s.Permits action) (lives : action ≠ .destroy) (taken : s.step action = some next) :
    next.Alarmed := by
  cases action with
  | subscribe fd => exact alarmed.subscribe sound taken
  | unsubscribe t => exact alarmed.unsubscribe permits.2.1 taken
  | stop | wakeup =>
      cases taken
      exact alarmed.woken rfl rfl rfl rfl
  | kernel fd d =>
      cases taken
      by_cases same : eventFd = fd
      · subst same
        exact alarmed.woken rfl rfl rfl rfl
      · exact alarmed.same (.of_eq rfl) rfl id (Epoll.raise_same _ _ same) id
  | await t kind answer => exact alarmed.await sound permits.2.1 taken
  | ret => exact alarmed.ret sound taken
  | roll => exact alarmed.roll sound taken
  | queue => exact alarmed.queue sound taken
  | wait fds =>
      simp only [IOCore.step, epollWait] at taken
      split at taken
      · split at taken
        · rw [Option.map_eq_some_iff] at taken
          obtain ⟨⟨events, epoll⟩, collected, rfl⟩ := taken
          refine alarmed.awake (.of_eq rfl) alarmed.idle ?_ (by simp [Locked]) (by simp)
          exact congrFun (Epoll.collect_eq collected).2.2.1 eventFd
        · cases taken
      · cases taken
  | interrupted =>
      simp only [IOCore.step, interrupted] at taken
      split at taken
      · cases taken
        refine alarmed.awake (.of_eq rfl) alarmed.idle rfl ?_ ?_ <;> simp [Locked, IOCore.setPhase]
      · cases taken
  | event answer => exact alarmed.event sound taken
  | destroy => exact absurd rfl lives

theorem Alarmed.init : IOCore.init.Alarmed where
  seat := ⟨_, rfl, rfl, by decide, by simp [IOCore.init]⟩
  idle work there := by
    cases there
    rfl
  level := by decide
  called := by
    rintro (⟨stopped, -⟩ | ⟨polling, -⟩)
    · cases stopped
    · cases polling

end Alarmed

-- The loop is in `epoll_wait`, which has nothing to give.
def Sleeps (s : IOCore) : Prop := s.phase = .polling ∧ ∀ fd, ¬s.epoll.Reports fd

structure Settled (s : IOCore) : Prop where
  processed : s.queue = []
  running : s.stopped = false
  working : ∀ t task, s.heap t = some task → task.state = .working
  attends : ∀ t task d, s.heap t = some task → s.epoll.level task.fd d = true →
    task.eventsReady d = true ∧ ∀ op ∈ task.asyncOp, op.kind.bit ≠ d

structure Watchful (s : IOCore) : Prop where
  sound : s.Sound
  tells : s.Tells
  alarmed : s.Alarmed

theorem Watchful.settled {s : IOCore} (watchful : s.Watchful) (sleeps : s.Sleeps) : s.Settled := by
  obtain ⟨sound, tells, alarmed⟩ := watchful
  obtain ⟨phase, quiet⟩ := sleeps
  obtain ⟨members, left, cancels⟩ := unlocked (s := s) (by simp [Locked, phase])
  have inside {t : TaskId} {seat : Seat} (there : s.seat t = some seat) (later : t ∉ s.queue) :
      seat.state = .working ∧ s.epoll.watched seat.fd = some t := by
    rcases sound.placed t seat there with waits | works | cancel
    · exact absurd (left ▸ waits) later
    · exact ⟨works.1, (sound.watched _ _).mpr ⟨works.2, seat, there, rfl⟩⟩
    · rw [cancels] at cancel
      cases cancel
  have uncalled : ¬s.Called := by
    intro called
    obtain ⟨seat, there, fd, open_, added⟩ := alarmed.seat
    have later : eventSub ∉ s.queue := by
      intro mem
      obtain ⟨seat', there', waits⟩ := sound.queued eventSub (left ▸ mem)
      cases there.symm.trans there'
      rcases waits with ⟨new, -⟩ | ⟨deleting, -⟩
      · exact added phase new
      · exact open_ deleting
    have watched := (inside there later).2
    rw [fd] at watched
    rcases alarmed.called called with pending | unwatched
    · exact quiet eventFd ⟨by simp [watched], pending, Mask.any_of alarmed.level⟩
    · cases watched.symm.trans unwatched
  have processed : s.queue = [] := by
    by_contra waits
    exact uncalled (Or.inr ⟨phase, waits⟩)
  refine ⟨processed, ?_, ?_, ?_⟩
  · by_contra stopped
    exact uncalled (Or.inl ⟨eq_true_of_ne_false stopped, Or.inr phase⟩)
  · intro t task found
    exact (inside (seat_of found) (by simp [processed])).1
  · intro t task d found level
    have watched := (inside (seat_of found) (by simp [processed])).2
    rcases tells task.fd t d watched level with pending | ⟨mask, mem, -⟩ | ⟨work, there, attends⟩
    · exact absurd ⟨by simp [show s.epoll.watched task.fd = _ from watched], pending,
        Mask.any_of level⟩ (quiet task.fd)
    · simp [batch, phase] at mem
    · cases (work_of found).symm.trans there
      exact attends

theorem sleeps_settled {actions : List Action} {last : IOCore}
    (careful : Run.EachStep step Permits init actions) (lives : Action.destroy ∉ actions)
    (run : Run.exec step init actions = some last) (sleeps : last.Sleeps) : last.Settled := by
  have each : Run.EachStep step (fun s action => s.Permits action ∧ action ≠ .destroy) init
      actions := by
    refine Run.eachStep_and.mpr ⟨careful, Run.eachStep_of_forall (fun action mem _ => ?_) _⟩
    rintro rfl
    exact lives mem
  have kept : last.Watchful :=
    Run.exec_invariant_of_eachStep (fun _ _ _ (kept : Watchful _) permits taken =>
      ⟨kept.sound.step taken, kept.tells.step kept.sound taken,
        kept.alarmed.step kept.sound permits.1 permits.2 taken⟩)
      ⟨Sound.init, Tells.init, Alarmed.init⟩ each run
  exact kept.settled sleeps

theorem Sound.sleeps {s : IOCore} (sound : s.Sound) (phase : s.phase = .polling)
    (quiet : ∀ t ∈ s.tasks, ∀ task ∈ s.heap t, ¬s.epoll.Reports task.fd) : s.Sleeps := by
  refine ⟨phase, fun fd reports => ?_⟩
  obtain ⟨t, watched⟩ := Option.isSome_iff_exists.mp reports.1
  obtain ⟨mem, seat, there, rfl⟩ := (sound.watched fd t).mp watched
  obtain ⟨task, found, rfl⟩ := heap_of there
  exact quiet t (by simpa [members, phase] using mem) task found reports

def waiting : List Action :=
  [.roll, .queue, .queue, .wait [eventFd], .event .wouldBlock, .event .wouldBlock, .subscribe 7,
    .await 1 .recv .wouldBlock, .roll, .queue, .queue, .wait [eventFd], .event .wouldBlock,
    .event .wouldBlock, .roll]

theorem sleeps_settled_waiting : ∃ last, Run.exec step init waiting = some last ∧
    (last.heap 1).bind IOTask.asyncOp = some { id := 0, kind := .recv } ∧ last.Settled :=
  have careful : Run.EachStep step Permits init waiting := by decide
  have sound {last : IOCore} (run : Run.exec step init waiting = some last) : last.Sound :=
    sound_of_run run
  ⟨_, rfl, rfl, sleeps_settled careful (by decide) rfl ((sound rfl).sleeps rfl (by decide))⟩

end IOCore

end SystemProg.IoCore
