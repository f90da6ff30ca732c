import SystemProg.Coroutine.Valid

set_option autoImplicit false

namespace SystemProg.Coroutine

namespace Engine

variable {F : Type}

-- No place outside the engine is entered or left, a coroutine there is at most woken, and the queue
-- only grows.
structure Quiet (e next : Engine F) : Prop where
  forth : ∀ c state place, e.look c = some (state, .frame place) →
    ∃ state', next.look c = some (state', .frame place) ∧ (state = .running → state' = .running)
  back : ∀ c state place, next.look c = some (state, .frame place) →
    ∃ state', e.look c = some (state', .frame place)
  grows : ∃ added, next.schedule = e.schedule ++ added

theorem Quiet.refl (e : Engine F) : e.Quiet e where
  forth := fun _ _ _ look => ⟨_, look, id⟩
  back := fun _ _ _ look => ⟨_, look⟩
  grows := ⟨[], by simp⟩

theorem Quiet.trans {e middle next : Engine F} (first : e.Quiet middle)
    (second : middle.Quiet next) : e.Quiet next where
  forth := by
    intro c state place look
    obtain ⟨state', look', runs⟩ := first.forth c state place look
    obtain ⟨state'', look'', runs'⟩ := second.forth c state' place look'
    exact ⟨state'', look'', fun running => runs' (runs running)⟩
  back := by
    intro c state place look
    obtain ⟨state', look'⟩ := second.back c state place look
    exact first.back c state' place look'
  grows := by
    obtain ⟨added, schedule⟩ := first.grows
    obtain ⟨added', schedule'⟩ := second.grows
    exact ⟨added ++ added', by rw [schedule', schedule, List.append_assoc]⟩

theorem Quiet.of_same {e next : Engine F} (look : next.look = e.look)
    (schedule : next.schedule = e.schedule) : e.Quiet next where
  forth := by
    rw [look]
    exact (Quiet.refl e).forth
  back := by
    rw [look]
    exact (Quiet.refl e).back
  grows := ⟨[], by simp [schedule]⟩

theorem Changes.quiet {e next : Engine F} {c : CoroId} {state : CoroState} {ctx : Context F}
    (changes : e.Changes next c state ctx) (before : ∀ state' place,
      e.look c ≠ some (state', .frame place)) (after : ∀ place, ctx ≠ .frame place)
    (grows : ∃ added, next.schedule = e.schedule ++ added) : e.Quiet next where
  forth := by
    intro d state' place look
    by_cases same : d = c
    · subst same
      exact absurd look (before _ _)
    · exact ⟨state', (changes.others d same).trans look, id⟩
  back := by
    intro d state' place look
    by_cases same : d = c
    · subst same
      rw [changes.here] at look
      cases look
      exact absurd rfl (after place)
    · exact ⟨state', (changes.others d same).symm.trans look⟩
  grows := grows

theorem Wakes.quiet {e next : Engine F} {c : CoroId} {ctx : Context F}
    (wakes : e.Wakes next c ctx) : e.Quiet next where
  forth := by
    intro d state place look
    by_cases same : d = c
    · subst same
      have asleep := wakes.asleep
      rw [look] at asleep
      cases asleep
      exact ⟨.running, wakes.changes.here, fun _ => rfl⟩
    · exact ⟨state, (wakes.changes.others d same).trans look, id⟩
  back := by
    intro d state place look
    by_cases same : d = c
    · subst same
      rw [wakes.changes.here] at look
      cases look
      exact ⟨.suspended, wakes.asleep⟩
    · exact ⟨state, (wakes.changes.others d same).symm.trans look⟩
  grows := ⟨[c], wakes.schedule⟩

theorem Spawns.quiet {e next : Engine F} {c : CoroId} {ctx : Context F}
    (spawns : e.Spawns next c ctx) : e.Quiet next := by
  refine spawns.changes.quiet ?_ ?_ ⟨[c], spawns.schedule⟩
  · intro state place look
    rcases spawns.unused with ⟨look', -, -⟩ | ⟨look', -⟩
    · rw [look'] at look
      cases look
    · rw [look'] at look
      cases look
      rcases spawns.place with wrong | wrong <;> cases wrong
  · rintro place rfl
    rcases spawns.place with wrong | wrong <;> cases wrong

theorem Leaves.quiet {e next : Engine F} {c : CoroId} {state : CoroState} {ctx : Context F}
    (valid : e.Valid) (leaves : e.Leaves next c state ctx) (inside : ∀ place, ctx ≠ .frame place)
    (grows : ∃ added, next.schedule = e.schedule ++ added) : e.Quiet next := by
  refine leaves.changes.quiet ?_ inside grows
  intro state' place look
  rw [valid.currentLook leaves.current] at look
  cases look

theorem Finishes.quiet {e next : Engine F} {c : CoroId} {added : List CoroId} (valid : e.Valid)
    (finishes : e.Finishes next c added) : e.Quiet next where
  forth := by
    intro d state place look
    have notC : d ≠ c := by
      rintro rfl
      rw [valid.currentLook finishes.current] at look
      cases look
    by_cases mem : d ∈ added
    · obtain ⟨-, ctx, asleep, awake⟩ := finishes.woken d mem
      rw [look] at asleep
      cases asleep
      exact ⟨.running, awake, fun _ => rfl⟩
    · exact ⟨state, (finishes.others d notC mem).trans look, id⟩
  back := by
    intro d state place look
    by_cases same : d = c
    · subst same
      rw [finishes.here] at look
      cases look
    · by_cases mem : d ∈ added
      · obtain ⟨-, ctx, asleep, awake⟩ := finishes.woken d mem
        rw [awake] at look
        cases look
        exact ⟨.suspended, asleep⟩
      · exact ⟨state, (finishes.others d same mem).symm.trans look⟩
  grows := ⟨added, finishes.schedule⟩

theorem wakeup_rule {who : CoroRef} {e next : Engine F} (valid : e.Valid)
    (woken : e.wakeup who = some next) : next.Valid ∧ e.Quiet next ∧
      next.thisCoro = e.thisCoro ∧ next.jump = e.jump := by
  rcases wakeup_cases woken with ⟨rfl, -⟩ | ⟨c, ctx, -, wakes⟩
  · exact ⟨valid, Quiet.refl next, rfl, rfl⟩
  · exact ⟨wakes.valid valid, wakes.quiet, wakes.thisCoro, wakes.jump⟩

theorem spawn_rule {e next : Engine F} (valid : e.Valid) (spawned : e.spawn = some next) :
    next.Valid ∧ e.Quiet next := by
  obtain ⟨c, ctx, spawns⟩ := spawn_spawns valid spawned
  exact ⟨spawns.valid valid, spawns.quiet⟩

theorem suspend_rule {ctx : Context F} {e next : Engine F} (valid : e.Valid) (idle : e.jump = none)
    (place : ctx ≠ .active) (suspended : e.suspend ctx = some next) :
    next.Valid ∧ ∃ c, e.Leaves next c .suspended ctx ∧ next.schedule = e.schedule := by
  obtain ⟨c, leaves, schedule⟩ := suspend_leaves idle suspended
  refine ⟨?_, c, leaves, schedule⟩
  exact leaves.valid valid place (by simp) (by simpa using schedule) (Or.inl ⟨rfl, by simp⟩)

theorem yield_rule {ctx : Context F} {e next : Engine F} (valid : e.Valid) (idle : e.jump = none)
    (place : ctx ≠ .active) (yielded : e.yield ctx = some next) :
    next.Valid ∧ ∃ c, e.Leaves next c .running ctx ∧ next.schedule = e.schedule ++ [c] ∧
      c ∉ e.schedule := by
  obtain ⟨c, leaves, schedule, outside⟩ := yield_leaves idle yielded
  refine ⟨?_, c, leaves, schedule, outside⟩
  exact leaves.valid valid place (by simp) schedule (Or.inr ⟨rfl, rfl⟩)

theorem finish_rule {ret : Nat} {e next : Engine F} (valid : e.Valid) (idle : e.jump = none)
    (done : e.finish ret = some next) : next.Valid ∧ e.Quiet next := by
  obtain ⟨c, added, finishes⟩ := finish_finishes idle done
  exact ⟨finishes.valid valid, finishes.quiet valid⟩

theorem joinTurn_rule {target : CoroId} {ret : Option Nat} {e next : Engine F} (valid : e.Valid)
    (idle : e.jump = none) (turned : e.joinTurn target = some (next, ret)) :
    next.Valid ∧ e.Quiet next := by
  rcases joinTurn_cases turned with joins | suspended
  · exact ⟨joins.valid valid, Quiet.of_same joins.look joins.schedule⟩
  · obtain ⟨valid', c, leaves, schedule⟩ := suspend_rule valid idle (by simp) suspended
    exact ⟨valid', leaves.quiet valid (by simp) ⟨[], by simp [schedule]⟩⟩

theorem join_rule {target : CoroId} {ret : Option Nat} {e next : Engine F} (valid : e.Valid)
    (idle : e.jump = none) (joined : e.join target = some (next, ret)) :
    next.Valid ∧ e.Quiet next := by
  obtain ⟨waits, look, schedule, pool, spawned, thisCoro, jump, cases⟩ := join_cases joined
  have valid' := valid.of_same look schedule pool spawned thisCoro jump
  have quiet := Quiet.of_same look schedule
  rcases cases with joins | suspended
  · exact ⟨joins.valid valid', quiet.trans (Quiet.of_same joins.look joins.schedule)⟩
  · obtain ⟨valid'', c, leaves, schedule'⟩ :=
      suspend_rule valid' (jump.trans idle) (by simp) suspended
    exact ⟨valid'', quiet.trans (leaves.quiet valid' (by simp) ⟨[], by simp [schedule']⟩)⟩

theorem runTurn_rule {e next : Engine F} (valid : e.Valid) (idle : e.jump = none)
    (main : e.thisCoro = none) (turned : e.runTurn = some next) : next.Valid ∧ e.Quiet next := by
  obtain ⟨keeps, main'⟩ := runTurn_keeps idle main turned
  exact ⟨keeps.valid valid main main', Quiet.of_same keeps.look keeps.schedule⟩

theorem landSched_rule {e next : Engine F} (valid : e.Valid) (jump : e.jump = some .sched)
    (landed : e.landSched = some next) : next.Valid ∧ e.Quiet next := by
  obtain ⟨keeps, main'⟩ := landSched_keeps jump landed
  have main : e.thisCoro = none := valid.control.resolve_left (by simp [jump])
  exact ⟨keeps.valid valid main main', Quiet.of_same keeps.look keeps.schedule⟩

theorem land_rule {c : CoroId} {ctx : Context F} {e next : Engine F} (valid : e.Valid)
    (jump : e.jump = some (.coro c)) (landed : e.land c = some (next, ctx)) :
    next.Valid ∧ e.Lands next c .running ctx := by
  obtain ⟨state, lands⟩ := land_lands jump landed
  obtain ⟨rfl, valid'⟩ := lands.valid valid (valid.unlinked jump).2
  exact ⟨valid', lands⟩

end Engine

end SystemProg.Coroutine
