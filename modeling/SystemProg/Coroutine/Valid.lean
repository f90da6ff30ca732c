import SystemProg.Coroutine.Schedule

set_option autoImplicit false

-- The queue of the engine holds exactly the coroutines that are RUNNING and do not have control,
-- each once, and the pool holds joined ones.

namespace SystemProg.Coroutine

namespace Engine

variable {F : Type}

structure Valid (e : Engine F) : Prop where
  control : e.jump = none ∨ e.thisCoro = none
  current : ∀ who, e.thisCoro = some who →
    ∃ c, who = .coro c ∧ e.look c = some (.running, .active)
  distinct : e.schedule.Nodup
  scheduled : ∀ c ∈ e.schedule, ∃ ctx, e.look c = some (.running, ctx) ∧ ctx ≠ .active
  runs : ∀ c ctx, e.look c = some (.running, ctx) →
    c ∈ e.schedule ∨ e.thisCoro = some (.coro c)
  pooled : ∀ c ∈ e.pool, e.look c = some (.finished, .restart)
  poolDistinct : e.pool.Nodup
  finished : ∀ c ctx, e.look c = some (.finished, ctx) → ctx = .restart
  active : ∀ c state, e.look c = some (state, .active) → e.thisCoro = some (.coro c)
  fresh : ∀ c, e.spawned ≤ c → e.look c = none

theorem Valid.inUse {e : Engine F} (valid : e.Valid) {c : CoroId} {coro : Coro F}
    (found : e.coros c = some coro) : c < e.spawned := by
  by_contra unused
  have look := valid.fresh c (Nat.le_of_not_lt unused)
  rw [look_state found] at look
  cases look

theorem create_valid : (create : Engine F).Valid where
  control := Or.inl rfl
  current := nofun
  distinct := List.nodup_nil
  scheduled := nofun
  runs := nofun
  pooled := nofun
  poolDistinct := List.nodup_nil
  finished := nofun
  active := nofun
  fresh := fun _ _ => rfl

structure Spawns (e next : Engine F) (c : CoroId) (ctx : Context F) : Prop where
  unused : e.look c = none ∧ c < next.spawned ∧ next.pool = e.pool ∨
    e.look c = some (.finished, ctx) ∧ e.pool = c :: next.pool
  place : ctx = .start ∨ ctx = .restart
  changes : e.Changes next c .running ctx
  schedule : next.schedule = e.schedule ++ [c]
  spawned : e.spawned ≤ next.spawned
  thisCoro : next.thisCoro = e.thisCoro
  jump : next.jump = e.jump

theorem spawn_spawns {e next : Engine F} (valid : e.Valid) (spawned : e.spawn = some next) :
    ∃ c ctx, e.Spawns next c ctx := by
  unfold spawn at spawned
  split at spawned
  · next empty =>
      cases spawned
      have changes := setCoro_changes e e.spawned
        { state := .running, ret := 0, func := true, ctx := .start, joiner := none }
      exact ⟨e.spawned, .start, Or.inl ⟨valid.fresh _ (Nat.le_refl _), Nat.lt_succ_self _, rfl⟩,
        Or.inl rfl, ⟨changes.here, changes.others⟩, by simp [schedule, spawnNew, setCoro],
        Nat.le_succ _, rfl, rfl⟩
  · next c rest pool =>
      split at spawned
      · cases spawned
      · next coro found =>
          dsimp only at spawned
          split at spawned
          · cases spawned
          · cases spawned
            have changes := setCoro_changes e c { coro with func := true, state := .running }
            have look := valid.pooled c (by simp [pool])
            have place : coro.ctx = .restart := by
              have same := look_state found
              rw [look] at same
              exact (congrArg (fun view => view.map Prod.snd) same |> Option.some.inj).symm
            exact ⟨c, coro.ctx, Or.inr ⟨by rw [place, look], pool⟩, Or.inr place,
              ⟨changes.here, changes.others⟩, by simp [schedule, setCoro], Nat.le_refl _, rfl, rfl⟩

-- What is added at the end of the queue was not in it, and what is in it stays as it is.
structure Advances (e next : Engine F) (added : List CoroId) : Prop where
  schedule : next.schedule = e.schedule ++ added
  distinct : added.Nodup
  apart : ∀ c ∈ added, c ∉ e.schedule
  kept : ∀ c ∈ e.schedule, next.look c = e.look c
  ready : ∀ c ∈ added, ∃ ctx, next.look c = some (.running, ctx) ∧ ctx ≠ .active
  runs : ∀ c ctx, next.look c = some (.running, ctx) →
    (e.look c = some (.running, ctx) ∧
      (e.thisCoro = some (.coro c) → next.thisCoro = some (.coro c))) ∨ c ∈ added

theorem Advances.distinctSchedule {e next : Engine F} {added : List CoroId} (valid : e.Valid)
    (advances : e.Advances next added) : next.schedule.Nodup := by
  rw [advances.schedule, List.nodup_append]
  refine ⟨valid.distinct, advances.distinct, ?_⟩
  rintro c before d after rfl
  exact advances.apart c after before

theorem Advances.scheduled {e next : Engine F} {added : List CoroId} (valid : e.Valid)
    (advances : e.Advances next added) :
    ∀ c ∈ next.schedule, ∃ ctx, next.look c = some (.running, ctx) ∧ ctx ≠ .active := by
  intro c mem
  rw [advances.schedule, List.mem_append] at mem
  rcases mem with before | after
  · rw [advances.kept c before]
    exact valid.scheduled c before
  · exact advances.ready c after

theorem Advances.running {e next : Engine F} {added : List CoroId} (valid : e.Valid)
    (advances : e.Advances next added) (c : CoroId) (ctx : Context F)
    (look : next.look c = some (.running, ctx)) :
    c ∈ next.schedule ∨ next.thisCoro = some (.coro c) := by
  rw [advances.schedule, List.mem_append]
  rcases advances.runs c ctx look with ⟨before, current⟩ | added
  · rcases valid.runs c ctx before with mem | this
    · exact Or.inl (Or.inl mem)
    · exact Or.inr (current this)
  · exact Or.inl (Or.inr added)

theorem Valid.notScheduled {e : Engine F} (valid : e.Valid) {c : CoroId} {state : CoroState}
    {ctx : Context F} (look : e.look c = some (state, ctx))
    (idle : state ≠ .running ∨ ctx = .active) : c ∉ e.schedule := by
  intro mem
  obtain ⟨ctx', look', place⟩ := valid.scheduled c mem
  rw [look] at look'
  cases look'
  exact idle.elim (fun other => other rfl) place

theorem Valid.currentLook {e : Engine F} (valid : e.Valid) {c : CoroId}
    (current : e.thisCoro = some (.coro c)) : e.look c = some (.running, .active) := by
  obtain ⟨d, same, look⟩ := valid.current _ current
  cases same
  exact look

theorem Changes.of_ne {e next : Engine F} {c d : CoroId} {state : CoroState} {ctx : Context F}
    (changes : e.Changes next c state ctx) {view : Option (CoroState × Context F)}
    (look : e.look d = view) (other : view ≠ e.look c) : next.look d = view := by
  rw [← look]
  apply changes.others
  rintro rfl
  exact other look.symm

theorem Valid.asleepPlace {e : Engine F} (valid : e.Valid) {c : CoroId} {ctx : Context F}
    (asleep : e.look c = some (.suspended, ctx)) : ctx ≠ .active := by
  rintro rfl
  have look := valid.currentLook (valid.active c _ asleep)
  rw [asleep] at look
  cases look

theorem Wakes.advances {e next : Engine F} {c : CoroId} {ctx : Context F} (valid : e.Valid)
    (wakes : e.Wakes next c ctx) : e.Advances next [c] where
  schedule := wakes.schedule
  distinct := by simp
  apart := by
    intro d mem
    obtain rfl := List.mem_singleton.mp mem
    exact valid.notScheduled wakes.asleep (Or.inl (by simp))
  kept := by
    intro d mem
    apply wakes.changes.others
    rintro rfl
    exact valid.notScheduled wakes.asleep (Or.inl (by simp)) mem
  ready := by
    intro d mem
    obtain rfl := List.mem_singleton.mp mem
    exact ⟨ctx, wakes.changes.here, valid.asleepPlace wakes.asleep⟩
  runs := by
    intro d ctx' look
    by_cases same : d = c
    · exact Or.inr (by simp [same])
    · rw [wakes.changes.others d same] at look
      exact Or.inl ⟨look, fun this => wakes.thisCoro.trans this⟩

theorem Spawns.advances {e next : Engine F} {c : CoroId} {ctx : Context F} (valid : e.Valid)
    (spawns : e.Spawns next c ctx) : e.Advances next [c] := by
  have outside : c ∉ e.schedule := by
    rcases spawns.unused with ⟨look, -, -⟩ | ⟨look, -⟩
    · intro mem
      obtain ⟨ctx', look', -⟩ := valid.scheduled c mem
      rw [look] at look'
      cases look'
    · exact valid.notScheduled look (Or.inl (by simp))
  refine ⟨spawns.schedule, by simp, ?_, ?_, ?_, ?_⟩
  · intro d mem
    obtain rfl := List.mem_singleton.mp mem
    exact outside
  · intro d mem
    apply spawns.changes.others
    rintro rfl
    exact outside mem
  · intro d mem
    obtain rfl := List.mem_singleton.mp mem
    exact ⟨ctx, spawns.changes.here, by rcases spawns.place with rfl | rfl <;> simp⟩
  · intro d ctx' look
    by_cases same : d = c
    · exact Or.inr (by simp [same])
    · rw [spawns.changes.others d same] at look
      exact Or.inl ⟨look, fun this => spawns.thisCoro.trans this⟩

theorem Leaves.advances {e next : Engine F} {c : CoroId} {state : CoroState} {ctx : Context F}
    {added : List CoroId} (valid : e.Valid) (leaves : e.Leaves next c state ctx)
    (place : ctx ≠ .active) (schedule : next.schedule = e.schedule ++ added)
    (added_ : added = [] ∧ state ≠ .running ∨ added = [c] ∧ state = .running) :
    e.Advances next added := by
  have look := valid.currentLook leaves.current
  have outside := valid.notScheduled look (Or.inr rfl)
  have only : ∀ d ∈ added, d = c ∧ state = .running := by
    rcases added_ with ⟨rfl, -⟩ | ⟨rfl, running⟩
    · nofun
    · exact fun d mem => ⟨List.mem_singleton.mp mem, running⟩
  refine ⟨schedule, ?_, ?_, ?_, ?_, ?_⟩
  · rcases added_ with ⟨rfl, -⟩ | ⟨rfl, -⟩ <;> simp
  · intro d mem
    obtain ⟨rfl, -⟩ := only d mem
    exact outside
  · intro d mem
    apply leaves.changes.others
    rintro rfl
    exact outside mem
  · intro d mem
    obtain ⟨rfl, running⟩ := only d mem
    exact ⟨ctx, running ▸ leaves.changes.here, place⟩
  · intro d ctx' look'
    by_cases same : d = c
    · subst same
      rw [leaves.changes.here] at look'
      cases look'
      rcases added_ with ⟨-, stopped⟩ | ⟨rfl, -⟩
      · exact absurd rfl stopped
      · exact Or.inr (by simp)
    · rw [leaves.changes.others d same] at look'
      refine Or.inl ⟨look', fun this => ?_⟩
      rw [leaves.current] at this
      cases this
      exact absurd rfl same

theorem Finishes.advances {e next : Engine F} {c : CoroId} {added : List CoroId} (valid : e.Valid)
    (finishes : e.Finishes next c added) : e.Advances next added where
  schedule := finishes.schedule
  distinct := finishes.distinct
  apart := by
    intro j mem
    obtain ⟨-, ctx, asleep, -⟩ := finishes.woken j mem
    exact valid.notScheduled asleep (Or.inl (by simp))
  kept := by
    intro d mem
    apply finishes.others
    · rintro rfl
      exact valid.notScheduled (valid.currentLook finishes.current) (Or.inr rfl) mem
    · intro isAdded
      obtain ⟨-, ctx, asleep, -⟩ := finishes.woken d isAdded
      exact valid.notScheduled asleep (Or.inl (by simp)) mem
  ready := by
    intro j mem
    obtain ⟨-, ctx, asleep, awake⟩ := finishes.woken j mem
    exact ⟨ctx, awake, valid.asleepPlace asleep⟩
  runs := by
    intro d ctx look
    by_cases mem : d ∈ added
    · exact Or.inr mem
    · by_cases same : d = c
      · subst same
        rw [finishes.here] at look
        cases look
      · rw [finishes.others d same mem] at look
        refine Or.inl ⟨look, fun this => ?_⟩
        rw [finishes.current] at this
        cases this
        exact absurd rfl same

structure Frees (e next : Engine F) : Prop where
  control : next.jump = none ∨ next.thisCoro = none
  current : ∀ who, next.thisCoro = some who →
    ∃ c, who = .coro c ∧ next.look c = some (.running, .active)
  pooled : ∀ c ∈ next.pool, next.look c = some (.finished, .restart)
  poolDistinct : next.pool.Nodup
  finished : ∀ c ctx, next.look c = some (.finished, ctx) → ctx = .restart
  active : ∀ c state, next.look c = some (state, .active) → next.thisCoro = some (.coro c)
  fresh : ∀ c, next.spawned ≤ c → next.look c = none

theorem Advances.valid {e next : Engine F} {added : List CoroId} (valid : e.Valid)
    (advances : e.Advances next added) (frees : e.Frees next) : next.Valid where
  control := frees.control
  current := frees.current
  distinct := advances.distinctSchedule valid
  scheduled := advances.scheduled valid
  runs := advances.running valid
  pooled := frees.pooled
  poolDistinct := frees.poolDistinct
  finished := frees.finished
  active := frees.active
  fresh := frees.fresh

theorem Wakes.valid {e next : Engine F} {c : CoroId} {ctx : Context F} (valid : e.Valid)
    (wakes : e.Wakes next c ctx) : next.Valid := by
  have place := valid.asleepPlace wakes.asleep
  have asleep := wakes.asleep
  apply (wakes.advances valid).valid valid
  refine ⟨?_, ?_, ?_, ?_, ?_, ?_, ?_⟩
  · rw [wakes.jump, wakes.thisCoro]
    exact valid.control
  · intro who this
    rw [wakes.thisCoro] at this
    obtain ⟨d, rfl, look⟩ := valid.current who this
    exact ⟨d, rfl, wakes.changes.of_ne look (by simp [asleep])⟩
  · intro d mem
    rw [wakes.pool] at mem
    exact wakes.changes.of_ne (valid.pooled d mem) (by simp [asleep])
  · rw [wakes.pool]
    exact valid.poolDistinct
  · intro d ctx' look
    by_cases same : d = c
    · subst same
      rw [wakes.changes.here] at look
      cases look
    · exact valid.finished d ctx' ((wakes.changes.others d same).symm.trans look)
  · intro d state look
    by_cases same : d = c
    · subst same
      rw [wakes.changes.here] at look
      cases look
      exact absurd rfl place
    · rw [wakes.thisCoro]
      exact valid.active d state ((wakes.changes.others d same).symm.trans look)
  · intro d unused
    rw [wakes.spawned] at unused
    exact wakes.changes.of_ne (valid.fresh d unused) (by simp [asleep])

theorem Spawns.valid {e next : Engine F} {c : CoroId} {ctx : Context F} (valid : e.Valid)
    (spawns : e.Spawns next c ctx) : next.Valid := by
  have place : ctx ≠ .active := by
    rcases spawns.place with rfl | rfl <;> simp
  have unused : c ∉ next.pool ∧ (∀ d ∈ next.pool, d ∈ e.pool) ∧ next.pool.Nodup := by
    rcases spawns.unused with ⟨look, -, pool⟩ | ⟨look, pool⟩
    · rw [pool]
      refine ⟨fun mem => ?_, fun d mem => mem, valid.poolDistinct⟩
      have look' := valid.pooled c mem
      rw [look] at look'
      cases look'
    · have distinct := valid.poolDistinct
      rw [pool, List.nodup_cons] at distinct
      exact ⟨distinct.1, fun d mem => by simp [pool, mem], distinct.2⟩
  have notActive : ∀ d state, e.look d = some (state, .active) → d ≠ c := by
    rintro d state look rfl
    rcases spawns.unused with ⟨look', -, -⟩ | ⟨look', -⟩
    · rw [look] at look'
      cases look'
    · rw [look] at look'
      cases look'
      exact place rfl
  apply (spawns.advances valid).valid valid
  refine ⟨?_, ?_, ?_, unused.2.2, ?_, ?_, ?_⟩
  · rw [spawns.jump, spawns.thisCoro]
    exact valid.control
  · intro who this
    rw [spawns.thisCoro] at this
    obtain ⟨d, rfl, look⟩ := valid.current who this
    exact ⟨d, rfl, (spawns.changes.others d (notActive d _ look)).trans look⟩
  · intro d mem
    have other : d ≠ c := fun same => unused.1 (same ▸ mem)
    exact (spawns.changes.others d other).trans (valid.pooled d (unused.2.1 d mem))
  · intro d ctx' look
    by_cases same : d = c
    · subst same
      rw [spawns.changes.here] at look
      cases look
    · exact valid.finished d ctx' ((spawns.changes.others d same).symm.trans look)
  · intro d state look
    by_cases same : d = c
    · subst same
      rw [spawns.changes.here] at look
      cases look
      exact absurd rfl place
    · rw [spawns.thisCoro]
      exact valid.active d state ((spawns.changes.others d same).symm.trans look)
  · intro d large
    have other : d ≠ c := by
      rintro rfl
      rcases spawns.unused with ⟨-, small, -⟩ | ⟨look, -⟩
      · exact absurd small (Nat.not_lt.mpr large)
      · have none := valid.fresh d (Nat.le_trans spawns.spawned large)
        rw [look] at none
        cases none
    exact (spawns.changes.others d other).trans
      (valid.fresh d (Nat.le_trans spawns.spawned large))

theorem Leaves.valid {e next : Engine F} {c : CoroId} {state : CoroState} {ctx : Context F}
    {added : List CoroId} (valid : e.Valid) (leaves : e.Leaves next c state ctx)
    (place : ctx ≠ .active) (notFinished : state ≠ .finished)
    (schedule : next.schedule = e.schedule ++ added)
    (added_ : added = [] ∧ state ≠ .running ∨ added = [c] ∧ state = .running) : next.Valid := by
  have current := valid.currentLook leaves.current
  apply (leaves.advances valid place schedule added_).valid valid
  refine ⟨Or.inr leaves.thisCoro, ?_, ?_, ?_, ?_, ?_, ?_⟩
  · intro who this
    rw [leaves.thisCoro] at this
    cases this
  · intro d mem
    rw [leaves.pool] at mem
    exact leaves.changes.of_ne (valid.pooled d mem) (by simp [current])
  · rw [leaves.pool]
    exact valid.poolDistinct
  · intro d ctx' look
    by_cases same : d = c
    · subst same
      rw [leaves.changes.here] at look
      cases look
      exact absurd rfl notFinished
    · exact valid.finished d ctx' ((leaves.changes.others d same).symm.trans look)
  · intro d state' look
    by_cases same : d = c
    · subst same
      rw [leaves.changes.here] at look
      cases look
      exact absurd rfl place
    · have this := valid.active d state' ((leaves.changes.others d same).symm.trans look)
      rw [leaves.current] at this
      cases this
      exact absurd rfl same
  · intro d unused
    rw [leaves.spawned] at unused
    exact leaves.changes.of_ne (valid.fresh d unused) (by simp [current])

theorem Finishes.valid {e next : Engine F} {c : CoroId} {added : List CoroId} (valid : e.Valid)
    (finishes : e.Finishes next c added) : next.Valid := by
  have current := valid.currentLook finishes.current
  have asleep : ∀ d ∈ added, ∃ ctx, e.look d = some (.suspended, ctx) := fun d mem =>
    let ⟨_, ctx, look, _⟩ := finishes.woken d mem
    ⟨ctx, look⟩
  apply (finishes.advances valid).valid valid
  refine ⟨Or.inr finishes.thisCoro, ?_, ?_, ?_, ?_, ?_, ?_⟩
  · intro who this
    rw [finishes.thisCoro] at this
    cases this
  · intro d mem
    rw [finishes.pool] at mem
    have pooled := valid.pooled d mem
    by_cases same : d = c
    · rw [same]
      exact finishes.here
    · refine (finishes.others d same fun isAdded => ?_).trans pooled
      obtain ⟨ctx, look⟩ := asleep d isAdded
      rw [pooled] at look
      cases look
  · rw [finishes.pool]
    exact valid.poolDistinct
  · intro d ctx' look
    by_cases same : d = c
    · subst same
      rw [finishes.here] at look
      cases look
      rfl
    · by_cases mem : d ∈ added
      · obtain ⟨-, ctx, -, awake⟩ := finishes.woken d mem
        rw [awake] at look
        cases look
      · exact valid.finished d ctx' ((finishes.others d same mem).symm.trans look)
  · intro d state look
    by_cases same : d = c
    · subst same
      rw [finishes.here] at look
      cases look
    · by_cases mem : d ∈ added
      · obtain ⟨-, ctx, before, awake⟩ := finishes.woken d mem
        rw [awake] at look
        cases look
        exact absurd rfl (valid.asleepPlace before)
      · have this := valid.active d state ((finishes.others d same mem).symm.trans look)
        rw [finishes.current] at this
        cases this
        exact absurd rfl same
  · intro d unused
    rw [finishes.spawned] at unused
    have none := valid.fresh d unused
    have notC : d ≠ c := by
      rintro rfl
      rw [current] at none
      cases none
    refine (finishes.others d notC fun mem => ?_).trans none
    obtain ⟨ctx, look⟩ := asleep d mem
    rw [none] at look
    cases look

theorem Keeps.valid {e next : Engine F} (valid : e.Valid) (main : e.thisCoro = none)
    (keeps : e.Keeps next) (main' : next.thisCoro = none) : next.Valid where
  control := Or.inr main'
  current := fun who this => by
    rw [main'] at this
    cases this
  distinct := keeps.schedule ▸ valid.distinct
  scheduled := by
    rw [keeps.schedule, keeps.look]
    exact valid.scheduled
  runs := by
    rw [keeps.schedule, keeps.look, main', ← main]
    exact valid.runs
  pooled := by
    rw [keeps.pool, keeps.look]
    exact valid.pooled
  poolDistinct := keeps.pool ▸ valid.poolDistinct
  finished := by
    rw [keeps.look]
    exact valid.finished
  active := by
    rw [keeps.look, main', ← main]
    exact valid.active
  fresh := by
    rw [keeps.spawned, keeps.look]
    exact valid.fresh

theorem Valid.of_same {e next : Engine F} (valid : e.Valid) (look : next.look = e.look)
    (schedule : next.schedule = e.schedule) (pool : next.pool = e.pool)
    (spawned : next.spawned = e.spawned) (thisCoro : next.thisCoro = e.thisCoro)
    (jump : next.jump = e.jump) : next.Valid where
  control := by
    rw [jump, thisCoro]
    exact valid.control
  current := by
    rw [thisCoro, look]
    exact valid.current
  distinct := schedule ▸ valid.distinct
  scheduled := by
    rw [schedule, look]
    exact valid.scheduled
  runs := by
    rw [schedule, look, thisCoro]
    exact valid.runs
  pooled := by
    rw [pool, look]
    exact valid.pooled
  poolDistinct := pool ▸ valid.poolDistinct
  finished := by
    rw [look]
    exact valid.finished
  active := by
    rw [look, thisCoro]
    exact valid.active
  fresh := by
    rw [spawned, look]
    exact valid.fresh

theorem Joins.valid {e next : Engine F} {target : CoroId} (valid : e.Valid)
    (joins : e.Joins next target) : next.Valid := by
  obtain ⟨ctx, finished⟩ := joins.finished
  obtain rfl := valid.finished target ctx finished
  refine ⟨?_, ?_, ?_, ?_, ?_, ?_, ?_, ?_, ?_, ?_⟩
  · rw [joins.jump, joins.thisCoro]
    exact valid.control
  · rw [joins.thisCoro, joins.look]
    exact valid.current
  · rw [joins.schedule]
    exact valid.distinct
  · rw [joins.schedule, joins.look]
    exact valid.scheduled
  · rw [joins.schedule, joins.look, joins.thisCoro]
    exact valid.runs
  · rw [joins.pool, joins.look]
    intro c mem
    rcases List.mem_cons.mp mem with rfl | mem
    · exact finished
    · exact valid.pooled c mem
  · rw [joins.pool, List.nodup_cons]
    exact ⟨joins.outside, valid.poolDistinct⟩
  · rw [joins.look]
    exact valid.finished
  · rw [joins.look, joins.thisCoro]
    exact valid.active
  · rw [joins.spawned, joins.look]
    exact valid.fresh

theorem Lands.valid {e next : Engine F} {c : CoroId} {state : CoroState} {ctx : Context F}
    (valid : e.Valid) (lands : e.Lands next c state ctx) (idle : e.thisCoro = none) :
    state = .running ∧ next.Valid := by
  have distinct := valid.distinct
  rw [lands.schedule, List.nodup_cons] at distinct
  obtain ⟨outside, distinct⟩ := distinct
  obtain ⟨ctx', look, place⟩ := valid.scheduled c (by simp [lands.schedule])
  have before := lands.before
  rw [look] at before
  cases before
  have here := lands.changes.here
  refine ⟨rfl, Or.inl lands.jump, ?_, distinct, ?_, ?_, ?_, ?_, ?_, ?_, ?_⟩
  · intro who this
    rw [lands.thisCoro] at this
    cases this
    exact ⟨c, rfl, here⟩
  · intro d mem
    have other : d ≠ c := fun same => outside (same ▸ mem)
    rw [lands.changes.others d other]
    exact valid.scheduled d (by simp [lands.schedule, mem])
  · intro d ctx' look'
    by_cases same : d = c
    · subst same
      exact Or.inr lands.thisCoro
    · rw [lands.changes.others d same] at look'
      rcases valid.runs d ctx' look' with mem | this
      · rw [lands.schedule, List.mem_cons] at mem
        exact Or.inl (mem.resolve_left same)
      · rw [idle] at this
        cases this
  · intro d mem
    rw [lands.pool] at mem
    exact lands.changes.of_ne (valid.pooled d mem) (by simp [look])
  · rw [lands.pool]
    exact valid.poolDistinct
  · intro d ctx' look'
    by_cases same : d = c
    · subst same
      rw [here] at look'
      cases look'
    · exact valid.finished d ctx' ((lands.changes.others d same).symm.trans look')
  · intro d state look'
    by_cases same : d = c
    · subst same
      exact lands.thisCoro
    · have this := valid.active d state ((lands.changes.others d same).symm.trans look')
      rw [idle] at this
      cases this
  · intro d unused
    rw [lands.spawned] at unused
    exact lands.changes.of_ne (valid.fresh d unused) (by simp [look])

theorem Valid.unlinked {e : Engine F} (valid : e.Valid) {c : CoroId}
    (jump : e.jump = some (.coro c)) : ¬e.Linked c ∧ e.thisCoro = none := by
  have idle : e.thisCoro = none := valid.control.resolve_left (by simp [jump])
  have front : e.schedule = c :: (e.runningNow.filterMap CoroRef.coro? ++ e.runningNext) := by
    simp [schedule, jump, CoroRef.coro?]
  have distinct := valid.distinct
  obtain ⟨ctx, look, -⟩ := valid.scheduled c (by simp [front])
  simp only [front, List.nodup_cons, List.mem_append, List.mem_filterMap, not_or] at distinct
  refine ⟨?_, idle⟩
  rintro (now | next | pool)
  · exact distinct.1.1 ⟨_, now, rfl⟩
  · exact distinct.1.2 next
  · have look' := valid.pooled c pool
    rw [look] at look'
    cases look'

end Engine

end SystemProg.Coroutine
