import Mathlib.Data.List.Basic
import SystemProg.Coroutine.SessionSteps

set_option autoImplicit false

-- Where a coroutine is linked follows from its state and from what has become of its handle, and no
-- assertion of the engine fails.

namespace SystemProg.Coroutine

namespace Engine

variable {F : Type} {e : Engine F} {c : CoroId}

def running (e : Engine F) : Option CoroRef :=
  match e.jump with
  | some target => some target
  | none => e.thisCoro

-- How often the coroutine is linked in `coros_running_now` and in `coros_running_next`.
def runLinks (e : Engine F) (c : CoroId) : Nat :=
  e.runningNow.count (.coro c) + e.runningNext.count c

theorem filterMap_count (now : List CoroRef) (c : CoroId) :
    (now.filterMap CoroRef.coro?).count c = now.count (.coro c) := by
  induction now with
  | nil => rfl
  | cons who rest ih => cases who <;> simp [CoroRef.coro?, List.filterMap_cons, List.count_cons, ih]

theorem schedule_count (e : Engine F) (c : CoroId) :
    e.schedule.count c = (if e.jump = some (.coro c) then 1 else 0) + e.runLinks c := by
  simp only [schedule, List.count_append, filterMap_count, runLinks, Nat.add_assoc]
  congr 1
  cases e.jump with
  | none => simp
  | some who =>
      cases who with
      | sched => simp
      | coro d => simp [List.count_singleton]

theorem Valid.runLinks_current (valid : e.Valid) (current : e.running = some (.coro c)) :
    e.runLinks c = 0 := by
  have links := schedule_count e c
  unfold running at current
  split at current
  · next jump =>
      rw [jump, if_pos current] at links
      have once := List.nodup_iff_count.mp valid.distinct c
      omega
  · next jump =>
      have outside := valid.notScheduled (valid.currentLook current) (Or.inr rfl)
      rw [List.count_eq_zero_of_not_mem outside] at links
      omega

theorem Valid.runLinks_ready (valid : e.Valid) {coro : Coro F} (found : e.coros c = some coro)
    (ready : coro.state = .running) (other : e.running ≠ some (.coro c)) : e.runLinks c = 1 := by
  have links := schedule_count e c
  have look := look_state found
  rw [ready] at look
  have apart : e.jump ≠ some (.coro c) ∧ e.thisCoro ≠ some (.coro c) := by
    unfold running at other
    split at other
    · next jump =>
        have idle : e.thisCoro = none := valid.control.resolve_left (by simp [jump])
        exact ⟨by rwa [jump], by simp [idle]⟩
    · next jump => exact ⟨by simp [jump], other⟩
  have mem := (valid.runs c _ look).resolve_right apart.2
  rw [valid.distinct.count, if_pos mem, if_neg apart.1] at links
  omega

-- The run lists hold the coroutines that are RUNNING and do not have control, each once.
theorem Valid.runLinks_eq (valid : e.Valid) {coro : Coro F} (found : e.coros c = some coro) :
    e.runLinks c = if coro.state = .running ∧ e.running ≠ some (.coro c) then 1 else 0 := by
  by_cases ready : coro.state = .running
  · by_cases current : e.running = some (.coro c)
    · simp [current, valid.runLinks_current current]
    · simp [ready, current, valid.runLinks_ready found ready current]
  · have links := schedule_count e c
    have outside := valid.notScheduled (look_state found) (Or.inl ready)
    rw [List.count_eq_zero_of_not_mem outside] at links
    rw [if_neg (by simp [ready])]
    omega

end Engine

namespace Session

variable {s : Session} {c : CoroId}

def live (s : Session) : List CoroId :=
  (List.range s.engine.spawned).filter fun c => (s.lives c).phase ≠ .joined

theorem Sound.poolLinks (sound : s.Sound) (c : CoroId) :
    s.engine.pool.count c = if (s.lives c).phase = .joined then 1 else 0 := by
  rw [sound.valid.poolDistinct.count]
  simp only [sound.custody.pool c]

theorem Sound.count (sound : s.Sound) :
    s.engine.coroCount = s.live.length + s.engine.pool.length := by
  have joined : ((List.range s.engine.spawned).filter fun c =>
      !decide ((s.lives c).phase ≠ .joined)).Perm s.engine.pool := by
    refine (List.perm_ext_iff_of_nodup (List.nodup_range.filter _) sound.valid.poolDistinct).mpr ?_
    intro c
    rw [sound.custody.pool c]
    simp only [List.mem_filter, List.mem_range]
    constructor
    · rintro ⟨-, phase⟩
      simpa using phase
    · intro phase
      obtain ⟨coro, found, -⟩ :=
        Engine.look_coros (sound.valid.pooled c ((sound.custody.pool c).mpr phase))
      exact ⟨sound.valid.inUse found, by simpa using phase⟩
  rw [sound.custody.counted, ← joined.length_eq, live,
    ← List.length_eq_length_filter_add, List.length_range]

-- Main joins a coroutine that has not ended, outside of `coro_engine_run`: the engine prints that
-- this is a deadlock and exits.
def Deadlock (s : Session) (act : Act) : Prop :=
  ∃ handle coro, act = .join handle ∧ s.engine.thisCoro = none ∧
    s.engine.coros handle.coro = some coro ∧ coro.state ≠ .finished

theorem Sound.current (sound : s.Sound) (idle : s.engine.jump = none)
    (other : s.engine.thisCoro ≠ none) : ∃ c, ∃ now : List CoroId,
      s.engine.thisCoro = some (.coro c) ∧ s.engine.runningNow = now.map .coro ++ [.sched] := by
  obtain ⟨who, current⟩ := Option.ne_none_iff_exists'.mp other
  obtain ⟨c, rfl, -⟩ := sound.valid.current who current
  obtain ⟨now, queue⟩ := sound.turn.inside c (Or.inr ⟨idle, current⟩)
  exact ⟨c, now, current, queue⟩

theorem Sound.join_defined (sound : s.Sound) (idle : s.engine.jump = none) {handle : Handle}
    (free : s.Open handle) : s.join handle ≠ none ∨ s.Deadlock (.join handle) := by
  obtain ⟨coro, found⟩ :=
    Option.ne_none_iff_exists'.mp (sound.custody.there handle.coro free.1)
  have spare := sound.custody.spare _ coro found (by simp [free.2.2])
  have outside : handle.coro ∉ s.engine.pool := by
    simp [sound.custody.pool, free.2.2]
  by_cases waits : coro.state ≠ .finished ∧ s.engine.thisCoro = none
  · exact Or.inr ⟨handle, coro, rfl, waits.2, found, waits.1⟩
  · refine Or.inl ?_
    have same := Engine.setCoro_look { coro with joiner := s.engine.thisCoro } found rfl rfl
    have valid' := sound.valid.of_same same rfl rfl rfl rfl rfl
    have turned : ∃ result, (s.engine.setCoro handle.coro
        { coro with joiner := s.engine.thisCoro }).joinTurn handle.coro = some result := by
      have found' : (s.engine.setCoro handle.coro
          { coro with joiner := s.engine.thisCoro }).coros handle.coro =
            some { coro with joiner := s.engine.thisCoro } := by
        simp [Engine.setCoro]
      by_cases finished : coro.state = .finished
      · exact @Engine.joinTurn_defined _ _ _ [] _ .sched valid' found' (by rfl) outside
          (absurd finished) (absurd finished)
      · have other : s.engine.thisCoro ≠ none := fun main => waits ⟨finished, main⟩
        obtain ⟨a, now, current, queue⟩ := sound.current idle other
        exact Engine.joinTurn_defined valid' found' (by rfl) outside (fun _ => current)
          (fun _ => queue)
    obtain ⟨result, turned⟩ := turned
    simp [join, Engine.join, found, spare, turned]

theorem Sound.resume_defined (sound : s.Sound) (busy : s.engine.jump ≠ none) :
    s.resume ≠ none := by
  obtain ⟨who, jump⟩ := Option.ne_none_iff_exists'.mp busy
  have idle : s.engine.thisCoro = none := sound.valid.control.resolve_left busy
  cases who with
  | sched =>
      have empty := sound.turn.back jump
      have landed : ∃ next, s.engine.landSched = some next := by
        rw [Engine.landSched, if_neg (by simp [idle, empty])]
        exact Engine.runTurn_defined idle empty
      obtain ⟨next, landed⟩ := landed
      simp [resume, jump, landed]
  | coro c =>
      obtain ⟨ctx, e, place, landed⟩ :=
        Engine.land_defined sound.valid jump (sound.custody.works c)
      obtain ⟨valid, lands⟩ := Engine.land_rule sound.valid jump landed
      have turn := Engine.land_turn sound.turn jump landed
      obtain ⟨coro, rfl, current, sets⟩ := Engine.land_sets landed
      simp only [resume, jump, landed]
      cases inside : coro.ctx with
      | active => exact absurd inside place
      | start | restart | code => simp [goOn]
      | frame outside => cases outside
      | joining t =>
          obtain ⟨claimed, -, target, found, joiner⟩ :=
            sound.custody.joining c coro t sets.found inside
          have outside : t ∉ e.pool := by
            simp [sets.pool, sound.custody.pool, claimed]
          have waits : ∃ target', e.coros t = some target' ∧ target'.joiner = some (.coro c) := by
            rw [sets.coros, Function.update_apply]
            split
            · next same =>
                subst same
                obtain rfl : target = coro := by simpa [sets.found] using found.symm
                exact ⟨_, rfl, joiner⟩
            · exact ⟨target, found, joiner⟩
          obtain ⟨target', found', joiner'⟩ := waits
          obtain ⟨now, queue⟩ := turn.inside c (Or.inr ⟨lands.jump, current⟩)
          obtain ⟨result, turned⟩ := Engine.joinTurn_defined valid found'
            (joiner'.trans current.symm) outside (fun _ => current) (fun _ => queue)
          simp [goOn, turned]

theorem Sound.step_defined (sound : s.Sound) {act : Act} (allowed : s.Allowed act) :
    s.step act ≠ none ∨ s.Deadlock act := by
  obtain ⟨busy, permits⟩ := allowed
  by_cases idle : s.engine.jump = none
  · rw [Session.step, if_pos idle]
    cases act with
    | resume => exact absurd idle (busy.mp rfl)
    | run =>
        have main : s.engine.thisCoro = none := permits
        obtain ⟨next, turned⟩ := Engine.runTurn_defined main (sound.turn.main idle main)
        exact Or.inl (by simp [call, main, turned])
    | new =>
        obtain ⟨next, spawned⟩ := Engine.spawn_defined sound.valid
        exact Or.inl (by simp [call, new, spawned])
    | yield =>
        obtain ⟨c, now, current, queue⟩ := sound.current idle permits
        obtain ⟨next, yielded⟩ := Engine.yield_defined sound.valid current queue .code
        exact Or.inl (by simp [call, yielded])
    | suspend =>
        obtain ⟨c, now, current, queue⟩ := sound.current idle permits
        obtain ⟨next, suspended⟩ := Engine.suspend_defined sound.valid current queue .code
        exact Or.inl (by simp [call, suspended])
    | wakeup target =>
        obtain ⟨next, woken⟩ :=
          Engine.wakeup_defined sound.valid (sound.custody.there target permits)
        exact Or.inl (by simp [call, woken])
    | join handle => exact sound.join_defined idle permits.1
    | finish ret =>
        obtain ⟨c, now, current, queue⟩ := sound.current idle permits
        obtain ⟨next, done⟩ := Engine.finish_defined sound.valid current queue
          (by
            intro coro j found joiner
            have claimed : (s.lives c).phase = .claimed := by
              by_contra spare
              rw [sound.custody.spare c coro found spare] at joiner
              cases joiner
            obtain ⟨a, other, joiner', found', -⟩ := sound.custody.claimed c coro found claimed
            obtain rfl : j = a := by simpa [joiner] using joiner'
            simp [found']) ret
        exact Or.inl (by simp [call, finish, current, done])
  · obtain rfl := busy.mpr idle
    rw [Session.step, if_neg idle, if_pos rfl]
    exact Or.inl (sound.resume_defined idle)

theorem Sound.destroy (sound : s.Sound) (idle : s.engine.jump = none)
    (main : s.engine.thisCoro = none)
    (joined : ∀ c, c < s.engine.spawned → (s.lives c).phase = .joined) :
    s.engine.destroy = some () := by
  have empty : s.engine.runningNext = [] := by
    rw [List.eq_nil_iff_forall_not_mem]
    intro c mem
    obtain ⟨ctx, look, -⟩ := sound.valid.scheduled c (List.mem_append_right _ mem)
    obtain ⟨coro, found, -⟩ := Engine.look_coros look
    have pooled := sound.valid.pooled c ((sound.custody.pool c).mpr (joined c (sound.valid.inUse found)))
    rw [look] at pooled
    cases pooled
  have count : s.engine.coroCount = s.engine.pool.length := by
    have none_ : s.live = [] := by
      rw [live, List.filter_eq_nil_iff]
      intro c mem
      simp [joined c (List.mem_range.mp mem)]
    simpa [none_] using sound.count
  simp [Engine.destroy, main, sound.turn.main idle main, empty, count, Engine.destroyPool_length]

theorem scheduler_invariant {acts : List Act} (allowed : Run.EachStep step Allowed init acts)
    (run : Run.exec step init acts = some s) :
    (∀ c coro, s.engine.coros c = some coro →
      s.engine.runLinks c =
          (if coro.state = .running ∧ s.engine.running ≠ some (.coro c) then 1 else 0) ∧
        s.engine.pool.count c = if (s.lives c).phase = .joined then 1 else 0) ∧
    (∀ c, s.engine.running = some (.coro c) →
      ∃ now : List CoroId, s.engine.runningNow = now.map .coro ++ [.sched]) ∧
    s.engine.coroCount = s.live.length + s.engine.pool.length ∧
    (∀ act, s.Allowed act → s.step act ≠ none ∨ s.Deadlock act) ∧
    (s.engine.running = none → (∀ c, c < s.engine.spawned → (s.lives c).phase = .joined) →
      s.engine.destroy = some ()) := by
  have sound := sound_of_run allowed run
  refine ⟨?_, ?_, sound.count, fun act => sound.step_defined, ?_⟩
  · intro c coro found
    exact ⟨sound.valid.runLinks_eq found, sound.poolLinks c⟩
  · intro c current
    unfold Engine.running at current
    split at current
    · next jump => exact sound.turn.inside c (Or.inl (jump.trans current))
    · next idle => exact sound.turn.inside c (Or.inr ⟨idle, current⟩)
  · intro stopped joined
    unfold Engine.running at stopped
    split at stopped
    · cases stopped
    · next idle => exact sound.destroy idle stopped joined

def joinedByMain : List Act :=
  [.new, .run, .resume, .new, .wakeup 1, .join { coro := 1, incarnation := 1 }, .resume, .resume,
    .suspend, .resume, .wakeup 1, .run, .resume, .finish 5, .resume, .resume, .finish 6, .resume,
    .join { coro := 0, incarnation := 1 }]

theorem scheduler_invariant_joined : ∃ s, Run.exec step init joinedByMain = some s ∧
    s.engine.pool = [0, 1] ∧ s.engine.coroCount = 2 ∧ s.engine.destroy = some () := by
  have run := (Option.some_get (show (Run.exec step init joinedByMain).isSome by decide)).symm
  obtain ⟨-, -, -, -, destroy⟩ := scheduler_invariant (by decide) run
  exact ⟨_, run, by decide, by decide, destroy (by decide) (by decide)⟩

end Session

end SystemProg.Coroutine
