import SystemProg.Coroutine.SessionSteps

set_option autoImplicit false

namespace SystemProg.Coroutine

def Record.created? : Record → Option Handle
  | .created handle => some handle
  | _ => none

def Record.ended? : Record → Option Handle
  | .ended handle _ => some handle
  | _ => none

namespace Session

structure History (s : Session) : Prop where
  made : ∀ c, c < s.engine.spawned → .created (s.handle c) ∈ s.log
  past : ∀ handle, .created handle ∈ s.log →
    handle.incarnation ≤ (s.lives handle.coro).incarnation
  madeOnce : (s.log.filterMap Record.created?).Nodup
  ended : ∀ handle ret, .ended handle ret ∈ s.log →
    handle.incarnation ≤ (s.lives handle.coro).incarnation ∧
      (s.handle handle.coro = handle → ∀ coro, s.engine.coros handle.coro = some coro →
        coro.state = .finished)
  endedOnce : (s.log.filterMap Record.ended?).Nodup
  kept : ∀ c coro, s.engine.coros c = some coro → coro.state = .finished →
    (s.lives c).phase ≠ .joined → .ended (s.handle c) coro.ret ∈ s.log
  returned : ∀ front who handle ret, front ++ [.joined who handle ret] <+: s.log →
    .created handle ∈ front ∧ .ended handle ret ∈ front

theorem init_history : init.History where
  made := nofun
  past := nofun
  madeOnce := List.nodup_nil
  ended := nofun
  endedOnce := List.nodup_nil
  kept := nofun
  returned := by
    intro front who handle ret early
    have empty := List.prefix_nil.mp early
    simp at empty

variable {s next : Session} {c : CoroId}

structure Steady (s next : Session) : Prop where
  log : next.log = s.log
  incarnation : ∀ c, (next.lives c).incarnation = (s.lives c).incarnation
  spawned : next.engine.spawned = s.engine.spawned
  forth : ∀ c coro', next.engine.coros c = some coro' →
    ∃ coro, s.engine.coros c = some coro ∧ (coro.state = .finished → coro'.state = .finished)
  back : ∀ c coro', next.engine.coros c = some coro' → coro'.state = .finished →
    (next.lives c).phase ≠ .joined → (s.lives c).phase ≠ .joined ∧
      ∃ coro, s.engine.coros c = some coro ∧ coro.state = .finished ∧ coro.ret = coro'.ret

theorem Steady.handle (steady : s.Steady next) (c : CoroId) : next.handle c = s.handle c := by
  simp [Session.handle, steady.incarnation]

theorem History.steady (history : s.History) (steady : s.Steady next) : next.History := by
  obtain ⟨made, past, madeOnce, ended, endedOnce, kept, returned⟩ := history
  constructor <;> simp only [steady.log, steady.handle, steady.incarnation, steady.spawned]
  · exact made
  · exact past
  · exact madeOnce
  · intro handle ret mem
    refine ⟨(ended handle ret mem).1, fun last coro' found' => ?_⟩
    obtain ⟨coro, found, stays⟩ := steady.forth _ coro' found'
    exact stays ((ended handle ret mem).2 last coro found)
  · exact endedOnce
  · intro c coro' found' finished outside
    obtain ⟨outside', coro, found, state, same⟩ := steady.back c coro' found' finished outside
    exact same ▸ kept c coro found state outside'
  · exact returned

theorem steady_sets {e : Engine Empty} {coro coro' : Coro Empty}
    (sets : s.engine.Sets e c coro coro') (working : coro.state ≠ .finished)
    (works : coro'.state ≠ .finished) : s.Steady { s with engine := e } where
  log := rfl
  incarnation := fun _ => rfl
  spawned := sets.spawned
  forth := by
    intro d other found
    have before := sets.found
    rw [sets.coros, Function.update_apply] at found
    grind
  back := by
    intro d other found
    rw [sets.coros, Function.update_apply] at found
    grind

theorem steady_same {e : Engine Empty} (same : s.engine.Same e) :
    s.Steady { s with engine := e } where
  log := rfl
  incarnation := fun _ => rfl
  spawned := same.spawned
  forth := by
    intro d other found
    rw [same.coros] at found
    exact ⟨other, found, id⟩
  back := by
    intro d other found finished outside
    rw [same.coros] at found
    exact ⟨outside, other, found, finished, rfl⟩

-- The last record of a prefix is the new one, or the prefix is one of the old log.
theorem joined_early {front log : List Record} {record : Record} {who : Option CoroRef}
    {handle : Handle} {ret : Nat} (early : front ++ [.joined who handle ret] <+: log ++ [record]) :
    front = log ∧ record = .joined who handle ret ∨ front ++ [.joined who handle ret] <+: log := by
  rcases List.prefix_concat_iff.mp early with same | early
  · have split := List.append_inj' same rfl
    exact Or.inl ⟨split.1, by simpa using split.2.symm⟩
  · exact Or.inr early

theorem History.returns (history : s.History) {handle : Handle} {ret : Nat}
    (who : Option CoroRef) (made : .created handle ∈ s.log) (ended : .ended handle ret ∈ s.log) :
    History { s with log := s.log ++ [.joined who handle ret] } where
  made := fun c old => List.mem_append_left _ (history.made c old)
  past := by simpa using history.past
  madeOnce := by simpa [List.filterMap_append, List.filterMap_cons, Record.created?] using history.madeOnce
  ended := fun handle ret mem => history.ended handle ret (by simpa using mem)
  endedOnce := by simpa [List.filterMap_append, List.filterMap_cons, Record.ended?] using history.endedOnce
  kept := fun c coro found finished outside =>
    List.mem_append_left _ (history.kept c coro found finished outside)
  returned := by
    intro front who' handle' ret' early
    rcases joined_early early with ⟨rfl, same⟩ | early
    · cases same
      exact ⟨made, ended⟩
    · exact history.returned front who' handle' ret' early

theorem History.ends (history : s.History) {e : Engine Empty} {coro coro' : Coro Empty}
    (sets : s.engine.Sets e c coro coro') (working : coro.state ≠ .finished)
    (done : coro'.state = .finished) :
    History { s with engine := e, log := s.log ++ [.ended (s.handle c) coro'.ret] } where
  made := by
    intro d old
    rw [sets.spawned] at old
    exact List.mem_append_left _ (history.made d old)
  past := by simpa using history.past
  madeOnce := by simpa [List.filterMap_append, List.filterMap_cons, Record.created?] using history.madeOnce
  ended := by
    intro handle ret mem
    rw [List.mem_append, List.mem_singleton] at mem
    dsimp only
    rw [sets.coros]
    rcases mem with before | new
    · refine ⟨(history.ended handle ret before).1, fun last other found => ?_⟩
      by_cases same : handle.coro = c
      · rw [same, Function.update_self, Option.some.injEq] at found
        exact found ▸ done
      · rw [Function.update_of_ne same] at found
        exact (history.ended handle ret before).2 last other found
    · cases new
      refine ⟨Nat.le_refl _, fun _ other found => ?_⟩
      rw [handle_coro, Function.update_self, Option.some.injEq] at found
      exact found ▸ done
  endedOnce := by
    simp only [List.filterMap_append, Record.ended?, List.filterMap_cons, List.filterMap_nil]
    rw [List.nodup_append]
    refine ⟨history.endedOnce, by simp, ?_⟩
    rintro handle mem other new rfl
    obtain rfl := List.mem_singleton.mp new
    obtain ⟨record, before, same⟩ := List.mem_filterMap.mp mem
    cases record with
    | ended handle ret =>
        cases same
        exact working ((history.ended _ ret before).2 rfl coro sets.found)
    | created | joined => cases same
  kept := by
    intro d other found finished outside
    dsimp only at found
    rw [sets.coros] at found
    by_cases same : d = c
    · subst same
      rw [Function.update_self, Option.some.injEq] at found
      rw [← found]
      simp [Session.handle]
    · rw [Function.update_of_ne same] at found
      exact List.mem_append_left _ (history.kept d other found finished outside)
  returned := by
    intro front who handle ret early
    rcases joined_early early with ⟨-, same⟩ | early
    · cases same
    · exact history.returned front who handle ret early

theorem History.spawns (history : s.History) {e : Engine Empty} {coro : Coro Empty}
    {handle : Handle} (next_ : handle.incarnation = (s.lives handle.coro).incarnation + 1)
    (coros : e.coros = Function.update s.engine.coros handle.coro (some coro))
    (working : coro.state ≠ .finished)
    (spawned : ∀ c, c < e.spawned → c ≠ handle.coro → c < s.engine.spawned) :
    History { s with
      engine := e
      lives := Function.update s.lives handle.coro
        { phase := .unclaimed, incarnation := handle.incarnation }
      log := s.log ++ [.created handle] } := by
  have older : ∀ other : Handle, other.incarnation ≤ (s.lives other.coro).incarnation →
      other ≠ handle ∧ other.incarnation ≤ (Function.update s.lives handle.coro
        { phase := .unclaimed, incarnation := handle.incarnation } other.coro).incarnation := by
    intro other past
    refine ⟨by rintro rfl; omega, ?_⟩
    rw [Function.update_apply]
    split
    · next same =>
        rw [same] at past
        dsimp only
        omega
    · exact past
  constructor
  · intro c old
    by_cases same : c = handle.coro
    · subst same
      simp [Session.handle]
    · refine List.mem_append_left _ ?_
      have before := history.made c (spawned c old same)
      simpa [Session.handle, Function.update_of_ne same] using before
  · intro other mem
    rcases List.mem_append.mp mem with before | new
    · exact (older other (history.past other before)).2
    · cases List.mem_singleton.mp new
      simp
  · simp only [List.filterMap_append, List.filterMap_cons, List.filterMap_nil, Record.created?]
    rw [List.nodup_append]
    refine ⟨history.madeOnce, by simp, ?_⟩
    rintro other mem new_ new rfl
    obtain rfl := List.mem_singleton.mp new
    obtain ⟨record, before, same⟩ := List.mem_filterMap.mp mem
    cases record with
    | created other =>
        cases same
        exact (older _ (history.past _ before)).1 rfl
    | ended | joined => cases same
  · intro other ret mem
    have before : .ended other ret ∈ s.log := by simpa using mem
    obtain ⟨past, finished⟩ := history.ended other ret before
    refine ⟨(older other past).2, fun last coro' found => ?_⟩
    dsimp only at found
    by_cases same : other.coro = handle.coro
    · -- An object that is used again has another incarnation.
      exfalso
      have newer := congrArg Handle.incarnation last
      simp only [Session.handle, same, Function.update_self] at newer
      rw [same] at past
      omega
    · rw [coros, Function.update_of_ne same] at found
      refine finished ?_ coro' found
      simpa [Session.handle, Function.update_of_ne same] using last
  · simpa [List.filterMap_append, List.filterMap_cons, Record.ended?] using history.endedOnce
  · intro c other found done outside
    dsimp only at found
    by_cases same : c = handle.coro
    · subst same
      rw [coros, Function.update_self, Option.some.injEq] at found
      exact absurd (found ▸ done) working
    · rw [coros, Function.update_of_ne same] at found
      refine List.mem_append_left _ ?_
      have kept := history.kept c other found done
        (by simpa [Function.update_of_ne same] using outside)
      simpa [Session.handle, Function.update_of_ne same] using kept
  · intro front who other ret early
    rcases joined_early early with ⟨-, same⟩ | early
    · cases same
    · exact history.returned front who other ret early

theorem Stepped.history (sound : s.Sound) (history : s.History) (stepped : Stepped s next) :
    next.History := by
  cases stepped with
  | same same => exact history.steady (steady_same same)
  | sets sets joiner func ret place runs working works =>
      exact history.steady (steady_sets sets working works)
  | spawns spawned =>
      rcases Engine.spawn_sets spawned with ⟨pool, pool', spawned', coroCount, coros⟩ |
        ⟨c, rest, coro, pool, pool', spawned', coroCount, found, coros⟩
      · have fresh : s.newHandle.coro = s.engine.spawned := by
          rw [newHandle, pool]
          rfl
        refine history.spawns (by rfl) (by rw [fresh]; exact coros) (by simp) ?_
        intro c old other
        rw [spawned'] at old
        rw [fresh] at other
        omega
      · have fresh := newHandle_coro pool
        refine history.spawns (by rfl) (by rw [fresh]; exact coros) (by simp) ?_
        intro c old other
        rwa [spawned'] at old
  | @ends w e c coro ret wakes sets found working active joiner =>
      have middle : History { s with engine := w } := by
        rcases wakes with same | ⟨j, other, asleep, sets'⟩
        · exact history.steady (steady_same same)
        · exact history.steady (steady_sets sets' (by simp [asleep]) (by simp))
      exact middle.ends sets (by simp [working]) (by rfl)
  | @claims e c a coro other found current apart working free awake active lookup pool spawned =>
      refine history.steady ⟨rfl, ?_, spawned, ?_, ?_⟩
      · intro d
        dsimp only
        grind [Function.update_apply]
      · grind
      · grind [Function.update_apply]
  | @returns e c coro ticket who found finished outside here others last pool spawned =>
      have inUse := sound.valid.inUse found
      have quiet : s.Steady { s with
          engine := e
          lives := Function.update s.lives c { s.lives c with phase := .joined }
          ticket := ticket } := by
        refine ⟨rfl, ?_, spawned, ?_, ?_⟩
        · intro d
          dsimp only
          grind [Function.update_apply]
        · grind
        · grind [Function.update_apply]
      refine @History.returns _ (history.steady quiet) (s.handle c) _ who ?_ ?_
      · exact history.made c inUse
      · exact history.kept c coro found finished outside

theorem history_of_run {acts : List Act} (allowed : Run.EachStep step Allowed init acts)
    (run : Run.exec step init acts = some s) : s.History := by
  have kept : ∀ s act next, Sound s ∧ History s → s.Allowed act → s.step act = some next →
      next.Sound ∧ next.History := by
    rintro s act next ⟨sound, history⟩ allowed taken
    exact ⟨sound.step allowed taken, (step_stepped sound allowed taken).history sound history⟩
  exact (Run.exec_invariant_of_eachStep kept ⟨init_sound, init_history⟩ allowed run).2

theorem joins_correct {acts : List Act} (allowed : Run.EachStep step Allowed init acts)
    (run : Run.exec step init acts = some s) :
    (∀ c coro who, s.engine.coros c = some coro → coro.state = .finished →
      coro.joiner = some who → ∃ a other, who = .coro a ∧ s.engine.coros a = some other ∧
        other.state = .running) ∧
    (∀ front who handle ret, front ++ [.joined who handle ret] <+: s.log →
      .created handle ∈ front ∧ .ended handle ret ∈ front) ∧
    (s.log.filterMap Record.created?).Nodup ∧ (s.log.filterMap Record.ended?).Nodup := by
  have sound := sound_of_run allowed run
  have history := history_of_run allowed run
  refine ⟨?_, history.returned, history.madeOnce, history.endedOnce⟩
  intro c coro who found finished joiner
  have claimed : (s.lives c).phase = .claimed := by
    by_contra spare
    rw [sound.custody.spare c coro found spare] at joiner
    cases joiner
  obtain ⟨a, other, joiner', found', -, awake⟩ := sound.custody.claimed c coro found claimed
  rw [joiner, Option.some.injEq] at joiner'
  exact ⟨a, other, joiner', found', awake finished⟩

def joinTwice : List Act :=
  let first : Handle := { coro := 1, incarnation := 1 }
  let second : Handle := { coro := 1, incarnation := 2 }
  [.new, .run, .resume, .new, .join first, .resume, .resume, .finish 7, .resume, .resume, .new,
    .wakeup 1, .join second, .resume, .resume, .wakeup 0, .yield, .resume, .resume, .resume,
    .finish 9, .resume, .resume]

theorem joins_correct_twice : ∃ s front,
    Run.exec step init joinTwice = some s ∧
    s.log = front ++ [.joined (some (.coro 0)) { coro := 1, incarnation := 2 } 9] ∧
    .ended { coro := 1, incarnation := 2 } 9 ∈ front := by
  have run := (Option.some_get (show (Run.exec step init joinTwice).isSome by decide)).symm
  obtain ⟨s, reached, log⟩ : ∃ s, Run.exec step init joinTwice = some s ∧ s.log =
      s.log.dropLast ++ [.joined (some (.coro 0)) { coro := 1, incarnation := 2 } 9] :=
    ⟨_, run, by decide⟩
  have whole : s.log.dropLast ++ [.joined (some (.coro 0)) { coro := 1, incarnation := 2 } 9] <+:
      s.log := ⟨[], (List.append_nil _).trans log.symm⟩
  exact ⟨s, s.log.dropLast, reached, log, ((joins_correct (by decide) reached).2.1 _ _ _ _ whole).2⟩

end Session

end SystemProg.Coroutine
