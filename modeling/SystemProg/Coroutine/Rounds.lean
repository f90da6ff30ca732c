import SystemProg.Coroutine.Scheduler

set_option autoImplicit false

-- One iteration of the loop of `coro_engine_run` is a round. Who gets control in it was queued
-- before it began, and who is queued in it runs in the next one.

namespace SystemProg.Coroutine

namespace Engine

variable {F : Type}

def asleep (e : Engine F) (c : CoroId) : Bool :=
  (e.coros c).any fun coro => decide (coro.state = .suspended)

def awakened (e : Engine F) : CoroRef → Option CoroId
  | .sched => none
  | .coro c => if e.asleep c then some c else none

def nextCoro (e : Engine F) : CoroId := e.pool.headD e.spawned

-- The coroutines of the round that have not had control yet.
def left (e : Engine F) : List CoroId :=
  e.jump.toList.filterMap CoroRef.coro? ++ e.runningNow.filterMap CoroRef.coro?

theorem schedule_left (e : Engine F) : e.schedule = e.left ++ e.runningNext := rfl

structure Moves (e next : Engine F) (ran queued : List CoroId) : Prop where
  left : e.left = ran ++ next.left
  queue : next.runningNext = e.runningNext ++ queued

theorem Moves.trans {e middle next : Engine F} {ran ran' queued queued' : List CoroId}
    (first : e.Moves middle ran queued) (second : middle.Moves next ran' queued') :
    e.Moves next (ran ++ ran') (queued ++ queued') where
  left := by rw [first.left, second.left, List.append_assoc]
  queue := by rw [second.queue, first.queue, List.append_assoc]

theorem Moves.same {e next : Engine F} (jump : next.jump = e.jump)
    (runningNow : next.runningNow = e.runningNow) {queued : List CoroId}
    (queue : next.runningNext = e.runningNext ++ queued) : e.Moves next [] queued where
  left := by rw [List.nil_append, Engine.left, Engine.left, jump, runningNow]
  queue := queue

theorem resumeNext_moves {e saved next : Engine F} {queued : List CoroId}
    (idle : saved.jump = none) (moves : e.Moves saved [] queued)
    (resumed : saved.resumeNext = some next) : e.Moves next [] queued := by
  obtain ⟨target, rest, now, rfl⟩ := resumeNext_eq resumed
  refine ⟨moves.left.trans ?_, moves.queue⟩
  cases target <;> simp [Engine.left, idle, now, CoroRef.coro?, List.filterMap_cons]

theorem suspend_moves {e next : Engine F} {ctx : Context F} (idle : e.jump = none)
    (suspended : e.suspend ctx = some next) : e.Moves next [] [] := by
  unfold suspend at suspended
  split at suspended
  · next c current =>
      split at suspended
      · cases suspended
      · split at suspended
        · cases suspended
        · exact resumeNext_moves (by exact idle)
            (Moves.same (by rfl) (by rfl) (by exact (List.append_nil _).symm)) suspended
  · cases suspended

theorem yield_moves {e next : Engine F} {ctx : Context F} (idle : e.jump = none)
    (yielded : e.yield ctx = some next) :
    ∃ c, e.thisCoro = some (.coro c) ∧ e.Moves next [] [c] := by
  unfold yield at yielded
  split at yielded
  · next c current =>
      split at yielded
      · cases yielded
      · split at yielded
        · cases yielded
        · exact ⟨c, current, resumeNext_moves (by exact idle)
            (Moves.same (by rfl) (by rfl) (by rfl)) yielded⟩
  · cases yielded

theorem wakeup_moves {who : CoroRef} {e next : Engine F} (woken : e.wakeup who = some next) :
    e.Moves next [] (e.awakened who).toList := by
  have still : e.Moves e [] [] := Moves.same rfl rfl (List.append_nil _).symm
  cases who with
  | sched =>
      cases woken
      exact still
  | coro c =>
      simp only [wakeup] at woken
      split at woken
      · cases woken
      · next coro found =>
          split at woken
          · next state =>
              cases woken
              simpa [awakened, asleep, found, state] using still
          · next state =>
              cases woken
              simpa [awakened, asleep, found, state] using still
          · next state =>
              split at woken
              · cases woken
              · cases woken
                have queued : e.awakened (.coro c) = some c := by
                  simp [awakened, asleep, found, state]
                rw [queued]
                exact Moves.same (by rfl) (by rfl) (by rfl)

theorem spawn_moves {e next : Engine F} (spawned : e.spawn = some next) :
    e.Moves next [] [e.nextCoro] := by
  unfold spawn at spawned
  unfold nextCoro
  split at spawned
  · next empty =>
      cases spawned
      rw [empty]
      exact Moves.same (by rfl) (by rfl) (by rfl)
  · next c rest pool =>
      rw [pool]
      split at spawned
      · cases spawned
      · dsimp only at spawned
        split at spawned
        · cases spawned
        · cases spawned
          exact Moves.same (by rfl) (by rfl) (by rfl)

def awaited (e : Engine F) (c : CoroId) : Option CoroId :=
  ((e.coros c).bind Coro.joiner).bind e.awakened

theorem finish_moves {e next : Engine F} {ret : Nat} {c : CoroId} (idle : e.jump = none)
    (current : e.thisCoro = some (.coro c)) (done : e.finish ret = some next) :
    e.Moves next [] (e.awaited c).toList := by
  unfold finish at done
  rw [current] at done
  dsimp only at done
  split at done
  · cases done
  · next coro found =>
      split at done
      · cases done
      · next state =>
          rw [not_not] at state
          obtain ⟨left, isLeft⟩ : ∃ left, left = e.setCoro c
            { coro with ret := ret, func := false, state := .finished, ctx := .restart } := ⟨_, rfl⟩
          have ended : e.Moves left [] [] := by
            rw [isLeft]
            exact Moves.same (by rfl) (by rfl) (by exact (List.append_nil _).symm)
          have idle' : left.jump = none := by
            rw [isLeft]
            exact idle
          rw [← isLeft] at done
          split at done
          · next alone =>
              have nobody : e.awaited c = none := by simp [awaited, found, alone]
              rw [nobody]
              exact resumeNext_moves idle' ended done
          · next joiner waits =>
              rw [Option.bind_eq_some_iff] at done
              obtain ⟨woken, wakes, resumed⟩ := done
              have same : e.awaited c = left.awakened joiner := by
                simp only [awaited, found, Option.bind_some, waits]
                cases joiner with
                | sched => rfl
                | coro j =>
                    by_cases own : j = c
                    · subst own
                      simp [awakened, asleep, isLeft, found, state, setCoro]
                    · have kept : left.asleep j = e.asleep j := by
                        rw [isLeft]
                        exact congrArg (Option.any _) (Function.update_of_ne own _ _)
                      rw [awakened, awakened, kept]
              rw [same]
              exact resumeNext_moves ((wakeup_runningNow wakes).2.2.trans idle')
                (ended.trans (wakeup_moves wakes)) resumed

theorem joinTurn_moves {e next : Engine F} {target : CoroId} {ret : Option Nat}
    (idle : e.jump = none) (turned : e.joinTurn target = some (next, ret)) :
    e.Moves next [] [] := by
  unfold joinTurn at turned
  split at turned
  · cases turned
  · split at turned
    · split at turned
      · cases turned
      · cases turned
        exact Moves.same (by rfl) (by rfl) (by exact (List.append_nil _).symm)
    · rw [Option.map_eq_some_iff] at turned
      obtain ⟨left, suspended, same⟩ := turned
      cases same
      exact suspend_moves idle suspended

theorem join_moves {e next : Engine F} {target : CoroId} {ret : Option Nat}
    (idle : e.jump = none) (joined : e.join target = some (next, ret)) : e.Moves next [] [] := by
  unfold join at joined
  split at joined
  · cases joined
  · next coro _ =>
      split at joined
      · cases joined
      · have claimed : e.Moves (e.setCoro target { coro with joiner := e.thisCoro }) [] [] :=
          Moves.same (by rfl) (by rfl) (by exact (List.append_nil _).symm)
        exact claimed.trans (joinTurn_moves (by exact idle) joined)

theorem land_moves {e next : Engine F} {c : CoroId} {ctx : Context F}
    (jump : e.jump = some (.coro c)) (landed : e.land c = some (next, ctx)) :
    e.Moves next [c] [] ∧ next.jump = none := by
  have here : ∀ coro : Coro F, e.Moves { e.setCoro c coro with
      thisCoro := some (.coro c), jump := none } [c] [] := fun coro =>
    ⟨by simp [Engine.left, jump, CoroRef.coro?, setCoro], by exact (List.append_nil _).symm⟩
  unfold land at landed
  split at landed
  · cases landed
  · dsimp only at landed
    split at landed
    · cases landed
    · cases landed
      exact ⟨here _, rfl⟩
    all_goals
      split at landed <;> cases landed
      exact ⟨here _, rfl⟩

structure Turns (e next : Engine F) : Prop where
  ended : e.runningNow = []
  left : next.left = e.runningNext
  queue : next.runningNext = []
  returns : e.runningNext = [] → next.jump = none ∧ next.thisCoro = e.thisCoro ∧ next.coros = e.coros

theorem coros_left (queue : List CoroId) :
    (queue.map CoroRef.coro ++ [CoroRef.sched]).filterMap CoroRef.coro? = queue := by
  induction queue with
  | nil => rfl
  | cons c rest ih => exact congrArg (List.cons c) ih

theorem runTurn_turns {e next : Engine F} (idle : e.jump = none)
    (turned : e.runTurn = some next) : e.Turns next := by
  unfold runTurn at turned
  split at turned
  · cases turned
  · next ended =>
      rw [not_not] at ended
      split at turned
      · next empty =>
          cases turned
          exact ⟨ended, by simp [Engine.left, idle, ended, empty], empty, fun _ => ⟨idle, rfl, rfl⟩⟩
      · next queued =>
          split at turned
          · cases turned
          · have moves := resumeNext_moves (by exact idle)
              (Moves.same (by rfl) (by rfl) (by exact (List.append_nil _).symm)) turned
            refine ⟨ended, ?_, moves.queue, fun empty => absurd empty queued⟩
            have same := moves.left
            rw [List.nil_append] at same
            rw [← same]
            simp only [Engine.left, idle, Option.toList_none, List.filterMap_nil, List.nil_append]
            exact coros_left e.runningNext

end Engine

namespace Session

-- A turn of the scheduler's loop with what `coros_running_next` holds then, a coroutine that gets
-- control, or one that yields, is woken while suspended or is created. A turn with nothing to run
-- is where `coro_engine_run` returns.
inductive Event where
  | turn (queue : List CoroId)
  | control (c : CoroId)
  | queued (c : CoroId)
deriving DecidableEq, Repr

def event (s : Session) : Act → Option Event
  | .resume =>
      match s.engine.jump with
      | some (.coro c) => some (.control c)
      | some .sched => some (.turn s.engine.runningNext)
      | none => none
  | .run => some (.turn s.engine.runningNext)
  | .new => some (.queued s.engine.nextCoro)
  | .yield =>
      match s.engine.thisCoro with
      | some (.coro c) => some (.queued c)
      | _ => none
  | .wakeup target => (s.engine.awakened (.coro target)).map .queued
  | .finish _ =>
      match s.engine.thisCoro with
      | some (.coro c) => (s.engine.awaited c).map .queued
      | _ => none
  | .suspend | .join _ => none

def trace : Session → List Act → List Event
  | _, [] => []
  | s, act :: rest =>
      match s.step act with
      | some next => (s.event act).toList ++ trace next rest
      | none => []

def Event.control? : Event → Option CoroId
  | .control c => some c
  | _ => none

def Event.queued? : Event → Option CoroId
  | .queued c => some c
  | _ => none

def controls (events : List Event) : List CoroId := events.filterMap Event.control?

def queues (events : List Event) : List CoroId := events.filterMap Event.queued?

section Steps

variable {s next : Session}

-- How a step moves the two lists, by what it shows.
def Shows (s next : Session) : Option Event → Prop
  | some (.turn queue) => queue = s.engine.runningNext ∧ s.engine.left = [] ∧
      s.engine.thisCoro = none ∧ Engine.Turns { s.engine with jump := none } next.engine
  | some (.control c) => s.engine.Moves next.engine [c] []
  | some (.queued c) => s.engine.Moves next.engine [] [c]
  | none => s.engine.Moves next.engine [] []

theorem shows_queued {woken : Option CoroId}
    (moves : s.engine.Moves next.engine [] woken.toList) : Shows s next (woken.map .queued) := by
  cases woken with
  | none => exact moves
  | some c => exact moves

theorem step_shows {act : Act} (taken : s.step act = some next) : Shows s next (s.event act) := by
  cases step_engineStep taken with
  | ran idle main turned =>
      have same : { s.engine with jump := none } = s.engine := by rw [← idle]
      have turns := Engine.runTurn_turns idle turned
      exact ⟨rfl, by simp [Engine.left, idle, turns.ended], main, same ▸ turns⟩
  | spawned idle spawned => exact Engine.spawn_moves spawned
  | yielded idle yielded =>
      obtain ⟨c, current, moves⟩ := Engine.yield_moves idle yielded
      simp only [event, current]
      exact moves
  | suspended idle suspended => exact Engine.suspend_moves idle suspended
  | woke idle woken => exact shows_queued (Engine.wakeup_moves woken)
  | joined idle joined => exact Engine.join_moves idle joined
  | finished idle current done =>
      simp only [event, current]
      exact shows_queued (Engine.finish_moves idle current done)
  | back jump landed =>
      simp only [event, jump]
      unfold Engine.landSched at landed
      split at landed
      · cases landed
      · next clear =>
          simp only [not_or, not_not] at clear
          exact ⟨rfl, by simp [Engine.left, jump, clear.2.2, CoroRef.coro?, List.filterMap_cons],
            clear.2.1, Engine.runTurn_turns (by rfl) landed⟩
  | landed jump landed =>
      simp only [event, jump]
      exact (Engine.land_moves jump landed).1
  | rejoined jump landed turned =>
      obtain ⟨moves, idle⟩ := Engine.land_moves jump landed
      simp only [event, jump]
      exact moves.trans (Engine.joinTurn_moves idle turned)

end Steps

-- Within a round, what has run and what is left of it make up the list it began with, and what is
-- queued is the list of the next round.
def FairFrom (began ran queued : List CoroId) : List Event → Prop
  | [] => ran <+: began
  | .control c :: rest => FairFrom began (ran ++ [c]) queued rest
  | .queued c :: rest => FairFrom began ran (queued ++ [c]) rest
  | .turn queue :: rest =>
      ran = began ∧ queued = queue ∧ queue.Nodup ∧ FairFrom queue [] [] rest

theorem trace_fair {s : Session} (valid : s.engine.Valid) (turn : s.engine.Turn) (acts : List Act)
    (ran : List CoroId) : FairFrom (ran ++ s.engine.left) ran s.engine.runningNext (s.trace acts) := by
  induction acts generalizing s ran with
  | nil => exact List.prefix_append _ _
  | cons act rest ih =>
      unfold trace
      cases taken : s.step act with
      | none => exact List.prefix_append _ _
      | some next =>
          have shown := step_shows taken
          obtain ⟨valid', turn'⟩ := step_engine valid turn taken
          cases seen : s.event act with
          | none =>
              rw [seen] at shown
              obtain ⟨left, queue⟩ := shown
              have go := ih valid' turn' ran
              rw [List.append_nil] at queue
              rw [List.nil_append] at left
              rw [← left, queue] at go
              exact go
          | some e =>
              rw [seen] at shown
              cases e with
              | turn queue =>
                  obtain ⟨rfl, ended, -, turns⟩ := shown
                  have go := ih valid' turn' []
                  rw [turns.left, turns.queue] at go
                  refine ⟨by rw [ended, List.append_nil], rfl, ?_, go⟩
                  have distinct := valid.distinct
                  rw [Engine.schedule_left, ended] at distinct
                  exact distinct
              | control c =>
                  obtain ⟨left, queue⟩ := shown
                  have go := ih valid' turn' (ran ++ [c])
                  rw [List.append_nil] at queue
                  rw [List.append_assoc, ← left, queue] at go
                  exact go
              | queued c =>
                  obtain ⟨left, queue⟩ := shown
                  have go := ih valid' turn' ran
                  rw [List.nil_append] at left
                  rw [← left, queue] at go
                  exact go

section Fair

variable {began ran queued : List CoroId}

theorem FairFrom.within {events : List Event} (fair : FairFrom began ran queued events) :
    ran <+: began := by
  induction events generalizing ran queued with
  | nil => exact fair
  | cons e rest ih =>
      cases e with
      | control c => exact (List.prefix_append ran [c]).trans (ih fair)
      | queued c => exact ih fair
      | turn queue => exact fair.1 ▸ List.prefix_rfl

theorem FairFrom.round {round rest : List Event} (inside : ∀ queue, .turn queue ∉ round)
    (fair : FairFrom began ran queued (round ++ rest)) :
    FairFrom began (ran ++ controls round) (queued ++ queues round) rest := by
  induction round generalizing ran queued with
  | nil => simpa [controls, queues] using fair
  | cons e round ih =>
      have later := fun queue mem => inside queue (List.mem_cons_of_mem e mem)
      cases e with
      | control c =>
          simpa [controls, queues, Event.control?, Event.queued?, List.filterMap_cons]
            using ih later fair
      | queued c =>
          simpa [controls, queues, Event.control?, Event.queued?, List.filterMap_cons]
            using ih later fair
      | turn queue => exact absurd (List.mem_cons_self ..) (inside queue)

theorem FairFrom.turned {front rest : List Event} {queue : List CoroId}
    (fair : FairFrom began ran queued (front ++ .turn queue :: rest)) :
    queue.Nodup ∧ FairFrom queue [] [] rest := by
  induction front generalizing began ran queued with
  | nil => exact ⟨fair.2.2.1, fair.2.2.2⟩
  | cons e front ih =>
      cases e with
      | control | queued => exact ih fair
      | turn => exact ih fair.2.2.2

end Fair

theorem engine_of_run {acts : List Act} {s : Session} (run : Run.exec step init acts = some s) :
    s.engine.Valid ∧ s.engine.Turn :=
  Run.exec_invariant (fun s => s.engine.Valid ∧ s.engine.Turn)
    (fun _ _ _ sound taken => step_engine sound.1 sound.2 taken)
    ⟨Engine.create_valid, Engine.create_turn⟩ run

theorem returns_idle {s next : Session} {act : Act} (valid : s.engine.Valid)
    (seen : s.event act = some (.turn [])) (taken : s.step act = some next) :
    next.engine.running = none ∧ ∀ c coro, next.engine.coros c = some coro →
      coro.state = .suspended ∨ coro.state = .finished := by
  have shown := step_shows taken
  rw [seen] at shown
  obtain ⟨empty, ended, main, turns⟩ := shown
  obtain ⟨jump, thisCoro, same⟩ := turns.returns empty.symm
  have stopped : next.engine.running = none := by
    rw [Engine.running, jump]
    exact thisCoro.trans main
  refine ⟨stopped, fun c coro found => ?_⟩
  rw [same] at found
  cases state : coro.state with
  | suspended => exact Or.inl rfl
  | finished => exact Or.inr rfl
  | running =>
      -- a coroutine that is RUNNING would be queued or have control
      have look := Engine.look_state found
      rw [state] at look
      rcases valid.runs c _ look with scheduled | current
      · rw [Engine.schedule_left, ended, ← empty] at scheduled
        cases scheduled
      · rw [main] at current
        cases current

theorem rounds_fair :
    (∀ acts front queue round rest,
      init.trace acts = front ++ .turn queue :: (round ++ rest) → (∀ queue, .turn queue ∉ round) →
        queue.Nodup ∧ controls round <+: queue ∧
          ∀ queue' rest', rest = .turn queue' :: rest' →
            controls round = queue ∧ queues round = queue') ∧
      ∀ acts s act next, Run.exec step init acts = some s → s.event act = some (.turn []) →
        s.step act = some next → next.engine.running = none ∧ ∀ c coro,
          next.engine.coros c = some coro → coro.state = .suspended ∨ coro.state = .finished := by
  constructor
  · intro acts front queue round rest split inside
    have fair : FairFrom [] [] [] (init.trace acts) :=
      trace_fair (s := init) Engine.create_valid Engine.create_turn acts []
    rw [split] at fair
    obtain ⟨distinct, began⟩ := fair.turned
    have ran := began.round inside
    refine ⟨distinct, ran.within, ?_⟩
    rintro queue' rest' rfl
    exact ⟨ran.1, ran.2.1⟩
  · intro acts s act next run seen taken
    exact returns_idle (engine_of_run run).1 seen taken

def spawnInRound : List Act := [.new, .new, .run, .resume, .yield, .resume, .new, .suspend, .resume]

theorem rounds_fair_spawn :
    controls [.control 0, .queued 0, .control 1, .queued 2] = [0, 1] ∧
      queues [.control 0, .queued 0, .control 1, .queued 2] = [0, 2] :=
  (rounds_fair.1 spawnInRound [.queued 0, .queued 1] [0, 1]
    [.control 0, .queued 0, .control 1, .queued 2] [.turn [0, 2]] (by decide) (by simp)).2.2
    [0, 2] [] rfl

end Session

end SystemProg.Coroutine
