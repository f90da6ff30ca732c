import SystemProg.ThreadPool.Counts

set_option autoImplicit false

-- A call on a task that is not disturbed depends on the task and on the counts of the pools, and on
-- nothing else.

namespace SystemProg.ThreadPool

def Call.concerns (t : TaskId) : Call → Prop
  | .pushLoad _ t' | .pushTry _ t' _ | .pushCheck _ t' | .pushRollback _ t' | .pushEnqueue _ t'
  | .join t' | .joinWait t' | .joinRelease t' _ | .timedJoin t' | .timedWait t' | .detach t'
  | .detachRelease t' | .delete t' | .deleteFree t' | .isFinished t' | .isRunning t' => t' = t
  | .poolDelete _ | .poolStop _ | .poolJoin _ => False
  | .returned _ _ => True

namespace World

structure Same (t : TaskId) (s s' : World) : Prop where
  task : s.tasks t = s'.tasks t
  count : ∀ p, s.count p = s'.count p

def runCall (i : Nat) : Nat → World → Option Result
  | 0, _ => none
  | fuel + 1, s =>
      match s.calls[i]? with
      | some (.returned _ result) => some result
      | _ => (s.step (.call i ⟨false, false, 0⟩)).bind (runCall i fuel)

-- What a call answers that is made now and not disturbed; six steps are enough for any call.
def answer (s : World) (op : Op) : Option Result :=
  (s.step (.begin op)).bind (runCall s.calls.length 7)

variable {t : TaskId} {s s' : World}

theorem setCall_at {i : Nat} {c : Call} (there : s.calls[i]? = some c) (d : Call) :
    (s.setCall i d).calls[i]? = some d :=
  List.getElem?_set_self (List.getElem?_eq_some_iff.mp there).1

def Alike (t : TaskId) (a b : Option (World × Call)) : Prop :=
  a = none ∧ b = none ∨
    ∃ w w' c, a = some (w, c) ∧ b = some (w', c) ∧ w.Same t w' ∧ c.concerns t

theorem alike_some {w w' : World} {c : Call} (same : w.Same t w') (concerns : c.concerns t) :
    Alike t (some (w, c)) (some (w', c)) :=
  Or.inr ⟨w, w', c, rfl, rfl, same, concerns⟩

theorem alike_none : Alike t none none := Or.inl ⟨rfl, rfl⟩

theorem Same.pool (same : s.Same t s') (p : PoolId) :
    s.pools p = none ∧ s'.pools p = none ∨
      ∃ pool pool', s.pools p = some pool ∧ s'.pools p = some pool' ∧
        pool.taskCount = pool'.taskCount := by
  have counts := same.count p
  unfold World.count at counts
  cases there : s.pools p with
  | none =>
      rw [there, Option.map_none, eq_comm, Option.map_eq_none_iff] at counts
      exact Or.inl ⟨rfl, counts⟩
  | some pool =>
      rw [there, Option.map_some, eq_comm, Option.map_eq_some_iff] at counts
      obtain ⟨pool', there', count⟩ := counts
      exact Or.inr ⟨pool, pool', rfl, there', count.symm⟩

theorem Same.setTask (same : s.Same t s') (task : Option Task) :
    (s.setTask t task).Same t (s'.setTask t task) where
  task := by rw [setTask_tasks, setTask_tasks, if_pos rfl, if_pos rfl]
  count := same.count

theorem Same.emit (same : s.Same t s') (event : Event) : (s.emit event).Same t (s'.emit event) where
  task := same.task
  count := same.count

theorem Same.setPool (same : s.Same t s') (p : PoolId) {pool pool' : Pool}
    (count : pool.taskCount = pool'.taskCount) :
    (s.setPool p (some pool)).Same t (s'.setPool p (some pool')) where
  task := same.task
  count p' := by
    rw [setPool_count, setPool_count, Option.map_some, Option.map_some, count, same.count p']

theorem Same.fetchSub (same : s.Same t s') (p : PoolId) {c : Call} (concerns : c.concerns t) :
    Alike t ((s.fetchSub p).map fun w => (w, c)) ((s'.fetchSub p).map fun w => (w, c)) := by
  unfold World.fetchSub
  rcases same.pool p with ⟨none, none'⟩ | ⟨pool, pool', there, there', count⟩
  · rw [none, none']
    exact alike_none
  · rw [there, there']
    exact alike_some (same.setPool p (by rw [count])) concerns

theorem Same.joinCheck (same : s.Same t s') (task : Task) :
    Alike t (some (s.joinCheck t task)) (some (s'.joinCheck t task)) := by
  obtain ⟨pool, state, detached⟩ := task
  cases state with
  | finished =>
      cases pool with
      | none => exact alike_some ((same.setTask _).emit _) trivial
      | some p => exact alike_some ((same.setTask _).emit _) (by rfl)
  | joined => exact alike_some same trivial
  | new | queued | running => exact alike_some same (by rfl)

theorem Same.timedRelease (same : s.Same t s') (task : Task) :
    Alike t (s.timedRelease t task) (s'.timedRelease t task) := by
  unfold World.timedRelease
  cases task.pool with
  | none => exact alike_none
  | some p =>
      dsimp only
      split
      · exact ((same.setTask _).emit _).fetchSub p trivial
      · exact (same.setTask _).fetchSub p trivial

theorem Same.callStep (same : s.Same t s') (choice : Choice) {c : Call} (concerns : c.concerns t) :
    Alike t (s.callStep choice c) (s'.callStep choice c) := by
  have byTask : ∀ {f g : Task → World × Call}, (∀ task, Alike t (some (f task)) (some (g task))) →
      Alike t ((s.tasks t).map f) ((s'.tasks t).map g) := by
    intro f g alike
    rw [← same.task]
    cases s.tasks t with
    | none => exact alike_none
    | some task => exact alike task
  cases c with
  | returned op result => exact alike_none
  | poolDelete p | poolStop p | poolJoin p => cases concerns
  | pushLoad p t' =>
      cases concerns
      simp only [World.callStep]
      rcases same.pool p with ⟨none, none'⟩ | ⟨pool, pool', there, there', count⟩
      · rw [none, none']
        exact alike_none
      · rw [there, there', Option.map_some, Option.map_some, count]
        exact alike_some same (by rfl)
  | pushTry p t' expected =>
      cases concerns
      simp only [World.callStep, World.pushTry]
      split
      · exact alike_some same trivial
      · rcases same.pool p with ⟨none, none'⟩ | ⟨pool, pool', there, there', count⟩
        · rw [none, none']
          exact alike_none
        · rw [there, there', Option.map_some, Option.map_some, count]
          split
          · exact alike_some (same.setPool p (by rfl)) (by rfl)
          · exact alike_some same (by rfl)
  | pushCheck p t' =>
      cases concerns
      refine byTask fun task => ?_
      split
      · exact alike_some same (by rfl)
      · exact alike_some ((same.setTask _).emit _) (by rfl)
  | pushRollback p t' =>
      cases concerns
      exact same.fetchSub p trivial
  | joinRelease t' p =>
      cases concerns
      exact same.fetchSub p trivial
  | pushEnqueue p t' =>
      cases concerns
      simp only [World.callStep, World.pushEnqueue]
      rcases same.pool p with ⟨none, none'⟩ | ⟨pool, pool', there, there', count⟩
      · rw [none, none']
        exact alike_none
      · rw [there, there', Option.map_some, Option.map_some]
        obtain ⟨started, first⟩ := startThreads_eq p choice.creations
          { pool with queue := pool.queue ++ [t] } s.workers
        obtain ⟨started', second⟩ := startThreads_eq p choice.creations
          { pool' with queue := pool'.queue ++ [t] } s'.workers
        rw [first, second]
        have moved : (s.setPool p (some { pool with
            queue := pool.queue ++ [t]
            threads := pool.threads ++ List.range' s.workers.length started })).Same t
              (s'.setPool p (some { pool' with
                queue := pool'.queue ++ [t]
                threads := pool'.threads ++ List.range' s'.workers.length started' })) :=
          same.setPool p count
        exact alike_some ⟨moved.task, moved.count⟩ trivial
  | join t' =>
      cases concerns
      refine byTask fun task => ?_
      split
      · exact alike_some same trivial
      · exact same.joinCheck task
  | joinWait t' =>
      cases concerns
      exact byTask fun task => same.joinCheck task
  | timedJoin t' =>
      cases concerns
      simp only [World.callStep, World.timedJoin]
      rw [← same.task]
      cases s.tasks t with
      | none => exact alike_none
      | some task =>
          dsimp only
          cases task.state with
          | new => exact alike_some same trivial
          | finished | joined => exact same.timedRelease task
          | queued | running => exact alike_some same (by rfl)
  | timedWait t' =>
      cases concerns
      simp only [World.callStep, World.timedWait]
      rw [← same.task]
      cases s.tasks t with
      | none => exact alike_none
      | some task =>
          dsimp only
          split
          · exact alike_some same trivial
          · cases task.state with
            | finished => exact same.timedRelease task
            | joined => exact alike_some same trivial
            | new | queued | running => exact alike_some same (by rfl)
  | detach t' =>
      cases concerns
      refine byTask fun task => ?_
      split_ifs
      · exact alike_some same trivial
      · exact alike_some same (by rfl)
      · exact alike_some (same.setTask _) trivial
  | detachRelease t' =>
      cases concerns
      simp only [World.callStep, World.detachRelease]
      rw [← same.task]
      cases s.tasks t with
      | none => exact alike_none
      | some task =>
          dsimp only
          cases task.pool with
          | none => exact alike_none
          | some p => exact ((same.setTask _).emit _).fetchSub p trivial
  | delete t' =>
      cases concerns
      refine byTask fun task => ?_
      split
      · exact alike_some same trivial
      · exact alike_some same (by rfl)
  | deleteFree t' =>
      cases concerns
      exact byTask fun task => alike_some ((same.setTask _).emit _) trivial
  | isFinished t' | isRunning t' =>
      cases concerns
      exact byTask fun task => alike_some same trivial

theorem Same.runCall (same : s.Same t s') (fuel : Nat) {i j : Nat} {c : Call}
    (there : s.calls[i]? = some c) (there' : s'.calls[j]? = some c) (concerns : c.concerns t) :
    World.runCall i fuel s = World.runCall j fuel s' := by
  induction fuel generalizing s s' c with
  | zero => rfl
  | succ fuel ih =>
      have step_eq : ∀ (s : World) (i : Nat), s.calls[i]? = some c →
          s.step (.call i ⟨false, false, 0⟩) =
            (s.callStep ⟨false, false, 0⟩ c).map fun done => done.1.setCall i done.2 := by
        intro s i there
        rw [World.step, there, Option.bind_some]
      rw [World.runCall, World.runCall, there, there']
      split
      · rfl
      · rw [step_eq s i there, step_eq s' j there']
        rcases same.callStep ⟨false, false, 0⟩ concerns with
          ⟨none, none'⟩ | ⟨w, w', c', stepped, stepped', same', concerns'⟩
        · rw [none, none']
          rfl
        · rw [stepped, stepped']
          have calls := (callStep_stepped stepped).calls
          have calls' := (callStep_stepped stepped').calls
          exact ih ⟨same'.task, same'.count⟩ (setCall_at (calls ▸ there) c')
            (setCall_at (calls' ▸ there') c') concerns'

theorem begin_concerns {op : Op} (about : op.task = some t) :
    ∃ c, c.concerns t ∧ ∀ s : World, s.begin op = (s, c) := by
  cases op with
  | poolNew | poolDelete | taskNew => cases about
  | push pool task =>
      cases about
      cases pool with
      | none =>
          exact ⟨.returned (.push none (some t)) (.code .invalidArgument), trivial, fun s => rfl⟩
      | some p => exact ⟨.pushLoad p t, rfl, fun s => rfl⟩
  | isFinished task | isRunning task | join task | timedJoin task | taskDelete task
  | detach task =>
      cases about
      exact ⟨_, by rfl, fun s => rfl⟩

theorem Same.answer (same : s.Same t s') {op : Op} (about : op.task = some t) :
    s.answer op = s'.answer op := by
  obtain ⟨c, concerns, begun⟩ := begin_concerns about
  have at_end : ∀ s : World, (s.withCalls (s.calls ++ [c])).calls[s.calls.length]? = some c :=
    fun s => List.getElem?_concat_length
  have began : ∀ s : World, s.answer op =
      World.runCall s.calls.length 7 (s.withCalls (s.calls ++ [c])) := by
    intro s
    rw [World.answer, World.step, begun]
    rfl
  rw [began, began]
  have same' : (s.withCalls (s.calls ++ [c])).Same t (s'.withCalls (s'.calls ++ [c])) :=
    ⟨same.task, same.count⟩
  exact same'.runCall 7 (at_end s) (at_end s') concerns

end World

end SystemProg.ThreadPool
