import SystemProg.Coroutine.Objects

set_option autoImplicit false

-- A coroutine that has been claimed points to the one that waits for it, and that one is awake once
-- there is a result. An object is in the pool from its join until it is used again.

namespace SystemProg.Coroutine

namespace Session

structure Custody (s : Session) : Prop where
  there : ∀ c, c < s.engine.spawned → s.engine.coros c ≠ none
  works : ∀ c coro, s.engine.coros c = some coro → coro.state ≠ .finished → coro.func = true
  spare : ∀ c coro, s.engine.coros c = some coro → (s.lives c).phase ≠ .claimed →
    coro.joiner = none
  claimed : ∀ c coro, s.engine.coros c = some coro → (s.lives c).phase = .claimed →
    ∃ a other, coro.joiner = some (.coro a) ∧ s.engine.coros a = some other ∧
      other.ctx = .joining c ∧ (coro.state = .finished → other.state = .running)
  joining : ∀ a other c, s.engine.coros a = some other → other.ctx = .joining c →
    (s.lives c).phase = .claimed ∧ s.ticket a = s.handle c ∧
      ∃ coro, s.engine.coros c = some coro ∧ coro.joiner = some (.coro a)
  pool : ∀ c, c ∈ s.engine.pool ↔ (s.lives c).phase = .joined
  counted : s.engine.coroCount = s.engine.spawned

theorem init_custody : init.Custody where
  there := nofun
  works := nofun
  spare := nofun
  claimed := nofun
  joining := nofun
  pool := by simp [init, Engine.create]
  counted := rfl

variable {s : Session} {e : Engine Empty} {c : CoroId} {coro coro' : Coro Empty}

theorem Custody.same (custody : s.Custody) (same : s.engine.Same e) :
    Custody { s with engine := e } := by
  obtain ⟨coros, pool, spawned, coroCount⟩ := same
  constructor <;> simp only [coros, pool, spawned, coroCount]
  · exact custody.there
  · exact custody.works
  · exact custody.spare
  · exact custody.claimed
  · exact custody.joining
  · exact custody.pool
  · exact custody.counted

theorem Custody.relabel (custody : s.Custody) (ticket : CoroId → Handle) (log : List Record)
    (kept : ∀ a other t, s.engine.coros a = some other → other.ctx = .joining t →
      ticket a = s.ticket a) : Custody { s with ticket := ticket, log := log } where
  there := custody.there
  works := custody.works
  spare := custody.spare
  claimed := custody.claimed
  joining := by
    intro a other t found place
    obtain ⟨claimed, same, joiner⟩ := custody.joining a other t found place
    exact ⟨claimed, (kept a other t found place).trans same, joiner⟩
  pool := custody.pool
  counted := custody.counted

theorem Custody.sets (custody : s.Custody) (sets : s.engine.Sets e c coro coro')
    (joiner : coro'.joiner = coro.joiner) (func : coro'.state ≠ .finished → coro'.func = true)
    (place : ∀ t, coro'.ctx = .joining t ↔ coro.ctx = .joining t)
    (runs : ∀ t target, coro.ctx = .joining t → s.engine.coros t = some target →
      coro.state = .running →
        coro'.state = .running ∨ coro'.state = .suspended ∧ target.state ≠ .finished)
    (ends : coro'.state = .finished → ∀ a other, coro.joiner = some (.coro a) →
      s.engine.coros a = some other → other.state = .running) :
    Custody { s with engine := e } := by
  have lookup : ∀ d, e.coros d = if d = c then some coro' else s.engine.coros d := fun d => by
    rw [sets.coros, Function.update_apply]
  obtain ⟨found, -, pool, spawned, coroCount⟩ := sets
  obtain ⟨there, works, spare, claimed, joining, pooled, counted⟩ := custody
  constructor <;> dsimp only [handle]
  · grind
  · grind
  · grind
  · grind
  · grind [handle]
  · grind
  · grind

theorem Custody.claims (custody : s.Custody) {a : CoroId} {other : Coro Empty}
    (found : s.engine.coros c = some coro) (current : s.engine.coros a = some other)
    (apart : a ≠ c) (working : coro.state ≠ .finished) (free : (s.lives c).phase = .unclaimed)
    (awake : other.state = .running) (active : other.ctx = .active)
    (lookup : ∀ d, e.coros d =
      if d = a then some { other with state := .suspended, ctx := .joining c }
      else if d = c then some { coro with joiner := some (.coro a) } else s.engine.coros d)
    (pool : e.pool = s.engine.pool) (spawned : e.spawned = s.engine.spawned)
    (coroCount : e.coroCount = s.engine.coroCount) :
    Custody { s with
      engine := e
      lives := Function.update s.lives c { s.lives c with phase := .claimed }
      ticket := Function.update s.ticket a (s.handle c) } := by
  obtain ⟨there, works, spare, claimed, joining, pooled, counted⟩ := custody
  constructor <;> dsimp only [handle]
  · grind [Function.update_apply]
  · grind [Function.update_apply]
  · grind [Function.update_apply]
  · grind [Function.update_apply]
  · grind [handle, Function.update_apply]
  · grind [Function.update_apply]
  · grind [Function.update_apply]

theorem Custody.returns (custody : s.Custody) (found : s.engine.coros c = some coro)
    (returns : coro.state = .finished)
    (here : e.coros c = some { coro with joiner := none, ret := 0 })
    (others : ∀ d, d ≠ c → e.coros d = s.engine.coros d ∨ ∃ other, s.engine.coros d = some other ∧
      other.ctx = .joining c ∧ e.coros d = some { other with ctx := .active })
    (last : ∀ d other, e.coros d = some other → other.ctx ≠ .joining c)
    (pool : e.pool = c :: s.engine.pool) (spawned : e.spawned = s.engine.spawned)
    (coroCount : e.coroCount = s.engine.coroCount) :
    Custody { s with
      engine := e
      lives := Function.update s.lives c { s.lives c with phase := .joined } } := by
  obtain ⟨there, works, spare, claimed, joining, pooled, counted⟩ := custody
  constructor <;> dsimp only [handle]
  · grind [Function.update_apply]
  · grind [Function.update_apply]
  · grind [Function.update_apply]
  · grind [Function.update_apply]
  · grind [handle, Function.update_apply]
  · grind [Function.update_apply]
  · grind [Function.update_apply]

theorem Custody.spawnNew (custody : s.Custody) (fresh : s.engine.coros c = none)
    (coro : Coro Empty) (works : coro.func = true) (spare : coro.joiner = none)
    (place : coro.ctx = .start) (coros : e.coros = Function.update s.engine.coros c (some coro))
    (empty : s.engine.pool = []) (pool : e.pool = []) (here : c = s.engine.spawned)
    (spawned : e.spawned = s.engine.spawned + 1)
    (coroCount : e.coroCount = s.engine.coroCount + 1) (incarnation : Nat) :
    Custody { s with
      engine := e
      lives := Function.update s.lives c { phase := .unclaimed, incarnation := incarnation } } := by
  have lookup : ∀ d, e.coros d = if d = c then some coro else s.engine.coros d := fun d => by
    rw [coros, Function.update_apply]
  obtain ⟨there, works, spare, claimed, joining, pooled, counted⟩ := custody
  constructor <;> dsimp only [handle]
  · grind [Function.update_apply]
  · grind [Function.update_apply]
  · grind [Function.update_apply]
  · grind [Function.update_apply]
  · grind [handle, Function.update_apply]
  · grind [Function.update_apply]
  · grind [Function.update_apply]

theorem Custody.reuse (custody : s.Custody) {rest : List CoroId}
    (pool : s.engine.pool = c :: rest) (distinct : s.engine.pool.Nodup)
    (found : s.engine.coros c = some coro) (place : coro.ctx = .restart)
    (coros : e.coros =
      Function.update s.engine.coros c (some { coro with func := true, state := .running }))
    (pool' : e.pool = rest) (spawned : e.spawned = s.engine.spawned)
    (coroCount : e.coroCount = s.engine.coroCount) (incarnation : Nat) :
    Custody { s with
      engine := e
      lives := Function.update s.lives c { phase := .unclaimed, incarnation := incarnation } } := by
  have lookup : ∀ d, e.coros d =
      if d = c then some { coro with func := true, state := .running }
      else s.engine.coros d := fun d => by
    rw [coros, Function.update_apply]
  obtain ⟨there, works, spare, claimed, joining, pooled, counted⟩ := custody
  constructor <;> dsimp only [handle]
  · grind [Function.update_apply]
  · grind [Function.update_apply]
  · grind [Function.update_apply]
  · grind [Function.update_apply]
  · grind [handle, Function.update_apply]
  · grind [Function.update_apply]
  · grind [Function.update_apply]

end Session

end SystemProg.Coroutine
