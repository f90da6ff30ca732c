import Mathlib.Logic.Function.Basic
import Mathlib.Data.List.Basic

set_option autoImplicit false

-- The kernel reports a descriptor to an epoll instance with EPOLLET once when it gets ready, or
-- when it is added and is ready already. The report says in which directions it is ready at that
-- moment.

namespace SystemProg

-- EPOLLIN, EPOLLOUT, and EPOLLERR or EPOLLHUP, which an epoll instance reports unasked.
inductive Direction where
  | read
  | write
  | error
deriving DecidableEq

abbrev Mask := Direction → Bool

def Mask.any (mask : Mask) : Bool := mask .read || mask .write || mask .error

theorem Mask.any_of {mask : Mask} {d : Direction} (set : mask d = true) : mask.any = true := by
  cases d <;> simp [Mask.any, set]

-- The descriptors `F`, and what `T` an epoll instance is to give back for those it watches.
structure Epoll (F T : Type) where
  level : F → Mask
  watched : F → Option T
  pending : F → Bool

namespace Epoll

variable {F T : Type} [DecidableEq F]

def empty : Epoll F T :=
  { level := fun _ _ => false
    watched := fun _ => none
    pending := fun _ => false }

def raise (e : Epoll F T) (f : F) (d : Direction) : Epoll F T :=
  { e with
    level := Function.update e.level f (Function.update (e.level f) d true)
    pending := Function.update e.pending f (e.pending f || (e.watched f).isSome) }

def lower (e : Epoll F T) (f : F) (d : Direction) : Epoll F T :=
  { e with level := Function.update e.level f (Function.update (e.level f) d false) }

def close (e : Epoll F T) (f : F) : Epoll F T :=
  { e with level := Function.update e.level f fun _ => false }

def add (e : Epoll F T) (f : F) (data : T) : Option (Epoll F T) :=
  if (e.watched f).isSome then none
  else some { e with
    watched := Function.update e.watched f (some data)
    pending := Function.update e.pending f (e.level f).any }

def del (e : Epoll F T) (f : F) : Option (Epoll F T) :=
  if (e.watched f).isNone then none
  else some { e with
    watched := Function.update e.watched f none
    pending := Function.update e.pending f false }

def Reports (e : Epoll F T) (f : F) : Prop :=
  (e.watched f).isSome ∧ e.pending f = true ∧ (e.level f).any = true

instance (e : Epoll F T) (f : F) : Decidable (e.Reports f) :=
  inferInstanceAs (Decidable (_ ∧ _ ∧ _))

def event (e : Epoll F T) (f : F) : Option (T × Mask) := (e.watched f).map (·, e.level f)

-- `epoll_wait`, with the descriptors of which it gives the events.
def collect (e : Epoll F T) (fs : List F) : Option (List (T × Mask) × Epoll F T) :=
  if fs = [] ∨ ¬fs.Nodup ∨ ¬∀ f ∈ fs, e.Reports f then none
  else some (fs.filterMap e.event, { e with pending := fun f => e.pending f && f ∉ fs })

section Rules

variable {e next : Epoll F T} {f g : F} {d d' : Direction} {data : T}

theorem raise_level (e : Epoll F T) (f g : F) (d d' : Direction) :
    (e.raise f d).level g d' = if g = f ∧ d' = d then true else e.level g d' := by
  by_cases same : g = f
  · subst same
    by_cases here : d' = d <;> simp [raise, here]
  · simp [raise, same]

theorem lower_level (e : Epoll F T) (f g : F) (d d' : Direction) :
    (e.lower f d).level g d' = if g = f ∧ d' = d then false else e.level g d' := by
  by_cases same : g = f
  · subst same
    by_cases here : d' = d <;> simp [lower, here]
  · simp [lower, same]

theorem close_level (e : Epoll F T) (f g : F) (d : Direction) :
    (e.close f).level g d = if g = f then false else e.level g d := by
  by_cases same : g = f <;> simp [close, same]

theorem add_eq (added : e.add f data = some next) :
    e.watched f = none ∧ next.level = e.level ∧
      next.watched = Function.update e.watched f (some data) ∧
      next.pending = Function.update e.pending f (e.level f).any := by
  unfold add at added
  split at added
  · cases added
  · next free =>
      cases added
      exact ⟨by simpa using free, rfl, rfl, rfl⟩

theorem del_eq (deleted : e.del f = some next) :
    next.level = e.level ∧ next.watched = Function.update e.watched f none ∧
      next.pending = Function.update e.pending f false := by
  unfold del at deleted
  split at deleted
  · cases deleted
  · cases deleted
    exact ⟨rfl, rfl, rfl⟩

theorem collect_eq {fs : List F} {events : List (T × Mask)}
    (collected : e.collect fs = some (events, next)) :
    (∀ f ∈ fs, e.Reports f) ∧ events = fs.filterMap e.event ∧ next.level = e.level ∧
      next.watched = e.watched ∧ ∀ f, next.pending f = (e.pending f && f ∉ fs) := by
  unfold collect at collected
  split at collected
  · cases collected
  · next valid =>
      cases collected
      simp only [not_or, not_not] at valid
      exact ⟨valid.2.2, rfl, rfl, rfl, fun _ => rfl⟩

structure Same (e next : Epoll F T) (f : F) : Prop where
  level : next.level f = e.level f
  watched : next.watched f = e.watched f
  pending : next.pending f = e.pending f

omit [DecidableEq F] in
theorem Same.refl (e : Epoll F T) (f : F) : e.Same e f := ⟨rfl, rfl, rfl⟩

omit [DecidableEq F] in
theorem Same.trans {middle : Epoll F T} (first : e.Same middle f) (second : middle.Same next f) :
    e.Same next f :=
  ⟨second.level.trans first.level, second.watched.trans first.watched,
    second.pending.trans first.pending⟩

theorem raise_same (e : Epoll F T) (d : Direction) (other : f ≠ g) : e.Same (e.raise g d) f :=
  ⟨Function.update_of_ne other _ _, rfl, Function.update_of_ne other _ _⟩

theorem lower_same (e : Epoll F T) (d : Direction) (other : f ≠ g) : e.Same (e.lower g d) f :=
  ⟨Function.update_of_ne other _ _, rfl, rfl⟩

theorem close_same (e : Epoll F T) (other : f ≠ g) : e.Same (e.close g) f :=
  ⟨Function.update_of_ne other _ _, rfl, rfl⟩

theorem add_same (added : e.add g data = some next) (other : f ≠ g) : e.Same next f := by
  obtain ⟨-, levels, watches, pends⟩ := add_eq added
  refine ⟨by rw [levels], ?_, ?_⟩
  · rw [watches, Function.update_of_ne other]
  · rw [pends, Function.update_of_ne other]

theorem del_same (deleted : e.del g = some next) (other : f ≠ g) : e.Same next f := by
  obtain ⟨levels, watches, pends⟩ := del_eq deleted
  refine ⟨by rw [levels], ?_, ?_⟩
  · rw [watches, Function.update_of_ne other]
  · rw [pends, Function.update_of_ne other]

-- No edge is lost between the two states but those that have been `told`: a watched descriptor that
-- is ready is pending, or it was watched, ready and not pending before.
def Keeps (e next : Epoll F T) (told : F → Prop) : Prop :=
  ∀ f d, (next.watched f).isSome → next.level f d = true → next.pending f = true ∨ told f ∨
    next.watched f = e.watched f ∧ e.level f d = true ∧ e.pending f = false

omit [DecidableEq F] in
theorem Keeps.refl (e : Epoll F T) : e.Keeps e fun _ => False := by
  intro f d watched level
  cases now : e.pending f
  · exact Or.inr (Or.inr ⟨rfl, level, rfl⟩)
  · exact Or.inl rfl

omit [DecidableEq F] in
theorem Keeps.trans {middle : Epoll F T} {told : F → Prop}
    (first : e.Keeps middle fun _ => False) (second : middle.Keeps next told) :
    e.Keeps next told := by
  intro f d watched level
  rcases second f d watched level with pending | told | ⟨same, level', quiet⟩
  · exact Or.inl pending
  · exact Or.inr (Or.inl told)
  · rcases first f d (same ▸ watched) level' with pending | told | ⟨same', level'', quiet'⟩
    · cases pending.symm.trans quiet
    · exact absurd told id
    · exact Or.inr (Or.inr ⟨same.trans same', level'', quiet'⟩)

theorem raise_keeps (e : Epoll F T) (f : F) (d : Direction) :
    e.Keeps (e.raise f d) fun _ => False := by
  intro g d' watched level
  rw [raise_level] at level
  by_cases same : g = f
  · subst same
    refine Or.inl ?_
    rw [show (e.raise g d).pending g = _ from Function.update_self _ _ _]
    simp [show (e.watched g).isSome from watched]
  · rw [if_neg (by simp [same])] at level
    have pending : (e.raise f d).pending g = e.pending g := Function.update_of_ne same _ _
    rw [pending]
    cases now : e.pending g
    · exact Or.inr (Or.inr ⟨rfl, level, rfl⟩)
    · exact Or.inl rfl

theorem lower_keeps (e : Epoll F T) (f : F) (d : Direction) :
    e.Keeps (e.lower f d) fun _ => False := by
  intro g d' watched level
  rw [lower_level] at level
  split at level
  · cases level
  · rw [show (e.lower f d).pending g = e.pending g from rfl]
    cases now : e.pending g
    · exact Or.inr (Or.inr ⟨rfl, level, rfl⟩)
    · exact Or.inl rfl

theorem close_keeps (e : Epoll F T) (f : F) : e.Keeps (e.close f) fun _ => False := by
  intro g d' watched level
  rw [close_level] at level
  split at level
  · cases level
  · rw [show (e.close f).pending g = e.pending g from rfl]
    cases now : e.pending g
    · exact Or.inr (Or.inr ⟨rfl, level, rfl⟩)
    · exact Or.inl rfl

theorem add_keeps (added : e.add f data = some next) : e.Keeps next fun _ => False := by
  obtain ⟨free, levels, watches, pends⟩ := add_eq added
  intro g d watched level
  rw [levels] at level
  rw [pends]
  by_cases same : g = f
  · subst same
    rw [Function.update_self]
    exact Or.inl (Mask.any_of level)
  · rw [Function.update_of_ne same, watches, Function.update_of_ne same]
    cases now : e.pending g
    · exact Or.inr (Or.inr ⟨rfl, level, rfl⟩)
    · exact Or.inl rfl

theorem del_keeps (deleted : e.del f = some next) : e.Keeps next fun _ => False := by
  obtain ⟨levels, watches, pends⟩ := del_eq deleted
  intro g d watched level
  rw [watches] at watched
  rw [levels] at level
  by_cases same : g = f
  · subst same
    simp at watched
  · rw [pends, watches, Function.update_of_ne same, Function.update_of_ne same]
    cases now : e.pending g
    · exact Or.inr (Or.inr ⟨rfl, level, rfl⟩)
    · exact Or.inl rfl

theorem collect_keeps {fs : List F} {events : List (T × Mask)}
    (collected : e.collect fs = some (events, next)) : e.Keeps next (· ∈ fs) := by
  obtain ⟨-, -, levels, watches, pends⟩ := collect_eq collected
  intro g d watched level
  rw [levels] at level
  rw [pends, watches]
  by_cases told : g ∈ fs
  · exact Or.inr (Or.inl told)
  · cases now : e.pending g
    · exact Or.inr (Or.inr ⟨rfl, level, rfl⟩)
    · exact Or.inl (by simp [told])

theorem collect_tells {fs : List F} {events : List (T × Mask)}
    (collected : e.collect fs = some (events, next)) (told : f ∈ fs)
    (watched : e.watched f = some data) : (data, e.level f) ∈ events := by
  obtain ⟨-, rfl, -⟩ := collect_eq collected
  exact List.mem_filterMap.mpr ⟨f, told, by simp [event, watched]⟩

end Rules

end Epoll

end SystemProg
