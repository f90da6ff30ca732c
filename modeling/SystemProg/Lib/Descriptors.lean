import Mathlib.Logic.Function.Basic
import Mathlib.Tactic.Common

set_option autoImplicit false

-- A table gives each open descriptor its file; only finitely many descriptors are open. A new
-- descriptor is the lowest closed one.

namespace SystemProg

structure Table (A : Type) where
  file : Nat → Option A
  limit : Nat
  closed : ∀ fd, limit ≤ fd → file fd = none

namespace Table

variable {A B : Type}

def lowestFree (t : Table A) : Nat :=
  ((List.range t.limit).find? fun fd => (t.file fd).isNone).getD t.limit

def put (t : Table A) (fd : Nat) (content : Option A) : Table A where
  file := Function.update t.file fd content
  limit := max t.limit (fd + 1)
  closed := fun other beyond => by
    rw [Function.update_of_ne (by omega)]
    exact t.closed other (by omega)

def install (t : Table A) (a : A) : Nat × Table A := (t.lowestFree, t.put t.lowestFree (some a))

def close (t : Table A) (fd : Nat) : Table A := t.put fd none

def closeAll (t : Table A) (fds : List Nat) : Table A := fds.foldl close t

def dup2 (t : Table A) (old new : Nat) : Option (Table A) :=
  (t.file old).map fun a => t.put new (some a)

def map (f : A → B) (t : Table A) : Table B where
  file := fun fd => (t.file fd).map f
  limit := t.limit
  closed := fun fd beyond => by rw [t.closed fd beyond, Option.map_none]

theorem put_file (t : Table A) (fd : Nat) (content : Option A) (other : Nat) :
    (t.put fd content).file other = if other = fd then content else t.file other :=
  Function.update_apply _ _ _ _

theorem lowestFree_closed (t : Table A) : t.file t.lowestFree = none := by
  unfold lowestFree
  cases found : (List.range t.limit).find? fun fd => (t.file fd).isNone with
  | none => exact t.closed _ (Nat.le_refl _)
  | some fd => simpa using List.find?_some found

theorem lowestFree_ne (t : Table A) {fd : Nat} (opened : (t.file fd).isSome) : fd ≠ t.lowestFree := by
  rintro rfl
  rw [t.lowestFree_closed] at opened
  cases opened

theorem closeAll_file (t : Table A) (fds : List Nat) (fd : Nat) :
    (t.closeAll fds).file fd = if fd ∈ fds then none else t.file fd := by
  induction fds generalizing t with
  | nil => simp [closeAll]
  | cons first rest ih =>
      rw [closeAll, List.foldl_cons, ← closeAll, ih, close, put_file]
      by_cases here : fd = first
      · simp [here]
      · simp [here]

theorem dup2_of_open {t : Table A} {old : Nat} {a : A} (opened : t.file old = some a) (new : Nat) :
    t.dup2 old new = some (t.put new (some a)) := by
  rw [dup2, opened, Option.map_some]

theorem install_moved (t : Table A) (a : A) {new : Nat} (opened : (t.file new).isSome) (fd : Nat) :
    (((t.install a).2.put new (some a)).close t.lowestFree).file fd =
      (t.put new (some a)).file fd := by
  have apart := t.lowestFree_ne opened
  simp only [install, close, put_file]
  by_cases first : fd = t.lowestFree
  · rw [if_pos first, if_neg (by omega), first, t.lowestFree_closed]
  · rw [if_neg first, if_neg first]

end Table

end SystemProg
