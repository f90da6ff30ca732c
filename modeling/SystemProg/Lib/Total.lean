import Mathlib.Algebra.Ring.Nat
import Mathlib.Tactic.Common

set_option autoImplicit false

-- Processes that come and go are kept in a list, and what they hold together is the sum of their
-- weights. A process that takes a step is replaced in its place.

namespace SystemProg

variable {A : Type}

def total (weight : A → Nat) (list : List A) : Nat := (list.map weight).sum

@[simp] theorem total_nil (weight : A → Nat) : total weight [] = 0 := rfl

@[simp] theorem total_cons (weight : A → Nat) (head : A) (rest : List A) :
    total weight (head :: rest) = weight head + total weight rest := by
  simp [total]

@[simp] theorem total_append (weight : A → Nat) (front rest : List A) :
    total weight (front ++ rest) = total weight front + total weight rest := by
  simp [total]

theorem le_total (weight : A → Nat) {list : List A} {entry : A} (mem : entry ∈ list) :
    weight entry ≤ total weight list := by
  induction list with
  | nil => cases mem
  | cons head rest ih =>
      rw [total_cons]
      rcases List.mem_cons.mp mem with rfl | mem
      · exact Nat.le_add_right _ _
      · exact Nat.le_trans (ih mem) (Nat.le_add_left _ _)

structure Shifts (own own' all all' : Nat) : Prop where
  moved : all' + own = all + own'
  part : own ≤ all

theorem total_set (weight : A → Nat) {list : List A} {i : Nat} {before : A}
    (there : list[i]? = some before) (after : A) :
    Shifts (weight before) (weight after) (total weight list)
      (total weight (list.set i after)) := by
  refine ⟨?_, le_total weight (List.mem_of_getElem? there)⟩
  induction list generalizing i with
  | nil => simp at there
  | cons head rest ih =>
      cases i with
      | zero =>
          rw [List.getElem?_cons_zero, Option.some_inj] at there
          simp only [List.set_cons_zero, total_cons, there]
          omega
      | succ i =>
          rw [List.getElem?_cons_succ] at there
          have later := ih there
          simp only [List.set_cons_succ, total_cons]
          omega

theorem total_snoc (weight : A → Nat) (list : List A) (added : A) :
    Shifts 0 (weight added) (total weight list) (total weight (list ++ [added])) := by
  constructor <;> simp

theorem total_mono {weight weight' : A → Nat} (less : ∀ entry, weight entry ≤ weight' entry)
    (list : List A) : total weight list ≤ total weight' list := by
  induction list with
  | nil => exact Nat.le_refl _
  | cons head rest ih =>
      rw [total_cons, total_cons]
      exact Nat.add_le_add (less head) ih

theorem total_lt {weight weight' : A → Nat} (less : ∀ entry, weight entry ≤ weight' entry)
    {list : List A} {entry : A} (mem : entry ∈ list) (strict : weight entry < weight' entry) :
    total weight list < total weight' list := by
  obtain ⟨front, rest, rfl⟩ := List.append_of_mem mem
  have before := total_mono less front
  have after := total_mono less rest
  simp only [total_append, total_cons]
  omega

theorem total_eq_zero {weight : A → Nat} {list : List A} :
    total weight list = 0 ↔ ∀ entry ∈ list, weight entry = 0 := by
  induction list with
  | nil => simp
  | cons head rest ih => simp [ih]

end SystemProg
