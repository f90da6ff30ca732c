import Mathlib.Data.List.Basic

set_option autoImplicit false

-- The last element takes the place of the one that is removed, so nothing between them moves.

namespace SystemProg

variable {A : Type} {l : List A} {i j : Nat} {x back : A}

theorem swapRemove_getElem? :
    (l.set i back).dropLast[j]? = some x ↔
      j + 1 < l.length ∧ if j = i then x = back else l[j]? = some x := by
  rw [List.getElem?_dropLast, List.length_set, List.getElem?_set]
  by_cases short : j + 1 < l.length
  · rw [if_pos (by omega)]
    by_cases same : j = i
    · subst same
      have inside : j < l.length := by omega
      simp [short, inside, eq_comm]
    · simp [short, same, Ne.symm same]
  · rw [if_neg (by omega)]
    simp [short]

theorem swapRemove_mem (last : l.getLast? = some back) (here : l[i]? = some x)
    (once : ∀ j, l[j]? = some x → j = i) (y : A) :
    y ∈ (l.set i back).dropLast ↔ y ∈ l ∧ y ≠ x := by
  have inside : i < l.length := (List.getElem?_eq_some_iff.mp here).1
  have end_ : l[l.length - 1]? = some back := by rw [← last, List.getLast?_eq_getElem?]
  rw [List.mem_iff_getElem?]
  constructor
  · rintro ⟨j, at_j⟩
    obtain ⟨short, found⟩ := swapRemove_getElem?.mp at_j
    split at found
    · next same =>
        rw [found]
        refine ⟨List.mem_of_getElem? end_, ?_⟩
        rintro rfl
        have := once _ end_
        omega
    · next other =>
        refine ⟨List.mem_of_getElem? found, ?_⟩
        rintro rfl
        exact other (once j found)
  · rintro ⟨mem, other⟩
    obtain ⟨j, at_j⟩ := List.mem_iff_getElem?.mp mem
    have within : j < l.length := (List.getElem?_eq_some_iff.mp at_j).1
    have apart : j ≠ i := by
      rintro rfl
      exact other (Option.some_inj.mp (at_j.symm.trans here))
    by_cases short : j + 1 < l.length
    · exact ⟨j, swapRemove_getElem?.mpr ⟨short, by rw [if_neg apart, at_j]⟩⟩
    · obtain rfl : j = l.length - 1 := by omega
      have moved : y = back := Option.some_inj.mp (at_j.symm.trans end_)
      exact ⟨i, swapRemove_getElem?.mpr ⟨by omega, by rw [if_pos rfl, moved]⟩⟩

end SystemProg
