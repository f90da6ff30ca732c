import Mathlib.Data.List.Nodup

set_option autoImplicit false

-- A ring is the list of its items in the order the `next` links reach them from the head. An item
-- that is in no ring is self-linked; reading the links of an object that has been released has no
-- defined outcome, which is the outer `none` of `rlistNext`.

namespace SystemProg.Rlist

variable {Item : Type} [DecidableEq Item]

def rlistAddTail (ring : List Item) (item : Item) : List Item := ring ++ [item]

def rlistDel (ring : List Item) (item : Item) : List Item := ring.erase item

def rlistNext : List Item → Item → Option (Option Item)
  | [], _ => none
  | first :: rest, item => if first = item then some rest.head? else rlistNext rest item

def rlistPrev (ring : List Item) (item : Item) : Option (Option Item) :=
  rlistNext ring.reverse item

theorem rlistNext_getElem {ring : List Item} (distinct : ring.Nodup) {index : Nat} {item : Item}
    (atIndex : ring[index]? = some item) : rlistNext ring item = some ring[index + 1]? := by
  induction ring generalizing index with
  | nil => simp at atIndex
  | cons first rest ih =>
      rw [List.nodup_cons] at distinct
      cases index with
      | zero =>
          have same : first = item := by simpa using atIndex
          simp [rlistNext, same, List.head?_eq_getElem?]
      | succ index =>
          have later : rest[index]? = some item := by simpa using atIndex
          have other : first ≠ item := by
            rintro rfl
            exact distinct.1 (List.mem_of_getElem? later)
          simp [rlistNext, other, ih distinct.2 later]

theorem rlistPrev_getElem {ring : List Item} (distinct : ring.Nodup) {index : Nat} {item : Item}
    (atIndex : ring[index]? = some item) :
    rlistPrev ring item = some (if index = 0 then none else ring[index - 1]?) := by
  have bound : index < ring.length := (List.getElem?_eq_some_iff.mp atIndex).1
  have mirrored : ring.reverse[ring.length - 1 - index]? = some item := by
    rw [List.getElem?_reverse (by omega), ← atIndex]
    congr 1
    omega
  rw [rlistPrev, rlistNext_getElem (List.nodup_reverse.mpr distinct) mirrored]
  by_cases zero : index = 0
  · have past : ring.length - 1 - index + 1 = ring.length := by omega
    simp [zero, show ring.length - 1 + 1 = ring.length by omega]
  · rw [if_neg zero, List.getElem?_reverse (by omega)]
    congr 2
    omega

end SystemProg.Rlist
