import SystemProg.Lib.Cycles

set_option autoImplicit false

-- `utils/rlist.h`. `Links` holds the two pointers of every `struct rlist`. The writes stand in the
-- source's order. Each function comes to exchanges of what is linked behind two nodes.

namespace SystemProg.Rlist.Pointers

open Links

variable {N : Type} [DecidableEq N]

def rlistCreate (h : Links N) (list : N) : Links N :=
  let h := h.setNext list list
  h.setPrev list list

def rlistAdd (h : Links N) (head item : N) : Links N :=
  let h := h.setPrev item head
  let h := h.setNext item (h.next head)
  let h := h.setNext (h.prev item) item
  h.setPrev (h.next item) item

def rlistAddTail (h : Links N) (head item : N) : Links N :=
  let h := h.setNext item head
  let h := h.setPrev item (h.prev head)
  let h := h.setNext (h.prev item) item
  h.setPrev (h.next item) item

def rlistDel (h : Links N) (item : N) : Links N :=
  let h := h.setNext (h.prev item) (h.next item)
  let h := h.setPrev (h.next item) (h.prev item)
  rlistCreate h item

def rlistShift (h : Links N) (head : N) : N × Links N :=
  let shift := h.next head
  let h := h.setNext head (h.next shift)
  let h := h.setPrev (h.next shift) head
  let h := h.setPrev shift shift
  (shift, h.setNext shift shift)

def rlistShiftTail (h : Links N) (head : N) : N × Links N :=
  let shift := h.prev head
  (shift, rlistDel h shift)

def rlistEmpty (h : Links N) (item : N) : Bool :=
  h.next item = h.prev item ∧ h.next item = item

def rlistMove (h : Links N) (toHead item : N) : Links N :=
  let h := rlistDel h item
  rlistAdd h toHead item

def rlistMoveTail (h : Links N) (toHead item : N) : Links N :=
  let h := h.setNext (h.prev item) (h.next item)
  let h := h.setPrev (h.next item) (h.prev item)
  let h := h.setNext item toHead
  let h := h.setPrev item (h.prev toHead)
  let h := h.setNext (h.prev item) item
  h.setPrev (h.next item) item

def rlistSwap (h : Links N) (rhs lhs : N) : Links N :=
  let tmpPrev := h.prev rhs
  let tmpNext := h.next rhs
  let h := (h.setPrev rhs (h.prev lhs)).setNext rhs (h.next lhs)
  let h := (h.setPrev lhs tmpPrev).setNext lhs tmpNext
  let h := if h.next lhs = rhs then h.setNext lhs lhs else h
  let h := h.setPrev (h.next lhs) lhs
  let h := h.setNext (h.prev lhs) lhs
  let h := if h.next rhs = lhs then h.setNext rhs rhs else h
  let h := h.setPrev (h.next rhs) rhs
  h.setNext (h.prev rhs) rhs

def rlistSplice (h : Links N) (head1 head2 : N) : Links N :=
  if rlistEmpty h head2 then h
  else
    let h := h.setPrev (h.next head1) (h.prev head2)
    let h := h.setNext (h.prev head2) (h.next head1)
    let h := h.setNext head1 (h.next head2)
    let h := h.setPrev (h.next head2) head1
    rlistCreate h head2

def rlistSpliceTail (h : Links N) (head1 head2 : N) : Links N :=
  if rlistEmpty h head2 then h
  else
    let h := h.setNext (h.prev head1) (h.next head2)
    let h := h.setPrev (h.next head2) (h.prev head1)
    let h := h.setPrev head1 (h.prev head2)
    let h := h.setNext (h.prev head2) head1
    rlistCreate h head2

def rlistCutBefore (h : Links N) (head1 head2 item : N) : Links N :=
  if h.next head1 = item then rlistCreate h head1
  else
    let h := h.setNext head1 (h.next head2)
    let h := h.setPrev (h.next head1) head1
    let h := h.setPrev head1 (h.prev item)
    let h := h.setNext (h.prev head1) head1
    let h := h.setNext head2 item
    h.setPrev item head2

section Exchanges

variable (h : Links N) {head item toHead head1 head2 rhs lhs : N}

theorem rlistAdd_eq (other : head ≠ item) :
    rlistAdd h head item = h.exchange head item item (h.next head) := by
  apply Links.ext <;> funext z <;>
    simp only [rlistAdd, exchange, setNext_next, setPrev_prev, setNext_prev, setPrev_next,
      link_next, link_prev]
  · grind
  · grind

theorem rlistAddTail_eq (other : h.prev head ≠ item) :
    rlistAddTail h head item = h.exchange (h.prev head) item item head := by
  apply Links.ext <;> funext z <;>
    simp only [rlistAddTail, exchange, setNext_next, setPrev_prev, setNext_prev, setPrev_next,
      link_next, link_prev]
  · grind
  · grind

theorem rlistDel_eq (item : N) :
    rlistDel h item = h.exchange (h.prev item) (h.next item) item item := by
  apply Links.ext <;> funext z <;>
    simp only [rlistDel, rlistCreate, exchange, setNext_next, setPrev_prev, setNext_prev,
      setPrev_next, link_next, link_prev]
  grind

theorem rlistShift_eq (behind : h.prev (h.next head) = head) (some : h.next head ≠ head) :
    rlistShift h head = (h.next head, rlistDel h (h.next head)) := by
  rw [rlistDel_eq, behind]
  refine Prod.ext rfl (Links.ext (funext fun z => ?_) (funext fun z => ?_)) <;>
    simp only [rlistShift, exchange, setNext_next, setPrev_prev, setNext_prev, setPrev_next,
      link_next, link_prev]
  grind

-- The pointers that `rlist_del` resets are written again.
theorem rlistMoveTail_eq (other : toHead ≠ item) :
    rlistMoveTail h toHead item = rlistAddTail (rlistDel h item) toHead item := by
  apply Links.ext <;> funext z <;>
    simp only [rlistMoveTail, rlistAddTail, rlistDel, rlistCreate, setNext_next, setPrev_prev,
      setNext_prev, setPrev_next]
  · grind
  · grind

theorem rlistSplice_eq (full : h.next head2 ≠ head2) (full' : h.prev head2 ≠ head2)
    (heads : head1 ≠ head2) (lasts : head1 ≠ h.prev head2) (first : h.next head1 ≠ head2)
    (firsts : h.next head1 ≠ h.next head2) :
    rlistSplice h head1 head2 =
      (h.exchange (h.prev head2) (h.next head2) head2 head2).exchange head1 (h.next head2)
        (h.prev head2) (h.next head1) := by
  have full'' : rlistEmpty h head2 = false := by simp [rlistEmpty, full]
  apply Links.ext <;> funext z <;>
    simp only [rlistSplice, full'', rlistCreate, exchange, setNext_next, setPrev_prev, setNext_prev,
      setPrev_next, link_next, link_prev, Bool.false_eq_true, if_false]
  · grind
  · grind

theorem rlistSpliceTail_eq (full : h.next head2 ≠ head2) (full' : h.prev head2 ≠ head2)
    (heads : head1 ≠ head2) (last : h.prev head1 ≠ head2) (lasts : h.prev head1 ≠ h.prev head2) :
    rlistSpliceTail h head1 head2 =
      (h.exchange (h.prev head2) (h.next head2) head2 head2).exchange (h.prev head1) (h.next head2)
        (h.prev head2) head1 := by
  have full'' : rlistEmpty h head2 = false := by simp [rlistEmpty, full]
  apply Links.ext <;> funext z <;>
    simp only [rlistSpliceTail, full'', rlistCreate, exchange, setNext_next, setPrev_prev,
      setNext_prev, setPrev_next, link_next, link_prev, Bool.false_eq_true, if_false]
  · grind
  · grind

theorem rlistCutBefore_eq (discards : h.next head1 ≠ item) (inner : h.next head2 ≠ item)
    (heads : head1 ≠ head2) (other : head1 ≠ item) (last : head1 ≠ h.prev item)
    (start : h.prev item ≠ head2) :
    rlistCutBefore h head1 head2 item =
      ((rlistCreate h head1).exchange (h.prev item) (h.next head2) head2 item).exchange head1
        (h.next head2) (h.prev item) head1 := by
  apply Links.ext <;> funext z <;>
    simp only [rlistCutBefore, discards, rlistCreate, exchange, setNext_next, setPrev_prev,
      setNext_prev, setPrev_next, link_next, link_prev, if_false]
  · grind
  · grind

theorem rlistCutBefore_none (discards : h.next head1 ≠ item) (first : h.next head2 = item)
    (first' : h.prev item = head2) (heads : head1 ≠ head2) (other : head1 ≠ item) :
    rlistCutBefore h head1 head2 item = rlistCreate h head1 := by
  apply Links.ext <;> funext z <;>
    simp only [rlistCutBefore, discards, rlistCreate, setNext_next, setPrev_prev,
      setNext_prev, setPrev_next, if_false]
  · grind
  · grind

def traded (h : Links N) (rhs lhs : N) : Links N :=
  (((h.setPrev rhs (h.prev lhs)).setNext rhs (h.next lhs)).setPrev lhs (h.prev rhs)).setNext lhs
    (h.next rhs)

def relink (h : Links N) (x y : N) : Links N :=
  let h := if h.next x = y then h.setNext x x else h
  let h := h.setPrev (h.next x) x
  h.setNext (h.prev x) x

theorem traded_next (rhs lhs z : N) : (traded h rhs lhs).next z =
    if z = lhs then h.next rhs else if z = rhs then h.next lhs else h.next z := by
  simp only [traded, setNext_next, setPrev_next]

theorem traded_prev (rhs lhs z : N) : (traded h rhs lhs).prev z =
    if z = lhs then h.prev rhs else if z = rhs then h.prev lhs else h.prev z := by
  simp only [traded, setPrev_prev, setNext_prev]

theorem relink_next {x y : N} (other : h.next x ≠ x) (z : N) : (relink h x y).next z =
    if z = (if h.next x = y then x else h.prev x) then x else h.next z := by
  by_cases empty : h.next x = y <;>
    simp only [relink, empty, if_true, if_false, setNext_next, setPrev_prev, setNext_prev,
      setPrev_next]
  · grind
  · grind

theorem relink_prev (x y z : N) : (relink h x y).prev z =
    if z = (if h.next x = y then x else h.next x) then x else h.prev z := by
  by_cases empty : h.next x = y <;>
    simp only [relink, empty, if_true, if_false, setNext_next, setPrev_prev, setNext_prev]

theorem rlistSwap_eq (heads : rhs ≠ lhs) (next : h.next rhs ≠ lhs) (next' : h.next lhs ≠ rhs)
    (firsts : h.next rhs ≠ h.next lhs) (empty : h.next rhs = rhs ↔ h.prev rhs = rhs)
    (empty' : h.next lhs = lhs ↔ h.prev lhs = lhs) :
    rlistSwap h rhs lhs =
      (h.exchange rhs (h.next lhs) lhs (h.next rhs)).exchange
        (if h.next rhs = rhs then lhs else h.prev rhs) lhs
        (if h.next lhs = lhs then rhs else h.prev lhs) rhs := by
  have twice : rlistSwap h rhs lhs = relink (relink (traded h rhs lhs) lhs rhs) rhs lhs := rfl
  have tradedNext := traded_next h rhs lhs
  have tradedPrev := traded_prev h rhs lhs
  have relinkNext := relink_next (traded h rhs lhs) (x := lhs) (y := rhs) (by grind)
  have relinkPrev := relink_prev (traded h rhs lhs) lhs rhs
  have againNext := relink_next (relink (traded h rhs lhs) lhs rhs) (x := rhs) (y := lhs) (by grind)
  have againPrev := relink_prev (relink (traded h rhs lhs) lhs rhs) rhs lhs
  rw [twice]
  apply Links.ext <;> funext z <;>
    simp only [againNext, againPrev, exchange, link_next, link_prev]
  · grind
  · grind

end Exchanges

end SystemProg.Rlist.Pointers
