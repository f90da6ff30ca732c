import SystemProg.Rlist
import SystemProg.Rlist.Pointers

set_option autoImplicit false

-- A ring is written as its head followed by its items. The rings in `others` stand for all those
-- that an operation is not about.

namespace SystemProg.Rlist.Pointers

open Links

variable {N : Type} [DecidableEq N] {h : Links N} {head item toHead head1 head2 rhs lhs : N}
  {items items1 items2 front back : List N} {others : List (List N)}

theorem rlistEmpty_iff (cycle : h.Cycle (head :: items)) :
    rlistEmpty h head = true ↔ items = [] := by
  rw [← cycle.next_self_iff]
  simp only [rlistEmpty, decide_eq_true_eq]
  constructor
  · exact fun both => both.2
  · intro self
    have empty := cycle.next_self_iff.mp self
    exact ⟨self.trans ((cycle.prev_self_iff).mpr empty).symm, self⟩

theorem rlistAdd_rings (sound : h.Rings ((head :: items) :: others))
    (outside : item ∉ ((head :: items) :: others).flatten) :
    (rlistAdd h head item).Rings ((head :: item :: items) :: others) := by
  have other : head ≠ item := by
    rintro rfl
    exact outside (List.mem_append_left _ List.mem_cons_self)
  have outside' : item ∉ ((items ++ [head]) :: others).flatten := by
    rw [List.flatten_cons, List.mem_append] at outside ⊢
    rwa [(List.perm_append_singleton head items).mem_iff]
  have turned := sound.turn
  have cycle := (rings_cons.mp sound).1
  rw [rlistAdd_eq h other]
  have inserted := turned.insert outside' cycle.behind List.getLast?_concat
  rw [List.append_assoc] at inserted
  exact inserted.rotate

theorem rlistAddTail_rings (sound : h.Rings ((head :: items) :: others))
    (outside : item ∉ ((head :: items) :: others).flatten) :
    (rlistAddTail h head item).Rings ((head :: (items ++ [item])) :: others) := by
  have cycle := (rings_cons.mp sound).1
  have other : h.prev head ≠ item := by
    rintro rfl
    exact outside (List.mem_append_left _ cycle.prev_mem)
  rw [rlistAddTail_eq h other]
  exact sound.insert outside rfl cycle.before

theorem rlistDel_rings (sound : h.Rings ((head :: (front ++ item :: back)) :: others)) :
    (rlistDel h item).Rings ((head :: (front ++ back)) :: [item] :: others) := by
  rw [← List.cons_append] at sound
  have turned := sound.rotate
  rw [List.cons_append] at turned
  have cycle := (rings_cons.mp turned).1
  have full : back ++ head :: front ≠ [] := by simp
  have first : (back ++ head :: front).head? = some (h.next item) := by
    rw [← cycle.behind, List.head?_append_of_ne_nil _ full]
  have last : (back ++ head :: front).getLast? = some (h.prev item) := by
    rw [← cycle.before, List.getLast?_cons_of_ne_nil full]
  rw [rlistDel_eq]
  exact (turned.turn.cut first last rfl rfl).rotate

theorem rlistDel_self (next : h.next item = item) (prev : h.prev item = item) :
    rlistDel h item = h := by
  rw [rlistDel_eq]
  apply Links.ext <;> funext z <;> simp only [exchange, link_next, link_prev, next, prev]
  · grind
  · grind

theorem rlistShift_rings (sound : h.Rings ((head :: item :: items) :: others)) :
    (rlistShift h head).1 = item ∧
      (rlistShift h head).2.Rings ((head :: items) :: [item] :: others) := by
  have cycle := (rings_cons.mp sound).1
  obtain ⟨next, prev⟩ := (List.isChain_cons_cons.mp cycle.chain).1
  have full : h.next head ≠ head := by
    rw [ne_eq, cycle.next_self_iff]
    exact List.cons_ne_nil _ _
  rw [rlistShift_eq h (by rw [next, prev]) full, next]
  rw [← List.nil_append (item :: items)] at sound
  exact ⟨rfl, rlistDel_rings sound⟩

theorem rlistShiftTail_rings (sound : h.Rings ((head :: (items ++ [item])) :: others)) :
    (rlistShiftTail h head).1 = item ∧
      (rlistShiftTail h head).2.Rings ((head :: items) :: [item] :: others) := by
  have cycle := (rings_cons.mp sound).1
  have last : h.prev head = item := by
    have last := cycle.before
    rw [← List.cons_append, List.getLast?_concat] at last
    exact (Option.some.inj last).symm
  rw [rlistShiftTail, last]
  have deleted := rlistDel_rings sound
  rw [List.append_nil] at deleted
  exact ⟨rfl, deleted⟩

-- In the three cases: what `rlist_del` leaves when the item stands in the ring of `to`, in
-- another ring, or in none.
theorem released_same (sound : h.Rings ((toHead :: (front ++ item :: back)) :: others)) :
    (rlistDel h item).Rings ((toHead :: (front ++ back)) :: others) ∧
      item ∉ ((toHead :: (front ++ back)) :: others).flatten :=
  ((rlistDel_rings sound).perm (.swap ..)).release

theorem released_other
    (sound : h.Rings ((toHead :: items) :: (head :: (front ++ item :: back)) :: others)) :
    (rlistDel h item).Rings ((toHead :: items) :: (head :: (front ++ back)) :: others) ∧
      item ∉ ((toHead :: items) :: (head :: (front ++ back)) :: others).flatten := by
  have deleted := rlistDel_rings (sound.perm (.swap ..))
  exact (deleted.perm ((List.Perm.swap ..).trans (.cons _ (.swap ..)))).release

theorem released_none (sound : h.Rings ((toHead :: items) :: [item] :: others)) :
    (rlistDel h item).Rings ((toHead :: items) :: others) ∧
      item ∉ ((toHead :: items) :: others).flatten := by
  have turned := sound.perm (.swap ..)
  obtain ⟨next, prev⟩ := Cycle.alone.mp (rings_cons.mp turned).1
  rw [rlistDel_self next prev]
  exact turned.release

theorem rlistMove_rings
    (released : (rlistDel h item).Rings ((toHead :: items) :: others) ∧
      item ∉ ((toHead :: items) :: others).flatten) :
    (rlistMove h toHead item).Rings ((toHead :: item :: items) :: others) :=
  rlistAdd_rings released.1 released.2

theorem rlistMoveTail_rings
    (released : (rlistDel h item).Rings ((toHead :: items) :: others) ∧
      item ∉ ((toHead :: items) :: others).flatten) :
    (rlistMoveTail h toHead item).Rings ((toHead :: (items ++ [item])) :: others) := by
  have other : toHead ≠ item := by
    rintro rfl
    exact released.2 (List.mem_append_left _ List.mem_cons_self)
  rw [rlistMoveTail_eq h other]
  exact rlistAddTail_rings released.1 released.2

theorem rlistSwap_rings (sound : h.Rings ((rhs :: items1) :: (lhs :: items2) :: others)) :
    (rlistSwap h rhs lhs).Rings ((rhs :: items2) :: (lhs :: items1) :: others) := by
  have cycle := (rings_cons.mp sound).1
  have cycle' := (rings_cons.mp (rings_cons.mp sound).2.1).1
  -- Both rings become one, which is cut between the items and the other head.
  have turned := sound.turn_second.turn
  have joined := turned.join cycle.behind List.getLast?_concat cycle'.behind List.getLast?_concat
  rw [← List.append_assoc] at joined
  have joined' := joined.rotate
  have shape : [lhs] ++ (items1 ++ [rhs] ++ items2) = (lhs :: items1) ++ (rhs :: items2) := by simp
  rw [shape] at joined'
  have apart {x y : N} := sound.apart (x := x) (y := y)
  rw [rlistSwap_eq h (apart List.mem_cons_self List.mem_cons_self)
    (apart cycle.next_mem List.mem_cons_self) (apart List.mem_cons_self cycle'.next_mem).symm
    (apart cycle.next_mem cycle'.next_mem) (cycle.next_self_iff.trans cycle.prev_self_iff.symm)
    (cycle'.next_self_iff.trans cycle'.prev_self_iff.symm)]
  exact (joined'.cut rfl (cycle.last_instead lhs) rfl (cycle'.last_instead rhs)).perm (.swap ..)

theorem items_parted {a : N}
    (sound : h.Rings ((head1 :: items1) :: (head2 :: a :: items2) :: others)) :
    (h.exchange (h.prev head2) (h.next head2) head2 head2).Rings
      ((head1 :: items1) :: (a :: items2) :: [head2] :: others) := by
  have turned := (sound.perm (.swap ..)).turn
  have cycle := (rings_cons.mp (rings_cons.mp sound).2.1).1
  have first : (a :: items2).head? = some (h.next head2) := cycle.behind
  have last : (a :: items2).getLast? = some (h.prev head2) := cycle.before
  have parted := turned.cut first last rfl rfl
  exact parted.perm ((List.Perm.cons _ (.swap ..)).trans (.swap ..))

theorem rlistSplice_rings (sound : h.Rings ((head1 :: items1) :: (head2 :: items2) :: others)) :
    (rlistSplice h head1 head2).Rings ((head1 :: (items2 ++ items1)) :: [head2] :: others) := by
  have cycle := (rings_cons.mp sound).1
  have cycle' := (rings_cons.mp (rings_cons.mp sound).2.1).1
  cases items2 with
  | nil =>
      rw [rlistSplice, if_pos (rlistEmpty_iff cycle' |>.mpr rfl)]
      exact sound
  | cons a items2 =>
      have apart {x y : N} := sound.apart (x := x) (y := y)
      have full := mt cycle'.next_self_iff.mp (List.cons_ne_nil _ _)
      have full' := mt cycle'.prev_self_iff.mp (List.cons_ne_nil _ _)
      have parted := (items_parted sound).turn
      have first : (a :: items2).head? = some (h.next head2) := cycle'.behind
      have last : (a :: items2).getLast? = some (h.prev head2) := cycle'.before
      have joined := parted.join cycle.behind List.getLast?_concat first last
      rw [rlistSplice_eq h full full' (apart List.mem_cons_self List.mem_cons_self)
        (apart List.mem_cons_self cycle'.prev_mem) (apart cycle.next_mem List.mem_cons_self)
        (apart cycle.next_mem cycle'.next_mem)]
      rw [List.append_assoc] at joined
      exact joined.rotate

theorem rlistSpliceTail_rings
    (sound : h.Rings ((head1 :: items1) :: (head2 :: items2) :: others)) :
    (rlistSpliceTail h head1 head2).Rings ((head1 :: (items1 ++ items2)) :: [head2] :: others) := by
  have cycle := (rings_cons.mp sound).1
  have cycle' := (rings_cons.mp (rings_cons.mp sound).2.1).1
  cases items2 with
  | nil =>
      rw [rlistSpliceTail, if_pos (rlistEmpty_iff cycle' |>.mpr rfl), List.append_nil]
      exact sound
  | cons a items2 =>
      have apart {x y : N} := sound.apart (x := x) (y := y)
      have full := mt cycle'.next_self_iff.mp (List.cons_ne_nil _ _)
      have full' := mt cycle'.prev_self_iff.mp (List.cons_ne_nil _ _)
      rw [rlistSpliceTail_eq h full full' (apart List.mem_cons_self List.mem_cons_self)
        (apart cycle.prev_mem List.mem_cons_self) (apart cycle.prev_mem cycle'.prev_mem)]
      exact (items_parted sound).join rfl cycle.before cycle'.behind cycle'.before

-- The second ring is parted into the nodes before the item and those from the item on.
theorem rlistCutBefore_rings (sound : h.Rings ((head1 :: items1) :: (front ++ back) :: others))
    (start : back.head? = some item) (stop : back.getLast? = some head2) :
    (rlistCutBefore h head1 head2 item).Rings ((head1 :: front) :: back :: others) := by
  obtain ⟨cycle, rest, apart'⟩ := rings_cons.mp sound
  have cycle' := (rings_cons.mp rest).1
  have apart {x y : N} := sound.apart (x := x) (y := y)
  have memItem : item ∈ front ++ back := List.mem_append_right _ (List.mem_of_mem_head? start)
  have memHead : head2 ∈ front ++ back := List.mem_append_right _ (List.mem_of_getLast? stop)
  have discards := apart cycle.next_mem memItem
  have heads := apart List.mem_cons_self memHead
  have other := apart List.mem_cons_self memItem
  have alone := rest.alone (apart' head1 List.mem_cons_self)
  cases front with
  | nil =>
      have around := cycle'.closed head2 stop item start
      rw [rlistCutBefore_none h discards around.1 around.2 heads other]
      exact alone
  | cons a front =>
      obtain ⟨p, last⟩ : ∃ p, (a :: front).getLast? = some p :=
        ⟨_, List.getLast?_eq_getLast_of_ne_nil (List.cons_ne_nil a front)⟩
      have memLast := List.mem_append_left back (List.mem_of_getLast? last)
      have more : back ≠ [] := by
        rintro rfl
        cases start
      have first : h.Linked head2 a :=
        cycle'.closed head2 ((List.getLast?_append_of_ne_nil _ more).trans stop) a rfl
      have before : h.Linked p item := by
        refine cycle'.rotate.closed p ?_ item ?_
        · exact (List.getLast?_append_of_ne_nil _ (List.cons_ne_nil _ _)).trans last
        · exact (List.head?_append_of_ne_nil _ more).trans start
      have between := (List.nodup_append.mp cycle'.distinct).2.2
      have inner : a ≠ item := between a List.mem_cons_self item (List.mem_of_mem_head? start)
      have outer : p ≠ head2 :=
        between p (List.mem_of_getLast? last) head2 (List.mem_of_getLast? stop)
      have parted := (alone.perm (.swap ..)).cut rfl last start stop
      have parted' := parted.perm ((List.Perm.cons _ (.swap ..)).trans (.swap ..))
      have last' : head1 ≠ h.prev item := before.2 ▸ apart List.mem_cons_self memLast
      rw [rlistCutBefore_eq h discards (first.1 ▸ inner) heads other last' (before.2 ▸ outer),
        first.1, before.2]
      exact parted'.join rfl rfl rfl last

theorem rlistCutBefore_item
    (sound : h.Rings ((head1 :: items1) :: (head2 :: (front ++ item :: back)) :: others)) :
    (rlistCutBefore h head1 head2 item).Rings
      ((head1 :: front) :: (head2 :: item :: back) :: others) := by
  have turned := sound.turn_second
  rw [List.append_assoc] at turned
  exact (rlistCutBefore_rings turned rfl List.getLast?_concat).rotate_second

theorem rlistCutBefore_head
    (sound : h.Rings ((head1 :: items1) :: (head2 :: items2) :: others)) :
    (rlistCutBefore h head1 head2 head2).Rings ((head1 :: items2) :: [head2] :: others) :=
  rlistCutBefore_rings sound.turn_second rfl rfl

theorem rlistDel_erase (sound : h.Rings ((head :: items) :: others))
    (known : item ∈ items ∨ item ∉ items ∧ h.next item = item ∧ h.prev item = item) :
    (rlistDel h item).Rings ((head :: Rlist.rlistDel items item) :: others) := by
  rcases known with mem | ⟨outside, next, prev⟩
  · obtain ⟨front, back, rfl⟩ := List.append_of_mem mem
    have distinct := (List.nodup_cons.mp (rings_cons.mp sound).1.distinct).2
    have before : item ∉ front := fun mem' =>
      (List.nodup_append.mp distinct).2.2 item mem' item List.mem_cons_self rfl
    rw [Rlist.rlistDel, List.erase_append_right _ before, List.erase_cons_head]
    exact (released_same sound).1
  · rw [Rlist.rlistDel, List.erase_of_not_mem outside, rlistDel_self next prev]
    exact sound

theorem rlistNext_pointer (cycle : h.Cycle (head :: items)) (mem : item ∈ items) :
    Rlist.rlistNext items item = some (if h.next item = head then none else some (h.next item)) := by
  obtain ⟨front, back, rfl⟩ := List.append_of_mem mem
  obtain ⟨outside, distinct⟩ := List.nodup_cons.mp cycle.distinct
  rw [← List.cons_append] at cycle
  have around := cycle.rotate
  have next := around.behind
  have atIndex : (front ++ item :: back)[front.length]? = some item := by simp
  rw [Rlist.rlistNext_getElem distinct atIndex]
  cases back with
  | nil =>
      have wrapped : h.next item = head := (Option.some.inj next).symm
      simp [wrapped]
  | cons a back =>
      have follows : h.next item = a := (Option.some.inj next).symm
      have other : a ≠ head := by
        rintro rfl
        exact outside (by simp)
      simp [follows, other]

theorem rlistPrev_pointer (cycle : h.Cycle (head :: items)) (mem : item ∈ items) :
    Rlist.rlistPrev items item = some (if h.prev item = head then none else some (h.prev item)) := by
  obtain ⟨front, back, rfl⟩ := List.append_of_mem mem
  obtain ⟨outside, distinct⟩ := List.nodup_cons.mp cycle.distinct
  rw [← List.cons_append] at cycle
  have around := cycle.rotate
  have prev := around.before
  have atIndex : (front ++ item :: back)[front.length]? = some item := by simp
  rw [Rlist.rlistPrev_getElem distinct atIndex]
  rcases List.eq_nil_or_concat front with rfl | ⟨front, a, rfl⟩
  · have last : (item :: back ++ [head]).getLast? = some head := List.getLast?_concat
    have wrapped : h.prev item = head := Option.some.inj (prev.symm.trans last)
    simp [wrapped]
  · have last : (item :: (back ++ head :: front.concat a)).getLast? = some a := by
      simp [List.getLast?_cons]
    have precedes : h.prev item = a := Option.some.inj (prev.symm.trans last)
    have other : a ≠ head := by
      rintro rfl
      exact outside (by simp)
    simp [precedes, other]

-- The rings in `before` become those in `after`. Whatever other rings there are, these stay and
-- their nodes keep both pointers. The nodes in `fresh` are in none of the rings.
def Leads (h h' : Links N) (fresh : List N) (before after : List (List N)) : Prop :=
  ∀ others, h.Rings (before ++ others) → (∀ x ∈ fresh, x ∉ (before ++ others).flatten) →
    h'.Rings (after ++ others) ∧
      ∀ x ∈ others.flatten, h'.next x = h.next x ∧ h'.prev x = h.prev x

omit [DecidableEq N] in
theorem leads {h' : Links N} {fresh : List N} {before after : List (List N)}
    (rings : ∀ others, h.Rings (before ++ others) →
      (∀ x ∈ fresh, x ∉ (before ++ others).flatten) → h'.Rings (after ++ others)) :
    Leads h h' fresh before after := by
  intro others sound outside
  have sound' := rings others sound outside
  refine ⟨sound', fun x mem => ?_⟩
  obtain ⟨ring, other, inside⟩ := List.mem_flatten.mp mem
  have cycle := sound.cycle ring (List.mem_append_right _ other)
  have cycle' := sound'.cycle ring (List.mem_append_right _ other)
  exact cycle.same cycle' inside

theorem operations_lead (h : Links N) :
    -- rlist_add and rlist_add_tail
    (∀ head item items,
      Leads h (rlistAdd h head item) [item] [head :: items] [head :: item :: items] ∧
      Leads h (rlistAddTail h head item) [item] [head :: items] [head :: (items ++ [item])]) ∧
    -- rlist_del of an item in a ring, and of a self-linked node
    (∀ head item front back, Leads h (rlistDel h item) [] [head :: (front ++ item :: back)]
      [head :: (front ++ back), [item]]) ∧
    (∀ item, h.next item = item → h.prev item = item → rlistDel h item = h) ∧
    -- rlist_shift and rlist_shift_tail
    (∀ head item items,
      (h.Cycle (head :: item :: items) → (rlistShift h head).1 = item) ∧
      Leads h (rlistShift h head).2 [] [head :: item :: items] [head :: items, [item]] ∧
      (h.Cycle (head :: (items ++ [item])) → (rlistShiftTail h head).1 = item) ∧
      Leads h (rlistShiftTail h head).2 [] [head :: (items ++ [item])] [head :: items, [item]]) ∧
    -- rlist_move and rlist_move_tail, in one ring, from another ring, and of a self-linked node
    (∀ head item front back,
      Leads h (rlistMove h head item) [] [head :: (front ++ item :: back)]
        [head :: item :: (front ++ back)] ∧
      Leads h (rlistMoveTail h head item) [] [head :: (front ++ item :: back)]
        [head :: (front ++ back ++ [item])]) ∧
    (∀ toHead items head item front back,
      Leads h (rlistMove h toHead item) [] [toHead :: items, head :: (front ++ item :: back)]
        [toHead :: item :: items, head :: (front ++ back)] ∧
      Leads h (rlistMoveTail h toHead item) [] [toHead :: items, head :: (front ++ item :: back)]
        [toHead :: (items ++ [item]), head :: (front ++ back)]) ∧
    (∀ toHead items item,
      Leads h (rlistMove h toHead item) [] [toHead :: items, [item]] [toHead :: item :: items] ∧
      Leads h (rlistMoveTail h toHead item) [] [toHead :: items, [item]]
        [toHead :: (items ++ [item])]) ∧
    -- rlist_swap, rlist_splice and rlist_splice_tail
    (∀ head1 items1 head2 items2,
      Leads h (rlistSwap h head1 head2) [] [head1 :: items1, head2 :: items2]
        [head1 :: items2, head2 :: items1] ∧
      Leads h (rlistSplice h head1 head2) [] [head1 :: items1, head2 :: items2]
        [head1 :: (items2 ++ items1), [head2]] ∧
      Leads h (rlistSpliceTail h head1 head2) [] [head1 :: items1, head2 :: items2]
        [head1 :: (items1 ++ items2), [head2]]) ∧
    -- rlist_cut_before, at an item and at the head
    (∀ head1 items1 head2 item front back,
      Leads h (rlistCutBefore h head1 head2 item) []
        [head1 :: items1, head2 :: (front ++ item :: back)]
        [head1 :: front, head2 :: item :: back]) ∧
    ∀ head1 items1 head2 items2,
      Leads h (rlistCutBefore h head1 head2 head2) [] [head1 :: items1, head2 :: items2]
        [head1 :: items2, [head2]] := by
  refine ⟨?_, ?_, ?_, ?_, ?_, ?_, ?_, ?_, ?_, ?_⟩
  · intro head item items
    exact ⟨leads fun _ sound outside => rlistAdd_rings sound (outside item List.mem_cons_self),
      leads fun _ sound outside => rlistAddTail_rings sound (outside item List.mem_cons_self)⟩
  · exact fun head item front back => leads fun _ sound _ => rlistDel_rings sound
  · exact fun item next prev => rlistDel_self next prev
  · intro head item items
    have alone {ring : List N} (cycle : h.Cycle ring) : h.Rings [ring] :=
      rings_cons.mpr ⟨cycle, ⟨by simp, by simp⟩, by simp⟩
    exact ⟨fun cycle => (rlistShift_rings (alone cycle)).1,
      leads fun _ sound _ => (rlistShift_rings sound).2,
      fun cycle => (rlistShiftTail_rings (alone cycle)).1,
      leads fun _ sound _ => (rlistShiftTail_rings sound).2⟩
  · intro head item front back
    exact ⟨leads fun _ sound _ => rlistMove_rings (released_same sound),
      leads fun _ sound _ => rlistMoveTail_rings (released_same sound)⟩
  · intro toHead items head item front back
    exact ⟨leads fun _ sound _ => rlistMove_rings (released_other sound),
      leads fun _ sound _ => rlistMoveTail_rings (released_other sound)⟩
  · intro toHead items item
    exact ⟨leads fun _ sound _ => rlistMove_rings (released_none sound),
      leads fun _ sound _ => rlistMoveTail_rings (released_none sound)⟩
  · intro head1 items1 head2 items2
    exact ⟨leads fun _ sound _ => rlistSwap_rings sound,
      leads fun _ sound _ => rlistSplice_rings sound,
      leads fun _ sound _ => rlistSpliceTail_rings sound⟩
  · intro head1 items1 head2 item front back
    exact leads fun _ sound _ => rlistCutBefore_item sound
  · intro head1 items1 head2 items2
    exact leads fun _ sound _ => rlistCutBefore_head sound

def pairs : Links Nat := { next := fun x => x ^^^ 1, prev := fun x => x ^^^ 1 }

theorem operations_lead_pairs :
    (rlistSwap pairs 0 2).Rings [[0, 3], [2, 1], [4, 5]] ∧
      (rlistSplice (rlistSwap pairs 0 2) 0 2).Rings [[0, 1, 3], [2], [4, 5]] ∧
      (rlistMoveTail (rlistSplice (rlistSwap pairs 0 2) 0 2) 4 3).Rings
        [[4, 5, 3], [0, 1], [2]] := by
  have pair (x y : Nat) (other : x ≠ y) (next : x ^^^ 1 = y) (back : y ^^^ 1 = x) :
      pairs.Cycle [x, y] := by
    refine ⟨by simp [Linked, pairs, next, back], ?_, by simpa using other⟩
    rintro a ⟨⟩ b ⟨⟩
    exact ⟨back, next⟩
  have sound : pairs.Rings ([[0, 1], [2, 3]] ++ [[4, 5]]) := by
    refine ⟨?_, by decide⟩
    simp [pair 0 1, pair 2 3, pair 4 5]
  obtain ⟨-, -, -, -, -, -, -, two, -, -⟩ := operations_lead pairs
  have swapped := ((two 0 [1] 2 [3]).1 [[4, 5]] sound (by simp)).1
  obtain ⟨-, -, -, -, -, -, -, two, -, -⟩ := operations_lead (rlistSwap pairs 0 2)
  have spliced := ((two 0 [3] 2 [1]).2.1 [[4, 5]] swapped (by simp)).1
  obtain ⟨-, -, -, -, -, move, -, -, -, -⟩ :=
    operations_lead (rlistSplice (rlistSwap pairs 0 2) 0 2)
  have turned : Rings _ ([[4, 5], [0, 1, 3]] ++ [[2]]) :=
    spliced.perm ((List.Perm.cons _ (.swap ..)).trans (.swap ..))
  exact ⟨swapped, spliced, ((move 4 [5] 0 3 [1] []).2 [[2]] turned (by simp)).1⟩

end SystemProg.Rlist.Pointers
