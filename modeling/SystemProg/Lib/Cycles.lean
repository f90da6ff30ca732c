import Mathlib.Data.List.Chain
import Mathlib.Data.List.Nodup
import Mathlib.Logic.Function.Basic
import Mathlib.Tactic.Common

set_option autoImplicit false

-- Exchanging what follows two nodes joins the cycles of these, or cuts their common cycle in two. A
-- heap holds any number of disjoint cycles, and all but those are left as they are.

namespace SystemProg

@[ext] structure Links (N : Type) where
  next : N → N
  prev : N → N

namespace Links

variable {N : Type}

def Linked (h : Links N) (x y : N) : Prop := h.next x = y ∧ h.prev y = x

-- The nodes are a cycle in this order, the first behind the last.
structure Cycle (h : Links N) (nodes : List N) : Prop where
  chain : nodes.IsChain h.Linked
  closed : ∀ x ∈ nodes.getLast?, ∀ y ∈ nodes.head?, h.Linked x y
  distinct : nodes.Nodup

variable {h h' : Links N} {nodes front back : List N}

theorem Cycle.rotate (cycle : h.Cycle (front ++ back)) : h.Cycle (back ++ front) := by
  obtain ⟨chain, closed, distinct⟩ := cycle
  obtain ⟨chainFront, chainBack, between⟩ := List.isChain_append.mp chain
  cases front with
  | nil => exact ⟨by simpa using chain, by simpa using closed, by simpa using distinct⟩
  | cons a front =>
      cases back with
      | nil => exact ⟨by simpa using chain, by simpa using closed, by simpa using distinct⟩
      | cons b back =>
          refine ⟨List.isChain_append.mpr ⟨chainBack, chainFront, ?_⟩, ?_,
            (List.perm_append_comm.nodup_iff).mp distinct⟩
          · intro x last y first
            refine closed x ?_ y first
            rw [List.getLast?_append_of_ne_nil _ (List.cons_ne_nil _ _)]
            exact last
          · intro x last y first
            rw [List.getLast?_append_of_ne_nil _ (List.cons_ne_nil _ _)] at last
            exact between x last y first

theorem Cycle.alone {a : N} : h.Cycle [a] ↔ h.Linked a a :=
  ⟨fun cycle => cycle.closed a rfl a rfl, fun linked => by
    refine ⟨List.IsChain.singleton a, ?_, List.nodup_singleton a⟩
    rintro x ⟨⟩ y ⟨⟩
    exact linked⟩

theorem Cycle.behind {a : N} (cycle : h.Cycle (a :: nodes)) :
    (nodes ++ [a]).head? = some (h.next a) := by
  cases nodes with
  | nil => exact congrArg some (Cycle.alone.mp cycle).1.symm
  | cons b nodes => exact congrArg some (List.isChain_cons_cons.mp cycle.chain).1.1.symm

theorem Cycle.before {a : N} (cycle : h.Cycle (a :: nodes)) :
    (a :: nodes).getLast? = some (h.prev a) := by
  have last := List.getLast?_eq_getLast_of_ne_nil (List.cons_ne_nil a nodes)
  rw [last, (cycle.closed _ last a rfl).2]

theorem Cycle.next_mem {a : N} (cycle : h.Cycle (a :: nodes)) : h.next a ∈ a :: nodes :=
  List.perm_append_singleton a nodes |>.mem_iff.mp (List.mem_of_mem_head? cycle.behind)

theorem Cycle.prev_mem {a : N} (cycle : h.Cycle (a :: nodes)) : h.prev a ∈ a :: nodes :=
  List.mem_of_getLast? cycle.before

theorem Cycle.next_self_iff {x : N} (cycle : h.Cycle (x :: nodes)) : h.next x = x ↔ nodes = [] := by
  cases nodes with
  | nil => simpa using (Cycle.alone.mp cycle).1
  | cons a nodes =>
      have next : a = h.next x := Option.some.inj cycle.behind
      have distinct := (List.nodup_cons.mp cycle.distinct).1
      constructor
      · intro same
        exact absurd (List.mem_cons.mpr (Or.inl (same.symm.trans next.symm))) distinct
      · rintro ⟨⟩

theorem Cycle.prev_self_iff {x : N} (cycle : h.Cycle (x :: nodes)) : h.prev x = x ↔ nodes = [] := by
  cases nodes with
  | nil => simpa using (Cycle.alone.mp cycle).2
  | cons a nodes =>
      have last : (a :: nodes).getLast? = some (h.prev x) := cycle.before
      have distinct := (List.nodup_cons.mp cycle.distinct).1
      constructor
      · intro same
        rw [same] at last
        exact absurd (List.mem_of_getLast? last) distinct
      · rintro ⟨⟩

theorem Cycle.last_instead [DecidableEq N] {x : N} (cycle : h.Cycle (x :: nodes)) (y : N) :
    (y :: nodes).getLast? = some (if h.next x = x then y else h.prev x) := by
  cases nodes with
  | nil => rw [if_pos (cycle.next_self_iff.mpr rfl), List.getLast?_singleton]
  | cons a nodes =>
      have more : h.next x ≠ x := mt cycle.next_self_iff.mp (List.cons_ne_nil _ _)
      rw [if_neg more, List.getLast?_cons_cons]
      exact cycle.before

theorem Cycle.same {x : N} (cycle : h.Cycle nodes) (cycle' : h'.Cycle nodes) (mem : x ∈ nodes) :
    h'.next x = h.next x ∧ h'.prev x = h.prev x := by
  obtain ⟨front, back, rfl⟩ := List.append_of_mem mem
  have around := cycle.rotate
  have around' := cycle'.rotate
  constructor
  · exact Option.some.inj (around'.behind.symm.trans around.behind)
  · exact Option.some.inj (around'.before.symm.trans around.before)

theorem Cycle.frame (cycle : h.Cycle nodes)
    (same : ∀ x ∈ nodes, h'.next x = h.next x ∧ h'.prev x = h.prev x) : h'.Cycle nodes where
  chain := by
    refine cycle.chain.imp_of_mem_imp fun x y memX memY linked => ?_
    exact ⟨(same x memX).1.trans linked.1, (same y memY).2.trans linked.2⟩
  closed := by
    intro x last y first
    have linked := cycle.closed x last y first
    have memX := List.mem_of_getLast? last
    have memY := List.mem_of_mem_head? first
    exact ⟨(same x memX).1.trans linked.1, (same y memY).2.trans linked.2⟩
  distinct := cycle.distinct

theorem chain_frame {a p : N} (chain : nodes.IsChain h.Linked) (distinct : nodes.Nodup)
    (first : nodes.head? = some a) (last : nodes.getLast? = some p)
    (next : ∀ x ∈ nodes, x ≠ p → h'.next x = h.next x)
    (prev : ∀ y ∈ nodes, y ≠ a → h'.prev y = h.prev y) : nodes.IsChain h'.Linked := by
  rw [List.isChain_iff_forall_rel_of_append_cons_cons] at chain ⊢
  rintro x y front back rfl
  obtain ⟨following, preceding⟩ := chain rfl
  have notLast : x ≠ p := by
    rintro rfl
    have later : x ∈ y :: back := by
      have split : front ++ x :: y :: back = (front ++ [x]) ++ (y :: back) := by simp
      rw [split, List.getLast?_append_of_ne_nil _ (List.cons_ne_nil _ _)] at last
      exact List.mem_of_getLast? last
    exact (List.nodup_cons.mp (List.nodup_append.mp distinct).2.1).1 later
  have notFirst : y ≠ a := by
    rintro rfl
    have earlier : y ∈ front ++ [x] := by
      cases front with
      | nil => exact List.mem_singleton.mpr (Option.some.inj first).symm
      | cons c front => exact (Option.some.inj first) ▸ List.mem_cons_self ..
    have apart : (front ++ [x] ++ y :: back).Nodup := by simpa using distinct
    exact (List.nodup_append.mp apart).2.2 y earlier y (List.mem_cons_self ..) rfl
  exact ⟨(next x (by simp) notLast).trans following, (prev y (by simp) notFirst).trans preceding⟩

-- Behind `p` there is `a` now, behind `q` there is `b`, and nothing else has changed.
structure Exchanged (h h' : Links N) (p a q b : N) : Prop where
  first : h'.Linked p a
  second : h'.Linked q b
  next : ∀ x, x ≠ p → x ≠ q → h'.next x = h.next x
  prev : ∀ y, y ≠ a → y ≠ b → h'.prev y = h.prev y

section Exchange

variable {a b p q : N} (firstFront : front.head? = some a) (lastFront : front.getLast? = some p)
  (firstBack : back.head? = some b) (lastBack : back.getLast? = some q)

include firstFront lastFront firstBack lastBack

theorem Cycle.join (cycle : h.Cycle front) (cycle' : h.Cycle back)
    (apart : ∀ x ∈ front, x ∉ back) (exchanged : Exchanged h h' p b q a) :
    h'.Cycle (front ++ back) := by
  have memA := List.mem_of_mem_head? firstFront
  have memP := List.mem_of_getLast? lastFront
  have memB := List.mem_of_mem_head? firstBack
  have memQ := List.mem_of_getLast? lastBack
  refine ⟨List.isChain_append.mpr ⟨?_, ?_, ?_⟩, ?_, ?_⟩
  · refine chain_frame cycle.chain cycle.distinct firstFront lastFront
      (fun x mem other => exchanged.next x other ?_) fun y mem other => exchanged.prev y ?_ other
    · rintro rfl
      exact apart x mem memQ
    · rintro rfl
      exact apart y mem memB
  · refine chain_frame cycle'.chain cycle'.distinct firstBack lastBack
      (fun x mem other => exchanged.next x ?_ other) fun y mem other => exchanged.prev y other ?_
    · rintro rfl
      exact apart x memP mem
    · rintro rfl
      exact apart y memA mem
  · rw [lastFront, firstBack]
    rintro x ⟨⟩ y ⟨⟩
    exact exchanged.first
  · rw [List.getLast?_append, lastBack, List.head?_append, firstFront]
    rintro x ⟨⟩ y ⟨⟩
    exact exchanged.second
  · refine List.nodup_append.mpr ⟨cycle.distinct, cycle'.distinct, ?_⟩
    rintro x mem y mem' rfl
    exact apart x mem mem'

theorem Cycle.cut (cycle : h.Cycle (front ++ back)) (exchanged : Exchanged h h' p a q b) :
    h'.Cycle front ∧ h'.Cycle back := by
  have memA := List.mem_of_mem_head? firstFront
  have memP := List.mem_of_getLast? lastFront
  have memB := List.mem_of_mem_head? firstBack
  have memQ := List.mem_of_getLast? lastBack
  obtain ⟨chainFront, chainBack, -⟩ := List.isChain_append.mp cycle.chain
  obtain ⟨distinctFront, distinctBack, apart⟩ := List.nodup_append.mp cycle.distinct
  refine ⟨⟨?_, ?_, distinctFront⟩, ⟨?_, ?_, distinctBack⟩⟩
  · exact chain_frame chainFront distinctFront firstFront lastFront
      (fun x mem other => exchanged.next x other (apart x mem q memQ))
      fun y mem other => exchanged.prev y other (apart y mem b memB)
  · rw [lastFront, firstFront]
    rintro x ⟨⟩ y ⟨⟩
    exact exchanged.first
  · exact chain_frame chainBack distinctBack firstBack lastBack
      (fun x mem other => exchanged.next x (apart p memP x mem).symm other)
      fun y mem other => exchanged.prev y (apart a memA y mem).symm other
  · rw [lastBack, firstBack]
    rintro x ⟨⟩ y ⟨⟩
    exact exchanged.second

end Exchange

section Write

variable [DecidableEq N]

def setNext (h : Links N) (x y : N) : Links N := { h with next := Function.update h.next x y }

def setPrev (h : Links N) (x y : N) : Links N := { h with prev := Function.update h.prev x y }

def link (h : Links N) (x y : N) : Links N := (h.setNext x y).setPrev y x

def exchange (h : Links N) (p a q b : N) : Links N := (h.link p a).link q b

theorem setNext_next (h : Links N) (x y z : N) :
    (h.setNext x y).next z = if z = x then y else h.next z := Function.update_apply ..

theorem setPrev_prev (h : Links N) (x y z : N) :
    (h.setPrev x y).prev z = if z = x then y else h.prev z := Function.update_apply ..

@[simp] theorem setNext_prev (h : Links N) (x y : N) : (h.setNext x y).prev = h.prev := rfl

@[simp] theorem setPrev_next (h : Links N) (x y : N) : (h.setPrev x y).next = h.next := rfl

theorem link_next (h : Links N) (x y z : N) :
    (h.link x y).next z = if z = x then y else h.next z := Function.update_apply ..

theorem link_prev (h : Links N) (x y z : N) :
    (h.link x y).prev z = if z = y then x else h.prev z := Function.update_apply ..

theorem exchange_exchanged (h : Links N) {p a q b : N} (sources : p ≠ q) (targets : a ≠ b) :
    Exchanged h (h.exchange p a q b) p a q b where
  first := by
    constructor
    · rw [exchange, link_next, if_neg sources, link_next, if_pos rfl]
    · rw [exchange, link_prev, if_neg targets, link_prev, if_pos rfl]
  second := by
    constructor
    · rw [exchange, link_next, if_pos rfl]
    · rw [exchange, link_prev, if_pos rfl]
  next := by
    intro x notP notQ
    rw [exchange, link_next, if_neg notQ, link_next, if_neg notP]
  prev := by
    intro y notA notB
    rw [exchange, link_prev, if_neg notB, link_prev, if_neg notA]

end Write

-- Each list is a cycle, and no two of these share a node.
structure Rings (h : Links N) (rings : List (List N)) : Prop where
  cycle : ∀ ring ∈ rings, h.Cycle ring
  distinct : rings.flatten.Nodup

variable {ring : List N} {rings others : List (List N)}

theorem rings_cons : h.Rings (ring :: others) ↔
    h.Cycle ring ∧ h.Rings others ∧ ∀ x ∈ ring, x ∉ others.flatten := by
  constructor
  · rintro ⟨cycle, distinct⟩
    rw [List.flatten_cons, List.nodup_append] at distinct
    exact ⟨cycle ring List.mem_cons_self,
      ⟨fun other mem => cycle other (List.mem_cons_of_mem _ mem), distinct.2.1⟩,
      fun x mem mem' => distinct.2.2 x mem x mem' rfl⟩
  · rintro ⟨cycle, ⟨cycles, distinct⟩, apart⟩
    refine ⟨List.forall_mem_cons.mpr ⟨cycle, cycles⟩, ?_⟩
    rw [List.flatten_cons, List.nodup_append]
    refine ⟨cycle.distinct, distinct, ?_⟩
    rintro x mem y mem' rfl
    exact apart x mem mem'

theorem Rings.apart {ring' : List N} (sound : h.Rings (ring :: ring' :: others)) {x y : N}
    (mem : x ∈ ring) (mem' : y ∈ ring') : x ≠ y := by
  rintro rfl
  exact (rings_cons.mp sound).2.2 x mem (List.mem_append_left _ mem')

theorem Rings.release {x : N} (sound : h.Rings ([x] :: others)) :
    h.Rings others ∧ x ∉ others.flatten :=
  ⟨(rings_cons.mp sound).2.1, (rings_cons.mp sound).2.2 x List.mem_cons_self⟩

theorem Rings.perm {rings' : List (List N)} (sound : h.Rings rings) (perm : rings.Perm rings') :
    h.Rings rings' :=
  ⟨fun ring mem => sound.cycle ring (perm.mem_iff.mpr mem),
    perm.flatten.nodup_iff.mp sound.distinct⟩

theorem Rings.frame (sound : h.Rings rings)
    (same : ∀ x ∈ rings.flatten, h'.next x = h.next x ∧ h'.prev x = h.prev x) : h'.Rings rings :=
  ⟨fun ring mem => (sound.cycle ring mem).frame
    fun x inside => same x (List.mem_flatten_of_mem mem inside), sound.distinct⟩

theorem Rings.exchanged {p a q b : N} (sound : h.Rings rings) (exchanged : Exchanged h h' p a q b)
    (apart : ∀ x ∈ rings.flatten, x ≠ p ∧ x ≠ a ∧ x ≠ q ∧ x ≠ b) : h'.Rings rings :=
  sound.frame fun x mem =>
    have ⟨notP, notA, notQ, notB⟩ := apart x mem
    ⟨exchanged.next x notP notQ, exchanged.prev x notA notB⟩

theorem Rings.rotate (sound : h.Rings ((front ++ back) :: others)) :
    h.Rings ((back ++ front) :: others) := by
  obtain ⟨cycle, rest, apart⟩ := rings_cons.mp sound
  refine rings_cons.mpr ⟨cycle.rotate, rest, fun x mem => apart x ?_⟩
  exact List.perm_append_comm.mem_iff.mp mem

theorem Rings.turn {x : N} (sound : h.Rings ((x :: nodes) :: others)) :
    h.Rings ((nodes ++ [x]) :: others) := by
  rw [← List.singleton_append] at sound
  exact sound.rotate

theorem Rings.rotate_second (sound : h.Rings (ring :: (front ++ back) :: others)) :
    h.Rings (ring :: (back ++ front) :: others) :=
  (sound.perm (.swap ..)).rotate.perm (.swap ..)

theorem Rings.turn_second {x : N} (sound : h.Rings (ring :: (x :: nodes) :: others)) :
    h.Rings (ring :: (nodes ++ [x]) :: others) :=
  (sound.perm (.swap ..)).turn.perm (.swap ..)

section Rewrite

variable [DecidableEq N]

theorem Rings.alone {x : N} (sound : h.Rings others) (outside : x ∉ others.flatten) :
    (h.link x x).Rings ([x] :: others) := by
  have self : (h.link x x).Linked x x := by
    constructor
    · rw [link_next, if_pos rfl]
    · rw [link_prev, if_pos rfl]
  refine rings_cons.mpr ⟨Cycle.alone.mpr self, sound.frame fun y mem => ?_, ?_⟩
  · have other : y ≠ x := by
      rintro rfl
      exact outside mem
    exact ⟨by rw [link_next, if_neg other], by rw [link_prev, if_neg other]⟩
  · simpa using outside

section Exchange

variable {a b p q : N} (firstFront : front.head? = some a) (lastFront : front.getLast? = some p)
  (firstBack : back.head? = some b) (lastBack : back.getLast? = some q)

include firstFront lastFront firstBack lastBack

theorem Rings.join (sound : h.Rings (front :: back :: others)) :
    (h.exchange p b q a).Rings ((front ++ back) :: others) := by
  obtain ⟨cycle, sound, apart⟩ := rings_cons.mp sound
  obtain ⟨cycle', rest, apart'⟩ := rings_cons.mp sound
  simp only [List.flatten_cons, List.mem_append, not_or] at apart
  have memA := List.mem_of_mem_head? firstFront
  have memP := List.mem_of_getLast? lastFront
  have memB := List.mem_of_mem_head? firstBack
  have memQ := List.mem_of_getLast? lastBack
  have exchanged := h.exchange_exchanged (p := p) (a := b) (q := q) (b := a)
    (by rintro rfl; exact (apart p memP).1 memQ) (by rintro rfl; exact (apart b memA).1 memB)
  have outside (x : N) (mem : x ∈ front ++ back) : x ∉ others.flatten := by
    rcases List.mem_append.mp mem with mem | mem
    · exact (apart x mem).2
    · exact apart' x mem
  refine rings_cons.mpr ⟨cycle.join firstFront lastFront firstBack lastBack cycle'
    (fun x mem => (apart x mem).1) exchanged, rest.exchanged exchanged fun x mem => ?_, outside⟩
  refine ⟨?_, ?_, ?_, ?_⟩ <;> rintro rfl
  · exact outside x (List.mem_append_left _ memP) mem
  · exact outside x (List.mem_append_right _ memB) mem
  · exact outside x (List.mem_append_right _ memQ) mem
  · exact outside x (List.mem_append_left _ memA) mem

theorem Rings.cut (sound : h.Rings ((front ++ back) :: others)) :
    (h.exchange p a q b).Rings (front :: back :: others) := by
  obtain ⟨cycle, rest, apart⟩ := rings_cons.mp sound
  have memA := List.mem_of_mem_head? firstFront
  have memP := List.mem_of_getLast? lastFront
  have memB := List.mem_of_mem_head? firstBack
  have memQ := List.mem_of_getLast? lastBack
  have between := (List.nodup_append.mp cycle.distinct).2.2
  have exchanged := h.exchange_exchanged (p := p) (a := a) (q := q) (b := b)
    (between p memP q memQ) (between a memA b memB)
  obtain ⟨cycleFront, cycleBack⟩ := cycle.cut firstFront lastFront firstBack lastBack exchanged
  have other : (h.exchange p a q b).Rings others := by
    refine rest.exchanged exchanged fun x mem => ⟨?_, ?_, ?_, ?_⟩ <;> rintro rfl
    · exact apart x (List.mem_append_left _ memP) mem
    · exact apart x (List.mem_append_left _ memA) mem
    · exact apart x (List.mem_append_right _ memQ) mem
    · exact apart x (List.mem_append_right _ memB) mem
  refine rings_cons.mpr ⟨cycleFront, rings_cons.mpr ⟨cycleBack, other, ?_⟩, ?_⟩
  · exact fun x mem => apart x (List.mem_append_right _ mem)
  · intro x mem
    rw [List.flatten_cons, List.mem_append, not_or]
    exact ⟨fun mem' => between x mem x mem' rfl, apart x (List.mem_append_left _ mem)⟩

end Exchange

-- What is linked around `x` is all written, whatever it was.
theorem exchange_alone (h : Links N) (p a x : N) :
    (h.link x x).exchange p x x a = h.exchange p x x a := by
  apply Links.ext <;> funext z <;> simp only [exchange, link_next, link_prev]
  · grind
  · grind

theorem Rings.insert {x a p : N} (sound : h.Rings (ring :: others))
    (outside : x ∉ (ring :: others).flatten) (first : ring.head? = some a)
    (last : ring.getLast? = some p) : (h.exchange p x x a).Rings ((ring ++ [x]) :: others) := by
  rw [← exchange_alone]
  exact ((sound.alone outside).perm (.swap ..)).join first last rfl rfl

end Rewrite

end Links

end SystemProg
