import Mathlib.Data.List.Range
import SystemProg.UserFs.Model

set_option autoImplicit false

-- What the growing, shrinking and lookup loops compute, in closed form.

namespace SystemProg.UserFs

open Rlist

-- The block list holds distinct live blocks, and the allocator is ahead of all of them.
structure Handle.Sound (h : Handle) : Prop where
  distinct : h.file.blocks.Nodup
  allocated : ∀ b ∈ h.file.blocks, (h.heap.block b).isSome
  fresh : ∀ b, h.heap.next ≤ b → h.heap.block b = none

theorem Handle.Sound.lt_next {h : Handle} (sound : h.Sound) {b : Nat}
    (linked : b ∈ h.file.blocks) : b < h.heap.next := by
  by_contra beyond
  have live := sound.allocated b linked
  rw [sound.fresh b (by omega)] at live
  simp at live

def CursorValid (desc : FileDesc) (file : File) : Prop :=
  ∀ b, desc.curBlock = some b →
    0 ≤ desc.curBlockIndex ∧ file.blocks[desc.curBlockIndex.toNat]? = some b

def byteAt (heap : Heap) (blocks : List Nat) (k : Nat) : Option Byte :=
  (blocks[k / blockSize]?).bind fun b =>
    (heap.block b).map fun block => block.memory ⟨k % blockSize, Nat.mod_lt _ (by decide)⟩

def Handle.byteAt (h : Handle) (k : Nat) : Option Byte := UserFs.byteAt h.heap h.file.blocks k

theorem byteAt_isSome {h : Handle} (sound : h.Sound) (k : Nat) :
    (h.byteAt k).isSome ↔ k < blockSize * h.file.blocks.length := by
  have split : k < blockSize * h.file.blocks.length ↔ k / blockSize < h.file.blocks.length := by
    rw [Nat.div_lt_iff_lt_mul (by decide), Nat.mul_comm]
  rw [split]
  constructor
  · intro present
    by_contra beyond
    have missing : h.file.blocks[k / blockSize]? = none := List.getElem?_eq_none (by omega)
    simp [Handle.byteAt, byteAt, missing] at present
  · intro inside
    have live := sound.allocated _ (List.getElem_mem inside)
    obtain ⟨block, held⟩ := Option.isSome_iff_exists.mp live
    simp [Handle.byteAt, byteAt, List.getElem?_eq_getElem inside, held]

theorem byteAt_eq_none {h : Handle} (sound : h.Sound) {k : Nat}
    (beyond : blockSize * h.file.blocks.length ≤ k) : h.byteAt k = none := by
  rw [← Option.not_isSome_iff_eq_none, byteAt_isSome sound]
  omega

theorem byteAt_congr {heap heap' : Heap} {blocks : List Nat}
    (same : ∀ b ∈ blocks, heap'.block b = heap.block b) (k : Nat) :
    byteAt heap' blocks k = byteAt heap blocks k := by
  unfold byteAt
  cases found : blocks[k / blockSize]? with
  | none => rfl
  | some b => simp [same b (List.mem_of_getElem? found)]

section Grow

variable (h : Handle)

@[simp] theorem appendBlock_blocks :
    h.appendBlock.file.blocks = h.file.blocks ++ [h.heap.next] := rfl

theorem appendBlocks_desc (n : Nat) : (h.appendBlocks n).desc = h.desc := by
  induction n generalizing h with
  | zero => rfl
  | succ n ih => simp only [Handle.appendBlocks, ih]; rfl

theorem appendBlocks_next (n : Nat) : (h.appendBlocks n).heap.next = h.heap.next + n := by
  induction n generalizing h with
  | zero => rfl
  | succ n ih =>
      simp only [Handle.appendBlocks, ih, Handle.appendBlock, allocateBlock]
      omega

theorem appendBlocks_block (n : Nat) (b : Nat) :
    (h.appendBlocks n).heap.block b =
      if h.heap.next ≤ b ∧ b < h.heap.next + n then some Block.zero else h.heap.block b := by
  induction n generalizing h with
  | zero => simp only [Handle.appendBlocks]; rw [if_neg (by omega)]
  | succ n ih =>
      simp only [Handle.appendBlocks, ih, Handle.appendBlock, allocateBlock, Function.update_apply]
      by_cases same : b = h.heap.next
      · simp [same]
      · simp only [same, if_false]
        congr 1
        exact propext (by omega)

theorem appendBlocks_file (n : Nat) :
    (h.appendBlocks n).file =
      { h.file with
        blocks := h.file.blocks ++ List.range' h.heap.next n
        last := if n = 0 then h.file.last else some (h.heap.next + n - 1)
        blocksCount := h.file.blocksCount + n } := by
  induction n generalizing h with
  | zero => simp [Handle.appendBlocks]
  | succ n ih =>
      simp only [Handle.appendBlocks, ih, Handle.appendBlock, allocateBlock, rlistAddTail]
      congr 1
      · simp [List.range'_succ]
      · by_cases zero : n = 0
        · simp [zero]
        · simp only [zero, if_false, Nat.add_one_ne_zero]
          congr 1
          omega
      · push_cast
        omega

theorem appendBlocks_sound {h : Handle} (sound : h.Sound) (n : Nat) : (h.appendBlocks n).Sound := by
  refine ⟨?_, ?_, ?_⟩
  · simp only [appendBlocks_file]
    refine List.nodup_append.mpr ⟨sound.distinct, List.nodup_range', ?_⟩
    rintro b old c added rfl
    have := sound.lt_next old
    have := (List.mem_range'_1.mp added).1
    omega
  · intro b linked
    simp only [appendBlocks_file, List.mem_append, List.mem_range'_1] at linked
    rw [appendBlocks_block]
    split
    · rfl
    · rcases linked with old | added
      · exact sound.allocated b old
      · omega
  · intro b beyond
    rw [appendBlocks_next] at beyond
    rw [appendBlocks_block, if_neg (by omega)]
    exact sound.fresh b (by omega)

theorem appendBlocks_byteAt {h : Handle} (sound : h.Sound) (n k : Nat) :
    (h.appendBlocks n).byteAt k =
      (h.byteAt k).or (if k < blockSize * (h.file.blocks.length + n) then some 0 else none) := by
  by_cases old : k < blockSize * h.file.blocks.length
  · have inside : k / blockSize < h.file.blocks.length := by
      rw [Nat.div_lt_iff_lt_mul (by decide), Nat.mul_comm]
      exact old
    have kept : (h.appendBlocks n).byteAt k = h.byteAt k := by
      simp only [Handle.byteAt, byteAt, appendBlocks_file, List.getElem?_append_left inside]
      rw [List.getElem?_eq_getElem inside]
      have below := sound.lt_next (List.getElem_mem inside)
      simp only [Option.bind_some, appendBlocks_block]
      rw [if_neg (by omega)]
    obtain ⟨v, held⟩ := Option.isSome_iff_exists.mp ((byteAt_isSome sound k).mpr old)
    rw [kept, held]
    rfl
  · rw [byteAt_eq_none sound (by omega), Option.none_or]
    by_cases new : k < blockSize * (h.file.blocks.length + n)
    · have low : h.file.blocks.length ≤ k / blockSize := by
        rw [Nat.le_div_iff_mul_le (by decide), Nat.mul_comm]
        omega
      have high : k / blockSize < h.file.blocks.length + n := by
        rw [Nat.div_lt_iff_lt_mul (by decide), Nat.mul_comm]
        exact new
      simp only [Handle.byteAt, byteAt, appendBlocks_file, List.getElem?_append_right low, if_pos new]
      rw [List.getElem?_range' (by omega)]
      simp only [Option.bind_some, appendBlocks_block]
      rw [if_pos (by omega)]
      rfl
    · rw [if_neg new]
      apply byteAt_eq_none (appendBlocks_sound sound n)
      simp only [appendBlocks_file, List.length_append, List.length_range']
      omega

end Grow

theorem erase_getLast {ring : List Nat} (distinct : ring.Nodup) {b : Nat}
    (last : ring.getLast? = some b) : ring.erase b = ring.dropLast := by
  obtain ⟨front, rfl⟩ := List.getLast?_eq_some_iff.mp last
  have absent : b ∉ front := by
    intro twice
    exact (List.nodup_append.mp distinct).2.2 b twice b (by simp) rfl
  rw [List.erase_append_right _ absent]
  simp

theorem dropBlocks_spec {h : Handle} (sound : h.Sound) (n : Nat)
    (enough : n ≤ h.file.blocks.length) :
    ∃ heap, h.dropBlocks n = some { h with
        file := { h.file with
          blocks := h.file.blocks.take (h.file.blocks.length - n)
          blocksCount := h.file.blocksCount - n }
        heap := heap } ∧
      heap.next = h.heap.next ∧
      (∀ b ∉ h.file.blocks.drop (h.file.blocks.length - n), heap.block b = h.heap.block b) ∧
      (∀ b ∈ h.file.blocks.drop (h.file.blocks.length - n), heap.block b = none) := by
  induction n generalizing h with
  | zero => exact ⟨h.heap, by simp [Handle.dropBlocks], rfl, by simp, by simp⟩
  | succ n ih =>
      obtain ⟨front, b, shape⟩ : ∃ front b, h.file.blocks = front ++ [b] := by
        refine ⟨h.file.blocks.dropLast, h.file.blocks.getLast ?_, ?_⟩
        · intro empty
          simp [empty] at enough
        · exact (List.dropLast_append_getLast _).symm
      obtain ⟨block, held⟩ := Option.isSome_iff_exists.mp (sound.allocated b (by simp [shape]))
      have distinct := sound.distinct
      rw [shape] at distinct
      have absent : b ∉ front := fun twice =>
        (List.nodup_append.mp distinct).2.2 b twice b (by simp) rfl
      have cut : rlistDel h.file.blocks b = front := by
        rw [rlistDel, erase_getLast sound.distinct (by simp [shape]), shape]
        simp
      let cutHeap : Heap := { h.heap with block := Function.update h.heap.block b none }
      let cutHandle : Handle := { h with
        file := { h.file with blocks := front, blocksCount := h.file.blocksCount - 1 }
        heap := cutHeap }
      have unrolled : h.dropBlocks (n + 1) = cutHandle.dropBlocks n := by
        simp [Handle.dropBlocks, shape, Heap.deleteBlock, held, cutHandle, cutHeap]
        congr 2
        rw [← shape, cut]
      have cutSound : cutHandle.Sound := by
        refine ⟨(List.nodup_append.mp distinct).1, ?_, ?_⟩
        · intro c linked
          have other : c ≠ b := fun same => absent (same ▸ linked)
          simp only [cutHandle, cutHeap, Function.update_of_ne other]
          exact sound.allocated c (by simp [shape, show c ∈ front from linked])
        · intro c beyond
          have := sound.lt_next (b := b) (by simp [shape])
          have other : c ≠ b := by
            rintro rfl
            change h.heap.next ≤ c at beyond
            omega
          simp only [cutHandle, cutHeap, Function.update_of_ne other]
          exact sound.fresh c beyond
      have short : n ≤ front.length := by simpa [shape] using enough
      obtain ⟨heap, run, next, kept, freed⟩ := ih cutSound short
      have length : h.file.blocks.length - (n + 1) = front.length - n := by simp [shape]
      have tail : h.file.blocks.drop (h.file.blocks.length - (n + 1)) =
          front.drop (front.length - n) ++ [b] := by
        rw [length, shape, List.drop_append_of_le_length (by omega)]
      refine ⟨heap, ?_, next, ?_, ?_⟩
      · rw [unrolled, run, length, shape, List.take_append_of_le_length (by omega)]
        simp only [cutHandle]
        congr 3
        push_cast
        omega
      · intro c outside
        rw [tail] at outside
        simp only [List.mem_append, List.mem_singleton, not_or] at outside
        rw [kept c outside.1]
        simp [cutHandle, cutHeap, Function.update_of_ne outside.2]
      · intro c inside
        rw [tail] at inside
        rcases List.mem_append.mp inside with dropped | same
        · exact freed c dropped
        · have same : c = b := by simpa using same
          rw [kept c (by rw [same]; exact fun again => absent (List.mem_of_mem_drop again)), same]
          simp [cutHandle, cutHeap]

theorem walkTo_eq (index i : Int) (blocks : List Nat) (low : i ≤ index) :
    walkTo index i blocks = blocks[(index - i).toNat]? := by
  induction blocks generalizing i with
  | nil => simp [walkTo]
  | cons b rest ih =>
      by_cases here : i = index
      · simp [walkTo, here]
      · have later : (index - i).toNat = (index - (i + 1)).toNat + 1 := by omega
        simp only [walkTo, here, if_false, later, List.getElem?_cons_succ]
        exact ih (i + 1) (by omega)

@[simp] theorem setCursor_file (h : Handle) (b : Option Nat) (index : Int) :
    (h.setCursor b index).file = h.file := rfl

@[simp] theorem setCursor_heap (h : Handle) (b : Option Nat) (index : Int) :
    (h.setCursor b index).heap = h.heap := rfl

theorem cachedStep_next {h : Handle} (sound : h.Sound) (valid : CursorValid h.desc h.file)
    (index : Nat) : h.cachedStep index 1 rlistNext = some none ∨
      h.cachedStep index 1 rlistNext = some h.file.blocks[index]? := by
  unfold Handle.cachedStep
  cases cached : h.desc.curBlock with
  | none => exact Or.inl rfl
  | some cur =>
      obtain ⟨positive, found⟩ := valid cur cached
      by_cases adjacent : (index : Int) = h.desc.curBlockIndex + 1
      · right
        have place : index = h.desc.curBlockIndex.toNat + 1 := by omega
        simp only [adjacent, if_true]
        rw [rlistNext_getElem sound.distinct found, ← place]
      · left
        simp [adjacent]

theorem cachedStep_prev {h : Handle} (sound : h.Sound) (valid : CursorValid h.desc h.file)
    (index : Nat) : h.cachedStep index (-1) rlistPrev = some none ∨
      h.cachedStep index (-1) rlistPrev = some h.file.blocks[index]? := by
  unfold Handle.cachedStep
  cases cached : h.desc.curBlock with
  | none => exact Or.inl rfl
  | some cur =>
      obtain ⟨positive, found⟩ := valid cur cached
      by_cases adjacent : (index : Int) = h.desc.curBlockIndex + -1
      · right
        have place : h.desc.curBlockIndex.toNat ≠ 0 ∧ h.desc.curBlockIndex.toNat - 1 = index := by
          omega
        simp only [adjacent, if_true]
        rw [rlistPrev_getElem sound.distinct found, if_neg place.1, place.2]
      · left
        simp [adjacent]

theorem getBlockByIndex_found {h : Handle} (sound : h.Sound) (valid : CursorValid h.desc h.file)
    {index : Nat} {b : Nat} (found : h.file.blocks[index]? = some b) (create : Bool) :
    getBlockByIndex h index create = some (some b, h.setCursor (some b) index) := by
  unfold getBlockByIndex
  rw [if_neg (by omega)]
  by_cases hit : h.desc.curBlock.isSome ∧ h.desc.curBlockIndex = index
  · rw [if_pos hit]
    obtain ⟨cur, cached⟩ := Option.isSome_iff_exists.mp hit.1
    have here := (valid cur cached).2
    rw [hit.2, Int.toNat_natCast, found] at here
    have same : cur = b := (Option.some.inj here).symm
    subst same
    have kept : h.setCursor (some cur) index = h := by
      rw [← hit.2, ← cached]
      rfl
    rw [kept, cached]
  · rw [if_neg hit]
    have walked : walkTo index 0 h.file.blocks = some b := by
      rw [walkTo_eq _ _ _ (by omega)]
      simpa using found
    rcases cachedStep_next sound valid index with next | next <;>
      rcases cachedStep_prev sound valid index with prev | prev <;>
        simp [next, prev, found, walked]

theorem getBlockByIndex_missing {h : Handle} (sound : h.Sound) (valid : CursorValid h.desc h.file)
    {index : Nat} (missing : h.file.blocks[index]? = none) (create : Bool) :
    getBlockByIndex h index create =
      if create then
        let grown := h.growTo (index + 1)
        some (grown.file.last, grown.setCursor grown.file.last index)
      else some (none, h) := by
  unfold getBlockByIndex
  rw [if_neg (by omega)]
  have miss : ¬ (h.desc.curBlock.isSome ∧ h.desc.curBlockIndex = index) := by
    rintro ⟨held, here⟩
    obtain ⟨cur, cached⟩ := Option.isSome_iff_exists.mp held
    have found := (valid cur cached).2
    rw [here, Int.toNat_natCast, missing] at found
    cases found
  have walked : walkTo index 0 h.file.blocks = none := by
    rw [walkTo_eq _ _ _ (by omega)]
    simpa using missing
  rw [if_neg miss]
  rcases cachedStep_next sound valid index with next | next <;>
    rcases cachedStep_prev sound valid index with prev | prev <;>
      simp [next, prev, missing, walked]

theorem getBlockByIndex_create {h : Handle} (sound : h.Sound) (valid : CursorValid h.desc h.file)
    (counted : h.file.blocksCount = h.file.blocks.length) (index : Nat) :
    ∃ b, (h.appendBlocks (index + 1 - h.file.blocks.length)).file.blocks[index]? = some b ∧
      getBlockByIndex h index true = some (some b,
        (h.appendBlocks (index + 1 - h.file.blocks.length)).setCursor (some b) index) := by
  by_cases inside : index < h.file.blocks.length
  · have none_added : index + 1 - h.file.blocks.length = 0 := by omega
    rw [none_added]
    refine ⟨h.file.blocks[index], List.getElem?_eq_getElem inside, ?_⟩
    exact getBlockByIndex_found sound valid (List.getElem?_eq_getElem inside) true
  · have added : 0 < index + 1 - h.file.blocks.length := by omega
    have grown : h.growTo (index + 1) = h.appendBlocks (index + 1 - h.file.blocks.length) := by
      unfold Handle.growTo
      congr 1
      omega
    refine ⟨h.heap.next + (index - h.file.blocks.length), ?_, ?_⟩
    · simp only [appendBlocks_file]
      rw [List.getElem?_append_right (by omega), List.getElem?_range' (by omega)]
      simp
    · rw [getBlockByIndex_missing sound valid (List.getElem?_eq_none (by omega)), grown]
      have last : (h.appendBlocks (index + 1 - h.file.blocks.length)).file.last =
          some (h.heap.next + (index - h.file.blocks.length)) := by
        simp only [appendBlocks_file]
        rw [if_neg (by omega)]
        congr 1
        omega
      simp [last]

end SystemProg.UserFs
