import SystemProg.UserFs.Blocks

set_option autoImplicit false

namespace SystemProg.UserFs

open Rlist

-- What growing and writing may change: `n` fresh blocks at the end of the list, the bytes of the
-- blocks on the list, and the position and cursor of the descriptor.
structure Handle.Extends (h h' : Handle) (n : Nat) : Prop where
  atfile : h'.desc.atfile = h.desc.atfile
  flags : h'.desc.flags = h.desc.flags
  file : h'.file = { h.file with
    blocks := h.file.blocks ++ List.range' h.heap.next n
    last := h'.file.last
    blocksCount := h.file.blocksCount + n }
  next : h'.heap.next = h.heap.next + n
  others : ∀ b, b ∉ h.file.blocks → b < h.heap.next → h'.heap.block b = h.heap.block b
  sound : h'.Sound

theorem Handle.Extends.trans {h₁ h₂ h₃ : Handle} {n m : Nat} (first : h₁.Extends h₂ n)
    (second : h₂.Extends h₃ m) : h₁.Extends h₃ (n + m) where
  atfile := second.atfile.trans first.atfile
  flags := second.flags.trans first.flags
  file := by
    rw [second.file, first.file, first.next]
    simp only [List.append_assoc, List.range'_append_1]
    congr 1
    push_cast
    omega
  next := by rw [second.next, first.next, Nat.add_assoc]
  others := by
    intro b outside old
    have later : b ∉ h₂.file.blocks := by
      rw [first.file]
      simp only [List.mem_append, List.mem_range'_1, not_or]
      exact ⟨outside, by omega⟩
    rw [second.others b later (by rw [first.next]; omega), first.others b outside old]
  sound := second.sound

theorem appendBlocks_extends {h : Handle} (sound : h.Sound) (n : Nat) :
    h.Extends (h.appendBlocks n) n where
  atfile := by rw [appendBlocks_desc]
  flags := by rw [appendBlocks_desc]
  file := by simp only [appendBlocks_file]
  next := appendBlocks_next h n
  others := by
    intro b _ old
    rw [appendBlocks_block, if_neg (by omega)]
  sound := appendBlocks_sound sound n

theorem Handle.Sound.setCursor {h : Handle} (sound : h.Sound) (b : Option Nat) (index : Int) :
    (h.setCursor b index).Sound := ⟨sound.distinct, sound.allocated, sound.fresh⟩

theorem Handle.Extends.setCursor {h h' : Handle} {n : Nat} (extended : h.Extends h' n)
    (b : Option Nat) (index : Int) : h.Extends (h'.setCursor b index) n where
  atfile := extended.atfile
  flags := extended.flags
  file := extended.file
  next := extended.next
  others := extended.others
  sound := extended.sound.setCursor b index

theorem Handle.Extends.length {h h' : Handle} {n : Nat} (extended : h.Extends h' n) :
    h'.file.blocks.length = h.file.blocks.length + n := by
  rw [extended.file]
  simp

theorem Handle.Extends.count {h h' : Handle} {n : Nat} (extended : h.Extends h' n)
    (counted : h.file.blocksCount = h.file.blocks.length) :
    h'.file.blocksCount = h'.file.blocks.length := by
  rw [extended.file]
  simp [counted]

theorem Handle.Extends.getElem {h h' : Handle} {n : Nat} (extended : h.Extends h' n)
    {index b : Nat} (found : h.file.blocks[index]? = some b) :
    h'.file.blocks[index]? = some b := by
  have inside := (List.getElem?_eq_some_iff.mp found).1
  rw [extended.file]
  simp only [List.getElem?_append_left inside, found]

theorem modify_spec {h : Handle} (sound : h.Sound) {index b : Nat}
    (found : h.file.blocks[index]? = some b) (change : Block → Block) :
    ∃ block heap, h.heap.block b = some block ∧ h.heap.modify b change = some heap ∧
      h.Extends { h with heap := heap } 0 ∧
      ∀ k, byteAt heap h.file.blocks k = if k / blockSize = index then
        some ((change block).memory ⟨k % blockSize, Nat.mod_lt _ (by decide)⟩)
        else h.byteAt k := by
  have linked := List.mem_of_getElem? found
  obtain ⟨block, held⟩ := Option.isSome_iff_exists.mp (sound.allocated b linked)
  refine ⟨block, { h.heap with block := Function.update h.heap.block b (some (change block)) },
    held, by simp [Heap.modify, held], ⟨rfl, rfl, by simp, rfl, ?_, ⟨sound.distinct, ?_, ?_⟩⟩, ?_⟩
  · intro c outside _
    have other : c ≠ b := fun same => outside (same ▸ linked)
    simp [Function.update_of_ne other]
  · intro c inside
    by_cases same : c = b
    · simp [same]
    · simpa [Function.update_of_ne same] using sound.allocated c inside
  · intro c beyond
    have other : c ≠ b := by
      rintro rfl
      have := sound.lt_next linked
      change h.heap.next ≤ c at beyond
      omega
    simpa [Function.update_of_ne other] using sound.fresh c beyond
  · intro k
    by_cases here : k / blockSize = index
    · simp [byteAt, here, found]
    · simp only [Handle.byteAt, byteAt, here, if_false]
      cases other : h.file.blocks[k / blockSize]? with
      | none => rfl
      | some c =>
          have apart : c ≠ b := by
            rintro rfl
            exact here ((List.getElem?_inj (List.getElem?_eq_some_iff.mp other).1
              sound.distinct).mp (other.trans found.symm))
          simp [Function.update_of_ne apart]

theorem copyChunk_spec {h : Handle} (sound : h.Sound) {index b : Nat} {offset : Fin blockSize}
    (found : h.file.blocks[index]? = some b) (place : h.desc.pos = blockSize * index + offset)
    (data : List Byte) (fits : offset + data.length ≤ blockSize) :
    ∃ heap, h.heap.modify b (fun block => block.copyIn offset data) = some heap ∧
      h.Extends { h with heap := heap } 0 ∧
      ∀ k, byteAt heap h.file.blocks k =
        if h.desc.pos ≤ k ∧ k < h.desc.pos + data.length then data[k - h.desc.pos]?
        else h.byteAt k := by
  obtain ⟨block, heap, held, changed, extended, bytes⟩ :=
    modify_spec sound found (fun block => block.copyIn offset data)
  refine ⟨heap, changed, extended, fun k => ?_⟩
  rw [bytes k]
  have bound := offset.isLt
  -- the chunk is a range of columns of one row of the concatenated blocks
  have range : (h.desc.pos ≤ k ∧ k < h.desc.pos + data.length) ↔
      k / blockSize = index ∧ offset ≤ k % blockSize ∧ k % blockSize < offset + data.length := by
    simp only [blockSize] at *
    omega
  by_cases here : k / blockSize = index
  · simp only [range, here, if_true, true_and, Block.copyIn]
    split
    · have shift : k % blockSize - offset = k - h.desc.pos := by
        simp only [blockSize] at *
        omega
      have inside : k - h.desc.pos < data.length := by
        simp only [blockSize] at *
        omega
      rw [shift, List.getD_eq_getElem?_getD, List.getElem?_eq_getElem inside]
      rfl
    · simp [Handle.byteAt, byteAt, here, found, held]
  · simp [range, here]

-- The writing loop: it replaces the bytes from the position on, appends zeroed blocks as
-- needed, and leaves its cursor on the block that holds the last byte written.
theorem writeLoop_spec {h : Handle} (sound : h.Sound) {index b : Nat} {offset : Fin blockSize}
    {rest : List Byte} (nonempty : 0 < rest.length) (found : h.file.blocks[index]? = some b)
    (place : h.desc.pos = blockSize * index + offset) :
    ∃ b' index' h' n, writeLoop h b index offset rest = some (b', index', h') ∧
      h.Extends h' n ∧ h'.desc.pos = h.desc.pos + rest.length ∧
      h'.file.blocks[index']? = some b' ∧
      blockSize * index' < h'.desc.pos ∧ h'.desc.pos ≤ blockSize * (index' + 1) ∧
      h'.file.blocks.length = max h.file.blocks.length (index' + 1) ∧
      ∀ k, h'.byteAt k =
        if h.desc.pos ≤ k ∧ k < h.desc.pos + rest.length then rest[k - h.desc.pos]?
        else (h.byteAt k).or (if k < blockSize * h'.file.blocks.length then some 0 else none) := by
  induction size : rest.length using Nat.strong_induction_on generalizing h b index offset rest with
  | _ size ih =>
  have bound := offset.isLt
  obtain ⟨chunk, chunkSize⟩ : ∃ chunk, chunk = min (blockSize - offset) rest.length := ⟨_, rfl⟩
  have chunkLength : (rest.take chunk).length = chunk := by simp [chunkSize]
  obtain ⟨heap, changed, extended, bytes⟩ := copyChunk_spec sound found place (rest.take chunk)
    (by rw [chunkLength]; omega)
  rw [chunkLength] at bytes
  let copied := ({ h with heap := heap } : Handle).advance chunk
  have copiedExtends : h.Extends copied 0 := ⟨rfl, rfl, extended.file, extended.next,
    extended.others, ⟨sound.distinct, extended.sound.allocated, extended.sound.fresh⟩⟩
  have inside := (List.getElem?_eq_some_iff.mp found).1
  rw [writeLoop, ← chunkSize, changed]
  dsimp only
  by_cases finished : rest.length ≤ chunk
  · rw [if_pos finished]
    have whole : chunk = rest.length := by omega
    refine ⟨b, index, copied, 0, rfl, copiedExtends, ?_, found, ?_, ?_, ?_, ?_⟩
    · simp [copied, Handle.advance, whole, size]
    · simp only [copied, Handle.advance]
      omega
    · simp only [copied, Handle.advance, blockSize] at *
      omega
    · change h.file.blocks.length = _
      omega
    · intro k
      change byteAt heap h.file.blocks k = _
      rw [bytes k, whole, List.take_length, ← size]
      split
      · rfl
      · by_cases old : k < blockSize * h.file.blocks.length
        · obtain ⟨v, present⟩ := Option.isSome_iff_exists.mp ((byteAt_isSome sound k).mpr old)
          rw [present]
          rfl
        · rw [byteAt_eq_none sound (by omega), Option.none_or]
          change none = if k < blockSize * h.file.blocks.length then _ else _
          rw [if_neg old]
  · rw [if_neg finished]
    have full : chunk = blockSize - offset := by omega
    have linkNext : rlistNext copied.file.blocks b = some h.file.blocks[index + 1]? :=
      rlistNext_getElem sound.distinct found
    rw [linkNext]
    dsimp only
    obtain ⟨m, c, movedTo, grown⟩ : ∃ m c,
        (if h.file.blocks[index + 1]?.isSome then copied else copied.appendBlock) =
          copied.appendBlocks m ∧
        h.file.blocks[index + 1]?.getD copied.heap.next = c ∧
        (copied.appendBlocks m).file.blocks[index + 1]? = some c ∧
        h.file.blocks.length + m = max h.file.blocks.length (index + 2) := by
      cases following : h.file.blocks[index + 1]? with
      | some c =>
          have := (List.getElem?_eq_some_iff.mp following).1
          exact ⟨0, c, rfl, rfl, following, by omega⟩
      | none =>
          have := List.getElem?_eq_none_iff.mp following
          refine ⟨1, copied.heap.next, rfl, rfl, ?_, by omega⟩
          have full : copied.file.blocks.length = index + 1 := by
            change h.file.blocks.length = index + 1
            omega
          simp [appendBlocks_file, ← full]
    rw [movedTo, grown.1]
    let moved := (copied.appendBlocks m).setCursor (some c) ((index : Int) + 1)
    have movedExtends : h.Extends moved m := by
      have := (copiedExtends.trans (appendBlocks_extends copiedExtends.sound m)).setCursor
        (some c) ((index : Int) + 1)
      rwa [Nat.zero_add] at this
    have movedPos : moved.desc.pos = h.desc.pos + chunk := by
      simp only [moved, Handle.setCursor, appendBlocks_desc]
      rfl
    have movedPlace : moved.desc.pos = blockSize * (index + 1) + (⟨0, by decide⟩ : Fin blockSize) := by
      rw [movedPos]
      simp only [blockSize] at *
      omega
    obtain ⟨b', index', h', n, run, later, pos, found', low, high, length, bytes'⟩ :=
      ih (rest.drop chunk).length (by rw [List.length_drop]; omega) movedExtends.sound
        (by rw [List.length_drop]; omega) grown.2.1 movedPlace rfl
    have movedLength : moved.file.blocks.length = max h.file.blocks.length (index + 2) := by
      rw [movedExtends.length]
      exact grown.2.2
    have beyond : index + 1 ≤ index' := by
      rw [pos, movedPlace, List.length_drop] at high
      simp only [blockSize] at *
      omega
    refine ⟨b', index', h', m + n, run, movedExtends.trans later, ?_, found', low, high, ?_, ?_⟩
    · rw [pos, movedPos, List.length_drop]
      omega
    · rw [length, movedLength]
      omega
    · intro k
      have movedBytes : moved.byteAt k = (copied.byteAt k).or
          (if k < blockSize * moved.file.blocks.length then some 0 else none) := by
        have := appendBlocks_byteAt copiedExtends.sound m k
        rw [movedExtends.length]
        exact this
      have copiedBytes : copied.byteAt k =
          if h.desc.pos ≤ k ∧ k < h.desc.pos + chunk then (rest.take chunk)[k - h.desc.pos]?
          else h.byteAt k := bytes k
      have grows : moved.file.blocks.length ≤ h'.file.blocks.length := by
        rw [length]
        omega
      rw [bytes' k, movedBytes, copiedBytes, movedPos, List.length_drop, ← size]
      by_cases front : h.desc.pos ≤ k ∧ k < h.desc.pos + chunk
      · have whole : h.desc.pos ≤ k ∧ k < h.desc.pos + rest.length := by omega
        have here : k - h.desc.pos < rest.length := by omega
        have taken : (rest.take chunk)[k - h.desc.pos]? = some rest[k - h.desc.pos] := by
          rw [List.getElem?_take_of_lt (by omega), List.getElem?_eq_getElem here]
        rw [if_neg (by omega), if_pos front, if_pos whole, taken, List.getElem?_eq_getElem here]
        rfl
      · by_cases back : h.desc.pos + chunk ≤ k ∧ k < h.desc.pos + rest.length
        · have whole : h.desc.pos ≤ k ∧ k < h.desc.pos + rest.length := by omega
          rw [if_pos (by omega), if_pos whole, List.getElem?_drop]
          congr 1
          omega
        · have outside : ¬ (h.desc.pos ≤ k ∧ k < h.desc.pos + rest.length) := by omega
          rw [if_neg (by omega), if_neg front, if_neg outside, Option.or_assoc]
          congr 1
          by_cases first : k < blockSize * moved.file.blocks.length
          · have second : k < blockSize * h'.file.blocks.length :=
              lt_of_lt_of_le first (Nat.mul_le_mul_left _ grows)
            rw [if_pos first, if_pos second]
            rfl
          · rw [if_neg first]
            rfl

theorem readLoop_spec {h : Handle} (left : Nat) (offset : Fin blockSize) (sound : h.Sound)
    {index b : Nat}
    (found : h.file.blocks[index]? = some b) (place : h.desc.pos = blockSize * index + offset)
    (inside : h.desc.pos + left ≤ blockSize * h.file.blocks.length) :
    ∃ data b' index' h', readLoop h b index offset left = some (data, b', index', h') ∧
      h'.file = h.file ∧ h'.heap = h.heap ∧ h'.desc.atfile = h.desc.atfile ∧
      h'.desc.flags = h.desc.flags ∧ h'.desc.pos = h.desc.pos + left ∧
      h.file.blocks[index']? = some b' ∧ (left = 0 → index' = index) ∧
      (0 < left → blockSize * index' < h'.desc.pos ∧ h'.desc.pos ≤ blockSize * (index' + 1)) ∧
      data.length = left ∧ ∀ j < left, data[j]? = h.byteAt (h.desc.pos + j) := by
  induction size : left using Nat.strong_induction_on generalizing h b index offset left with
  | _ size ih =>
  have bound := offset.isLt
  rw [readLoop]
  by_cases empty : left = 0
  · rw [← size, if_pos empty, empty]
    exact ⟨[], b, index, h, rfl, rfl, rfl, rfl, rfl, rfl, found, fun _ => rfl, by omega, rfl, by omega⟩
  rw [← size, if_neg empty]
  obtain ⟨block, held⟩ := Option.isSome_iff_exists.mp
    (sound.allocated b (List.mem_of_getElem? found))
  obtain ⟨chunk, chunkSize⟩ : ∃ chunk, chunk = min (blockSize - offset) left := ⟨_, rfl⟩
  have chunkLength : (block.copyOut offset chunk).length = chunk := by
    simp only [Block.copyOut, List.length_take, List.length_drop, List.length_ofFn]
    omega
  have chunkBytes : ∀ j < chunk, (block.copyOut offset chunk)[j]? = h.byteAt (h.desc.pos + j) := by
    intro j within
    have row : (h.desc.pos + j) / blockSize = index := by
      simp only [blockSize] at *
      omega
    have column : (h.desc.pos + j) % blockSize = offset + j := by
      simp only [blockSize] at *
      omega
    simp only [Handle.byteAt, byteAt, row, found, held, Option.bind_some, Option.map_some,
      Block.copyOut, column]
    rw [List.getElem?_take_of_lt within, List.getElem?_drop, List.getElem?_ofFn]
    rw [dif_pos (by omega)]
  simp only [← chunkSize, held]
  by_cases finished : left ≤ chunk
  · rw [if_pos finished]
    have whole : chunk = left := by omega
    refine ⟨_, b, index, h.advance chunk, rfl, rfl, rfl, rfl, rfl, ?_, found, fun _ => rfl, ?_, ?_, ?_⟩
    · simp [Handle.advance, whole]
    · intro _
      simp only [Handle.advance, blockSize] at *
      omega
    · rw [chunkLength, whole]
    · rw [← whole]
      exact chunkBytes
  · rw [if_neg finished]
    have full : chunk = blockSize - offset := by omega
    have row : index + 1 < h.file.blocks.length := by
      simp only [blockSize] at *
      omega
    have following : h.file.blocks[index + 1]? = some h.file.blocks[index + 1] :=
      List.getElem?_eq_getElem row
    have linkNext : rlistNext (h.advance chunk).file.blocks b = some (some h.file.blocks[index + 1]) := by
      rw [← following]
      exact rlistNext_getElem sound.distinct found
    rw [linkNext]
    let moved := (h.advance chunk).setCursor (some h.file.blocks[index + 1]) ((index : Int) + 1)
    have movedSound : moved.Sound := ⟨sound.distinct, sound.allocated, sound.fresh⟩
    have movedPos : moved.desc.pos = h.desc.pos + chunk := rfl
    obtain ⟨data, b', index', h', run, file, heap, atfile, flags, pos, found', still, last, length, bytes⟩ :=
      ih (left - chunk) (by omega) (h := moved) (left - chunk) ⟨0, by decide⟩ movedSound following
        (by rw [movedPos]; simp only [blockSize] at *; omega)
        (by rw [movedPos]; change _ ≤ blockSize * h.file.blocks.length; omega) rfl
    refine ⟨block.copyOut offset chunk ++ data, b', index', h', ?_, file, heap, atfile, flags, ?_,
      found', by omega, fun _ => last (by omega), ?_, ?_⟩
    · dsimp only
      rw [run]
    · rw [pos, movedPos]
      omega
    · rw [List.length_append, chunkLength, length]
      omega
    · intro j within
      by_cases first : j < chunk
      · rw [List.getElem?_append_left (by omega)]
        exact chunkBytes j first
      · rw [List.getElem?_append_right (by omega), chunkLength, bytes (j - chunk) (by omega), movedPos]
        change h.byteAt _ = _
        congr 1
        omega

end SystemProg.UserFs
