import SystemProg.UserFs.Copy

set_option autoImplicit false

-- Each operation on a stored file with a valid cursor has a defined outcome; the lemmas give it as
-- a change of the file's bytes.

namespace SystemProg.UserFs

open Rlist

structure File.Stored (file : File) (heap : Heap) : Prop where
  counted : file.blocksCount = file.blocks.length
  sized : file.blocks.length = blocksFor file.size
  bounded : file.size ≤ maxFileSize
  zeroTail : ∀ b block, file.blocks.getLast? = some b → heap.block b = some block →
    ∀ i : Fin blockSize, file.size ≤ blockSize * (file.blocks.length - 1) + i →
      block.memory i = 0

def CursorBehind (desc : FileDesc) : Prop :=
  ∀ b, desc.curBlock = some b → blockSize * desc.curBlockIndex ≤ desc.pos

structure Handle.Ready (h : Handle) : Prop where
  sound : h.Sound
  stored : h.file.Stored h.heap
  valid : CursorValid h.desc h.file
  placed : h.desc.pos ≤ h.file.size

-- What an operation through one descriptor leaves alone.
structure Handle.Keeps (h h' : Handle) : Prop where
  atfile : h'.desc.atfile = h.desc.atfile
  flags : h'.desc.flags = h.desc.flags
  refs : h'.file.refs = h.file.refs
  name : h'.file.name = h.file.name
  deleted : h'.file.deleted = h.file.deleted
  next : h.heap.next ≤ h'.heap.next
  others : ∀ b, b ∉ h.file.blocks → b < h.heap.next → h'.heap.block b = h.heap.block b

theorem Handle.Extends.keeps {h h' : Handle} {n : Nat} (extended : h.Extends h' n) :
    h.Keeps h' where
  atfile := extended.atfile
  flags := extended.flags
  refs := by rw [extended.file]
  name := by rw [extended.file]
  deleted := by rw [extended.file]
  next := by rw [extended.next]; omega
  others := extended.others

theorem File.Stored.tail {h : Handle} (stored : h.file.Stored h.heap) {k : Nat} {v : Byte}
    (past : h.file.size ≤ k) (held : h.byteAt k = some v) : v = 0 := by
  obtain ⟨b, found, block, present, rfl⟩ : ∃ b, h.file.blocks[k / blockSize]? = some b ∧
      ∃ block, h.heap.block b = some block ∧ block.memory ⟨k % blockSize, _⟩ = v := by
    simpa [Handle.byteAt, byteAt, Option.bind_eq_some_iff] using held
  have inside := (List.getElem?_eq_some_iff.mp found).1
  have sized := stored.sized
  have last : k / blockSize = h.file.blocks.length - 1 := by
    simp only [blocksFor, blockSize] at *
    omega
  apply stored.zeroTail b block (by rw [List.getLast?_eq_getElem?, ← last, found]) present
  simp only [blocksFor, blockSize] at *
  omega

theorem zeroTail_of_bytes (h : Handle) (size : Nat)
    (bytes : ∀ k v, size ≤ k → h.byteAt k = some v → v = 0) {b : Nat} {block : Block}
    (last : h.file.blocks.getLast? = some b) (held : h.heap.block b = some block)
    (i : Fin blockSize) (past : size ≤ blockSize * (h.file.blocks.length - 1) + i) :
    block.memory i = 0 := by
  apply bytes _ _ past
  have bound := i.isLt
  have row : (blockSize * (h.file.blocks.length - 1) + i) / blockSize =
      h.file.blocks.length - 1 := by
    simp only [blockSize] at *
    omega
  have column : (blockSize * (h.file.blocks.length - 1) + i) % blockSize = i := by
    simp only [blockSize] at *
    omega
  rw [List.getLast?_eq_getElem?] at last
  simp [Handle.byteAt, byteAt, row, column, last, held]

theorem write_spec {h : Handle} (ready : h.Ready) {buf : List Byte} (nonempty : 0 < buf.length)
    (fits : h.desc.pos + buf.length ≤ maxFileSize) :
    ∃ h' n, h.write buf = some ((buf.length : Int), h') ∧ h.Keeps h' ∧ h'.Ready ∧ CursorBehind h'.desc ∧
      h'.file.blocks = h.file.blocks ++ List.range' h.heap.next n ∧
      h'.desc.pos = h.desc.pos + buf.length ∧ h'.file.size = max h.file.size h'.desc.pos ∧
      ∀ k, h'.byteAt k =
        if h.desc.pos ≤ k ∧ k < h.desc.pos + buf.length then buf[k - h.desc.pos]?
        else (h.byteAt k).or (if k < blockSize * h'.file.blocks.length then some 0 else none) := by
  obtain ⟨sound, stored, valid, placed⟩ := ready
  obtain ⟨b, found, lookup⟩ :=
    getBlockByIndex_create sound valid stored.counted (h.desc.pos / blockSize)
  obtain ⟨added, addedSize⟩ : ∃ added, added = h.desc.pos / blockSize + 1 - h.file.blocks.length :=
    ⟨_, rfl⟩
  rw [← addedSize] at found lookup
  let located := (h.appendBlocks added).setCursor (some b) (h.desc.pos / blockSize : Nat)
  have locatedExtends : h.Extends located added := (appendBlocks_extends sound added).setCursor _ _
  have locatedPos : located.desc.pos = h.desc.pos := by
    simp only [located, Handle.setCursor, appendBlocks_desc]
  have place : located.desc.pos = blockSize * (h.desc.pos / blockSize) +
      (⟨h.desc.pos % blockSize, Nat.mod_lt _ (by decide)⟩ : Fin blockSize) := by
    rw [locatedPos]
    exact (Nat.div_add_mod _ _).symm
  obtain ⟨b', index', h', n, run, extended, pos, found', low, high, length, bytes⟩ :=
    writeLoop_spec locatedExtends.sound nonempty found place
  have whole := locatedExtends.trans extended
  rw [locatedPos] at pos bytes
  let final := ({ h' with file := { h'.file with
    size := if h'.desc.pos > h'.file.size then h'.desc.pos else h'.file.size } } : Handle).setCursor
      (some b') index'
  have oldSize : h'.file.size = h.file.size := by rw [whole.file]
  have newSize : final.file.size = max h.file.size h'.desc.pos := by
    simp only [final, Handle.setCursor, oldSize]
    split <;> omega
  have finalBytes : ∀ k, final.byteAt k =
      if h.desc.pos ≤ k ∧ k < h.desc.pos + buf.length then buf[k - h.desc.pos]?
      else (h.byteAt k).or (if k < blockSize * h'.file.blocks.length then some 0 else none) := by
    intro k
    change h'.byteAt k = _
    rw [bytes k]
    split
    · rfl
    · change ((h.appendBlocks added).byteAt k).or _ = _
      rw [appendBlocks_byteAt sound, Option.or_assoc]
      congr 1
      have grows : h.file.blocks.length + added ≤ h'.file.blocks.length := by
        rw [whole.length]
        omega
      by_cases first : k < blockSize * (h.file.blocks.length + added)
      · have second : k < blockSize * h'.file.blocks.length :=
          lt_of_lt_of_le first (Nat.mul_le_mul_left _ grows)
        rw [if_pos first, if_pos second]
        rfl
      · rw [if_neg first]
        rfl
  refine ⟨final, added + n, ?_, ?_, ⟨?_, ⟨?_, ?_, ?_, ?_⟩, ?_, ?_⟩, ?_, ?_, pos, ?_, finalBytes⟩
  · have shown : getBlockByIndex h (h.desc.pos / blockSize : Nat) true = some (some b, located) := lookup
    unfold Handle.write
    simp only [Int.natCast_ediv] at shown ⊢
    rw [shown]
    dsimp only
    rw [run]
  · have kept := whole.keeps
    exact ⟨kept.atfile, kept.flags, kept.refs, kept.name, kept.deleted, kept.next, kept.others⟩
  · exact ⟨whole.sound.distinct, whole.sound.allocated, whole.sound.fresh⟩
  · exact whole.count stored.counted
  · rw [newSize, pos]
    change h'.file.blocks.length = _
    have located_length := locatedExtends.length
    have sized := stored.sized
    simp only [blocksFor, blockSize] at *
    omega
  · rw [newSize, pos]
    have := stored.bounded
    omega
  · intro c block last held i past
    refine zeroTail_of_bytes final final.file.size ?_ last held i past
    intro k v beyond held
    rw [finalBytes k, if_neg (by omega)] at held
    cases old : h.byteAt k with
    | some w =>
        rw [old] at held
        cases held
        exact stored.tail (by omega) old
    | none =>
        rw [old, Option.none_or] at held
        split at held
        · exact (Option.some.inj held).symm
        · cases held
  · intro c cached
    have same : b' = c := Option.some.inj cached
    subst same
    exact ⟨Int.natCast_nonneg _, found'⟩
  · rw [newSize]
    change h'.desc.pos ≤ _
    omega
  · intro c _
    change (blockSize : Int) * (index' : Int) ≤ (h'.desc.pos : Int)
    have : ((blockSize * index' : Nat) : Int) ≤ h'.desc.pos := by omega
    simpa using this
  · change h'.file.blocks = _
    rw [whole.file]
  · exact newSize

theorem read_spec {h : Handle} (ready : h.Ready) (before : h.desc.pos < h.file.size)
    (size : Nat) :
    ∃ data h', h.read size = some (data, h') ∧ h.Keeps h' ∧ h'.Ready ∧ CursorBehind h'.desc ∧
      h'.file = h.file ∧ h'.heap = h.heap ∧
      data.length = min size (h.file.size - h.desc.pos) ∧
      h'.desc.pos = h.desc.pos + data.length ∧
      ∀ j < data.length, data[j]? = h.byteAt (h.desc.pos + j) := by
  obtain ⟨sound, stored, valid, placed⟩ := ready
  have sized := stored.sized
  have row : h.desc.pos / blockSize < h.file.blocks.length := by
    simp only [blocksFor, blockSize] at *
    omega
  have found := List.getElem?_eq_getElem row
  obtain ⟨b, isBlock⟩ : ∃ b, b = h.file.blocks[h.desc.pos / blockSize] := ⟨_, rfl⟩
  rw [← isBlock] at found
  have lookup := getBlockByIndex_found sound valid found false
  let located := h.setCursor (some b) (h.desc.pos / blockSize : Nat)
  obtain ⟨left, leftSize⟩ : ∃ left, left = min size (h.file.size - h.desc.pos) := ⟨_, rfl⟩
  obtain ⟨data, b', index', h', run, file, heap, atfile, flags, pos, found', still, last, length, bytes⟩ :=
    readLoop_spec left ⟨h.desc.pos % blockSize, Nat.mod_lt _ (by decide)⟩
      (sound.setCursor (some b) (h.desc.pos / blockSize : Nat)) found
      (Nat.div_add_mod _ _).symm (by
        change h.desc.pos + left ≤ blockSize * h.file.blocks.length
        simp only [blocksFor, blockSize] at *
        omega)
  let final := h'.setCursor (some b') index'
  have behind : blockSize * index' ≤ h'.desc.pos := by
    rw [pos]
    change blockSize * index' ≤ h.desc.pos + left
    by_cases empty : left = 0
    · rw [still empty, Nat.mul_comm]
      exact le_trans (Nat.div_mul_le_self _ _) (Nat.le_add_right _ _)
    · have := (last (by omega)).1
      rw [pos] at this
      exact this.le
  have finalFile : final.file = h.file := file
  have finalHeap : final.heap = h.heap := heap
  refine ⟨data, final, ?_, ⟨atfile, flags, ?_, ?_, ?_, ?_, ?_⟩, ⟨⟨?_, ?_, ?_⟩, ?_, ?_, ?_⟩, ?_,
    finalFile, finalHeap, by rw [length, leftSize], by rw [length]; exact pos, ?_⟩
  · have shown : getBlockByIndex h (h.desc.pos / blockSize : Nat) false = some (some b, located) := lookup
    unfold Handle.read
    simp only [Int.natCast_ediv] at shown ⊢
    rw [shown, ← leftSize]
    dsimp only
    rw [run]
  · rw [finalFile]
  · rw [finalFile]
  · rw [finalFile]
  · rw [finalHeap]
  · intro c _ _
    rw [finalHeap]
  · rw [finalFile]
    exact sound.distinct
  · rw [finalFile, finalHeap]
    exact sound.allocated
  · rw [finalHeap]
    exact sound.fresh
  · rw [finalFile, finalHeap]
    exact stored
  · intro c cached
    have same : b' = c := Option.some.inj cached
    subst same
    rw [finalFile]
    exact ⟨Int.natCast_nonneg _, found'⟩
  · rw [finalFile]
    change h'.desc.pos ≤ _
    rw [pos]
    change h.desc.pos + left ≤ _
    omega
  · intro c _
    change (blockSize : Int) * (index' : Int) ≤ (h'.desc.pos : Int)
    have : ((blockSize * index' : Nat) : Int) ≤ h'.desc.pos := by omega
    simpa using this
  · intro j within
    exact bytes j (by omega)

theorem clearLast_spec {h : Handle} (sound : h.Sound) (start count : Nat)
    (nonempty : 0 < h.file.blocks.length) (fits : start + count ≤ blockSize) :
    ∃ heap, h.clearLast start count = some { h with heap := heap } ∧
      h.Extends { h with heap := heap } 0 ∧
      ∀ k, byteAt heap h.file.blocks k =
        if blockSize * (h.file.blocks.length - 1) + start ≤ k ∧
          k < blockSize * (h.file.blocks.length - 1) + start + count then some 0
        else h.byteAt k := by
  have last : h.file.blocks[h.file.blocks.length - 1]? = some h.file.blocks[h.file.blocks.length - 1] :=
    List.getElem?_eq_getElem (by omega)
  obtain ⟨block, heap, held, changed, extended, bytes⟩ :=
    modify_spec sound last (fun block => block.clear start count)
  refine ⟨heap, ?_, extended, fun k => ?_⟩
  · simp [Handle.clearLast, List.getLast?_eq_getElem?, last, changed]
  · rw [bytes k]
    have range : (blockSize * (h.file.blocks.length - 1) + start ≤ k ∧
        k < blockSize * (h.file.blocks.length - 1) + start + count) ↔
        k / blockSize = h.file.blocks.length - 1 ∧
          start ≤ k % blockSize ∧ k % blockSize < start + count := by
      simp only [blockSize] at *
      omega
    by_cases here : k / blockSize = h.file.blocks.length - 1
    · simp only [range, here, if_true, true_and, Block.clear]
      split
      · rfl
      · simp [Handle.byteAt, byteAt, here, last, held]
    · simp [range, here]

theorem blocksFor_mono {a b : Nat} (le : a ≤ b) : blocksFor a ≤ blocksFor b :=
  Nat.div_le_div_right (by omega)

structure Handle.Reshaped (h : Handle) (newSize : Nat) (h' : Handle) : Prop where
  keeps : h.Keeps h'
  sound : h'.Sound
  desc : h'.desc = h.desc
  counted : h'.file.blocksCount = h'.file.blocks.length
  ring : h'.file.blocks = (h.file.blocks ++
    List.range' h.heap.next (blocksFor newSize - h.file.blocks.length)).take (blocksFor newSize)
  bytes : ∀ k, h'.byteAt k = if k < min h.file.size newSize then h.byteAt k
    else if k < blockSize * blocksFor newSize then some 0 else none

theorem stored_zero {h : Handle} (sound : h.Sound) (stored : h.file.Stored h.heap) {k : Nat}
    (past : h.file.size ≤ k) (inside : k < blockSize * h.file.blocks.length) :
    h.byteAt k = some 0 := by
  obtain ⟨v, held⟩ := Option.isSome_iff_exists.mp ((byteAt_isSome sound k).mpr inside)
  rw [held, stored.tail past held]

theorem appendBlocks_reshaped {h : Handle} (sound : h.Sound) (stored : h.file.Stored h.heap)
    {newSize : Nat} (grows : h.file.size < newSize) :
    h.growTo (blocksFor newSize) =
        h.appendBlocks (blocksFor newSize - h.file.blocks.length) ∧
      h.Reshaped newSize (h.appendBlocks (blocksFor newSize - h.file.blocks.length)) := by
  obtain ⟨n, added⟩ : ∃ n, n = blocksFor newSize - h.file.blocks.length := ⟨_, rfl⟩
  have counted := stored.counted
  have sized := stored.sized
  have more : h.file.blocks.length ≤ blocksFor newSize := by
    rw [sized]
    exact blocksFor_mono (by omega)
  have extended := appendBlocks_extends sound n
  rw [← added]
  constructor
  · unfold Handle.growTo
    congr 1
    omega
  · refine ⟨extended.keeps, extended.sound, appendBlocks_desc h n, extended.count counted, ?_, ?_⟩
    · rw [← added, List.take_of_length_le]
      · simp only [appendBlocks_file]
      · rw [List.length_append, List.length_range']
        omega
    · intro k
      have reach : h.file.blocks.length + n = blocksFor newSize := by omega
      rw [appendBlocks_byteAt sound, reach, Nat.min_eq_left (by omega)]
      by_cases inside : k < blockSize * h.file.blocks.length
      · have further := lt_of_lt_of_le inside (Nat.mul_le_mul_left blockSize more)
        by_cases front : k < h.file.size
        · obtain ⟨v, held⟩ := Option.isSome_iff_exists.mp ((byteAt_isSome sound k).mpr inside)
          rw [if_pos front, held]
          rfl
        · rw [if_neg front, if_pos further, stored_zero sound stored (by omega) inside]
          rfl
      · have past : ¬ k < h.file.size := by
          simp only [blocksFor, blockSize] at *
          omega
        rw [if_neg past, byteAt_eq_none sound (by omega), Option.none_or]

theorem grow_spec {h : Handle} (sound : h.Sound) (stored : h.file.Stored h.heap)
    {newSize : Nat} (grows : h.file.size < newSize) :
    ∃ h', h.grow newSize = some h' ∧ h.Reshaped newSize h' := by
  obtain ⟨run, grown⟩ := appendBlocks_reshaped sound stored grows
  have sized := stored.sized
  obtain ⟨g, isGrown⟩ : ∃ g, g = h.appendBlocks (blocksFor newSize - h.file.blocks.length) :=
    ⟨_, rfl⟩
  rw [← isGrown] at run grown
  have length : g.file.blocks.length = blocksFor newSize := by
    rw [grown.ring, List.length_take, List.length_append, List.length_range']
    omega
  unfold Handle.grow
  rw [run]
  dsimp only
  split
  case isFalse => exact ⟨g, rfl, grown⟩
  case isTrue clears =>
    obtain ⟨heap, cleared, extended, bytes⟩ := clearLast_spec grown.sound
      (h.file.size % blockSize) (min newSize (blocksFor h.file.size * blockSize) - h.file.size)
      (by
        rw [length]
        exact lt_of_le_of_lt (Nat.zero_le _) clears.2.1)
      (by simp only [blocksFor, blockSize] at *; omega)
    refine ⟨_, cleared, ?_, extended.sound, grown.desc, grown.counted, grown.ring, ?_⟩
    · have kept := extended.keeps
      refine ⟨grown.keeps.atfile, grown.keeps.flags, grown.keeps.refs, grown.keeps.name,
        grown.keeps.deleted, grown.keeps.next.trans kept.next, ?_⟩
      intro b outside old
      have later : b ∉ g.file.blocks := by
        rw [grown.ring]
        intro inside
        rcases List.mem_append.mp (List.mem_of_mem_take inside) with own | fresh
        · exact outside own
        · have := (List.mem_range'_1.mp fresh).1
          omega
      rw [kept.others b later (lt_of_lt_of_le old grown.keeps.next)]
      exact grown.keeps.others b outside old
    · intro k
      change byteAt heap g.file.blocks k = _
      rw [bytes k, length]
      -- the cleared bytes are past the old end, where the file is zero already
      by_cases wiped : blockSize * (blocksFor newSize - 1) + h.file.size % blockSize ≤ k ∧
          k < blockSize * (blocksFor newSize - 1) + h.file.size % blockSize +
            (min newSize (blocksFor h.file.size * blockSize) - h.file.size)
      · have past : ¬ k < min h.file.size newSize := by
          simp only [blocksFor, blockSize] at *
          omega
        have inside : k < blockSize * blocksFor newSize := by
          simp only [blocksFor, blockSize] at *
          omega
        rw [if_pos wiped, if_neg past, if_pos inside]
      · rw [if_neg wiped]
        exact grown.bytes k

theorem shrinkTo_spec {h : Handle} (sound : h.Sound)
    (counted : h.file.blocksCount = h.file.blocks.length) {limit : Nat}
    (fewer : limit ≤ h.file.blocks.length) :
    ∃ h', h.shrinkTo limit = some h' ∧ h.Keeps h' ∧ h'.Sound ∧ h'.desc = h.desc ∧
      h'.file.blocksCount = limit ∧ h'.file.blocks = h.file.blocks.take limit ∧
      (∀ b ∈ h.file.blocks.drop limit, h'.heap.block b = none) ∧
      ∀ k < blockSize * limit, h'.byteAt k = h.byteAt k := by
  obtain ⟨heap, run, next, kept, freed⟩ := dropBlocks_spec sound
    (h.file.blocks.length - limit) (Nat.sub_le _ _)
  have shorter : h.file.blocks.length - (h.file.blocks.length - limit) = limit := by omega
  rw [shorter] at run kept freed
  have own : ∀ b ∈ h.file.blocks.take limit, heap.block b = h.heap.block b := by
    intro b inside
    apply kept
    intro dropped
    exact List.disjoint_take_drop sound.distinct le_rfl inside dropped
  refine ⟨{ h with
      file := { h.file with
        blocks := h.file.blocks.take limit
        blocksCount := h.file.blocksCount - (h.file.blocks.length - limit : Nat) }
      heap := heap }, ?_, ⟨rfl, rfl, rfl, rfl, rfl, next.ge, ?_⟩, ⟨?_, ?_, ?_⟩, rfl, ?_, rfl,
      freed, ?_⟩
  · unfold Handle.shrinkTo
    have times : (h.file.blocksCount - (limit : Nat)).toNat = h.file.blocks.length - limit := by omega
    rw [times]
    exact run
  · intro b outside _
    exact kept b fun dropped => outside (List.mem_of_mem_drop dropped)
  · exact sound.distinct.sublist (List.take_sublist _ _)
  · intro b inside
    change (heap.block b).isSome
    rw [own b inside]
    exact sound.allocated b (List.mem_of_mem_take inside)
  · intro b beyond
    change heap.next ≤ b at beyond
    rw [next] at beyond
    change heap.block b = none
    rw [kept b (fun dropped => absurd (sound.lt_next (List.mem_of_mem_drop dropped)) (by omega))]
    exact sound.fresh b beyond
  · change h.file.blocksCount - ((h.file.blocks.length - limit : Nat) : Int) = _
    omega
  · intro k inside
    have row : k / blockSize < limit := by
      rw [Nat.div_lt_iff_lt_mul (by decide), Nat.mul_comm]
      exact inside
    change byteAt heap (h.file.blocks.take limit) k = _
    rw [byteAt_congr own]
    simp only [Handle.byteAt, byteAt, List.getElem?_take_of_lt row]

theorem shrink_spec {h : Handle} (sound : h.Sound) (stored : h.file.Stored h.heap)
    {newSize : Nat} (shrinks : newSize < h.file.size) :
    ∃ h', h.shrink newSize = some h' ∧ h.Reshaped newSize h' := by
  have fewer : blocksFor newSize ≤ h.file.blocks.length := by
    rw [stored.sized]
    exact blocksFor_mono (by omega)
  obtain ⟨g, run, kept, soundG, desc, count, ring, freed, bytes⟩ :=
    shrinkTo_spec sound stored.counted fewer
  have length : g.file.blocks.length = blocksFor newSize := by
    rw [ring, List.length_take]
    omega
  have ring' : g.file.blocks = (h.file.blocks ++
      List.range' h.heap.next (blocksFor newSize - h.file.blocks.length)).take
        (blocksFor newSize) := by
    rw [Nat.sub_eq_zero_of_le fewer, ring]
    simp
  unfold Handle.shrink
  rw [run]
  dsimp only
  split
  case isFalse still =>
    refine ⟨g, rfl, kept, soundG, desc, by rw [length, count], ring', ?_⟩
    intro k
    have stop : blockSize * blocksFor newSize = newSize := by
      rw [count] at still
      simp only [blocksFor, blockSize] at *
      omega
    by_cases front : k < newSize
    · rw [if_pos (by omega)]
      exact bytes k (by omega)
    · rw [if_neg (by omega), if_neg (by omega)]
      exact byteAt_eq_none soundG (by rw [length]; omega)
  case isTrue clears =>
    obtain ⟨heap, cleared, extended, bytes'⟩ := clearLast_spec soundG
      (newSize % blockSize) (blockSize - newSize % blockSize)
      (by rw [length]; omega)
      (by have := Nat.mod_lt newSize (show 0 < blockSize by decide); omega)
    have kept' := extended.keeps
    refine ⟨_, cleared, ⟨kept.atfile, kept.flags, kept.refs, kept.name, kept.deleted,
      kept.next.trans kept'.next, ?_⟩, extended.sound, desc, by
        change g.file.blocksCount = g.file.blocks.length
        rw [length, count], ring', ?_⟩
    · intro b outside old
      have later : b ∉ g.file.blocks := by
        rw [ring]
        exact fun inside => outside (List.mem_of_mem_take inside)
      rw [kept'.others b later (lt_of_lt_of_le old kept.next)]
      exact kept.others b outside old
    · intro k
      change byteAt heap g.file.blocks k = _
      rw [bytes' k, length]
      have lastRow : blockSize * (blocksFor newSize - 1) + newSize % blockSize = newSize := by
        have := clears.1
        simp only [blocksFor, blockSize] at *
        omega
      have stop : newSize + (blockSize - newSize % blockSize) = blockSize * blocksFor newSize := by
        have := clears.1
        simp only [blocksFor, blockSize] at *
        omega
      rw [lastRow, stop]
      by_cases front : k < newSize
      · rw [if_neg (by omega), if_pos (by omega)]
        exact bytes k (by omega)
      · by_cases inside : k < blockSize * blocksFor newSize
        · rw [if_pos (by omega), if_neg (by omega), if_pos inside]
        · rw [if_neg (by omega), if_neg (by omega), if_neg inside]
          exact byteAt_eq_none soundG (by rw [length]; omega)

theorem reshape_spec {h : Handle} (sound : h.Sound) (stored : h.file.Stored h.heap)
    (newSize : Nat) : ∃ h', h.reshape newSize = some h' ∧ h.Reshaped newSize h' := by
  unfold Handle.reshape
  rcases Nat.lt_trichotomy newSize h.file.size with shrinks | same | grows
  · rw [if_neg (by omega), if_pos shrinks]
    exact shrink_spec sound stored shrinks
  · rw [if_neg (by omega), if_neg (by omega)]
    refine ⟨h, rfl, ⟨rfl, rfl, rfl, rfl, rfl, le_rfl, fun _ _ _ => rfl⟩, sound, rfl,
      stored.counted, ?_, ?_⟩
    · rw [same, ← stored.sized]
      simp
    · intro k
      rw [same, Nat.min_self, ← stored.sized]
      by_cases front : k < h.file.size
      · rw [if_pos front]
      · rw [if_neg front]
        by_cases inside : k < blockSize * h.file.blocks.length
        · rw [if_pos inside, stored_zero sound stored (by omega) inside]
        · rw [if_neg inside, byteAt_eq_none sound (by omega)]
  · rw [if_pos grows]
    exact grow_spec sound stored grows

theorem resize_spec {h : Handle} (sound : h.Sound) (stored : h.file.Stored h.heap)
    {newSize : Nat} (bounded : newSize ≤ maxFileSize) :
    ∃ h', h.resize newSize = some h' ∧ h.Keeps h' ∧ h'.Sound ∧ h'.file.Stored h'.heap ∧
      h'.desc = h.desc ∧ h'.file.size = newSize ∧
      h'.file.blocks = (h.file.blocks ++
        List.range' h.heap.next (blocksFor newSize - h.file.blocks.length)).take (blocksFor newSize) ∧
      ∀ k, h'.byteAt k = if k < min h.file.size newSize then h.byteAt k
        else if k < blockSize * blocksFor newSize then some 0 else none := by
  obtain ⟨g, run, kept, soundG, desc, counted, ring, bytes⟩ := reshape_spec sound stored newSize
  have length : g.file.blocks.length = blocksFor newSize := by
    rw [ring, List.length_take, List.length_append, List.length_range']
    omega
  refine ⟨{ g with file := { g.file with size := newSize } }, by rw [Handle.resize, run]; rfl,
    ⟨kept.atfile, kept.flags, kept.refs, kept.name, kept.deleted, kept.next, kept.others⟩,
    ⟨soundG.distinct, soundG.allocated, soundG.fresh⟩, ⟨counted, length, bounded, ?_⟩, desc, rfl,
    ring, bytes⟩
  intro b block last held i past
  refine zeroTail_of_bytes g newSize ?_ last held i past
  intro k v beyond held
  rw [bytes k, if_neg (by omega)] at held
  split at held
  · exact (Option.some.inj held).symm
  · cases held

end SystemProg.UserFs
