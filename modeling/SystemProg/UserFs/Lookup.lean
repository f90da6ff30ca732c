import SystemProg.UserFs.Blocks

set_option autoImplicit false

-- The cached block, its neighbours and the walk from the head lead to the same block.

namespace SystemProg.UserFs

structure Handle.At (h : Handle) (index : Nat) (b : Nat) : Prop where
  block : h.desc.curBlock = some b
  place : h.desc.curBlockIndex = index
  listed : h.file.blocks[index]? = some b

theorem Handle.At.valid {h : Handle} {index b : Nat} (cursor : h.At index b) :
    CursorValid h.desc h.file := by
  intro c cached
  rw [cursor.block] at cached
  cases cached
  rw [cursor.place]
  exact ⟨Int.natCast_nonneg index, cursor.listed⟩

structure Handle.Appends (h h' : Handle) (fresh : List Nat) : Prop where
  blocks : h'.file.blocks = h.file.blocks ++ fresh
  count : h'.file.blocksCount = h.file.blocksCount + fresh.length
  unused : ∀ b ∈ fresh, h.heap.block b = none
  zeroed : ∀ b ∈ fresh, h'.heap.block b = some Block.zero
  others : ∀ b ∉ fresh, h'.heap.block b = h.heap.block b

theorem appendBlocks_appends {h : Handle} (sound : h.Sound) (n : Nat) :
    h.Appends (h.appendBlocks n) (List.range' h.heap.next n) where
  blocks := by simp only [appendBlocks_file]
  count := by simp only [appendBlocks_file, List.length_range']
  unused := fun b mem => sound.fresh b (List.mem_range'_1.mp mem).1
  zeroed := by
    intro b mem
    rw [appendBlocks_block, if_pos (List.mem_range'_1.mp mem)]
  others := by
    intro b outside
    rw [appendBlocks_block, if_neg (fun inside => outside (List.mem_range'_1.mpr inside))]

theorem walkTo_head (index : Nat) (blocks : List Nat) :
    walkTo index 0 blocks = blocks[index]? := by
  rw [walkTo_eq _ _ _ (Int.natCast_nonneg index)]
  simp

theorem getBlockByIndex_walks {h : Handle} (sound : h.Sound)
    (counted : h.file.blocksCount = h.file.blocks.length) (valid : CursorValid h.desc h.file)
    (index : Nat) (create : Bool) :
    ∃ result h', getBlockByIndex h index create = some (result, h') ∧
      (∀ b, walkTo index 0 h.file.blocks = some b →
        result = some b ∧ h'.file = h.file ∧ h'.heap = h.heap) ∧
      (walkTo index 0 h.file.blocks = none →
        (create = false → result = none ∧ h' = h) ∧
        (create = true → ∃ fresh, h.Appends h' fresh ∧
          (fresh.length : Int) = index + 1 - h.file.blocksCount ∧
          result = h'.file.blocks.getLast? ∧ result ≠ none)) ∧
      (∀ b, result = some b → h'.At index b) ∧ h'.desc.pos = h.desc.pos := by
  rw [walkTo_head]
  cases found : h.file.blocks[index]? with
  | some b =>
      refine ⟨some b, h.setCursor (some b) index, getBlockByIndex_found sound valid found create,
        ?_, nofun, ?_, rfl⟩
      · rintro c ⟨⟩
        exact ⟨rfl, rfl, rfl⟩
      · rintro c ⟨⟩
        exact ⟨rfl, rfl, found⟩
  | none =>
      cases create with
      | false =>
          refine ⟨none, h, ?_, nofun, fun _ => ⟨fun _ => ⟨rfl, rfl⟩, nofun⟩, nofun, rfl⟩
          rw [getBlockByIndex_missing sound valid found]
          rfl
      | true =>
          obtain ⟨n, missing⟩ : ∃ n, n = index + 1 - h.file.blocks.length := ⟨_, rfl⟩
          have beyond := List.getElem?_eq_none_iff.mp found
          obtain ⟨b, listed, run⟩ := getBlockByIndex_create sound valid counted index
          rw [← missing] at listed run
          have appends := appendBlocks_appends sound n
          have length : (h.appendBlocks n).file.blocks.length = index + 1 := by
            rw [appends.blocks, List.length_append, List.length_range']
            omega
          have last : (h.appendBlocks n).file.blocks.getLast? = some b := by
            rw [List.getLast?_eq_getElem?, length, Nat.add_sub_cancel, listed]
          refine ⟨some b, _, run, nofun, fun _ => ⟨nofun, fun _ => ?_⟩, ?_, ?_⟩
          · refine ⟨List.range' h.heap.next n, ⟨appends.blocks, appends.count, appends.unused,
              appends.zeroed, appends.others⟩, ?_, last.symm, nofun⟩
            rw [List.length_range', counted]
            omega
          · rintro c ⟨⟩
            exact ⟨rfl, rfl, listed⟩
          · have pos := congrArg FileDesc.pos (appendBlocks_desc h n)
            exact pos

def twoBlocks : Handle where
  desc := { atfile := 0, pos := 600, curBlock := some 1, curBlockIndex := 1, flags := ufsReadWrite }
  file := { blocks := [0, 1], refs := 1, name := [], size := 600, last := some 1, blocksCount := 2,
            deleted := false }
  heap := { block := fun b => if b < 2 then some Block.zero else none, next := 2 }

theorem twoBlocks_sound : twoBlocks.Sound where
  distinct := by decide
  allocated := by decide
  fresh := fun _ beyond => if_neg (Nat.not_lt.mpr beyond)

theorem twoBlocks_cursor : twoBlocks.At 1 1 := ⟨rfl, rfl, rfl⟩

theorem getBlockByIndex_walks_twoBlocks :
    (∃ h', getBlockByIndex twoBlocks 0 false = some (some 0, h') ∧ h'.At 0 0) ∧
      ∃ h' fresh, getBlockByIndex twoBlocks 3 true = some (h'.file.blocks.getLast?, h') ∧
        twoBlocks.Appends h' fresh ∧ fresh.length = 2 := by
  constructor
  · obtain ⟨result, h', run, hit, -, cursor, -⟩ :=
      getBlockByIndex_walks twoBlocks_sound rfl twoBlocks_cursor.valid 0 false
    obtain ⟨rfl, -⟩ := hit 0 rfl
    exact ⟨h', run, cursor 0 rfl⟩
  · obtain ⟨result, h', run, -, miss, -⟩ :=
      getBlockByIndex_walks twoBlocks_sound rfl twoBlocks_cursor.valid 3 true
    obtain ⟨fresh, appends, length, rfl, -⟩ := (miss rfl).2 rfl
    refine ⟨h', fresh, run, appends, ?_⟩
    have two : ((3 : Nat) : Int) + 1 - twoBlocks.file.blocksCount = 2 := rfl
    omega

end SystemProg.UserFs
