import Mathlib.Logic.Function.Basic
import SystemProg.Lib.Run
import SystemProg.Rlist

set_option autoImplicit false

-- `3/userfs.cpp`. Objects live in two heaps keyed by addresses that are never handed out twice, so
-- an address that outlives its object names nothing. A function answers `none` where the source
-- reads or releases such an address: its behaviour is undefined there. References, block counts and
-- descriptors are `int` there and have no bound here, as an overflow needs 2^31 objects at once.

namespace SystemProg.UserFs

open Rlist

abbrev Byte := UInt8
abbrev Name := List Byte
abbrev Flags := BitVec 32

def blockSize : Nat := 512
def maxFileSize : Nat := 1024 * 1024 * 100

def ufsCreate : Flags := 0b0001
def ufsReadOnly : Flags := 0b0010
def ufsWriteOnly : Flags := 0b0100
def ufsReadWrite : Flags := ufsReadOnly ||| ufsWriteOnly

inductive UfsErrorCode where
  | noErr
  | noFile
  | noMem
  | notImplemented
  | noPermission
deriving DecidableEq, Repr

structure Block where
  memory : Fin blockSize → Byte

structure File where
  blocks : List Nat
  refs : Int
  name : Name
  size : Nat
  last : Option Nat
  blocksCount : Int
  deleted : Bool

structure FileDesc where
  atfile : Nat
  pos : Nat
  curBlock : Option Nat
  curBlockIndex : Int
  flags : Flags

structure Heap where
  block : Nat → Option Block
  next : Nat

structure Fs where
  errorCode : UfsErrorCode
  fileList : List Nat
  fileDescriptors : List (Option FileDesc)
  file : Nat → Option File
  nextFile : Nat
  heap : Heap
  -- History, read by no function: the files that ufs_delete took off the list, and the
  -- file objects that were released, both in order.
  deletions : List Nat
  releases : List Nat

def Fs.initial : Fs where
  errorCode := .noErr
  fileList := []
  fileDescriptors := []
  file := fun _ => none
  nextFile := 0
  heap := { block := fun _ => none, next := 0 }
  deletions := []
  releases := []

def Fs.setError (fs : Fs) (code : UfsErrorCode) : Fs := { fs with errorCode := code }

def Fs.setFile (fs : Fs) (f : Nat) (file : File) : Fs :=
  { fs with file := Function.update fs.file f (some file) }

def Fs.ufsErrno (fs : Fs) : UfsErrorCode := fs.errorCode

def Block.zero : Block := ⟨fun _ => 0⟩

def Block.copyIn (block : Block) (offset : Nat) (data : List Byte) : Block :=
  ⟨fun i => if offset ≤ i ∧ i < offset + data.length then data.getD (i - offset) 0
    else block.memory i⟩

def Block.copyOut (block : Block) (offset count : Nat) : List Byte :=
  ((List.ofFn block.memory).drop offset).take count

def Block.clear (block : Block) (start count : Nat) : Block :=
  ⟨fun i => if start ≤ i ∧ i < start + count then 0 else block.memory i⟩

def Heap.modify (heap : Heap) (b : Nat) (change : Block → Block) : Option Heap :=
  (heap.block b).map fun block =>
    { heap with block := Function.update heap.block b (some (change block)) }

def Heap.deleteBlock (heap : Heap) (b : Nat) : Option Heap :=
  (heap.block b).map fun _ => { heap with block := Function.update heap.block b none }

def allocateBlock (heap : Heap) : Nat × Heap :=
  (heap.next,
    { block := Function.update heap.block heap.next (some Block.zero), next := heap.next + 1 })

-- What a function holds through `desc` and `desc->atfile`.
structure Handle where
  desc : FileDesc
  file : File
  heap : Heap

def Handle.setCursor (h : Handle) (b : Option Nat) (index : Int) : Handle :=
  { h with desc := { h.desc with curBlock := b, curBlockIndex := index } }

def Handle.advance (h : Handle) (count : Nat) : Handle :=
  { h with desc := { h.desc with pos := h.desc.pos + count } }

-- Append one zeroed block: the step shared by the growing loops of `get_block_by_index`,
-- `ufs_write` and `ufs_resize`.
def Handle.appendBlock (h : Handle) : Handle :=
  let allocated := allocateBlock h.heap
  { h with
    file := { h.file with
      blocks := rlistAddTail h.file.blocks allocated.1
      last := some allocated.1
      blocksCount := h.file.blocksCount + 1 }
    heap := allocated.2 }

-- `while (f->blocks_count < limit)`, which runs `limit - blocks_count` times.
def Handle.appendBlocks : Nat → Handle → Handle
  | 0, h => h
  | n + 1, h => appendBlocks n h.appendBlock

def Handle.growTo (h : Handle) (limit : Int) : Handle :=
  h.appendBlocks (limit - h.file.blocksCount).toNat

-- `while (f->blocks_count > limit)`: the tail of an empty ring is its head, not a block.
def Handle.dropBlocks : Nat → Handle → Option Handle
  | 0, h => some h
  | n + 1, h => do
      let lastBlock ← h.file.blocks.getLast?
      let heap ← h.heap.deleteBlock lastBlock
      dropBlocks n { h with
        file := { h.file with
          blocks := rlistDel h.file.blocks lastBlock
          blocksCount := h.file.blocksCount - 1 }
        heap := heap }

def Handle.shrinkTo (h : Handle) (limit : Int) : Option Handle :=
  h.dropBlocks (h.file.blocksCount - limit).toNat

-- The cached block's neighbour, when the index asks for it and the step stays in the ring.
def Handle.cachedStep (h : Handle) (index offset : Int)
    (link : List Nat → Nat → Option (Option Nat)) : Option (Option Nat) :=
  match h.desc.curBlock with
  | none => some none
  | some cur =>
      if index = h.desc.curBlockIndex + offset then link h.file.blocks cur else some none

def walkTo (index : Int) : Int → List Nat → Option Nat
  | _, [] => none
  | i, b :: rest => if i = index then some b else walkTo index (i + 1) rest

def getBlockByIndex (h : Handle) (index : Int) (create : Bool) :
    Option (Option Nat × Handle) :=
  if index < 0 then some (none, h)
  else if h.desc.curBlock.isSome ∧ h.desc.curBlockIndex = index then some (h.desc.curBlock, h)
  else
    match h.cachedStep index 1 rlistNext with
    | none => none
    | some (some next) => some (some next, h.setCursor (some next) index)
    | some none =>
      match h.cachedStep index (-1) rlistPrev with
      | none => none
      | some (some prev) => some (some prev, h.setCursor (some prev) index)
      | some none =>
        match walkTo index 0 h.file.blocks with
        | some b => some (some b, h.setCursor (some b) index)
        | none =>
          if create then
            let grown := h.growTo (index + 1)
            some (grown.file.last, grown.setCursor grown.file.last index)
          else some (none, h)

-- The copying loop of `ufs_write`, entered with at least one byte left.
def writeLoop (h : Handle) (b : Nat) (blockIndex : Nat) (offset : Fin blockSize)
    (rest : List Byte) : Option (Nat × Nat × Handle) :=
  let chunk := min (blockSize - offset) rest.length
  match h.heap.modify b (fun block => block.copyIn offset (rest.take chunk)) with
  | none => none
  | some heap =>
    let copied := { h with heap := heap }.advance chunk
    if rest.length ≤ chunk then some (b, blockIndex, copied)
    else
      match rlistNext copied.file.blocks b with
      | none => none
      | some next =>
        let moved := if next.isSome then copied else copied.appendBlock
        let c := next.getD copied.heap.next
        writeLoop (moved.setCursor (some c) (blockIndex + 1)) c (blockIndex + 1)
          ⟨0, by decide⟩ (rest.drop chunk)
termination_by rest.length
decreasing_by
  simp only [List.length_drop]
  have := offset.isLt
  omega

-- The copying loop of `ufs_read`, with the bytes it copies out.
def readLoop (h : Handle) (b : Nat) (blockIndex : Nat) (offset : Fin blockSize)
    (left : Nat) : Option (List Byte × Nat × Nat × Handle) :=
  if left = 0 then some ([], b, blockIndex, h)
  else
    let chunk := min (blockSize - offset) left
    match h.heap.block b with
    | none => none
    | some block =>
      let data := block.copyOut offset chunk
      let moved := h.advance chunk
      if left ≤ chunk then some (data, b, blockIndex, moved)
      else
        match rlistNext moved.file.blocks b with
        | none => none
        | some none => some (data, b, blockIndex, moved)
        | some (some c) =>
          match readLoop (moved.setCursor (some c) (blockIndex + 1)) c (blockIndex + 1)
              ⟨0, by decide⟩ (left - chunk) with
          | none => none
          | some (more, result) => some (data ++ more, result)
termination_by left
decreasing_by
  have := offset.isLt
  omega

def Handle.write (h : Handle) (buf : List Byte) : Option (Int × Handle) :=
  let blockIndex := h.desc.pos / blockSize
  match getBlockByIndex h blockIndex true with
  | none => none
  | some (none, found) => some (-1, found)
  | some (some b, found) =>
    match writeLoop found b blockIndex ⟨h.desc.pos % blockSize, Nat.mod_lt _ (by decide)⟩ buf with
    | none => none
    | some (b, blockIndex, copied) =>
      let sized := { copied with file := { copied.file with
        size := if copied.desc.pos > copied.file.size then copied.desc.pos else copied.file.size } }
      some (buf.length, sized.setCursor (some b) blockIndex)

def Handle.read (h : Handle) (size : Nat) : Option (List Byte × Handle) :=
  let toRead := min size (h.file.size - h.desc.pos)
  let blockIndex := h.desc.pos / blockSize
  match getBlockByIndex h blockIndex false with
  | none => none
  | some (none, found) => some ([], found)
  | some (some b, found) =>
    match readLoop found b blockIndex ⟨h.desc.pos % blockSize, Nat.mod_lt _ (by decide)⟩ toRead with
    | none => none
    | some (data, b, blockIndex, moved) => some (data, moved.setCursor (some b) blockIndex)

-- `memset` of the last block of the ring; the tail of an empty ring is not a block.
def Handle.clearLast (h : Handle) (start count : Nat) : Option Handle := do
  let b ← h.file.blocks.getLast?
  let heap ← h.heap.modify b (fun block => block.clear start count)
  pure { h with heap := heap }

def blocksFor (size : Nat) : Nat := (size + blockSize - 1) / blockSize

def Handle.grow (h : Handle) (newSize : Nat) : Option Handle :=
  let oldSize := h.file.size
  let grown := h.growTo (blocksFor newSize)
  let stop := min newSize (blocksFor oldSize * blockSize)
  if oldSize % blockSize ≠ 0 ∧ oldSize / blockSize < blocksFor newSize ∧ stop > oldSize then
    grown.clearLast (oldSize % blockSize) (stop - oldSize)
  else some grown

def Handle.shrink (h : Handle) (newSize : Nat) : Option Handle :=
  match h.shrinkTo (blocksFor newSize) with
  | none => none
  | some shrunk =>
    if newSize % blockSize ≠ 0 ∧ shrunk.file.blocksCount > 0 then
      shrunk.clearLast (newSize % blockSize) (blockSize - newSize % blockSize)
    else some shrunk

def Handle.reshape (h : Handle) (newSize : Nat) : Option Handle :=
  if newSize > h.file.size then h.grow newSize
  else if newSize < h.file.size then h.shrink newSize
  else some h

def Handle.resize (h : Handle) (newSize : Nat) : Option Handle :=
  (h.reshape newSize).map fun h => { h with file := { h.file with size := newSize } }

-- `find_file_by_name` from one place of the file list on.
def findFileByName (fs : Fs) (name : Option Name) : List Nat → Option (Option Nat)
  | [] => some none
  | f :: rest => do
      let file ← fs.file f
      if file.deleted then findFileByName fs name rest
      else
        -- comparing std::string with a null pointer is undefined
        let name' ← name
        if file.name = name' then some (some f) else findFileByName fs name rest

def Fs.slot (fs : Fs) (fd : Int) : Option FileDesc :=
  if fd ≤ 0 then none else (fs.fileDescriptors[(fd - 1).toNat]?).join

def Fs.setSlot (fs : Fs) (fd : Int) (desc : Option FileDesc) : Fs :=
  { fs with fileDescriptors := fs.fileDescriptors.set (fd - 1).toNat desc }

def Fs.handle (fs : Fs) (desc : FileDesc) : Option Handle :=
  (fs.file desc.atfile).map fun file => { desc := desc, file := file, heap := fs.heap }

def Fs.store (fs : Fs) (fd : Int) (h : Handle) : Fs :=
  { (fs.setSlot fd (some h.desc)).setFile h.desc.atfile h.file with heap := h.heap }

def Fs.mapDescriptors (fs : Fs) (f : Nat) (change : FileDesc → FileDesc) : Fs :=
  { fs with fileDescriptors := fs.fileDescriptors.map fun slot =>
      slot.map fun desc => if desc.atfile = f then change desc else desc }

def FileDesc.resetCursor (desc : FileDesc) : FileDesc :=
  { desc with curBlock := none, curBlockIndex := -1 }

def freeBlocks : Heap → List Nat → Option Heap
  | heap, [] => some heap
  | heap, b :: rest => (heap.deleteBlock b).bind fun heap => freeBlocks heap rest

def freeFileBlocks (fs : Fs) (f : Nat) : Option Fs := do
  let file ← fs.file f
  let heap ← freeBlocks fs.heap file.blocks
  let emptied := { file with blocks := [], last := none, blocksCount := 0 }
  pure ({ fs with heap := heap }.setFile f emptied |>.mapDescriptors f FileDesc.resetCursor)

def deleteFile (fs : Fs) (f : Nat) : Option Fs :=
  (fs.file f).map fun _ =>
    { fs with file := Function.update fs.file f none, releases := fs.releases ++ [f] }

def releaseFile (fs : Fs) (f : Nat) : Option Fs :=
  (freeFileBlocks fs f).bind fun fs => deleteFile fs f

def firstFree : List (Option FileDesc) → Nat
  | [] => 0
  | none :: _ => 0
  | some _ :: rest => firstFree rest + 1

def placeDescriptor (fs : Fs) (desc : FileDesc) : Int × Fs :=
  let i := firstFree fs.fileDescriptors
  let slots := if i < fs.fileDescriptors.length then fs.fileDescriptors.set i (some desc)
    else fs.fileDescriptors ++ [some desc]
  ((i : Int) + 1, { fs with fileDescriptors := slots, errorCode := .noErr })

def newFile (name : Name) : File :=
  { blocks := [], refs := 1, name := name, size := 0, last := none, blocksCount := 0,
    deleted := false }

def newDesc (f : Nat) (flags : Flags) : FileDesc :=
  { atfile := f, pos := 0, curBlock := none, curBlockIndex := 0, flags := flags }

def defaultFlags (flags : Flags) : Flags :=
  if flags &&& (ufsReadOnly ||| ufsWriteOnly ||| ufsReadWrite) = 0 then flags ||| ufsReadWrite
  else flags

def ufsOpen (fs : Fs) (filename : Option Name) (flags : Flags) : Option (Int × Fs) :=
  match filename with
  | none => some (-1, fs.setError .noFile)
  | some name =>
    let flags := defaultFlags flags
    match findFileByName fs (some name) fs.fileList with
    | none => none
    | some none =>
      if flags &&& ufsCreate ≠ 0 then
        let f := fs.nextFile
        let created := { fs with nextFile := f + 1, fileList := rlistAddTail fs.fileList f }.setFile
          f (newFile name)
        some (placeDescriptor created (newDesc f flags))
      else some (-1, fs.setError .noFile)
    | some (some f) =>
      (fs.file f).map fun file =>
        placeDescriptor (fs.setFile f { file with refs := file.refs + 1, deleted := false })
          (newDesc f flags)

def ufsWrite (fs : Fs) (fd : Int) (buf : List Byte) : Option (Int × Fs) :=
  match fs.slot fd with
  | none => some (-1, fs.setError .noFile)
  | some desc =>
    if desc.flags &&& ufsWriteOnly = 0 then some (-1, fs.setError .noPermission)
    else if buf.length = 0 then some (0, fs.setError .noErr)
    else if buf.length > maxFileSize ∨ desc.pos > maxFileSize - buf.length then
      some (-1, fs.setError .noMem)
    else do
      let h ← fs.handle desc
      let (written, h) ← h.write buf
      let code := if written < 0 then UfsErrorCode.noMem else .noErr
      pure (written, (fs.store fd h).setError code)

def ufsRead (fs : Fs) (fd : Int) (size : Nat) : Option (Int × List Byte × Fs) :=
  match fs.slot fd with
  | none => some (-1, [], fs.setError .noFile)
  | some desc =>
    if desc.flags &&& ufsReadOnly = 0 then some (-1, [], fs.setError .noPermission)
    else do
      let h ← fs.handle desc
      if desc.pos ≥ h.file.size then some (0, [], fs.setError .noErr)
      else
        let (data, h) ← h.read size
        pure (data.length, data, (fs.store fd h).setError .noErr)

def ufsClose (fs : Fs) (fd : Int) : Option (Int × Fs) :=
  match fs.slot fd with
  | none => some (-1, fs.setError .noFile)
  | some desc => do
      let file ← fs.file desc.atfile
      let released := { file with refs := file.refs - 1 }
      let closed := (fs.setSlot fd none).setFile desc.atfile released
      (if released.refs = 0 ∧ released.deleted then releaseFile closed desc.atfile
        else some closed).map fun rest => (0, rest.setError .noErr)

def ufsDelete (fs : Fs) (filename : Option Name) : Option (Int × Fs) :=
  match findFileByName fs filename fs.fileList with
  | none => none
  | some none => some (-1, fs.setError .noFile)
  | some (some f) => do
      let file ← fs.file f
      let unlisted := { fs with
        fileList := rlistDel fs.fileList f, deletions := fs.deletions ++ [f] }
      let marked := (unlisted.setFile f { file with deleted := true }).mapDescriptors f
        FileDesc.resetCursor
      (if file.refs = 0 then releaseFile marked f else some marked).map fun rest =>
        (0, rest.setError .noErr)

-- The descriptors behind the new end of the file restart from it.
def FileDesc.clampTo (newSize : Nat) (desc : FileDesc) : FileDesc :=
  if desc.pos > newSize then { desc.resetCursor with pos := newSize } else desc

def ufsResize (fs : Fs) (fd : Int) (newSize : Nat) : Option (Int × Fs) :=
  match fs.slot fd with
  | none => some (-1, fs.setError .noFile)
  | some desc =>
    if desc.flags &&& ufsWriteOnly = 0 then some (-1, fs.setError .noPermission)
    else if newSize > maxFileSize then some (-1, fs.setError .noMem)
    else do
      let h ← fs.handle desc
      let h ← h.resize newSize
      let stored := (fs.store fd h).mapDescriptors desc.atfile (FileDesc.clampTo newSize)
      pure (0, stored.setError .noErr)

-- The file objects of `files_to_delete`, each once.
def filesToDelete (fs : Fs) : List Nat :=
  ((fs.fileDescriptors.filterMap fun slot => slot.map FileDesc.atfile) ++ fs.fileList).dedup

def releaseFiles : Fs → List Nat → Option Fs
  | fs, [] => some fs
  | fs, f :: rest => (releaseFile fs f).bind fun fs => releaseFiles fs rest

-- `order` is the order in which the unordered set lists its elements.
def ufsDestroy (fs : Fs) (order : List Nat) : Option Fs :=
  (releaseFiles { fs with fileDescriptors := [], fileList := [] } order).map fun released =>
    released.setError .noErr

inductive Call where
  | open (filename : Option Name) (flags : Flags)
  | read (fd : Int) (size : Nat)
  | write (fd : Int) (buf : List Byte)
  | resize (fd : Int) (newSize : Nat)
  | close (fd : Int)
  | delete (filename : Option Name)

def call (fs : Fs) : Call → Option (Int × Fs)
  | .open filename flags => ufsOpen fs filename flags
  | .read fd size => (ufsRead fs fd size).map fun result => (result.1, result.2.2)
  | .write fd buf => ufsWrite fs fd buf
  | .resize fd newSize => ufsResize fs fd newSize
  | .close fd => ufsClose fs fd
  | .delete filename => ufsDelete fs filename

def step (fs : Fs) (c : Call) : Option Fs := (call fs c).map Prod.snd

end SystemProg.UserFs
