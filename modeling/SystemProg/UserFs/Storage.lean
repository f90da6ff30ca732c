import SystemProg.UserFs.References

set_option autoImplicit false

-- What a call does to the stored bytes, the positions and the cached blocks of all files and
-- descriptors, from a state whose cursors are valid.

namespace SystemProg.UserFs

open Rlist

def Fs.EachDescriptor (fs : Fs) (property : FileDesc → File → Prop) : Prop :=
  ∀ i desc file, fs.Opened i desc → fs.file desc.atfile = some file → property desc file

-- A property of a descriptor and its file that directory calls cannot break.
structure DirectoryStable (property : FileDesc → File → Prop) : Prop where
  relabel : ∀ {desc : FileDesc} {file file' : File}, file'.blocks = file.blocks →
    file'.size = file.size → property desc file → property desc file'
  reset : ∀ {desc : FileDesc} {file : File}, property desc file → property desc.resetCursor file
  opened : ∀ (f : Nat) (flags : Flags) (file : File), property (newDesc f flags) file

theorem cursorValid_stable : DirectoryStable CursorValid where
  relabel := fun blocks _ valid b cached => blocks ▸ valid b cached
  reset := fun _ b cached => by cases cached
  opened := fun _ _ _ b cached => by cases cached

theorem cursorBehind_stable : DirectoryStable fun desc _ => CursorBehind desc where
  relabel := fun _ _ behind => behind
  reset := fun _ b cached => by cases cached
  opened := fun _ _ _ b cached => by cases cached

theorem placed_stable : DirectoryStable fun desc file => desc.pos ≤ file.size where
  relabel := fun _ size placed => size ▸ placed
  reset := fun placed => placed
  opened := fun _ _ _ => Nat.zero_le _

section Descriptors

variable {fs : Fs} {property : FileDesc → File → Prop}

theorem Fs.EachDescriptor.mapDescriptors (each : fs.EachDescriptor property) (f : Nat)
    {change : FileDesc → FileDesc} (atfile : ∀ desc, (change desc).atfile = desc.atfile)
    (kept : ∀ desc file, fs.file f = some file → property desc file → property (change desc) file) :
    (fs.mapDescriptors f change).EachDescriptor property := by
  intro i d file opened held
  obtain ⟨desc, old, rfl⟩ := mapDescriptors_opened.mp opened
  split at held
  · next here =>
      rw [atfile] at held
      rw [if_pos here]
      exact kept desc file (here ▸ held) (each i desc file old held)
  · next away =>
      rw [if_neg away]
      exact each i desc file old held

theorem Fs.EachDescriptor.setFile (each : fs.EachDescriptor property)
    (stable : DirectoryStable property) {f : Nat} {file file' : File}
    (held : fs.file f = some file) (blocks : file'.blocks = file.blocks)
    (size : file'.size = file.size) : (fs.setFile f file').EachDescriptor property := by
  intro i desc k opened there
  rw [fs.setFile_file] at there
  split at there
  · next here =>
      cases there
      exact stable.relabel blocks size (each i desc file opened (here ▸ held))
  · exact each i desc k opened there

theorem Fs.EachDescriptor.store (each : fs.EachDescriptor property) {fd : Int} {desc : FileDesc}
    {h h' : Handle} (slot : fs.slot fd = some desc) (handle : fs.handle desc = some h)
    (atfile : h'.desc.atfile = h.desc.atfile) (own : property h'.desc h'.file)
    (others : ∀ d, property d h.file → property d h'.file) :
    (fs.store fd h').EachDescriptor property := by
  obtain ⟨held, rfl, -⟩ := fs.handle_eq handle
  intro i d file opened there
  rw [fs.store_file, atfile] at there
  rcases (fs.store_opened slot h').mp opened with ⟨-, rfl⟩ | ⟨-, old⟩
  · rw [if_pos atfile] at there
    cases there
    exact own
  · split at there
    · next here =>
        cases there
        exact others d (each i d h.file old (here ▸ held))
    · exact each i d file old there

theorem Fs.EachDescriptor.withSlotClosed (each : fs.EachDescriptor property)
    (stable : DirectoryStable property) {fd : Int} {desc : FileDesc} {file : File}
    (slot : fs.slot fd = some desc) (held : fs.file desc.atfile = some file) :
    (fs.withSlotClosed fd desc.atfile file).EachDescriptor property := by
  have closed : (fs.setSlot fd none).EachDescriptor property := by
    intro i d k opened there
    rcases (setSlot_opened slot none).mp opened with ⟨-, empty⟩ | ⟨-, old⟩
    · cases empty
    · exact each i d k old there
  exact closed.setFile stable held rfl rfl

theorem Fs.EachDescriptor.withFileUnlisted (each : fs.EachDescriptor property)
    (stable : DirectoryStable property) {f : Nat} {file : File} (held : fs.file f = some file) :
    (fs.withFileUnlisted f file).EachDescriptor property := by
  have unlisted : { fs with
      fileList := rlistDel fs.fileList f, deletions := fs.deletions ++ [f] }.EachDescriptor
        property := each
  have marked : (Fs.setFile _ f { file with deleted := true }).EachDescriptor property :=
    unlisted.setFile stable held rfl rfl
  exact marked.mapDescriptors f resetCursor_atfile fun _ _ _ => stable.reset

theorem Fs.EachDescriptor.withoutFile (each : fs.EachDescriptor property)
    (stable : DirectoryStable property) (f : Nat) (heap : Heap) :
    (fs.withoutFile f heap).EachDescriptor property := by
  intro i d file opened there
  rw [fs.withoutFile_file] at there
  split at there
  · cases there
  · exact each.mapDescriptors f resetCursor_atfile (fun _ _ _ => stable.reset) i d file opened there

theorem Fs.EachDescriptor.placeDescriptor (each : fs.EachDescriptor property)
    (stable : DirectoryStable property) (f : Nat) (flags : Flags) :
    (placeDescriptor fs (newDesc f flags)).2.EachDescriptor property := by
  intro i d file opened there
  rcases placeDescriptor_opened.mp opened with ⟨-, rfl⟩ | old
  · exact stable.opened f flags file
  · exact each i d file old there

end Descriptors

theorem Effect.eachDescriptor {fs fs' : Fs} {c : Call} {r : Int} (effect : Effect fs c r fs')
    (linked : fs.Linked) (directory : c.transfers = false) {property : FileDesc → File → Prop}
    (stable : DirectoryStable property) (each : fs.EachDescriptor property) :
    fs'.EachDescriptor property := by
  cases effect with
  | failed c r code => exact each
  | wrote => cases directory
  | readBytes => cases directory
  | resized => cases directory
  | reopened found held =>
      have referenced : (fs.withReference _ _).EachDescriptor property :=
        each.setFile stable held rfl rfl
      exact referenced.placeDescriptor stable _ _
  | @created name flags absent =>
      have grown : (fs.withNewFile name).EachDescriptor property := by
        intro i desc file opened there
        have known := linked.known i desc opened
        rw [fs.withNewFile_file, if_neg (by omega)] at there
        exact each i desc file opened there
      exact grown.placeDescriptor stable _ _
  | closed slot held needed => exact each.withSlotClosed stable slot held
  | @closedLast fd desc file heap slot held last ghost freed =>
      exact (each.withSlotClosed stable slot held).withoutFile stable desc.atfile heap
  | unlisted found held needed => exact each.withFileUnlisted stable held
  | @deleted filename f file heap found held unused freed =>
      exact (each.withFileUnlisted stable held).withoutFile stable f heap

def Fs.EachStored (fs : Fs) : Prop := ∀ f file, fs.file f = some file → file.Stored fs.heap

theorem File.Stored.congr {file file' : File} {heap heap' : Heap} (stored : file.Stored heap)
    (blocks : file'.blocks = file.blocks) (count : file'.blocksCount = file.blocksCount)
    (size : file'.size = file.size)
    (same : ∀ b ∈ file.blocks, heap'.block b = heap.block b) : file'.Stored heap' where
  counted := by rw [count, blocks, stored.counted]
  sized := by rw [blocks, size, stored.sized]
  bounded := size ▸ stored.bounded
  zeroTail := by
    intro b block last held i past
    rw [blocks] at last past
    rw [size] at past
    rw [same b (List.mem_of_getLast? last)] at held
    exact stored.zeroTail b block last held i past

theorem Fs.EachStored.setFile {fs : Fs} (each : fs.EachStored) {f : Nat} {file file' : File}
    (held : fs.file f = some file) (blocks : file'.blocks = file.blocks)
    (count : file'.blocksCount = file.blocksCount) (size : file'.size = file.size) :
    (fs.setFile f file').EachStored := by
  intro g k there
  rw [fs.setFile_file] at there
  split at there
  · cases there
    exact (each f file held).congr blocks count size fun _ _ => rfl
  · exact each g k there

theorem Fs.EachStored.withSlotClosed {fs : Fs} (each : fs.EachStored) (fd : Int) {f : Nat}
    {file : File} (held : fs.file f = some file) : (fs.withSlotClosed fd f file).EachStored := by
  have closed : (fs.setSlot fd none).EachStored := each
  exact closed.setFile held rfl rfl rfl

theorem Fs.EachStored.store {fs : Fs} (each : fs.EachStored) (linked : fs.Linked) {fd : Int}
    {desc : FileDesc} {h h' : Handle} (handle : fs.handle desc = some h) (keeps : h.Keeps h')
    (stored : h'.file.Stored h'.heap) : (fs.store fd h').EachStored := by
  obtain ⟨held, rfl, heap⟩ := fs.handle_eq handle
  intro g k there
  rw [fs.store_file, keeps.atfile] at there
  split at there
  · cases there
    exact stored
  · next away =>
      refine (each g k there).congr rfl rfl rfl fun b inside => ?_
      change h'.heap.block b = fs.heap.block b
      have old := (linked.sound there h.desc).lt_next inside
      rw [← heap]
      exact keeps.others b (linked.apart _ _ _ _ away there held b inside) (heap ▸ old)

theorem Fs.EachStored.withoutFile {fs : Fs} (each : fs.EachStored) (linked : fs.Linked) {f : Nat}
    {file : File} {heap : Heap} (held : fs.file f = some file)
    (freed : freeBlocks fs.heap file.blocks = some heap) : (fs.withoutFile f heap).EachStored := by
  intro g k there
  rw [fs.withoutFile_file] at there
  split at there
  · cases there
  · next away =>
      refine (each g k there).congr rfl rfl rfl fun b inside => ?_
      exact ((freeBlocks_spec freed).2 b).trans
        (if_neg (linked.apart g f k file away there held b inside))

theorem newFile_stored (name : Name) (heap : Heap) : (newFile name).Stored heap where
  counted := rfl
  sized := by
    change 0 = blocksFor 0
    decide
  bounded := Nat.zero_le _
  zeroTail := by
    intro b block last
    cases last

theorem Effect.eachStored {fs fs' : Fs} {c : Call} {r : Int} (effect : Effect fs c r fs')
    (linked : fs.Linked) (directory : c.transfers = false) (each : fs.EachStored) :
    fs'.EachStored := by
  cases effect with
  | failed c r code => exact each
  | wrote => cases directory
  | readBytes => cases directory
  | resized => cases directory
  | reopened found held => exact each.setFile held rfl rfl rfl
  | @created name flags absent =>
      intro g k there
      have there : (fs.withNewFile name).file g = some k := there
      rw [fs.withNewFile_file] at there
      split at there
      · cases there
        exact newFile_stored name _
      · exact each g k there
  | closed slot held needed => exact each.withSlotClosed _ held
  | @closedLast fd desc file heap slot held last ghost freed =>
      have closed := each.withSlotClosed fd held
      exact closed.withoutFile (linked.withSlotClosed slot held) (Function.update_self ..) freed
  | unlisted found held needed => exact Fs.EachStored.setFile each held rfl rfl rfl
  | deleted found held unused freed =>
      have marked : (fs.withFileUnlisted _ _).EachStored := Fs.EachStored.setFile each held rfl rfl rfl
      exact marked.withoutFile (linked.withFileUnlisted held) (Function.update_self ..) freed

structure Fs.Storage (fs : Fs) : Prop where
  stored : fs.EachStored
  placed : fs.EachDescriptor fun desc file => desc.pos ≤ file.size

theorem Fs.Storage.setError {fs : Fs} (storage : fs.Storage) (code : UfsErrorCode) :
    (fs.setError code).Storage := ⟨storage.stored, storage.placed⟩

def Fs.CursorsValid (fs : Fs) : Prop :=
  ∀ i desc, fs.Opened i desc → desc.curBlock ≠ none →
    ∃ file, fs.file desc.atfile = some file ∧ CursorValid desc file

def Fs.CursorsBehind (fs : Fs) : Prop := fs.EachDescriptor fun desc _ => CursorBehind desc

instance (desc : FileDesc) (file : File) : Decidable (CursorValid desc file) :=
  decidable_of_iff (∀ b ∈ desc.curBlock, 0 ≤ desc.curBlockIndex ∧
    file.blocks[desc.curBlockIndex.toNat]? = some b) Iff.rfl

instance (fs : Fs) : Decidable fs.CursorsValid :=
  decidable_of_iff (∀ slot ∈ fs.fileDescriptors, ∀ desc ∈ slot, desc.curBlock ≠ none →
      ∃ file ∈ fs.file desc.atfile, CursorValid desc file) <| by
    constructor
    · exact fun each i desc opened => each _ (List.mem_of_getElem? opened) desc rfl
    · rintro each slot mem desc rfl
      obtain ⟨i, opened⟩ := List.mem_iff_getElem?.mp mem
      exact each i desc opened

theorem Fs.CursorsValid.each {fs : Fs} (valid : fs.CursorsValid) :
    fs.EachDescriptor CursorValid := by
  intro i desc file opened held b cached
  obtain ⟨file', held', cursor⟩ := valid i desc opened (by simp [cached])
  cases held.symm.trans held'
  exact cursor b cached

theorem Fs.ready {fs : Fs} (linked : fs.Linked) (storage : fs.Storage)
    (cursors : fs.EachDescriptor CursorValid) {fd : Int} {desc : FileDesc} {h : Handle}
    (slot : fs.slot fd = some desc) (handle : fs.handle desc = some h) : h.Ready := by
  obtain ⟨held, rfl, heap⟩ := fs.handle_eq handle
  obtain ⟨desc, file, _⟩ := h
  cases heap
  exact ⟨linked.sound held desc, storage.stored _ _ held,
    cursors _ _ _ (slot_opened slot) held, storage.placed _ _ _ (slot_opened slot) held⟩

section Transfers

variable {fs : Fs} (linked : fs.Linked) (storage : fs.Storage) {fd : Int} {desc : FileDesc}
  {h h' : Handle} (slot : fs.slot fd = some desc) (handle : fs.handle desc = some h)

include linked storage slot handle

theorem store_storage (keeps : h.Keeps h') (stored : h'.file.Stored h'.heap)
    (placed : h'.desc.pos ≤ h'.file.size) (grown : h.file.size ≤ h'.file.size) :
    (fs.store fd h').Storage where
  stored := storage.stored.store linked handle keeps stored
  placed := storage.placed.store slot handle keeps.atfile placed fun _ before => before.trans grown

theorem resized_storage {newSize : Nat} (keeps : h.Keeps h') (stored : h'.file.Stored h'.heap)
    (size : h'.file.size = newSize) :
    ((fs.store fd h').mapDescriptors desc.atfile (FileDesc.clampTo newSize)).Storage where
  stored := storage.stored.store linked handle keeps stored
  placed := by
    obtain ⟨held, rfl, -⟩ := fs.handle_eq handle
    intro i d file opened there
    obtain ⟨old, was, rfl⟩ := mapDescriptors_opened.mp opened
    have there : (fs.store fd h').file _ = some file := there
    rw [fs.store_file, keeps.atfile] at there
    by_cases here : old.atfile = h.desc.atfile
    · rw [if_pos here] at there ⊢
      rw [clampTo_atfile, if_pos here] at there
      cases there
      rw [size]
      unfold FileDesc.clampTo
      split
      · exact le_rfl
      · next inside => exact Nat.le_of_not_gt inside
    · rw [if_neg here] at there ⊢
      rw [if_neg here] at there
      rcases (fs.store_opened slot h').mp was with ⟨-, rfl⟩ | ⟨-, opened⟩
      · exact absurd keeps.atfile here
      · exact storage.placed i old file opened there

end Transfers

theorem CursorValid.append {desc : FileDesc} {file file' : File} {fresh : List Nat}
    (valid : CursorValid desc file) (blocks : file'.blocks = file.blocks ++ fresh) :
    CursorValid desc file' := by
  intro b cached
  obtain ⟨nonneg, found⟩ := valid b cached
  refine ⟨nonneg, ?_⟩
  rw [blocks, List.getElem?_append_left (List.getElem?_eq_some_iff.mp found).1]
  exact found

theorem Effect.storage {fs fs' : Fs} {c : Call} {r : Int} (effect : Effect fs c r fs')
    (linked : fs.Linked) (storage : fs.Storage) (cursors : fs.EachDescriptor CursorValid) :
    fs'.Storage := by
  have directory : c.transfers = false → fs'.Storage := fun directory =>
    ⟨effect.eachStored linked directory storage.stored,
      effect.eachDescriptor linked directory placed_stable storage.placed⟩
  cases effect with
  | failed c r code => exact storage.setError code
  | wrote code slot allowed handle nonempty fits run =>
      have ready := fs.ready linked storage cursors slot handle
      obtain ⟨-, rfl, -⟩ := fs.handle_eq handle
      obtain ⟨g, n, ran, keeps, done, -, -, pos, size, -⟩ := write_spec ready nonempty fits
      cases run.symm.trans ran
      exact (store_storage linked storage slot handle keeps done.stored done.placed
        (by omega)).setError code
  | readBytes slot allowed handle before run =>
      have ready := fs.ready linked storage cursors slot handle
      obtain ⟨-, rfl, -⟩ := fs.handle_eq handle
      obtain ⟨data, g, ran, keeps, done, -, file, -⟩ := read_spec ready before _
      cases run.symm.trans ran
      exact (store_storage linked storage slot handle keeps done.stored done.placed
        (by rw [file])).setError _
  | resized slot allowed handle bounded run =>
      have ready := fs.ready linked storage cursors slot handle
      obtain ⟨g, ran, keeps, -, stored, -, size, -⟩ := resize_spec ready.sound ready.stored bounded
      cases run.symm.trans ran
      exact (resized_storage linked storage slot handle keeps stored size).setError _
  | reopened | created | closed | closedLast | unlisted | deleted => exact directory rfl

structure Fs.Valid (fs : Fs) : Prop extends fs.Linked where
  live : ∀ i desc, fs.Opened i desc → (fs.file desc.atfile).isSome
  listedLive : ∀ f ∈ fs.fileList, (fs.file f).isSome

theorem Fs.Referenced.valid {fs : Fs} (referenced : fs.Referenced) (linked : fs.Linked) :
    fs.Valid where
  toLinked := linked
  live := fun _ _ opened => referenced.live _ opened.openCount_pos
  listedLive := fun f inside => ((referenced.listed f).mp inside).1

theorem Fs.Valid.handle {fs : Fs} (valid : fs.Valid) {fd : Int} {desc : FileDesc}
    (slot : fs.slot fd = some desc) : ∃ h, fs.handle desc = some h := by
  obtain ⟨file, held⟩ := Option.isSome_iff_exists.mp (valid.live _ _ (slot_opened slot))
  exact ⟨⟨desc, file, fs.heap⟩, by rw [Fs.handle, held]; rfl⟩

theorem releaseFile_defined {fs : Fs} (linked : fs.Linked) {f : Nat} {file : File}
    (held : fs.file f = some file) : ∃ fs', releaseFile fs f = some fs' := by
  obtain ⟨heap, freed⟩ :=
    freeBlocks_defined (linked.distinct f file held) (linked.allocated f file held)
  exact ⟨fs.withoutFile f heap, by rw [releaseFile_eq held, freed]; rfl⟩

section Defined

variable {fs : Fs} (valid : fs.Valid)

include valid

theorem ufsOpen_defined (filename : Option Name) (flags : Flags) :
    ∃ result, ufsOpen fs filename flags = some result := by
  cases filename with
  | none => exact ⟨_, rfl⟩
  | some name =>
      obtain ⟨found, lookup⟩ := findFileByName_defined name valid.listedLive
      unfold ufsOpen
      dsimp only
      rw [lookup]
      cases found with
      | none =>
          dsimp only
          split <;> exact ⟨_, rfl⟩
      | some f =>
          obtain ⟨-, file, held, -⟩ := findFileByName_found lookup
          exact ⟨_, congrArg (Option.map _) held⟩

theorem ufsClose_defined (fd : Int) : ∃ result, ufsClose fs fd = some result := by
  unfold ufsClose
  cases slot : fs.slot fd with
  | none => exact ⟨_, rfl⟩
  | some desc =>
      obtain ⟨h, handle⟩ := valid.handle slot
      obtain ⟨held, rfl, -⟩ := fs.handle_eq handle
      simp only [held, bind, Option.bind_some]
      split
      · obtain ⟨rest, released⟩ := releaseFile_defined
          (valid.withSlotClosed slot held) (Function.update_self ..)
        exact ⟨_, congrArg _ released⟩
      · exact ⟨_, rfl⟩

theorem ufsDelete_defined (name : Name) : ∃ result, ufsDelete fs (some name) = some result := by
  obtain ⟨found, lookup⟩ := findFileByName_defined name valid.listedLive
  unfold ufsDelete
  rw [lookup]
  cases found with
  | none => exact ⟨_, rfl⟩
  | some f =>
      obtain ⟨-, file, held, -⟩ := findFileByName_found lookup
      simp only [held, bind, Option.bind_some]
      split
      · obtain ⟨rest, released⟩ := releaseFile_defined
          (valid.withFileUnlisted held) (Function.update_self ..)
        exact ⟨_, congrArg _ released⟩
      · exact ⟨_, rfl⟩

variable (storage : fs.Storage) (cursors : fs.EachDescriptor CursorValid)

include storage cursors

theorem ufsWrite_defined (fd : Int) (buf : List Byte) : ∃ result, ufsWrite fs fd buf = some result := by
  unfold ufsWrite
  cases slot : fs.slot fd with
  | none => exact ⟨_, rfl⟩
  | some desc =>
      dsimp only
      split
      · exact ⟨_, rfl⟩
      split
      · exact ⟨_, rfl⟩
      split
      · exact ⟨_, rfl⟩
      next nonempty fits =>
      obtain ⟨h, handle⟩ := valid.handle slot
      have ready := fs.ready valid.toLinked storage cursors slot handle
      obtain ⟨-, rfl, -⟩ := fs.handle_eq handle
      obtain ⟨g, n, ran, -⟩ := write_spec ready (show 0 < buf.length by omega) (by omega)
      simp only [handle, ran, bind, Option.bind_some]
      exact ⟨_, rfl⟩

theorem ufsRead_defined (fd : Int) (size : Nat) : ∃ result, ufsRead fs fd size = some result := by
  unfold ufsRead
  cases slot : fs.slot fd with
  | none => exact ⟨_, rfl⟩
  | some desc =>
      dsimp only
      split
      · exact ⟨_, rfl⟩
      obtain ⟨h, handle⟩ := valid.handle slot
      have ready := fs.ready valid.toLinked storage cursors slot handle
      obtain ⟨-, rfl, -⟩ := fs.handle_eq handle
      simp only [handle, bind, Option.bind_some]
      split
      · exact ⟨_, rfl⟩
      next before =>
      obtain ⟨data, g, ran, -⟩ := read_spec ready (by omega) size
      rw [ran]
      exact ⟨_, rfl⟩

theorem ufsResize_defined (fd : Int) (newSize : Nat) :
    ∃ result, ufsResize fs fd newSize = some result := by
  unfold ufsResize
  cases slot : fs.slot fd with
  | none => exact ⟨_, rfl⟩
  | some desc =>
      dsimp only
      split
      · exact ⟨_, rfl⟩
      split
      · exact ⟨_, rfl⟩
      next bounded =>
      obtain ⟨h, handle⟩ := valid.handle slot
      have ready := fs.ready valid.toLinked storage cursors slot handle
      obtain ⟨g, ran, -⟩ := resize_spec ready.sound ready.stored (Nat.not_lt.mp bounded)
      simp only [handle, ran, bind, Option.bind_some]
      exact ⟨_, rfl⟩

theorem call_defined (c : Call) (named : c ≠ .delete none) : ∃ result, call fs c = some result := by
  cases c with
  | «open» filename flags => exact ufsOpen_defined valid filename flags
  | read fd size =>
      obtain ⟨result, ran⟩ := ufsRead_defined valid storage cursors fd size
      exact ⟨_, congrArg (Option.map _) ran⟩
  | write fd buf => exact ufsWrite_defined valid storage cursors fd buf
  | resize fd newSize => exact ufsResize_defined valid storage cursors fd newSize
  | close fd => exact ufsClose_defined valid fd
  | delete filename =>
      cases filename with
      | none => exact absurd rfl named
      | some name => exact ufsDelete_defined valid name

end Defined

-- Every call has a defined outcome, and the storage invariant survives it; where the counts of
-- references were right, no call takes the file of an open descriptor away.
theorem call_storage {fs : Fs} (valid : fs.Valid) (storage : fs.Storage)
    (cursors : fs.CursorsValid) (c : Call) :
    (c ≠ .delete none → ∃ result, call fs c = some result) ∧
      ∀ r fs', call fs c = some (r, fs') → fs'.Storage ∧ (fs.Counted → fs'.Counted) := by
  refine ⟨call_defined valid storage cursors.each c, fun r fs' run => ?_⟩
  have effect := call_effect run
  exact ⟨effect.storage valid.toLinked storage cursors.each, effect.counted valid.toLinked⟩

def oneByteFile : File where
  blocks := [0]
  refs := 1
  name := [97]
  size := 1
  last := some 0
  blocksCount := 1
  deleted := false

def oneByteDesc : FileDesc where
  atfile := 0
  pos := 1
  curBlock := some 0
  curBlockIndex := 0
  flags := ufsReadWrite

def oneByte : Fs where
  errorCode := .noErr
  fileList := [0]
  fileDescriptors := [some oneByteDesc]
  file := Function.update (fun _ => none) 0 (some oneByteFile)
  nextFile := 1
  heap :=
    { block := Function.update (fun _ => none) 0 (some (Block.zero.copyIn 0 [98]))
      next := 1 }
  deletions := []
  releases := []

theorem oneByte_file {f : Nat} {file : File} (held : oneByte.file f = some file) :
    f = 0 ∧ file = oneByteFile := by
  by_cases here : f = 0
  · subst here
    exact ⟨rfl, (Option.some.inj held).symm⟩
  · simp [oneByte, Function.update_of_ne here] at held

theorem oneByte_opened {i : Nat} {desc : FileDesc} (opened : oneByte.Opened i desc) :
    desc = oneByteDesc := by
  cases i with
  | zero => exact (Option.some.inj (Option.some.inj opened)).symm
  | succ i => simp [Fs.Opened, oneByte] at opened

theorem oneByte_valid : oneByte.Valid where
  distinct := fun f file held => by simp [(oneByte_file held).2, oneByteFile]
  allocated := fun f file held b inside => by
    rw [(oneByte_file held).2] at inside
    rw [List.mem_singleton.mp inside]
    rfl
  apart := fun f g file file' different held held' =>
    absurd ((oneByte_file held).1.trans (oneByte_file held').1.symm) different
  freshBlocks := fun b fresh => by
    have away : b ≠ 0 := Nat.one_le_iff_ne_zero.mp fresh
    simp [oneByte, Function.update_of_ne away]
  freshFiles := fun f fresh => by
    have away : f ≠ 0 := Nat.one_le_iff_ne_zero.mp fresh
    simp [oneByte, Function.update_of_ne away]
  counted := fun f file held => by simp [(oneByte_file held).2, oneByteFile]
  known := fun i desc opened => by simp [oneByte_opened opened, oneByte, oneByteDesc]
  owned := fun i desc file opened held b cached => by
    rw [oneByte_opened opened] at cached
    cases cached
    simp [(oneByte_file held).2, oneByte, oneByteFile]
  live := fun i desc opened => by
    rw [oneByte_opened opened]
    rfl
  listedLive := fun f inside => by
    rw [List.mem_singleton.mp inside]
    rfl

theorem oneByte_storage : oneByte.Storage where
  stored := fun f file held => by
    rw [(oneByte_file held).2]
    refine ⟨rfl, by decide, by decide, fun b block last there i past => ?_⟩
    cases last
    cases there
    have past : 1 ≤ 512 * 0 + i.val := past
    simp only [Block.copyIn, Block.zero, List.length_singleton]
    rw [if_neg (by omega)]
  placed := fun i desc file opened held => by
    rw [oneByte_opened opened, (oneByte_file held).2]
    exact le_rfl

theorem oneByte_cursors : oneByte.CursorsValid := by
  intro i desc opened _
  rw [oneByte_opened opened]
  refine ⟨_, rfl, ?_⟩
  rintro b ⟨⟩
  exact ⟨by decide, rfl⟩

theorem call_storage_oneByte :
    ∃ r fs', call oneByte (.resize 1 0) = some (r, fs') ∧ fs'.Storage := by
  obtain ⟨defined, kept⟩ :=
    call_storage oneByte_valid oneByte_storage oneByte_cursors (.resize 1 0)
  obtain ⟨⟨r, fs'⟩, run⟩ := defined (by simp)
  exact ⟨r, fs', run, (kept r fs' run).1⟩

end SystemProg.UserFs
