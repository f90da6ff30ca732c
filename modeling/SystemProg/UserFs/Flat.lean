import SystemProg.UserFs.Storage

set_option autoImplicit false

-- What a caller can see of the file system: the bytes of each file, and the file, position and
-- flags of each open descriptor. The calls on a descriptor are stated over that view and compared
-- with the block lists.

namespace SystemProg.UserFs

open Rlist

def blockBytes (heap : Heap) (blocks : List Nat) : List Byte :=
  blocks.flatMap fun b => ((heap.block b).map fun block => List.ofFn block.memory).getD []

def File.content (file : File) (heap : Heap) : List Byte :=
  (blockBytes heap file.blocks).take file.size

structure Opening where
  file : Nat
  pos : Nat
  flags : Flags

def FileDesc.opening (desc : FileDesc) : Opening := ⟨desc.atfile, desc.pos, desc.flags⟩

structure Flat where
  content : Nat → Option (List Byte)
  opening : Int → Option Opening

def Fs.flat (fs : Fs) : Flat where
  content := fun f => (fs.file f).map fun file => file.content fs.heap
  opening := fun fd => (fs.slot fd).map FileDesc.opening

def Flat.write (flat : Flat) (fd : Int) (buf : List Byte) : Int × Flat :=
  match flat.opening fd with
  | none => (-1, flat)
  | some o =>
      if o.flags &&& ufsWriteOnly = 0 ∨ o.pos + buf.length > maxFileSize then (-1, flat)
      else
        (buf.length,
          { content := Function.update flat.content o.file ((flat.content o.file).map fun old =>
              old.take o.pos ++ buf ++ old.drop (o.pos + buf.length))
            opening := Function.update flat.opening fd (some { o with pos := o.pos + buf.length }) })

def Flat.read (flat : Flat) (fd : Int) (size : Nat) : Int × List Byte × Flat :=
  match flat.opening fd with
  | none => (-1, [], flat)
  | some o =>
      if o.flags &&& ufsReadOnly = 0 then (-1, [], flat)
      else
        let content := (flat.content o.file).getD []
        let data := (content.take (min (o.pos + size) content.length)).drop o.pos
        (data.length, data,
          { flat with
            opening := Function.update flat.opening fd (some { o with pos := o.pos + data.length }) })

def Flat.resize (flat : Flat) (fd : Int) (newSize : Nat) : Int × Flat :=
  match flat.opening fd with
  | none => (-1, flat)
  | some o =>
      if o.flags &&& ufsWriteOnly = 0 ∨ newSize > maxFileSize then (-1, flat)
      else
        (0,
          { content := Function.update flat.content o.file ((flat.content o.file).map fun old =>
              old.take newSize ++ List.replicate (newSize - old.length) 0)
            opening := fun fd => (flat.opening fd).map fun p =>
              if p.file = o.file then { p with pos := min p.pos newSize } else p })

theorem blockBytes_cons (heap : Heap) (b : Nat) (blocks : List Nat) : blockBytes heap (b :: blocks) =
    ((heap.block b).map fun block => List.ofFn block.memory).getD [] ++ blockBytes heap blocks :=
  List.flatMap_cons

theorem blockBytes_length {heap : Heap} {blocks : List Nat}
    (allocated : ∀ b ∈ blocks, (heap.block b).isSome) :
    (blockBytes heap blocks).length = blockSize * blocks.length := by
  induction blocks with
  | nil => rfl
  | cons b blocks ih =>
      obtain ⟨block, held⟩ := Option.isSome_iff_exists.mp (allocated b (by simp))
      have full : (List.ofFn block.memory).length = blockSize := List.length_ofFn
      rw [blockBytes_cons, held, Option.map_some, Option.getD_some, List.length_append, full,
        ih fun b inside => allocated b (by simp [inside]), List.length_cons, Nat.mul_succ,
        Nat.add_comm]

theorem blockBytes_get {heap : Heap} {blocks : List Nat}
    (allocated : ∀ b ∈ blocks, (heap.block b).isSome) (k : Nat) :
    (blockBytes heap blocks)[k]? = byteAt heap blocks k := by
  induction blocks generalizing k with
  | nil => simp [blockBytes, byteAt]
  | cons b blocks ih =>
      obtain ⟨block, held⟩ := Option.isSome_iff_exists.mp (allocated b (by simp))
      rw [blockBytes_cons, held, Option.map_some, Option.getD_some]
      by_cases first : k < blockSize
      · have row : k / blockSize = 0 := Nat.div_eq_of_lt first
        have column : k % blockSize = k := Nat.mod_eq_of_lt first
        rw [List.getElem?_append_left (by simpa using first), List.getElem?_ofFn, dif_pos first]
        simp [byteAt, row, held, column]
      · have row : k / blockSize = (k - blockSize) / blockSize + 1 := by
          simp only [blockSize] at *
          omega
        have column : k % blockSize = (k - blockSize) % blockSize := by
          simp only [blockSize] at *
          omega
        rw [List.getElem?_append_right (by simpa using first), List.length_ofFn,
          ih fun b inside => allocated b (by simp [inside])]
        simp only [byteAt, row, column, List.getElem?_cons_succ]

theorem content_length {h : Handle} (sound : h.Sound) (stored : h.file.Stored h.heap) :
    (h.file.content h.heap).length = h.file.size := by
  have sized := stored.sized
  rw [File.content, List.length_take, blockBytes_length sound.allocated]
  simp only [blocksFor, blockSize] at *
  omega

theorem content_get {h : Handle} (sound : h.Sound) (k : Nat) :
    (h.file.content h.heap)[k]? = if k < h.file.size then h.byteAt k else none := by
  rw [File.content, List.getElem?_take]
  split
  · exact blockBytes_get sound.allocated k
  · rfl

theorem content_congr {file : File} {heap heap' : Heap}
    (same : ∀ b ∈ file.blocks, heap'.block b = heap.block b) :
    file.content heap' = file.content heap := by
  have bytes : blockBytes heap' file.blocks = blockBytes heap file.blocks := by
    unfold blockBytes
    exact List.flatMap_congr fun b inside => by rw [same b inside]
  rw [File.content, bytes, File.content]

theorem content_eq {h : Handle} (sound : h.Sound) {bytes : List Byte}
    (length : bytes.length = h.file.size) (same : ∀ k < h.file.size, h.byteAt k = bytes[k]?) :
    h.file.content h.heap = bytes := by
  apply List.ext_getElem?
  intro k
  rw [content_get sound]
  split
  · next inside => exact same k inside
  · next beyond => rw [List.getElem?_eq_none (by omega)]

theorem slot_setSlot {fs : Fs} {fd : Int} {desc : FileDesc} (slot : fs.slot fd = some desc)
    (desc' : FileDesc) (fd' : Int) :
    (fs.setSlot fd (some desc')).slot fd' = if fd' = fd then some desc' else fs.slot fd' := by
  have positive : ¬ fd ≤ 0 := by
    intro low
    rw [Fs.slot, if_pos low] at slot
    cases slot
  have inside := (slot_opened slot).lt
  by_cases same : fd' = fd
  · subst same
    rw [if_pos rfl, Fs.slot, if_neg positive, Fs.setSlot, List.getElem?_set_self inside]
    rfl
  · rw [if_neg same, Fs.slot, Fs.slot]
    split
    · rfl
    · next positive' =>
        have apart : (fd - 1).toNat ≠ (fd' - 1).toNat := by omega
        rw [Fs.setSlot, List.getElem?_set_ne apart]

section Store

variable {fs : Fs} (linked : fs.Linked) {fd : Int} {desc : FileDesc} {h h' : Handle}
  (slot : fs.slot fd = some desc) (handle : fs.handle desc = some h) (keeps : h.Keeps h')

include linked slot handle keeps

theorem store_flat : (fs.store fd h').flat =
    { content := Function.update fs.flat.content desc.atfile (some (h'.file.content h'.heap))
      opening := Function.update fs.flat.opening fd
        (some { desc.opening with pos := h'.desc.pos }) } := by
  obtain ⟨held, rfl, heap⟩ := fs.handle_eq handle
  have opened : h'.desc.opening = { h.desc.opening with pos := h'.desc.pos } := by
    rw [FileDesc.opening, keeps.atfile, keeps.flags]
    rfl
  unfold Fs.flat
  congr 1
  · funext f
    rw [fs.store_file, keeps.atfile, Function.update_apply]
    split
    · rfl
    · next away =>
        change Option.map _ (fs.file f) = Option.map _ (fs.file f)
        cases there : fs.file f with
        | none => rfl
        | some file =>
            have same : ∀ b ∈ file.blocks, h'.heap.block b = fs.heap.block b := by
              intro b inside
              have old := (linked.sound there h.desc).lt_next inside
              rw [← heap]
              exact keeps.others b (linked.apart _ _ _ _ away there held b inside) (heap ▸ old)
            exact congrArg some (content_congr same)
  · funext fd'
    rw [Function.update_apply, ← opened]
    have table := slot_setSlot slot h'.desc fd'
    change ((fs.setSlot fd (some h'.desc)).slot fd').map FileDesc.opening = _
    rw [table]
    split <;> rfl

end Store

theorem flat_opening {fs : Fs} {fd : Int} {desc : FileDesc} (slot : fs.slot fd = some desc) :
    fs.flat.opening fd = some desc.opening := congrArg (Option.map _) slot

theorem flat_closed {fs : Fs} {fd : Int} (slot : fs.slot fd = none) : fs.flat.opening fd = none :=
  congrArg (Option.map _) slot

theorem flat_content {fs : Fs} {desc : FileDesc} {h : Handle} (handle : fs.handle desc = some h) :
    fs.flat.content desc.atfile = some (h.file.content h.heap) := by
  obtain ⟨held, -, heap⟩ := fs.handle_eq handle
  rw [heap]
  exact congrArg (Option.map _) held

section Bytes

variable {h g : Handle} (ready : h.Ready)

include ready

theorem content_written {buf : List Byte} {limit : Nat} (sound : g.Sound)
    (size : g.file.size = max h.file.size (h.desc.pos + buf.length))
    (bytes : ∀ k, g.byteAt k =
      if h.desc.pos ≤ k ∧ k < h.desc.pos + buf.length then buf[k - h.desc.pos]?
      else (h.byteAt k).or (if k < limit then some 0 else none)) :
    g.file.content g.heap = (h.file.content h.heap).take h.desc.pos ++ buf ++
      (h.file.content h.heap).drop (h.desc.pos + buf.length) := by
  have old := content_length ready.sound ready.stored
  have placed := ready.placed
  apply content_eq sound
  · simp only [List.length_append, List.length_take, List.length_drop, old, size]
    omega
  · intro k inside
    rw [bytes k, List.getElem?_append, List.getElem?_append]
    simp only [List.length_append, List.length_take, old, Nat.min_eq_left placed]
    have own : ∀ other, k < h.file.size →
        (h.byteAt k).or other = (h.file.content h.heap)[k]? := by
      intro other before
      obtain ⟨v, byte⟩ := Option.isSome_iff_exists.mp ((byteAt_isSome ready.sound k).mpr (by
        have sized := ready.stored.sized
        simp only [blocksFor, blockSize] at *
        omega))
      rw [content_get ready.sound, if_pos before, byte, Option.some_or]
    by_cases front : k < h.desc.pos
    · rw [if_neg (by omega), own _ (by omega), if_pos (by omega), if_pos front,
        List.getElem?_take_of_lt front]
    · by_cases covered : k < h.desc.pos + buf.length
      · rw [if_pos ⟨by omega, covered⟩, if_pos covered, if_neg front]
      · rw [if_neg (by omega), own _ (by omega), if_neg covered, List.getElem?_drop,
          show h.desc.pos + buf.length + (k - (h.desc.pos + buf.length)) = k by omega]

theorem data_read {data : List Byte} {size : Nat}
    (length : data.length = min size (h.file.size - h.desc.pos))
    (bytes : ∀ j < data.length, data[j]? = h.byteAt (h.desc.pos + j)) :
    data = ((h.file.content h.heap).take
      (min (h.desc.pos + size) (h.file.content h.heap).length)).drop h.desc.pos := by
  have old := content_length ready.sound ready.stored
  have placed := ready.placed
  apply List.ext_getElem?
  intro j
  rw [List.getElem?_drop, List.getElem?_take, content_get ready.sound, old]
  by_cases inside : j < data.length
  · rw [bytes j inside, if_pos (by omega), if_pos (by omega)]
  · rw [List.getElem?_eq_none (by omega), if_neg (by omega)]

end Bytes

section Refinement

variable {fs : Fs} (valid : fs.Valid) (storage : fs.Storage)
  (cursors : fs.EachDescriptor CursorValid)

include valid storage cursors

theorem ufsWrite_flat (fd : Int) (buf : List Byte) :
    ∃ r fs', ufsWrite fs fd buf = some (r, fs') ∧ (r, fs'.flat) = fs.flat.write fd buf ∧
      (r = -1 → ∃ code, fs' = fs.setError code) := by
  unfold ufsWrite Flat.write
  cases slot : fs.slot fd with
  | none =>
      rw [flat_closed slot]
      exact ⟨_, _, rfl, rfl, fun _ => ⟨_, rfl⟩⟩
  | some desc =>
      obtain ⟨h, handle⟩ := valid.handle slot
      have ready := fs.ready valid.toLinked storage cursors slot handle
      have content := flat_content handle
      obtain ⟨-, rfl, -⟩ := fs.handle_eq handle
      have within := ready.placed.trans ready.stored.bounded
      rw [flat_opening slot]
      dsimp only [FileDesc.opening]
      by_cases readOnly : h.desc.flags &&& ufsWriteOnly = 0
      · rw [if_pos readOnly, if_pos (Or.inl readOnly)]
        exact ⟨_, _, rfl, rfl, fun _ => ⟨_, rfl⟩⟩
      rw [if_neg readOnly]
      by_cases empty : buf.length = 0
      · -- no bytes: neither the content nor the position moves
        have nothing : buf = [] := List.length_eq_zero_iff.mp empty
        subst nothing
        have fits : ¬ h.desc.pos + ([] : List Byte).length > maxFileSize := Nat.not_lt.mpr within
        rw [if_pos empty, if_neg (not_or.mpr ⟨readOnly, fits⟩)]
        refine ⟨_, _, rfl, ?_, fun failed => by cases failed⟩
        have same : fs.flat.opening fd = some h.desc.opening := flat_opening slot
        simp only [List.append_nil, List.length_nil, Nat.add_zero, List.take_append_drop,
          Option.map_id', Function.update_eq_self]
        rw [show (⟨h.desc.atfile, h.desc.pos, h.desc.flags⟩ : Opening) = h.desc.opening from rfl,
          ← same, Function.update_eq_self]
        rfl
      rw [if_neg empty]
      by_cases tooLarge : h.desc.pos + buf.length > maxFileSize
      · rw [if_pos (by omega), if_pos (Or.inr tooLarge)]
        exact ⟨_, _, rfl, rfl, fun _ => ⟨_, rfl⟩⟩
      · obtain ⟨g, n, ran, keeps, done, -, -, pos, size, bytes⟩ :=
          write_spec ready (Nat.pos_of_ne_zero empty) (Nat.not_lt.mp tooLarge)
        rw [if_neg (by omega), if_neg (not_or.mpr ⟨readOnly, tooLarge⟩)]
        simp only [handle, ran, bind, Option.bind_some]
        refine ⟨_, _, rfl, ?_, fun failed => by omega⟩
        rw [content, Option.map_some, ← content_written ready done.sound (pos ▸ size) bytes, ← pos]
        exact congrArg _ (store_flat valid.toLinked slot handle keeps)

theorem ufsRead_flat (fd : Int) (size : Nat) :
    ∃ r data fs', ufsRead fs fd size = some (r, data, fs') ∧
      (r, data, fs'.flat) = fs.flat.read fd size ∧ (r = -1 → ∃ code, fs' = fs.setError code) := by
  unfold ufsRead Flat.read
  cases slot : fs.slot fd with
  | none =>
      rw [flat_closed slot]
      exact ⟨_, _, _, rfl, rfl, fun _ => ⟨_, rfl⟩⟩
  | some desc =>
      obtain ⟨h, handle⟩ := valid.handle slot
      have ready := fs.ready valid.toLinked storage cursors slot handle
      have content := flat_content handle
      obtain ⟨-, rfl, -⟩ := fs.handle_eq handle
      have old := content_length ready.sound ready.stored
      have same : fs.flat.opening fd = some h.desc.opening := flat_opening slot
      rw [same]
      dsimp only [FileDesc.opening]
      by_cases writeOnly : h.desc.flags &&& ufsReadOnly = 0
      · rw [if_pos writeOnly, if_pos writeOnly]
        exact ⟨_, _, _, rfl, rfl, fun _ => ⟨_, rfl⟩⟩
      rw [if_neg writeOnly, if_neg writeOnly, content, Option.getD_some]
      simp only [handle, bind, Option.bind_some]
      by_cases ended : h.desc.pos ≥ h.file.size
      · have nothing : ((h.file.content h.heap).take
            (min (h.desc.pos + size) (h.file.content h.heap).length)).drop h.desc.pos = [] := by
          apply List.drop_eq_nil_of_le
          rw [List.length_take, old]
          omega
        rw [if_pos ended, nothing]
        refine ⟨_, _, _, rfl, ?_, fun failed => by cases failed⟩
        rw [List.length_nil, Nat.add_zero,
          show (⟨h.desc.atfile, h.desc.pos, h.desc.flags⟩ : Opening) = h.desc.opening from rfl,
          ← same, Function.update_eq_self]
        rfl
      · obtain ⟨data, g, ran, keeps, done, -, file, heap, length, pos, bytes⟩ :=
          read_spec ready (Nat.not_le.mp ended) size
        rw [if_neg ended, ← data_read ready length bytes, ran]
        refine ⟨_, _, _, rfl, ?_, fun failed => by omega⟩
        have stored := store_flat valid.toLinked slot handle keeps
        rw [file, heap, ← content, Function.update_eq_self] at stored
        rw [← pos]
        exact congrArg (Prod.mk _) (congrArg (Prod.mk _) stored)

end Refinement

theorem transfers_flat {fs : Fs} (valid : fs.Valid) (storage : fs.Storage)
    (cursors : fs.CursorsValid) (fd : Int) :
    (∀ buf, ∃ r fs', ufsWrite fs fd buf = some (r, fs') ∧ (r, fs'.flat) = fs.flat.write fd buf ∧
        (r = -1 → ∃ code, fs' = fs.setError code)) ∧
      ∀ size, ∃ r data fs', ufsRead fs fd size = some (r, data, fs') ∧
        (r, data, fs'.flat) = fs.flat.read fd size ∧ (r = -1 → ∃ code, fs' = fs.setError code) :=
  ⟨ufsWrite_flat valid storage cursors.each fd, ufsRead_flat valid storage cursors.each fd⟩

theorem transfers_flat_oneByte : ∃ r fs', ufsWrite oneByte 1 [7, 9] = some (r, fs') ∧
    (r, fs'.flat) = oneByte.flat.write 1 [7, 9] := by
  obtain ⟨r, fs', run, flat, -⟩ :=
    (transfers_flat oneByte_valid oneByte_storage oneByte_cursors 1).1 [7, 9]
  exact ⟨r, fs', run, flat⟩

theorem clampTo_opening (newSize : Nat) (desc : FileDesc) : (desc.clampTo newSize).opening =
    { desc.opening with pos := min desc.pos newSize } := by
  unfold FileDesc.clampTo
  split
  · next past => rw [Nat.min_eq_right (Nat.le_of_lt past)]; rfl
  · next within => rw [Nat.min_eq_left (Nat.not_lt.mp within)]; rfl

theorem mapDescriptors_slot (fs : Fs) (f : Nat) (change : FileDesc → FileDesc) (fd : Int) :
    (fs.mapDescriptors f change).slot fd = (fs.slot fd).map fun desc =>
      if desc.atfile = f then change desc else desc := by
  unfold Fs.slot Fs.mapDescriptors
  split
  · rfl
  · rw [List.getElem?_map]
    cases fs.fileDescriptors[(fd - 1).toNat]? <;> rfl

theorem clamp_flat (fs : Fs) (f newSize : Nat) :
    (fs.mapDescriptors f (FileDesc.clampTo newSize)).flat =
      { fs.flat with
        opening := fun fd => (fs.flat.opening fd).map fun p =>
          if p.file = f then { p with pos := min p.pos newSize } else p } := by
  unfold Fs.flat
  congr 1
  funext fd
  rw [mapDescriptors_slot]
  change Option.map _ (Option.map _ (fs.slot fd)) = Option.map _ (Option.map _ (fs.slot fd))
  cases fs.slot fd with
  | none => rfl
  | some desc =>
      by_cases own : desc.atfile = f
      · have moved := clampTo_opening newSize desc
        simpa [own, FileDesc.opening] using moved
      · simp [own, FileDesc.opening]

theorem content_resized {h g : Handle} (ready : h.Ready) (sound : g.Sound) {newSize : Nat}
    (size : g.file.size = newSize)
    (bytes : ∀ k, g.byteAt k = if k < min h.file.size newSize then h.byteAt k
      else if k < blockSize * blocksFor newSize then some 0 else none) :
    g.file.content g.heap = (h.file.content h.heap).take newSize ++
      List.replicate (newSize - (h.file.content h.heap).length) 0 := by
  have old := content_length ready.sound ready.stored
  apply content_eq sound
  · rw [List.length_append, List.length_take, List.length_replicate, old, size]
    omega
  · intro k inside
    rw [size] at inside
    rw [bytes k, List.getElem?_append, List.length_take, old, Nat.min_comm]
    by_cases front : k < min newSize h.file.size
    · rw [if_pos front, if_pos front, List.getElem?_take_of_lt (by omega), content_get ready.sound,
        if_pos (by omega)]
    · have last : k < blockSize * blocksFor newSize := by
        simp only [blocksFor, blockSize] at *
        omega
      rw [if_neg front, if_neg front, if_pos last, List.getElem?_replicate, if_pos (by omega)]

theorem ufsResize_flat {fs : Fs} (valid : fs.Valid) (storage : fs.Storage)
    (cursors : fs.EachDescriptor CursorValid) (fd : Int) (newSize : Nat) :
    ∃ r fs', ufsResize fs fd newSize = some (r, fs') ∧
      (r, fs'.flat) = fs.flat.resize fd newSize ∧ (r = -1 → ∃ code, fs' = fs.setError code) := by
  unfold ufsResize Flat.resize
  cases slot : fs.slot fd with
  | none =>
      rw [flat_closed slot]
      exact ⟨_, _, rfl, rfl, fun _ => ⟨_, rfl⟩⟩
  | some desc =>
      obtain ⟨h, handle⟩ := valid.handle slot
      have ready := fs.ready valid.toLinked storage cursors slot handle
      have content := flat_content handle
      obtain ⟨-, rfl, -⟩ := fs.handle_eq handle
      have same : fs.flat.opening fd = some h.desc.opening := flat_opening slot
      rw [same]
      dsimp only [FileDesc.opening]
      by_cases readOnly : h.desc.flags &&& ufsWriteOnly = 0
      · rw [if_pos readOnly, if_pos (Or.inl readOnly)]
        exact ⟨_, _, rfl, rfl, fun _ => ⟨_, rfl⟩⟩
      rw [if_neg readOnly]
      by_cases tooLarge : newSize > maxFileSize
      · rw [if_pos tooLarge, if_pos (Or.inr tooLarge)]
        exact ⟨_, _, rfl, rfl, fun _ => ⟨_, rfl⟩⟩
      · obtain ⟨g, ran, keeps, sound, -, desc, size, -, bytes⟩ :=
          resize_spec ready.sound ready.stored (Nat.not_lt.mp tooLarge)
        have stored := store_flat valid.toLinked slot handle keeps
        rw [desc, show { h.desc.opening with pos := h.desc.pos } = h.desc.opening from rfl, ← same,
          Function.update_eq_self, content_resized ready sound size bytes] at stored
        rw [if_neg tooLarge, if_neg (not_or.mpr ⟨readOnly, tooLarge⟩)]
        simp only [handle, ran, bind, Option.bind_some]
        refine ⟨_, _, rfl, ?_, fun failed => by cases failed⟩
        have clamped := clamp_flat (fs.store fd g) h.desc.atfile newSize
        rw [stored] at clamped
        rw [content, Option.map_some]
        exact congrArg (Prod.mk 0) clamped

theorem Fs.SameDirectory.valid {fs fs' : Fs} (same : fs.SameDirectory fs') (linked : fs'.Linked)
    (valid : fs.Valid) : fs'.Valid where
  toLinked := linked
  live := fun i desc opened => by
    have positive := opened.openCount_pos
    rw [same.openCount] at positive
    obtain ⟨j, old, was, there⟩ := UserFs.openCount_pos.mp positive
    rw [same.isSome, ← there]
    exact valid.live j old was
  listedLive := fun f inside => by
    rw [same.isSome]
    exact valid.listedLive f (same.fileList ▸ inside)

theorem transfers_keep {start fs : Fs} {calls : List Call} (valid : start.Valid)
    (storage : start.Storage) (transfers : ∀ c ∈ calls, c.transfers = true)
    (cursors : Run.Along step Fs.CursorsValid start calls)
    (run : Run.exec step start calls = some fs) : fs.Valid ∧ fs.Storage ∧ fs.CursorsValid := by
  induction calls generalizing start with
  | nil =>
      cases run
      exact ⟨valid, storage, cursors⟩
  | cons c rest ih =>
      obtain ⟨next, taken, finished⟩ := (Run.exec_cons _ _ _ _).mp run
      obtain ⟨here, later⟩ := cursors
      obtain ⟨r, effect⟩ := step_effect taken
      have same := effect.sameDirectory valid.toLinked (transfers c (by simp))
      exact ih (same.valid (effect.linked valid.toLinked) valid)
        (effect.storage valid.toLinked storage here.each)
        (fun c inside => transfers c (by simp [inside])) (later next taken) finished

theorem resize_flat {start fs : Fs} {earlier : List Call} (valid : start.Valid)
    (storage : start.Storage) (transfers : ∀ c ∈ earlier, c.transfers = true)
    (cursors : Run.Along step Fs.CursorsValid start earlier)
    (run : Run.exec step start earlier = some fs) (fd : Int) (newSize : Nat) :
    ∃ r fs', ufsResize fs fd newSize = some (r, fs') ∧
      (r, fs'.flat) = fs.flat.resize fd newSize ∧ (r = -1 → ∃ code, fs' = fs.setError code) := by
  obtain ⟨valid, storage, cursors⟩ := transfers_keep valid storage transfers cursors run
  exact ufsResize_flat valid storage cursors.each fd newSize

def churned : List Call := [.resize 1 0, .write 1 [7, 9], .resize 1 5]

theorem resize_flat_churned : ∃ fs, Run.exec step oneByte churned = some fs ∧
    ∃ r fs', ufsResize fs 1 3 = some (r, fs') ∧ (r, fs'.flat) = fs.flat.resize 1 3 := by
  obtain ⟨fs, run⟩ := Option.isSome_iff_exists.mp
    (show (Run.exec step oneByte churned).isSome by decide +kernel)
  obtain ⟨r, fs', resized, flat, -⟩ := resize_flat oneByte_valid oneByte_storage
    (show ∀ c ∈ churned, c.transfers = true by decide) (by decide +kernel) run 1 3
  exact ⟨fs, run, r, fs', resized, flat⟩

end SystemProg.UserFs
