import SystemProg.UserFs.Storage

set_option autoImplicit false

-- Reading, writing and resizing do not look at the deleted flag, and a call leaves the contents of
-- every file alone that it does not write through a descriptor.

namespace SystemProg.UserFs

open Rlist

def Handle.mark (deleted : Bool) (h : Handle) : Handle :=
  { h with file := { h.file with deleted := deleted } }

section Mark

variable (deleted : Bool) (h : Handle)

theorem mark_desc : (h.mark deleted).desc = h.desc := rfl

theorem mark_size : (h.mark deleted).file.size = h.file.size := rfl

end Mark

theorem appendBlocks_mark (deleted : Bool) (n : Nat) (h : Handle) :
    (h.mark deleted).appendBlocks n = (h.appendBlocks n).mark deleted := by
  induction n generalizing h with
  | zero => rfl
  | succ n ih => exact ih h.appendBlock

theorem growTo_mark (deleted : Bool) (limit : Int) (h : Handle) :
    (h.mark deleted).growTo limit = (h.growTo limit).mark deleted :=
  appendBlocks_mark deleted _ h

theorem dropBlocks_mark (deleted : Bool) (n : Nat) (h : Handle) :
    (h.mark deleted).dropBlocks n = (h.dropBlocks n).map (Handle.mark deleted) := by
  induction n generalizing h with
  | zero => rfl
  | succ n ih =>
      cases last : h.file.blocks.getLast? with
      | none => simp [Handle.dropBlocks, Handle.mark, last]
      | some b =>
          cases cut : h.heap.deleteBlock b with
          | none => simp [Handle.dropBlocks, Handle.mark, last, cut]
          | some heap =>
              simp only [Handle.dropBlocks, Handle.mark, last, cut, bind, Option.bind_some]
              exact ih
                { h with
                  file := { h.file with
                    blocks := rlistDel h.file.blocks b, blocksCount := h.file.blocksCount - 1 }
                  heap := heap }

theorem clearLast_mark (deleted : Bool) (start count : Nat) (h : Handle) :
    (h.mark deleted).clearLast start count =
      (h.clearLast start count).map (Handle.mark deleted) := by
  unfold Handle.clearLast
  change (h.file.blocks.getLast?.bind fun b => (h.heap.modify b _).bind fun heap => _) = _
  cases h.file.blocks.getLast? with
  | none => rfl
  | some b =>
      change (h.heap.modify b _).bind _ = Option.map _ ((h.heap.modify b _).bind _)
      cases h.heap.modify b (fun block => block.clear start count) with
      | none => rfl
      | some heap => rfl

theorem resize_mark (deleted : Bool) (newSize : Nat) (h : Handle) :
    (h.mark deleted).resize newSize = (h.resize newSize).map (Handle.mark deleted) := by
  have reshaped : (h.mark deleted).reshape newSize =
      (h.reshape newSize).map (Handle.mark deleted) := by
    unfold Handle.reshape
    change (if newSize > h.file.size then _ else if newSize < h.file.size then _ else _) = _
    split
    · unfold Handle.grow
      dsimp only
      rw [growTo_mark]
      change (if h.file.size % blockSize ≠ 0 ∧ h.file.size / blockSize < blocksFor newSize ∧
        min newSize (blocksFor h.file.size * blockSize) > h.file.size then _ else _) = _
      split
      · exact clearLast_mark deleted _ _ _
      · rfl
    split
    · unfold Handle.shrink
      have shrunk : (h.mark deleted).shrinkTo (blocksFor newSize) =
          (h.shrinkTo (blocksFor newSize)).map (Handle.mark deleted) := dropBlocks_mark deleted _ h
      rw [shrunk]
      cases h.shrinkTo (blocksFor newSize) with
      | none => rfl
      | some g =>
          change (if newSize % blockSize ≠ 0 ∧ g.file.blocksCount > 0 then _ else _) = _
          dsimp only
          split
          · exact clearLast_mark deleted _ _ _
          · rfl
    · rfl
  unfold Handle.resize
  rw [reshaped]
  cases h.reshape newSize <;> rfl

theorem getBlockByIndex_mark (deleted : Bool) (h : Handle) (index : Int) (create : Bool) :
    getBlockByIndex (h.mark deleted) index create =
      (getBlockByIndex h index create).map (Prod.map id (Handle.mark deleted)) := by
  unfold getBlockByIndex
  rw [show (h.mark deleted).cachedStep = h.cachedStep from rfl,
    show (h.mark deleted).desc = h.desc from rfl,
    show (h.mark deleted).file.blocks = h.file.blocks from rfl, growTo_mark]
  split
  · rfl
  split
  · rfl
  split
  · rfl
  · rfl
  split
  · rfl
  · rfl
  split
  · rfl
  split <;> rfl

theorem writeLoop_mark (deleted : Bool) (h : Handle) (b index : Nat) (offset : Fin blockSize)
    (rest : List Byte) : writeLoop (h.mark deleted) b index offset rest =
      (writeLoop h b index offset rest).map (Prod.map id (Prod.map id (Handle.mark deleted))) := by
  induction length : rest.length using Nat.strong_induction_on
    generalizing h b index offset rest with
  | _ bytes ih =>
  have bound := offset.isLt
  rw [writeLoop, writeLoop]
  dsimp only
  rw [show (h.mark deleted).heap = h.heap from rfl]
  generalize chunked : min (blockSize - offset.val) rest.length = chunk
  split
  · rfl
  next heap changed =>
  by_cases last : rest.length ≤ chunk
  · simp only [if_pos last]
    rfl
  simp only [if_neg last]
  have shorter : (rest.drop chunk).length < bytes := by
    rw [List.length_drop]
    omega
  cases found : rlistNext h.file.blocks b with
  | none =>
      rw [show rlistNext (({ h.mark deleted with heap := heap } : Handle).advance chunk).file.blocks b
          = none from found,
        show rlistNext (({ h with heap := heap } : Handle).advance chunk).file.blocks b
          = none from found]
      rfl
  | some next =>
      rw [show rlistNext (({ h.mark deleted with heap := heap } : Handle).advance chunk).file.blocks b
          = some next from found,
        show rlistNext (({ h with heap := heap } : Handle).advance chunk).file.blocks b
          = some next from found]
      dsimp only
      rw [← ih _ shorter _ _ _ _ _ rfl]
      cases next <;> rfl

theorem readLoop_mark (deleted : Bool) (h : Handle) (b index : Nat) (offset : Fin blockSize)
    (left : Nat) : readLoop (h.mark deleted) b index offset left =
      (readLoop h b index offset left).map
        (Prod.map id (Prod.map id (Prod.map id (Handle.mark deleted)))) := by
  induction left using Nat.strong_induction_on generalizing h b index offset with
  | _ left ih =>
  have bound := offset.isLt
  rw [readLoop, readLoop]
  dsimp only
  rw [show (h.mark deleted).heap = h.heap from rfl]
  split
  · rfl
  next nonempty =>
  generalize chunked : min (blockSize - offset.val) left = chunk
  cases h.heap.block b with
  | none => rfl
  | some block =>
      dsimp only
      by_cases last : left ≤ chunk
      · simp only [if_pos last]
        rfl
      simp only [if_neg last]
      have shorter : left - chunk < left := by omega
      cases found : rlistNext h.file.blocks b with
      | none =>
          rw [show rlistNext ((h.mark deleted).advance chunk).file.blocks b = none from found,
            show rlistNext (h.advance chunk).file.blocks b = none from found]
          rfl
      | some next =>
          rw [show rlistNext ((h.mark deleted).advance chunk).file.blocks b = some next from found,
            show rlistNext (h.advance chunk).file.blocks b = some next from found]
          cases next with
          | none => rfl
          | some c =>
              dsimp only
              have later := ih _ shorter ((h.advance chunk).setCursor (some c) (index + 1)) c
                (index + 1) ⟨0, by decide⟩
              rw [show ((h.mark deleted).advance chunk).setCursor (some c) (index + 1) =
                ((h.advance chunk).setCursor (some c) (index + 1)).mark deleted from rfl, later]
              cases readLoop ((h.advance chunk).setCursor (some c) (index + 1)) c (index + 1)
                ⟨0, by decide⟩ (left - chunk) <;> rfl

theorem write_mark (deleted : Bool) (h : Handle) (buf : List Byte) :
    (h.mark deleted).write buf = (h.write buf).map (Prod.map id (Handle.mark deleted)) := by
  unfold Handle.write
  dsimp only [mark_desc]
  rw [getBlockByIndex_mark]
  rcases getBlockByIndex h (h.desc.pos / blockSize : Nat) true with _ | ⟨_ | b, found⟩
  · rfl
  · rfl
  · simp only [Option.map_some, Prod.map_apply, id_eq]
    rw [writeLoop_mark]
    rcases writeLoop found b _ _ buf with _ | ⟨b', index, copied⟩ <;> rfl

theorem read_mark (deleted : Bool) (h : Handle) (size : Nat) :
    (h.mark deleted).read size = (h.read size).map (Prod.map id (Handle.mark deleted)) := by
  unfold Handle.read
  dsimp only [mark_desc, mark_size]
  rw [getBlockByIndex_mark]
  rcases getBlockByIndex h (h.desc.pos / blockSize : Nat) false with _ | ⟨_ | b, found⟩
  · rfl
  · rfl
  · simp only [Option.map_some, Prod.map_apply, id_eq]
    rw [readLoop_mark]
    rcases readLoop found b _ _ _ with _ | ⟨data, b', index, moved⟩ <;> rfl

def Fs.mark (fs : Fs) (f : Nat) (deleted : Bool) : Fs :=
  { fs with file := fun g => (fs.file g).map fun file =>
      if g = f then { file with deleted := deleted } else file }

def Handle.markAt (f : Nat) (deleted : Bool) (h : Handle) : Handle :=
  if h.desc.atfile = f then h.mark deleted else h

theorem mark_file (fs : Fs) (f : Nat) (deleted : Bool) (g : Nat) :
    (fs.mark f deleted).file g = (fs.file g).map fun file =>
      if g = f then { file with deleted := deleted } else file := rfl

theorem handle_mark (fs : Fs) (f : Nat) (deleted : Bool) (desc : FileDesc) :
    (fs.mark f deleted).handle desc = (fs.handle desc).map (Handle.markAt f deleted) := by
  unfold Fs.handle
  rw [mark_file]
  cases fs.file desc.atfile with
  | none => rfl
  | some file =>
      simp only [Option.map_some, Handle.markAt]
      split <;> rfl

theorem store_mark (fs : Fs) (fd : Int) (f : Nat) (deleted : Bool) (h : Handle) :
    (fs.mark f deleted).store fd (h.markAt f deleted) = (fs.store fd h).mark f deleted := by
  have desc : (h.markAt f deleted).desc = h.desc := by
    unfold Handle.markAt
    split <;> rfl
  have heap : (h.markAt f deleted).heap = h.heap := by
    unfold Handle.markAt
    split <;> rfl
  have files : ((fs.mark f deleted).store fd (h.markAt f deleted)).file =
      ((fs.store fd h).mark f deleted).file := by
    funext g
    rw [mark_file, Fs.store_file, Fs.store_file, desc, mark_file]
    by_cases same : g = h.desc.atfile
    · rw [if_pos same, if_pos same, Option.map_some, same]
      unfold Handle.markAt
      split <;> rfl
    · rw [if_neg same, if_neg same]
  unfold Fs.store at files ⊢
  rw [desc, heap] at files ⊢
  exact congrArg (fun file => { (fs.store fd h) with file := file }) files

theorem markAt_of_mark {A : Type} (operation : Handle → Option (A × Handle)) (f : Nat)
    (deleted : Bool) (h : Handle)
    (marked : operation (h.mark deleted) = (operation h).map (Prod.map id (Handle.mark deleted)))
    (kept : ∀ a h', operation h = some (a, h') → h'.desc.atfile = h.desc.atfile) :
    operation (h.markAt f deleted) =
      (operation h).map (Prod.map id (Handle.markAt f deleted)) := by
  cases run : operation h with
  | none =>
      unfold Handle.markAt
      split
      · rw [marked, run]
        rfl
      · rw [run]
        rfl
  | some result =>
      obtain ⟨a, h'⟩ := result
      have same := kept a h' run
      by_cases here : h.desc.atfile = f
      · simp [Handle.markAt, here, same, marked, run]
      · simp [Handle.markAt, here, same, run]

theorem write_markAt (f : Nat) (deleted : Bool) {h : Handle} (whole : h.Whole) (buf : List Byte) :
    (h.markAt f deleted).write buf = (h.write buf).map (Prod.map id (Handle.markAt f deleted)) :=
  markAt_of_mark (fun h => h.write buf) f deleted h (write_mark deleted h buf)
    fun _ _ run => (write_stays whole run).keeps.atfile

theorem read_markAt (f : Nat) (deleted : Bool) {h : Handle} (whole : h.Whole) (size : Nat) :
    (h.markAt f deleted).read size = (h.read size).map (Prod.map id (Handle.markAt f deleted)) :=
  markAt_of_mark (fun h => h.read size) f deleted h (read_mark deleted h size)
    fun _ _ run => (read_stays whole run).1.keeps.atfile

theorem resize_markAt (f : Nat) (deleted : Bool) {h : Handle} (whole : h.Whole) (newSize : Nat) :
    (h.markAt f deleted).resize newSize = (h.resize newSize).map (Handle.markAt f deleted) := by
  have kept : ∀ h', h.resize newSize = some h' → h'.desc.atfile = h.desc.atfile :=
    fun _ run => (resize_stays whole run).keeps.atfile
  have paired := markAt_of_mark (fun h => (h.resize newSize).map fun h' => ((), h'))
    f deleted h (by simp [resize_mark, Function.comp_def]) (by simpa using kept)
  simpa [Function.comp_def] using congrArg (Option.map Prod.snd) paired

theorem transfers_mark {fs : Fs} (linked : fs.Linked) (f : Nat) (deleted : Bool) (c : Call)
    (transfers : c.transfers = true) : call (fs.mark f deleted) c =
      (call fs c).map (Prod.map id fun after => after.mark f deleted) := by
  have slots : ∀ fd, (fs.mark f deleted).slot fd = fs.slot fd := fun _ => rfl
  cases c with
  | write fd buf =>
      simp only [call, ufsWrite, slots]
      cases slot : fs.slot fd with
      | none => rfl
      | some desc =>
          dsimp only
          split
          · rfl
          split
          · rfl
          split
          · rfl
          rw [handle_mark]
          cases handle : fs.handle desc with
          | none => rfl
          | some h =>
              simp only [bind, Option.map_some, Option.bind_some]
              rw [write_markAt f deleted (linked.whole slot handle)]
              cases h.write buf with
              | none => rfl
              | some result =>
                  simp only [Option.map_some, Option.bind_some, Prod.map, store_mark]
                  rfl
  | read fd size =>
      simp only [call, ufsRead, slots]
      cases slot : fs.slot fd with
      | none => rfl
      | some desc =>
          dsimp only
          split
          · rfl
          rw [handle_mark]
          cases handle : fs.handle desc with
          | none => rfl
          | some h =>
              have fileSize : (h.markAt f deleted).file.size = h.file.size := by
                unfold Handle.markAt
                split <;> rfl
              simp only [bind, Option.map_some, Option.bind_some, fileSize]
              split
              · rfl
              rw [read_markAt f deleted (linked.whole slot handle)]
              cases h.read size with
              | none => rfl
              | some result =>
                  simp only [Option.map_some, Option.bind_some, Prod.map, store_mark]
                  rfl
  | resize fd newSize =>
      simp only [call, ufsResize, slots]
      cases slot : fs.slot fd with
      | none => rfl
      | some desc =>
          dsimp only
          split
          · rfl
          split
          · rfl
          rw [handle_mark]
          cases handle : fs.handle desc with
          | none => rfl
          | some h =>
              simp only [bind, Option.map_some, Option.bind_some]
              rw [resize_markAt f deleted (linked.whole slot handle)]
              cases h.resize newSize with
              | none => rfl
              | some result =>
                  simp only [Option.map_some, Option.bind_some, store_mark]
                  rfl
  | «open» | close | delete => cases transfers

def Call.Touches (fs : Fs) (f : Nat) : Call → Prop
  | .write fd _ | .resize fd _ => ∃ desc, fs.slot fd = some desc ∧ desc.atfile = f
  | _ => False

def SameContents (fs fs' : Fs) (f : Nat) : Prop :=
  ∃ file file', fs.file f = some file ∧ fs'.file f = some file' ∧ file'.blocks = file.blocks ∧
    file'.size = file.size ∧ file'.name = file.name ∧
    ∀ b ∈ file.blocks, fs'.heap.block b = fs.heap.block b

theorem SameContents.refl {fs : Fs} {f : Nat} (alive : (fs.file f).isSome) :
    SameContents fs fs f := by
  obtain ⟨file, held⟩ := Option.isSome_iff_exists.mp alive
  exact ⟨file, file, held, held, rfl, rfl, rfl, fun _ _ => rfl⟩

theorem setFile_sameContents {fs base : Fs} {f g : Nat} {file file' : File}
    (alive : (fs.file f).isSome) (files : base.file = fs.file) (heap : base.heap = fs.heap)
    (held : fs.file g = some file) (blocks : file'.blocks = file.blocks)
    (size : file'.size = file.size) (name : file'.name = file.name) :
    SameContents fs (base.setFile g file') f := by
  obtain ⟨old, was⟩ := Option.isSome_iff_exists.mp alive
  have heaps : ∀ b ∈ old.blocks, (base.setFile g file').heap.block b = fs.heap.block b :=
    fun b _ => by rw [← heap]; rfl
  by_cases here : f = g
  · subst here
    cases held.symm.trans was
    exact ⟨file, file', held, by rw [Fs.setFile_file, if_pos rfl], blocks, size, name, heaps⟩
  · exact ⟨old, old, was, by rw [Fs.setFile_file, if_neg here, files, was], rfl, rfl, rfl, heaps⟩

theorem withoutFile_sameContents {fs base : Fs} (linked : base.Linked) {f g : Nat} {file : File}
    {heap : Heap} (same : SameContents fs base f) (held : base.file g = some file)
    (freed : freeBlocks base.heap file.blocks = some heap) (away : f ≠ g) :
    SameContents fs (base.withoutFile g heap) f := by
  obtain ⟨old, now, was, there, blocks, size, name, heaps⟩ := same
  refine ⟨old, now, was, by rw [Fs.withoutFile_file, if_neg away, there], blocks, size, name,
    fun b inside => ?_⟩
  have foreign := linked.apart f g now file away there held b (blocks ▸ inside)
  exact ((freeBlocks_spec freed).2 b).trans ((if_neg foreign).trans (heaps b inside))

theorem withoutFile_other {base : Fs} {f g : Nat} (heap : Heap)
    (alive : ((base.withoutFile g heap).file f).isSome) : f ≠ g := by
  rintro rfl
  rw [Fs.withoutFile_file, if_pos rfl] at alive
  cases alive

theorem store_sameContents {fs : Fs} (linked : fs.Linked) {f : Nat} (alive : (fs.file f).isSome)
    (fd : Int) {desc : FileDesc} {h h' : Handle} (handle : fs.handle desc = some h)
    (keeps : h.Keeps h') (away : desc.atfile ≠ f) : SameContents fs (fs.store fd h') f := by
  obtain ⟨held, rfl, heap⟩ := fs.handle_eq handle
  obtain ⟨old, was⟩ := Option.isSome_iff_exists.mp alive
  refine ⟨old, old, was, ?_, rfl, rfl, rfl, fun b inside => ?_⟩
  · rw [Fs.store_file, keeps.atfile, if_neg (Ne.symm away), was]
  · have outside := linked.apart _ _ _ _ (Ne.symm away) was held b inside
    have below := (linked.sound was h.desc).lt_next inside
    change h'.heap.block b = _
    rw [← heap]
    exact keeps.others b outside (heap ▸ below)

theorem Effect.sameContents {fs fs' : Fs} {c : Call} {r : Int} (effect : Effect fs c r fs')
    (linked : fs.Linked) {f : Nat} (away : ¬ c.Touches fs f) (alive : (fs.file f).isSome)
    (alive' : (fs'.file f).isSome) : SameContents fs fs' f := by
  cases effect with
  | failed c r code => exact SameContents.refl alive
  | wrote code slot allowed handle nonempty fits run =>
      exact store_sameContents linked alive _ handle (write_stays (linked.whole slot handle) run).keeps
        fun here => away ⟨_, slot, here⟩
  | @readBytes fd size desc h h' data slot allowed handle before run =>
      obtain ⟨stays, file, heap⟩ := read_stays (linked.whole slot handle) run
      by_cases here : desc.atfile = f
      · obtain ⟨held, rfl, same⟩ := fs.handle_eq handle
        subst here
        refine ⟨h.file, h'.file, held, ?_, by rw [file], by rw [file], by rw [file], fun b _ => ?_⟩
        · exact (fs.store_file fd h' _).trans (if_pos stays.keeps.atfile.symm)
        · change h'.heap.block b = _
          rw [heap, same]
      · exact store_sameContents linked alive _ handle stays.keeps here
  | @resized fd newSize desc h h' slot allowed handle bounded run =>
      have keeps := (resize_stays (linked.whole slot handle) run).keeps
      exact store_sameContents linked alive fd handle keeps fun here => away ⟨_, slot, here⟩
  | reopened found held => exact setFile_sameContents alive rfl rfl held rfl rfl rfl
  | @created name flags absent =>
      obtain ⟨old, was⟩ := Option.isSome_iff_exists.mp alive
      have known := linked.live_lt was
      refine ⟨old, old, was, ?_, rfl, rfl, rfl, fun _ _ => rfl⟩
      exact (fs.withNewFile_file name f).trans ((if_neg (by omega)).trans was)
  | closed slot held needed => exact setFile_sameContents alive rfl rfl held rfl rfl rfl
  | @closedLast fd desc file heap slot held last ghost freed =>
      exact withoutFile_sameContents (linked.withSlotClosed slot held)
        (setFile_sameContents alive rfl rfl held rfl rfl rfl) (Function.update_self ..) freed
        (withoutFile_other heap alive')
  | unlisted found held needed => exact setFile_sameContents alive rfl rfl held rfl rfl rfl
  | @deleted filename g file heap found held unused freed =>
      exact withoutFile_sameContents (linked.withFileUnlisted held)
        (setFile_sameContents alive rfl rfl held rfl rfl rfl) (Function.update_self ..) freed
        (withoutFile_other heap alive')

end SystemProg.UserFs
