import SystemProg.UserFs.Effect

set_option autoImplicit false

-- What every completed call keeps without any assumption on sizes or cursors: the block lists are
-- disjoint lists of allocated blocks, and a cursor names a block that was handed out and that is
-- released unless it is still on the list of its descriptor's file.

namespace SystemProg.UserFs

open Rlist

structure Fs.Linked (fs : Fs) : Prop where
  distinct : ∀ f file, fs.file f = some file → file.blocks.Nodup
  allocated : ∀ f file, fs.file f = some file → ∀ b ∈ file.blocks, (fs.heap.block b).isSome
  apart : ∀ f g file file', f ≠ g → fs.file f = some file → fs.file g = some file' →
    ∀ b ∈ file.blocks, b ∉ file'.blocks
  freshBlocks : ∀ b, fs.heap.next ≤ b → fs.heap.block b = none
  freshFiles : ∀ f, fs.nextFile ≤ f → fs.file f = none
  counted : ∀ f file, fs.file f = some file → file.blocksCount = file.blocks.length
  known : ∀ i desc, fs.Opened i desc → desc.atfile < fs.nextFile
  owned : ∀ i desc file, fs.Opened i desc → fs.file desc.atfile = some file →
    ∀ b, desc.curBlock = some b → b < fs.heap.next ∧ (fs.heap.block b ≠ none → b ∈ file.blocks)

theorem Fs.initial_opened {i : Nat} {desc : FileDesc} : ¬ Fs.initial.Opened i desc := by
  simp [Fs.initial, Fs.Opened]

theorem Fs.initial_linked : Fs.initial.Linked where
  distinct := by simp [Fs.initial]
  allocated := by simp [Fs.initial]
  apart := by simp [Fs.initial]
  freshBlocks := by simp [Fs.initial]
  freshFiles := by simp [Fs.initial]
  counted := by simp [Fs.initial]
  known := fun _ _ opened => absurd opened Fs.initial_opened
  owned := fun _ _ _ opened => absurd opened Fs.initial_opened

theorem Fs.Linked.setError {fs : Fs} (linked : fs.Linked) (code : UfsErrorCode) :
    (fs.setError code).Linked :=
  ⟨linked.distinct, linked.allocated, linked.apart, linked.freshBlocks, linked.freshFiles,
    linked.counted, linked.known, linked.owned⟩

-- `ufs_destroy` first takes all descriptors and files off their tables.
theorem Fs.Linked.emptied {fs : Fs} (linked : fs.Linked) :
    { fs with fileDescriptors := [], fileList := [] }.Linked :=
  ⟨linked.distinct, linked.allocated, linked.apart, linked.freshBlocks, linked.freshFiles,
    linked.counted, fun i desc opened => by simp [Fs.Opened] at opened,
    fun i desc file opened => by simp [Fs.Opened] at opened⟩

theorem Fs.Linked.sound {fs : Fs} (linked : fs.Linked) {f : Nat} {file : File}
    (held : fs.file f = some file) (desc : FileDesc) :
    (⟨desc, file, fs.heap⟩ : Handle).Sound :=
  ⟨linked.distinct f file held, linked.allocated f file held, linked.freshBlocks⟩

theorem Fs.handle_eq {fs : Fs} {desc : FileDesc} {h : Handle} (handle : fs.handle desc = some h) :
    fs.file desc.atfile = some h.file ∧ h.desc = desc ∧ h.heap = fs.heap := by
  obtain ⟨file, held, rfl⟩ := Option.map_eq_some_iff.mp handle
  exact ⟨held, rfl, rfl⟩

theorem Fs.Linked.whole {fs : Fs} (linked : fs.Linked) {fd : Int} {desc : FileDesc} {h : Handle}
    (slot : fs.slot fd = some desc) (handle : fs.handle desc = some h) : h.Whole := by
  obtain ⟨held, rfl, heap⟩ := fs.handle_eq handle
  obtain ⟨desc, file, _⟩ := h
  cases heap
  exact ⟨linked.sound held desc, linked.counted _ _ held,
    linked.owned _ _ _ (slot_opened slot) held⟩

theorem Fs.setFile_file (fs : Fs) (f : Nat) (file : File) (g : Nat) :
    (fs.setFile f file).file g = if g = f then some file else fs.file g :=
  Function.update_apply _ _ _ _

theorem Fs.store_file (fs : Fs) (fd : Int) (h : Handle) (g : Nat) :
    (fs.store fd h).file g = if g = h.desc.atfile then some h.file else fs.file g :=
  Function.update_apply _ _ _ _

theorem Fs.withNewFile_file (fs : Fs) (name : Name) (g : Nat) : (fs.withNewFile name).file g =
    if g = fs.nextFile then some (newFile name) else fs.file g :=
  Function.update_apply _ _ _ _

theorem Fs.withoutFile_file (fs : Fs) (f : Nat) (heap : Heap) (g : Nat) :
    (fs.withoutFile f heap).file g = if g = f then none else fs.file g :=
  Function.update_apply _ _ _ _

theorem Fs.store_opened {fs : Fs} {fd : Int} {desc : FileDesc} (slot : fs.slot fd = some desc)
    (h : Handle) {i : Nat} {d : FileDesc} : (fs.store fd h).Opened i d ↔
      (i = (fd - 1).toNat ∧ d = h.desc) ∨ (i ≠ (fd - 1).toNat ∧ fs.Opened i d) := by
  have table := setSlot_opened slot (some h.desc) (i := i) (d := d)
  rw [Option.some_inj, eq_comm (a := h.desc)] at table
  exact table

theorem Fs.Linked.store {fs : Fs} (linked : fs.Linked) {fd : Int} {desc : FileDesc}
    {h h' : Handle} (slot : fs.slot fd = some desc) (handle : fs.handle desc = some h)
    (stays : h.Stays h') : (fs.store fd h').Linked := by
  obtain ⟨held, same, heap⟩ := fs.handle_eq handle
  have atfile : h'.desc.atfile = desc.atfile := stays.keeps.atfile.trans (by rw [same])
  have next : fs.heap.next ≤ h'.heap.next := heap ▸ stays.keeps.next
  have others : ∀ b, b ∉ h.file.blocks → b < fs.heap.next → h'.heap.block b = fs.heap.block b := by
    intro b outside old
    rw [← heap] at old ⊢
    exact stays.keeps.others b outside old
  have live : ∀ g file, fs.file g = some file → ∀ b ∈ file.blocks, b < fs.heap.next :=
    fun g file there b inside => (linked.sound there desc).lt_next inside
  -- the file of the descriptor has its new blocks, every other file is as it was
  have cases : ∀ g file, (fs.store fd h').file g = some file →
      (g = desc.atfile ∧ file = h'.file) ∨ (g ≠ desc.atfile ∧ fs.file g = some file) := by
    intro g file there
    rw [fs.store_file, atfile] at there
    split at there
    · next here => exact Or.inl ⟨here, (Option.some.inj there).symm⟩
    · next other => exact Or.inr ⟨other, there⟩
  have foreign : ∀ g file, g ≠ desc.atfile → fs.file g = some file → ∀ b ∈ file.blocks,
      b ∉ h.file.blocks ∧ b ∉ h'.file.blocks := by
    intro g file other there b inside
    have outside := linked.apart _ _ _ _ other there held b inside
    refine ⟨outside, fun now => ?_⟩
    rcases stays.ring b now with own | fresh
    · exact outside own
    · have := live g file there b inside
      rw [heap] at fresh
      omega
  refine ⟨?_, ?_, ?_, stays.whole.sound.fresh, ?_, ?_, ?_, ?_⟩
  · intro g file there
    rcases cases g file there with ⟨-, rfl⟩ | ⟨-, old⟩
    · exact stays.whole.sound.distinct
    · exact linked.distinct g file old
  · intro g file there b inside
    rcases cases g file there with ⟨-, rfl⟩ | ⟨other, old⟩
    · exact stays.whole.sound.allocated b inside
    · change (h'.heap.block b).isSome
      rw [others b (foreign g file other old b inside).1 (live g file old b inside)]
      exact linked.allocated g file old b inside
  · intro g k file file' different there there' b inside
    rcases cases g file there with ⟨rfl, rfl⟩ | ⟨other, old⟩ <;>
      rcases cases k file' there' with ⟨rfl, rfl⟩ | ⟨other', old'⟩
    · exact absurd rfl different
    · exact fun inside' => (foreign k file' other' old' b inside').2 inside
    · exact (foreign g file other old b inside).2
    · exact linked.apart g k file file' different old old' b inside
  · intro g fresh
    rw [fs.store_file, atfile, if_neg]
    · exact linked.freshFiles g fresh
    · rintro rfl
      rw [linked.freshFiles _ fresh] at held
      cases held
  · intro g file there
    rcases cases g file there with ⟨-, rfl⟩ | ⟨-, old⟩
    · exact stays.whole.counted
    · exact linked.counted g file old
  · intro i d opened
    rcases (fs.store_opened slot h').mp opened with ⟨-, rfl⟩ | ⟨-, old⟩
    · rw [atfile]
      exact linked.known _ _ (slot_opened slot)
    · exact linked.known i d old
  · intro i d file opened there b cached
    rcases (fs.store_opened slot h').mp opened with ⟨-, rfl⟩ | ⟨-, old⟩
    · rcases cases _ file there with ⟨-, rfl⟩ | ⟨other, -⟩
      · exact stays.whole.own b cached
      · exact absurd atfile other
    · rcases cases _ file there with ⟨here, rfl⟩ | ⟨other, oldFile⟩
      · refine stays.own ?_
        have own := linked.owned i d h.file old (here ▸ held) b cached
        rw [← heap] at own
        exact own
      · have own := linked.owned i d file old oldFile b cached
        refine ⟨lt_of_lt_of_le own.1 next, fun there => own.2 fun gone => ?_⟩
        by_cases inside : b ∈ h.file.blocks
        · have := linked.allocated _ _ held b inside
          simp [gone] at this
        · rw [show (fs.store fd h').heap.block b = fs.heap.block b from others b inside own.1,
            gone] at there
          exact there rfl

theorem Fs.Linked.mapDescriptors {fs : Fs} (linked : fs.Linked) (f : Nat)
    {change : FileDesc → FileDesc} (atfile : ∀ desc, (change desc).atfile = desc.atfile)
    (cursor : ∀ desc, (change desc).curBlock = desc.curBlock ∨ (change desc).curBlock = none) :
    (fs.mapDescriptors f change).Linked := by
  refine ⟨linked.distinct, linked.allocated, linked.apart, linked.freshBlocks, linked.freshFiles,
    linked.counted, ?_, ?_⟩
  · intro i d opened
    obtain ⟨desc, old, rfl⟩ := mapDescriptors_opened.mp opened
    have bound := linked.known i desc old
    split
    · exact (atfile desc).symm ▸ bound
    · exact bound
  · intro i d file opened held b cached
    obtain ⟨desc, old, rfl⟩ := mapDescriptors_opened.mp opened
    have own := linked.owned i desc file old
    by_cases here : desc.atfile = f
    · rw [if_pos here, atfile desc] at held
      rw [if_pos here] at cached
      rcases cursor desc with same | reset
      · exact own held b (same ▸ cached)
      · rw [reset] at cached
        cases cached
    · rw [if_neg here] at held cached
      exact own held b cached

theorem resetCursor_atfile (desc : FileDesc) : desc.resetCursor.atfile = desc.atfile := rfl

theorem clampTo_atfile (newSize : Nat) (desc : FileDesc) :
    (desc.clampTo newSize).atfile = desc.atfile := by
  unfold FileDesc.clampTo
  split <;> rfl

theorem clampTo_cursor (newSize : Nat) (desc : FileDesc) :
    (desc.clampTo newSize).curBlock = desc.curBlock ∨ (desc.clampTo newSize).curBlock = none := by
  unfold FileDesc.clampTo
  split
  · exact Or.inr rfl
  · exact Or.inl rfl

theorem Fs.Linked.setFile {fs : Fs} (linked : fs.Linked) {f : Nat} {file file' : File}
    (held : fs.file f = some file) (blocks : file'.blocks = file.blocks)
    (count : file'.blocksCount = file.blocksCount) : (fs.setFile f file').Linked := by
  have origin : ∀ g k, (fs.setFile f file').file g = some k →
      ∃ old, fs.file g = some old ∧ k.blocks = old.blocks ∧ k.blocksCount = old.blocksCount := by
    intro g k there
    rw [fs.setFile_file] at there
    split at there
    · next here =>
        cases there
        exact ⟨file, here ▸ held, blocks, count⟩
    · exact ⟨k, there, rfl, rfl⟩
  refine ⟨?_, ?_, ?_, linked.freshBlocks, ?_, ?_, linked.known, ?_⟩
  · intro g k there
    obtain ⟨old, was, same, -⟩ := origin g k there
    exact same ▸ linked.distinct g old was
  · intro g k there
    obtain ⟨old, was, same, -⟩ := origin g k there
    exact same ▸ linked.allocated g old was
  · intro g g' k k' different there there'
    obtain ⟨old, was, same, -⟩ := origin g k there
    obtain ⟨old', was', same', -⟩ := origin g' k' there'
    rw [same, same']
    exact linked.apart g g' old old' different was was'
  · intro g fresh
    have empty := linked.freshFiles g fresh
    refine (Function.update_of_ne ?_ _ _).trans empty
    rintro rfl
    cases held.symm.trans empty
  · intro g k there
    obtain ⟨old, was, same, count⟩ := origin g k there
    rw [same, count]
    exact linked.counted g old was
  · intro i desc k opened there b cached
    obtain ⟨old, was, same, -⟩ := origin _ k there
    rw [same]
    exact linked.owned i desc old opened was b cached

theorem Fs.Linked.withSlotClosed {fs : Fs} (linked : fs.Linked) {fd : Int} {desc : FileDesc}
    (slot : fs.slot fd = some desc) {f : Nat} {file : File} (held : fs.file f = some file) :
    (fs.withSlotClosed fd f file).Linked := by
  have remaining : ∀ i d, (fs.setSlot fd none).Opened i d → fs.Opened i d := by
    intro i d opened
    rcases (setSlot_opened slot none).mp opened with ⟨-, empty⟩ | ⟨-, old⟩
    · cases empty
    · exact old
  have closed : (fs.setSlot fd none).Linked :=
    ⟨linked.distinct, linked.allocated, linked.apart, linked.freshBlocks, linked.freshFiles,
      linked.counted, fun i d opened => linked.known i d (remaining i d opened),
      fun i d file opened => linked.owned i d file (remaining i d opened)⟩
  exact closed.setFile held rfl rfl

theorem Fs.Linked.withFileUnlisted {fs : Fs} (linked : fs.Linked) {f : Nat} {file : File}
    (held : fs.file f = some file) : (fs.withFileUnlisted f file).Linked := by
  have unlisted : { fs with
      fileList := rlistDel fs.fileList f, deletions := fs.deletions ++ [f] }.Linked :=
    ⟨linked.distinct, linked.allocated, linked.apart, linked.freshBlocks, linked.freshFiles,
      linked.counted, linked.known, linked.owned⟩
  have marked : (Fs.setFile _ f { file with deleted := true }).Linked :=
    unlisted.setFile held rfl rfl
  exact marked.mapDescriptors f resetCursor_atfile fun _ => Or.inr rfl

theorem Fs.Linked.withNewFile {fs : Fs} (linked : fs.Linked) (name : Name) :
    (fs.withNewFile name).Linked := by
  have cases : ∀ g file, (fs.withNewFile name).file g = some file →
      file = newFile name ∨ fs.file g = some file := by
    intro g file there
    rw [fs.withNewFile_file] at there
    split at there
    · exact Or.inl (Option.some.inj there).symm
    · exact Or.inr there
  refine ⟨?_, ?_, ?_, linked.freshBlocks, ?_, ?_, ?_, ?_⟩
  · intro g file there
    rcases cases g file there with rfl | old
    · simp [newFile]
    · exact linked.distinct g file old
  · intro g file there
    rcases cases g file there with rfl | old
    · simp [newFile]
    · exact linked.allocated g file old
  · intro g k file file' different there there'
    rcases cases g file there with rfl | old
    · simp [newFile]
    rcases cases k file' there' with rfl | old'
    · simp [newFile]
    · exact linked.apart g k file file' different old old'
  · intro g fresh
    have later : fs.nextFile + 1 ≤ g := fresh
    exact (Function.update_of_ne (by omega) _ _).trans (linked.freshFiles g (by omega))
  · intro g file there
    rcases cases g file there with rfl | old
    · rfl
    · exact linked.counted g file old
  · intro i desc opened
    have bound := linked.known i desc opened
    exact Nat.lt_succ_of_lt bound
  · intro i desc file opened there
    have bound := linked.known i desc opened
    have old : fs.file desc.atfile = some file :=
      (Function.update_of_ne (by omega) _ _).symm.trans there
    exact linked.owned i desc file opened old

theorem Fs.Linked.placeDescriptor {fs : Fs} (linked : fs.Linked) {desc : FileDesc}
    (known : desc.atfile < fs.nextFile) (unset : desc.curBlock = none) :
    (placeDescriptor fs desc).2.Linked := by
  refine ⟨linked.distinct, linked.allocated, linked.apart, linked.freshBlocks, linked.freshFiles,
    linked.counted, ?_, ?_⟩
  · intro i d opened
    rcases placeDescriptor_opened.mp opened with ⟨-, rfl⟩ | old
    · exact known
    · exact linked.known i d old
  · intro i d file opened held b cached
    rcases placeDescriptor_opened.mp opened with ⟨-, rfl⟩ | old
    · rw [unset] at cached
      cases cached
    · exact linked.owned i d file old held b cached

theorem Fs.Linked.withoutFile {fs : Fs} (linked : fs.Linked) {f : Nat} {file : File} {heap : Heap}
    (held : fs.file f = some file) (freed : freeBlocks fs.heap file.blocks = some heap) :
    (fs.withoutFile f heap).Linked := by
  obtain ⟨next, shape⟩ := freeBlocks_spec freed
  have remaining : ∀ g k, (fs.withoutFile f heap).file g = some k → g ≠ f ∧ fs.file g = some k := by
    intro g k there
    rw [fs.withoutFile_file] at there
    split at there
    · cases there
    · next here => exact ⟨here, there⟩
  have kept : ∀ g k, g ≠ f → fs.file g = some k → ∀ b ∈ k.blocks,
      heap.block b = fs.heap.block b := by
    intro g k other there b inside
    rw [shape b, if_neg (linked.apart g f k file other there held b inside)]
  refine ⟨?_, ?_, ?_, ?_, ?_, ?_, ?_, ?_⟩
  · intro g k there
    exact linked.distinct g k (remaining g k there).2
  · intro g k there b inside
    obtain ⟨other, old⟩ := remaining g k there
    change (heap.block b).isSome
    rw [kept g k other old b inside]
    exact linked.allocated g k old b inside
  · intro g g' k k' different there there'
    exact linked.apart g g' k k' different (remaining g k there).2 (remaining g' k' there').2
  · intro b fresh
    change heap.block b = none
    rw [shape b, linked.freshBlocks b (next ▸ fresh)]
    split <;> rfl
  · intro g fresh
    rw [fs.withoutFile_file, linked.freshFiles g fresh]
    split <;> rfl
  · intro g k there
    exact linked.counted g k (remaining g k there).2
  · exact (linked.mapDescriptors f resetCursor_atfile fun _ => Or.inr rfl).known
  · intro i d k opened there b cached
    obtain ⟨other, old⟩ := remaining _ k there
    obtain ⟨desc, was, rfl⟩ := mapDescriptors_opened.mp opened
    by_cases here : desc.atfile = f
    · rw [if_pos here] at cached
      cases cached
    · rw [if_neg here] at old cached
      have own := linked.owned i desc k was old b cached
      refine ⟨lt_of_lt_of_eq own.1 next.symm, fun live => own.2 fun gone => live ?_⟩
      change heap.block b = none
      rw [shape b, gone]
      split <;> rfl

theorem Effect.linked {fs fs' : Fs} {c : Call} {r : Int} (effect : Effect fs c r fs')
    (linked : fs.Linked) : fs'.Linked := by
  cases effect with
  | failed c r code => exact linked.setError code
  | wrote code slot allowed handle nonempty fits run =>
      exact (linked.store slot handle (write_stays (linked.whole slot handle) run)).setError code
  | readBytes slot allowed handle before run =>
      exact (linked.store slot handle (read_stays (linked.whole slot handle) run).1).setError _
  | resized slot allowed handle bounded run =>
      have stored := linked.store slot handle (resize_stays (linked.whole slot handle) run)
      exact (stored.mapDescriptors _ (clampTo_atfile _) (clampTo_cursor _)).setError _
  | @reopened name flags f file found held =>
      have referenced : (fs.withReference f file).Linked := linked.setFile held rfl rfl
      refine referenced.placeDescriptor (lt_of_not_ge fun fresh => ?_) rfl
      cases held.symm.trans (linked.freshFiles f fresh)
  | created absent => exact (linked.withNewFile _).placeDescriptor (Nat.lt_succ_self _) rfl
  | closed slot held needed => exact (linked.withSlotClosed slot held).setError _
  | closedLast slot held last ghost freed =>
      exact ((linked.withSlotClosed slot held).withoutFile (Function.update_self ..) freed).setError _
  | unlisted found held needed => exact (linked.withFileUnlisted held).setError _
  | deleted found held unused freed =>
      exact ((linked.withFileUnlisted held).withoutFile (Function.update_self ..) freed).setError _

end SystemProg.UserFs
