import SystemProg.UserFs.Last
import SystemProg.UserFs.Directory

set_option autoImplicit false

-- Every allocated block is on the list of a file, through every call and whatever the cursors hold,
-- so a run leaks no block, and `ufs_destroy` leaves none.

namespace SystemProg.UserFs

open Rlist

def Handle.Owns (h : Handle) (others : Nat → Prop) : Prop :=
  ∀ b, (h.heap.block b).isSome → b ∈ h.file.blocks ∨ others b

section Handle

variable {h h' : Handle} {others : Nat → Prop}

theorem appendBlocks_owns (owns : h.Owns others) (n : Nat) : (h.appendBlocks n).Owns others := by
  induction n generalizing h with
  | zero => exact owns
  | succ n ih =>
      apply ih
      intro b allocated
      change b ∈ h.file.blocks ++ [h.heap.next] ∨ _
      change (Function.update h.heap.block h.heap.next (some Block.zero) b).isSome at allocated
      by_cases new : b = h.heap.next
      · exact Or.inl (List.mem_append_right _ (by simp [new]))
      · rw [Function.update_of_ne new] at allocated
        exact (owns b allocated).imp_left (List.mem_append_left _)

theorem dropBlocks_owns (owns : h.Owns others) {n : Nat} (run : h.dropBlocks n = some h') :
    h'.Owns others := by
  induction n generalizing h with
  | zero =>
      cases run
      exact owns
  | succ n ih =>
      obtain ⟨last, -, rest⟩ := Option.bind_eq_some_iff.mp run
      obtain ⟨heap, cut, later⟩ := Option.bind_eq_some_iff.mp rest
      obtain ⟨block, -, rfl⟩ := Option.map_eq_some_iff.mp cut
      refine ih (fun b allocated => ?_) later
      change (Function.update h.heap.block last none b).isSome at allocated
      change b ∈ h.file.blocks.erase last ∨ _
      by_cases gone : b = last
      · rw [gone, Function.update_self] at allocated
        cases allocated
      · rw [Function.update_of_ne gone] at allocated
        exact (owns b allocated).imp_left (List.mem_erase_of_ne gone).mpr

theorem modify_owns (owns : h.Owns others) {b : Nat} {change : Block → Block} {heap : Heap}
    (run : h.heap.modify b change = some heap) : ({ h with heap := heap } : Handle).Owns others := by
  obtain ⟨block, held, rfl⟩ := Option.map_eq_some_iff.mp run
  intro c allocated
  change (Function.update h.heap.block b _ c).isSome at allocated
  apply owns c
  by_cases here : c = b
  · rw [here, held]
    rfl
  · rwa [Function.update_of_ne here] at allocated

theorem getBlockByIndex_owns (owns : h.Owns others) {index : Int} {create : Bool}
    {b : Option Nat} (run : getBlockByIndex h index create = some (b, h')) : h'.Owns others := by
  have grown : (h.growTo (index + 1)).Owns others := appendBlocks_owns owns _
  unfold getBlockByIndex at run
  repeat' split at run
  all_goals first
    | (cases run; exact owns)
    | (cases run; exact grown)
    | contradiction

theorem writeLoop_owns (owns : h.Owns others) {b index b' index' : Nat} {offset : Fin blockSize}
    {rest : List Byte} (run : writeLoop h b index offset rest = some (b', index', h')) :
    h'.Owns others := by
  induction size : rest.length using Nat.strong_induction_on generalizing h b index offset rest with
  | _ size ih =>
  have bound := offset.isLt
  rw [writeLoop] at run
  dsimp only at run
  split at run
  · cases run
  next heap changed =>
  have copied := modify_owns owns changed
  split at run
  · cases run
    exact copied
  next more =>
  split at run
  · cases run
  next next linked =>
  refine ih _ (by rw [List.length_drop]; omega) ?_ run rfl
  cases next with
  | some c => exact copied
  | none => exact appendBlocks_owns copied 1

theorem write_owns (owns : h.Owns others) {buf : List Byte} {written : Int}
    (run : h.write buf = some (written, h')) : h'.Owns others := by
  unfold Handle.write at run
  dsimp only at run
  split at run
  · cases run
  · next found lookup =>
      cases run
      exact getBlockByIndex_owns owns lookup
  next b found lookup =>
  split at run
  · cases run
  next b' index' copied copying =>
  cases run
  have copiedOwns : copied.Owns others :=
    writeLoop_owns (getBlockByIndex_owns owns lookup) copying
  exact copiedOwns

theorem clearLast_owns (owns : h.Owns others) {start count : Nat}
    (run : h.clearLast start count = some h') : h'.Owns others := by
  obtain ⟨b, -, rest⟩ := Option.bind_eq_some_iff.mp run
  obtain ⟨heap, changed, same⟩ := Option.bind_eq_some_iff.mp rest
  cases same
  exact modify_owns owns changed

theorem resize_owns (owns : h.Owns others) {newSize : Nat} (run : h.resize newSize = some h') :
    h'.Owns others := by
  obtain ⟨g, reshaped, rfl⟩ := Option.map_eq_some_iff.mp run
  suffices reached : g.Owns others from reached
  unfold Handle.reshape at reshaped
  split at reshaped
  · have grown : (h.growTo (blocksFor newSize)).Owns others := appendBlocks_owns owns _
    unfold Handle.grow at reshaped
    dsimp only at reshaped
    split at reshaped
    · exact clearLast_owns grown reshaped
    · cases reshaped
      exact grown
  split at reshaped
  · unfold Handle.shrink at reshaped
    split at reshaped
    · cases reshaped
    next shrunk cut =>
    have dropped := dropBlocks_owns owns cut
    split at reshaped
    · exact clearLast_owns dropped reshaped
    · cases reshaped
      exact dropped
  · cases reshaped
    exact owns

end Handle

def Fs.Accounted (fs : Fs) : Prop :=
  ∀ b, (fs.heap.block b).isSome → ∃ f file, fs.file f = some file ∧ b ∈ file.blocks

section Files

variable (fs : Fs) (accounted : fs.Accounted)

include accounted

theorem store_accounted {fd : Int} {desc : FileDesc} {h h' : Handle}
    (handle : fs.handle desc = some h) (atfile : h'.desc.atfile = h.desc.atfile)
    (keeps : ∀ others, h.Owns others → h'.Owns others) : (fs.store fd h').Accounted := by
  obtain ⟨held, rfl, heap⟩ := fs.handle_eq handle
  -- the others are the blocks of the other files
  have owns := keeps (fun b => ∃ f file, f ≠ h.desc.atfile ∧ fs.file f = some file ∧ b ∈ file.blocks)
    fun b allocated => by
      rw [heap] at allocated
      obtain ⟨f, file, there, inside⟩ := accounted b allocated
      by_cases own : f = h.desc.atfile
      · subst own
        cases held.symm.trans there
        exact Or.inl inside
      · exact Or.inr ⟨f, file, own, there, inside⟩
  intro b allocated
  rcases owns b allocated with inside | ⟨f, file, away, there, inside⟩
  · exact ⟨h.desc.atfile, h'.file, by rw [fs.store_file, atfile, if_pos rfl], inside⟩
  · exact ⟨f, file, by rw [fs.store_file, atfile, if_neg away, there], inside⟩

theorem setFile_accounted {f : Nat} {file file' : File} (held : fs.file f = some file)
    (blocks : file'.blocks = file.blocks) : (fs.setFile f file').Accounted := by
  intro b allocated
  obtain ⟨g, k, there, inside⟩ := accounted b allocated
  by_cases here : g = f
  · subst here
    cases held.symm.trans there
    exact ⟨g, file', by rw [fs.setFile_file, if_pos rfl], blocks ▸ inside⟩
  · exact ⟨g, k, by rw [fs.setFile_file, if_neg here, there], inside⟩

theorem withoutFile_accounted {f : Nat} {file : File} {heap : Heap}
    (held : fs.file f = some file) (freed : freeBlocks fs.heap file.blocks = some heap) :
    (fs.withoutFile f heap).Accounted := by
  obtain ⟨-, blocks⟩ := freeBlocks_spec freed
  intro b allocated
  change (heap.block b).isSome at allocated
  rw [blocks] at allocated
  split at allocated
  · cases allocated
  next outside =>
  obtain ⟨g, k, there, inside⟩ := accounted b allocated
  have away : g ≠ f := by
    rintro rfl
    cases held.symm.trans there
    exact outside inside
  exact ⟨g, k, by rw [fs.withoutFile_file, if_neg away, there], inside⟩

end Files

theorem Effect.accounted {fs fs' : Fs} {c : Call} {r : Int} (effect : Effect fs c r fs')
    (linked : fs.Linked) (accounted : fs.Accounted) : fs'.Accounted := by
  cases effect with
  | failed c r code => exact accounted
  | wrote code slot allowed handle nonempty fits run =>
      have stays := write_stays (linked.whole slot handle) run
      exact store_accounted _ accounted handle stays.keeps.atfile fun _ owns => write_owns owns run
  | readBytes slot allowed handle before run =>
      obtain ⟨stays, file, heap⟩ := read_stays (linked.whole slot handle) run
      refine store_accounted _ accounted handle stays.keeps.atfile fun _ owns => ?_
      intro b allocated
      rw [file]
      exact owns b (heap ▸ allocated)
  | resized slot allowed handle bounded run =>
      have stays := resize_stays (linked.whole slot handle) run
      exact store_accounted _ accounted handle stays.keeps.atfile fun _ owns => resize_owns owns run
  | reopened found held => exact setFile_accounted _ accounted held rfl
  | created absent =>
      intro b allocated
      obtain ⟨f, file, there, inside⟩ := accounted b allocated
      refine ⟨f, file, ?_, inside⟩
      change (fs.withNewFile _).file f = _
      rw [fs.withNewFile_file, if_neg, there]
      rintro rfl
      rw [linked.freshFiles _ le_rfl] at there
      cases there
  | closed slot held needed => exact setFile_accounted (fs.setSlot _ none) accounted held rfl
  | @closedLast fd desc file heap slot held last ghost freed =>
      have closed : (fs.withSlotClosed fd desc.atfile file).Accounted :=
        setFile_accounted (fs.setSlot fd none) accounted held rfl
      exact withoutFile_accounted _ closed (Function.update_self ..) freed
  | unlisted found held needed => exact setFile_accounted _ accounted held rfl
  | @deleted filename f file heap found held unused freed =>
      have unlisted : (fs.withFileUnlisted f file).Accounted :=
        setFile_accounted _ accounted held rfl
      exact withoutFile_accounted _ unlisted (Function.update_self ..) freed

theorem releaseFiles_tables {fs fs' : Fs} (linked : fs.Linked) (closed : fs.fileDescriptors = [])
    {order : List Nat} (released : releaseFiles fs order = some fs') :
    fs'.Linked ∧ (fs.Accounted → fs'.Accounted) ∧ fs'.fileDescriptors = [] ∧
      fs'.fileList = fs.fileList ∧ fs'.nextFile = fs.nextFile ∧ fs'.deletions = fs.deletions := by
  induction order generalizing fs with
  | nil =>
      cases released
      exact ⟨linked, id, closed, rfl, rfl, rfl⟩
  | cons f rest ih =>
      obtain ⟨middle, first, later⟩ := Option.bind_eq_some_iff.mp released
      obtain ⟨file, held⟩ : ∃ file, fs.file f = some file := by
        apply Option.ne_none_iff_exists'.mp
        intro gone
        simp [releaseFile, freeFileBlocks, gone] at first
      rw [releaseFile_eq held] at first
      obtain ⟨heap, freed, rfl⟩ := Option.map_eq_some_iff.mp first
      have still : (fs.withoutFile f heap).fileDescriptors = [] := by
        simp [Fs.withoutFile, Fs.mapDescriptors, closed]
      obtain ⟨linked', kept, tables⟩ := ih (linked.withoutFile held freed) still later
      exact ⟨linked', fun accounted => kept (withoutFile_accounted _ accounted held freed), tables⟩

structure Fs.Emptied (fs : Fs) : Prop where
  files : ∀ f, fs.file f = none
  fileList : fs.fileList = []
  fileDescriptors : fs.fileDescriptors = []

theorem Fs.Emptied.unopened {fs : Fs} (emptied : fs.Emptied) (i : Nat) (desc : FileDesc) :
    ¬ fs.Opened i desc := by
  intro opened
  rw [Fs.Opened, emptied.fileDescriptors] at opened
  cases opened

theorem Fs.Emptied.referenced {fs : Fs} (emptied : fs.Emptied)
    (existed : ∀ f ∈ fs.deletions, f < fs.nextFile) (releasedOnce : fs.releases.Nodup)
    (released : ∀ f, f ∈ fs.releases ↔ f < fs.nextFile) : fs.Referenced := by
  have dead : ∀ f, (fs.file f).isSome = false := fun f => by rw [emptied.files]; rfl
  have unheld : ∀ f file, fs.file f ≠ some file := fun f file held => by
    cases (emptied.files f).symm.trans held
  have unopened : ∀ f, fs.openCount f = 0 := fun f => by
    rw [Fs.openCount, Fs.targets, emptied.fileDescriptors]
    rfl
  refine ⟨⟨⟨fun f opened => ?_, fun f file held => ?_⟩, ?_, fun f => ?_, ?_, ?_, existed,
    releasedOnce, fun f => ?_⟩, fun f _ live => ?_⟩
  · rw [unopened] at opened
    cases opened
  · exact absurd held (unheld f file)
  · rw [emptied.fileList]
    exact List.nodup_nil
  · simp [emptied.fileList, dead]
  · exact fun f g file _ _ _ held => absurd held (unheld f file)
  · exact fun f file held => absurd held (unheld f file)
  · rw [released, emptied.files]
    simp
  · rw [dead] at live
    cases live

theorem ufsDestroy_emptied {fs : Fs} (linked : fs.Linked) (referenced : fs.Referenced)
    {order : List Nat} (lists : order.Perm (filesToDelete fs)) :
    ∃ fs', ufsDestroy fs order = some fs' ∧ fs'.Linked ∧ fs'.Referenced ∧
      (fs.Accounted → fs'.Accounted) ∧ fs'.Emptied ∧ fs'.nextFile = fs.nextFile ∧
      fs'.errorCode = .noErr := by
  obtain ⟨fs', run, releases, once, members, gone⟩ := ufsDestroy_spec linked referenced lists
  obtain ⟨after, ran, rfl⟩ := Option.map_eq_some_iff.mp run
  obtain ⟨linked', kept, closed, unlisted, nextFile, deletions⟩ :=
    releaseFiles_tables linked.emptied rfl ran
  have emptied : (after.setError .noErr).Emptied := ⟨gone, unlisted, closed⟩
  refine ⟨_, run, linked'.setError .noErr, emptied.referenced ?_ ?_ ?_, kept, emptied,
    nextFile, rfl⟩
  · intro f deleted
    change f ∈ after.deletions at deleted
    rw [deletions] at deleted
    exact nextFile ▸ referenced.existed f deleted
  · rw [releases]
    refine List.nodup_append.mpr ⟨referenced.releasedOnce, once, ?_⟩
    rintro f before g now rfl
    have live := (members f).mp now
    rw [((referenced.released f).mp before).2] at live
    cases live
  · intro f
    rw [releases, List.mem_append, referenced.released, members]
    change _ ↔ f < after.nextFile
    rw [nextFile]
    constructor
    · rintro (⟨made, -⟩ | live)
      · exact made
      · obtain ⟨file, held⟩ := Option.isSome_iff_exists.mp live
        exact linked.live_lt held
    · intro made
      cases held : fs.file f with
      | none => exact Or.inl ⟨made, rfl⟩
      | some file => exact Or.inr rfl

theorem operate_accounted (fs : Fs) (operation : Operation) (fs' : Fs)
    (before : fs.Linked ∧ fs.Referenced ∧ fs.Accounted) (taken : operate fs operation = some fs') :
    fs'.Linked ∧ fs'.Referenced ∧ fs'.Accounted := by
  obtain ⟨linked, referenced, accounted⟩ := before
  cases operation with
  | call c =>
      obtain ⟨r, effect⟩ := step_effect taken
      exact ⟨effect.linked linked, effect.referenced linked referenced,
        effect.accounted linked accounted⟩
  | destroy order =>
      rw [operate] at taken
      split at taken
      · next lists =>
          obtain ⟨after, run, linked', referenced', kept, -⟩ :=
            ufsDestroy_emptied linked referenced lists
          cases run.symm.trans taken
          exact ⟨linked', referenced', kept accounted⟩
      · cases taken

theorem blocks_accounted {operations : List Operation} {fs : Fs}
    (run : Run.exec operate Fs.initial operations = some fs) :
    (∀ b, (fs.heap.block b).isSome ↔ ∃! f, ∃ file, fs.file f = some file ∧ b ∈ file.blocks) ∧
    (∀ f, (fs.file f).isSome ↔ f ∈ fs.fileList ∨ ∃ i desc, fs.Opened i desc ∧ desc.atfile = f) ∧
    ∀ order, order.Perm (filesToDelete fs) → ∃ fs', ufsDestroy fs order = some fs' ∧
      (∀ b, fs'.heap.block b = none) ∧ ∀ f, fs'.file f = none := by
  obtain ⟨linked, referenced, accounted⟩ := Run.exec_invariant
    (fun fs : Fs => fs.Linked ∧ fs.Referenced ∧ fs.Accounted) operate_accounted
    ⟨Fs.initial_linked, Fs.initial_referenced, fun b allocated => by cases allocated⟩ run
  refine ⟨fun b => ⟨fun allocated => ?_, ?_⟩, fun f => ⟨fun live => ?_, ?_⟩, fun order lists => ?_⟩
  · obtain ⟨f, file, held, inside⟩ := accounted b allocated
    refine ⟨f, ⟨file, held, inside⟩, ?_⟩
    rintro g ⟨other, held', inside'⟩
    by_contra apart
    exact linked.apart g f other file apart held' held b inside' inside
  · rintro ⟨f, ⟨file, held, inside⟩, -⟩
    exact linked.allocated f file held b inside
  · by_cases deleted : f ∈ fs.deletions
    · exact Or.inr (openCount_pos.mp (referenced.needed f deleted live))
    · exact Or.inl ((referenced.listed f).mpr ⟨live, deleted⟩)
  · rintro (inside | ⟨i, desc, opened, rfl⟩)
    · exact ((referenced.listed f).mp inside).1
    · exact referenced.live _ opened.openCount_pos
  · obtain ⟨fs', destroyed, -, -, kept, emptied, -⟩ :=
      ufsDestroy_emptied linked referenced lists
    refine ⟨fs', destroyed, fun b => ?_, emptied.files⟩
    rw [← Option.not_isSome_iff_eq_none]
    intro allocated
    obtain ⟨f, file, held, -⟩ := kept accounted b allocated
    cases (emptied.files f).symm.trans held

theorem blocks_accounted_ghost : ∃ fs, Run.exec operate Fs.initial
    [.call (.open (some [97]) ufsCreate), .call (.write 1 [1, 2]), .call (.delete (some [97]))] =
      some fs ∧
    ∀ b, (fs.heap.block b).isSome ↔ ∃! f, ∃ file, fs.file f = some file ∧ b ∈ file.blocks := by
  obtain ⟨fs, run⟩ := Option.isSome_iff_exists.mp (show (Run.exec operate Fs.initial
    [.call (.open (some [97]) ufsCreate), .call (.write 1 [1, 2]),
      .call (.delete (some [97]))]).isSome = true by decide +kernel)
  exact ⟨fs, run, (blocks_accounted run).1⟩

end SystemProg.UserFs
