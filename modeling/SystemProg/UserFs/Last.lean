import SystemProg.UserFs.Linked

set_option autoImplicit false

-- Every loop that appends a block points `last` to it. The loop of `ufs_resize` that releases
-- blocks leaves `last` at the first one that it releases.

namespace SystemProg.UserFs

open Rlist

-- The pointer is the final block of the list, which has not been freed, and null where there is
-- none.
structure File.LastFinal (file : File) (heap : Heap) : Prop where
  final : ∀ b, file.last = some b → ∃ front, file.blocks = front ++ [b]
  null : file.last = none ↔ file.blocks = []
  live : ∀ b, file.last = some b → heap.block b ≠ none

def Fs.LastsFinal (fs : Fs) : Prop := ∀ f file, fs.file f = some file → file.LastFinal fs.heap

inductive Operation where
  | call (c : Call)
  | destroy (order : List Nat)

def operate (fs : Fs) : Operation → Option Fs
  | .call c => step fs c
  | .destroy order => if order.Perm (filesToDelete fs) then ufsDestroy fs order else none

-- The call is not one that releases blocks behind the new end of a file.
def KeepsBlocks (fs : Fs) : Call → Prop
  | .resize fd newSize => ∀ desc file, fs.slot fd = some desc → desc.flags &&& ufsWriteOnly ≠ 0 →
      newSize ≤ maxFileSize → fs.file desc.atfile = some file →
        ¬ (newSize < file.size ∧ (blocksFor newSize : Int) < file.blocksCount)
  | _ => True

def Operation.KeepsBlocks (fs : Fs) : Operation → Prop
  | .call c => UserFs.KeepsBlocks fs c
  | .destroy _ => True

def File.Ends (file : File) : Prop := file.last = file.blocks.getLast?

theorem lastFinal_iff {file : File} {heap : Heap}
    (allocated : ∀ b ∈ file.blocks, (heap.block b).isSome) : file.LastFinal heap ↔ file.Ends := by
  constructor
  · intro last
    cases pointer : file.last with
    | none => simp [File.Ends, pointer, last.null.mp pointer]
    | some b =>
        obtain ⟨front, shape⟩ := last.final b pointer
        simp [File.Ends, pointer, shape]
  · intro ends
    refine ⟨fun b pointer => ?_, ?_, fun b pointer => ?_⟩
    · exact List.getLast?_eq_some_iff.mp (ends.symm.trans pointer)
    · rw [ends, List.getLast?_eq_none_iff]
    · have inside := List.mem_of_getLast? (ends.symm.trans pointer)
      exact Option.isSome_iff_ne_none.mp (allocated b inside)

theorem Fs.Linked.lastsFinal {fs : Fs} (linked : fs.Linked) :
    fs.LastsFinal ↔ ∀ f file, fs.file f = some file → file.Ends := by
  constructor
  · intro lasts f file held
    exact (lastFinal_iff (linked.allocated f file held)).mp (lasts f file held)
  · intro ends f file held
    exact (lastFinal_iff (linked.allocated f file held)).mpr (ends f file held)

theorem appendBlocks_ends {h : Handle} (ends : h.file.Ends) (n : Nat) :
    (h.appendBlocks n).file.Ends := by
  induction n generalizing h with
  | zero => exact ends
  | succ n ih =>
      apply ih
      exact List.getLast?_concat.symm

theorem getBlockByIndex_ends {h h' : Handle} (ends : h.file.Ends) {index : Int} {create : Bool}
    {b : Option Nat} (run : getBlockByIndex h index create = some (b, h')) : h'.file.Ends := by
  have grown : (h.growTo (index + 1)).file.Ends := appendBlocks_ends ends _
  unfold getBlockByIndex at run
  repeat' split at run
  all_goals first
    | (cases run; exact ends)
    | (cases run; exact grown)
    | contradiction

theorem writeLoop_ends {h h' : Handle} (ends : h.file.Ends) {b index b' index' : Nat}
    {offset : Fin blockSize} {rest : List Byte}
    (run : writeLoop h b index offset rest = some (b', index', h')) : h'.file.Ends := by
  induction size : rest.length using Nat.strong_induction_on generalizing h b index offset rest with
  | _ size ih =>
  have bound := offset.isLt
  rw [writeLoop] at run
  dsimp only at run
  split at run
  · cases run
  next heap changed =>
  split at run
  · cases run
    exact ends
  next more =>
  split at run
  · cases run
  next next linked =>
  refine ih _ (by rw [List.length_drop]; omega) ?_ run rfl
  cases next with
  | some c => exact ends
  | none => exact List.getLast?_concat.symm

theorem write_ends {h h' : Handle} (ends : h.file.Ends) {buf : List Byte} {written : Int}
    (run : h.write buf = some (written, h')) : h'.file.Ends := by
  unfold Handle.write at run
  dsimp only at run
  split at run
  · cases run
  · next found lookup =>
      cases run
      exact getBlockByIndex_ends ends lookup
  next b found lookup =>
  split at run
  · cases run
  next b' index' copied copying =>
  cases run
  have copiedEnds : copied.file.Ends := writeLoop_ends (getBlockByIndex_ends ends lookup) copying
  exact copiedEnds

theorem clearLast_file {h h' : Handle} {start count : Nat}
    (run : h.clearLast start count = some h') : h'.file = h.file := by
  obtain ⟨b, -, heap, -, rfl⟩ : ∃ b, h.file.blocks.getLast? = some b ∧
      ∃ heap, h.heap.modify b (fun block => block.clear start count) = some heap ∧
        { h with heap := heap } = h' := by
    simpa [Handle.clearLast, Option.bind_eq_some_iff] using run
  rfl

theorem take_getLast {ring : List Nat} (distinct : ring.Nodup) {n : Nat} (short : n < ring.length) :
    (ring.take n).getLast? ≠ ring.getLast? := by
  intro same
  obtain ⟨front, b, shape⟩ : ∃ front b, ring = front ++ [b] := by
    refine ⟨ring.dropLast, ring.getLast ?_, (List.dropLast_append_getLast _).symm⟩
    rintro rfl
    cases short
  rw [shape, List.length_append, List.length_singleton] at short
  rw [shape, List.take_append_of_le_length (Nat.le_of_lt_succ short), List.getLast?_concat] at same
  have kept : b ∈ front := List.mem_of_mem_take (List.mem_of_getLast? same)
  rw [shape] at distinct
  exact (List.nodup_append.mp distinct).2.2 b kept b (by simp) rfl

theorem shrinkTo_ends {h h' : Handle} (whole : h.Whole) (ends : h.file.Ends) {limit : Nat}
    (run : h.shrinkTo limit = some h') : h'.file.Ends ↔ h.file.blocksCount ≤ limit := by
  have counted := whole.counted
  obtain ⟨heap, same, -⟩ := dropBlocks_spec whole.sound (h.file.blocksCount - limit).toNat (by omega)
  rw [Handle.shrinkTo, same] at run
  cases run
  change h.file.last = (h.file.blocks.take _).getLast? ↔ _
  rw [show h.file.last = _ from ends]
  constructor
  · intro after
    by_contra beyond
    exact take_getLast whole.sound.distinct (by omega) after.symm
  · intro within
    rw [List.take_of_length_le (by omega)]

theorem resize_ends {h h' : Handle} (whole : h.Whole) (ends : h.file.Ends) {newSize : Nat}
    (run : h.resize newSize = some h') :
    h'.file.Ends ↔ ¬ (newSize < h.file.size ∧ (blocksFor newSize : Int) < h.file.blocksCount) := by
  obtain ⟨g, reshaped, rfl⟩ : ∃ g, h.reshape newSize = some g ∧
      { g with file := { g.file with size := newSize } } = h' := by
    simpa [Handle.resize, Option.map_eq_some_iff] using run
  change g.file.Ends ↔ _
  unfold Handle.reshape at reshaped
  split at reshaped
  · next larger =>
      have grown : (h.growTo (blocksFor newSize)).file.Ends := appendBlocks_ends ends _
      refine iff_of_true ?_ (by omega)
      unfold Handle.grow at reshaped
      dsimp only at reshaped
      split at reshaped
      · rw [clearLast_file reshaped]
        exact grown
      · cases reshaped
        exact grown
  split at reshaped
  · next smaller =>
      unfold Handle.shrink at reshaped
      split at reshaped
      · cases reshaped
      next shrunk cut =>
      have file : g.file = shrunk.file := by
        split at reshaped
        · exact clearLast_file reshaped
        · cases reshaped
          rfl
      rw [file, shrinkTo_ends whole ends cut]
      omega
  · next same =>
      cases reshaped
      exact iff_of_true ends (by omega)

def Fs.EachEnds (fs : Fs) : Prop := ∀ f file, fs.file f = some file → file.Ends

theorem Fs.EachEnds.setFile {fs : Fs} (each : fs.EachEnds) (f : Nat) {file : File}
    (ends : file.Ends) : (fs.setFile f file).EachEnds := by
  intro g k there
  rw [fs.setFile_file] at there
  split at there
  · cases there
    exact ends
  · exact each g k there

theorem Fs.EachEnds.relabel {fs : Fs} (each : fs.EachEnds) {f : Nat} {file file' : File}
    (held : fs.file f = some file) (last : file'.last = file.last)
    (blocks : file'.blocks = file.blocks) : (fs.setFile f file').EachEnds := by
  apply each.setFile
  rw [File.Ends, last, blocks]
  exact each f file held

theorem Fs.EachEnds.withoutFile {fs : Fs} (each : fs.EachEnds) (f : Nat) (heap : Heap) :
    (fs.withoutFile f heap).EachEnds := by
  intro g k there
  rw [fs.withoutFile_file] at there
  split at there
  · cases there
  · exact each g k there

theorem Effect.eachEnds {fs fs' : Fs} {c : Call} {r : Int} (effect : Effect fs c r fs')
    (linked : fs.Linked) (each : fs.EachEnds) (keeps : KeepsBlocks fs c) : fs'.EachEnds := by
  cases effect with
  | failed c r code => exact each
  | wrote code slot allowed handle nonempty fits run =>
      obtain ⟨held, -, -⟩ := fs.handle_eq handle
      exact Fs.EachEnds.setFile each _ (write_ends (each _ _ held) run)
  | readBytes slot allowed handle before run =>
      obtain ⟨held, -, -⟩ := fs.handle_eq handle
      have file := (read_stays (linked.whole slot handle) run).2.1
      exact Fs.EachEnds.setFile each _ (file ▸ each _ _ held)
  | resized slot allowed handle bounded run =>
      obtain ⟨held, -, -⟩ := fs.handle_eq handle
      have kept := keeps _ _ slot allowed bounded held
      have ends := (resize_ends (linked.whole slot handle) (each _ _ held) run).mpr kept
      exact Fs.EachEnds.setFile each _ ends
  | reopened found held => exact each.relabel held rfl rfl
  | created absent => exact Fs.EachEnds.setFile each _ rfl
  | closed slot held needed => exact Fs.EachEnds.relabel each held rfl rfl
  | @closedLast fd desc file heap slot held last ghost freed =>
      have closed : (fs.withSlotClosed fd desc.atfile file).EachEnds := Fs.EachEnds.relabel each held rfl rfl
      exact closed.withoutFile desc.atfile heap
  | unlisted found held needed => exact Fs.EachEnds.relabel each held rfl rfl
  | @deleted filename f file heap found held unused freed =>
      have unlisted : (fs.withFileUnlisted f file).EachEnds :=
        Fs.EachEnds.relabel each held rfl rfl
      exact unlisted.withoutFile f heap

theorem step_resize {fs fs' : Fs} {fd : Int} {newSize : Nat} {desc : FileDesc}
    (slot : fs.slot fd = some desc) (allowed : desc.flags &&& ufsWriteOnly ≠ 0)
    (bounded : newSize ≤ maxFileSize) (taken : step fs (.resize fd newSize) = some fs') :
    ∃ h h', fs.handle desc = some h ∧ h.resize newSize = some h' ∧
      fs'.file = (fs.store fd h').file := by
  have writable : ¬ desc.flags &&& ufsWriteOnly = 0#32 := allowed
  cases handle : fs.handle desc with
  | none => simp [step, call, ufsResize, slot, writable, handle, Nat.not_lt.mpr bounded] at taken
  | some h =>
      cases resized : h.resize newSize with
      | none =>
          simp [step, call, ufsResize, slot, writable, handle, resized,
            Nat.not_lt.mpr bounded] at taken
      | some h' =>
          refine ⟨h, h', rfl, resized, ?_⟩
          have same : step fs (.resize fd newSize) = some (((fs.store fd h').mapDescriptors
              desc.atfile (FileDesc.clampTo newSize)).setError .noErr) := by
            simp [step, call, ufsResize, slot, writable, handle, resized, Nat.not_lt.mpr bounded]
          cases taken.symm.trans same
          rfl

theorem step_ends {fs fs' : Fs} {c : Call} (linked : fs.Linked) (each : fs.EachEnds)
    (taken : step fs c = some fs') : fs'.EachEnds ↔ KeepsBlocks fs c := by
  obtain ⟨r, effect⟩ := step_effect taken
  refine ⟨fun after => ?_, effect.eachEnds linked each⟩
  cases c with
  | resize fd newSize =>
      intro desc file slot allowed bounded held
      obtain ⟨h, h', handle, resized, files⟩ := step_resize slot allowed bounded taken
      obtain ⟨there, rfl, -⟩ := fs.handle_eq handle
      cases held.symm.trans there
      have whole := linked.whole slot handle
      have own : fs'.file h'.desc.atfile = some h'.file := by
        rw [files, fs.store_file, if_pos rfl]
      exact (resize_ends whole (each _ _ held) resized).mp (after _ _ own)
  | «open» | read | write | close | delete => exact True.intro

theorem releaseFiles_keeps {fs fs' : Fs} (linked : fs.Linked) (each : fs.EachEnds)
    {order : List Nat} (released : releaseFiles fs order = some fs') :
    fs'.Linked ∧ fs'.EachEnds := by
  induction order generalizing fs with
  | nil =>
      cases released
      exact ⟨linked, each⟩
  | cons f rest ih =>
      obtain ⟨middle, first, later⟩ := Option.bind_eq_some_iff.mp released
      obtain ⟨file, held⟩ : ∃ file, fs.file f = some file := by
        apply Option.ne_none_iff_exists'.mp
        intro gone
        simp [releaseFile, freeFileBlocks, gone] at first
      rw [releaseFile_eq held] at first
      obtain ⟨heap, freed, rfl⟩ := Option.map_eq_some_iff.mp first
      exact ih (linked.withoutFile held freed) (each.withoutFile f heap) later

theorem operate_destroy {fs fs' : Fs} (linked : fs.Linked) (each : fs.EachEnds)
    {order : List Nat} (taken : operate fs (.destroy order) = some fs') :
    fs'.Linked ∧ fs'.EachEnds := by
  rw [operate] at taken
  split at taken
  · obtain ⟨released, run, rfl⟩ := Option.map_eq_some_iff.mp taken
    obtain ⟨linked', each'⟩ := releaseFiles_keeps linked.emptied each run
    exact ⟨linked'.setError .noErr, each'⟩
  · cases taken

theorem operate_linked (fs : Fs) (operation : Operation) (fs' : Fs) (linked : fs.Linked)
    (lasts : fs.LastsFinal) (taken : operate fs operation = some fs') : fs'.Linked := by
  cases operation with
  | call c =>
      obtain ⟨r, effect⟩ := step_effect taken
      exact effect.linked linked
  | destroy order => exact (operate_destroy linked (linked.lastsFinal.mp lasts) taken).1

theorem operate_lasts (fs : Fs) (operation : Operation) (fs' : Fs) (linked : fs.Linked)
    (lasts : fs.LastsFinal) (taken : operate fs operation = some fs') :
    fs'.LastsFinal ↔ operation.KeepsBlocks fs := by
  rw [(operate_linked fs operation fs' linked lasts taken).lastsFinal]
  have each := linked.lastsFinal.mp lasts
  cases operation with
  | call c => exact step_ends linked each taken
  | destroy order => exact iff_of_true (operate_destroy linked each taken).2 True.intro

theorem lasts_final_along_iff (operations : List Operation) :
    Run.Along operate Fs.LastsFinal Fs.initial operations ↔
      Run.EachStep operate (fun fs operation => operation.KeepsBlocks fs) Fs.initial operations :=
  Run.along_iff_eachStep operate_linked operate_lasts Fs.initial_linked
    (fun _ _ held => by cases held)

def releasingRun : List Operation :=
  [.call (.open (some [97]) ufsCreate), .call (.resize 1 1), .call (.resize 1 0)]

theorem releasingRun_ends : (Run.exec operate Fs.initial releasingRun).map (fun fs =>
    ((fs.file 0).map fun file => (file.last, file.blocks), (fs.heap.block 0).isSome)) =
      some (some (some 0, []), false) := by
  decide +kernel

theorem last_can_dangle :
    ¬ ∀ operations fs, Run.exec operate Fs.initial operations = some fs → fs.LastsFinal := by
  intro holds
  obtain ⟨fs, run, ended⟩ := Option.map_eq_some_iff.mp releasingRun_ends
  rw [Prod.mk.injEq] at ended
  obtain ⟨file, held, shape⟩ := Option.map_eq_some_iff.mp ended.1
  rw [Prod.mk.injEq] at shape
  obtain ⟨front, nonempty⟩ := (holds releasingRun fs run 0 file held).final 0 shape.1
  rw [shape.2] at nonempty
  cases front <;> cases nonempty

end SystemProg.UserFs
