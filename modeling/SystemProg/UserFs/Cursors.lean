import SystemProg.UserFs.Storage

set_option autoImplicit false

-- `ufs_resize` resets the cursors past the new end only. A cursor that stands at the new end
-- itself, on a block of its own, keeps the block that the call released.

namespace SystemProg.UserFs

open Rlist

-- The call does not cut a file where a cached block of one of its descriptors begins and its
-- position stands.
def SafeResize (fs : Fs) : Call → Prop
  | .resize fd newSize => ∀ desc, fs.slot fd = some desc → desc.flags &&& ufsWriteOnly ≠ 0 →
      newSize ≤ maxFileSize → ∀ i d, fs.Opened i d → d.atfile = desc.atfile →
        d.curBlock ≠ none → ¬ (d.pos = newSize ∧ blockSize * d.curBlockIndex = newSize)
  | _ => True

-- What stays true in a run as long as the cursors are valid.
structure Fs.Consistent (fs : Fs) : Prop where
  linked : fs.Linked
  referenced : fs.Referenced
  storage : fs.Storage
  behind : fs.CursorsBehind

theorem Fs.initial_consistent : Fs.initial.Consistent where
  linked := Fs.initial_linked
  referenced := Fs.initial_referenced
  storage := ⟨fun f file held => (by cases held),
    fun i desc file opened => absurd opened Fs.initial_opened⟩
  behind := fun i desc file opened => absurd opened Fs.initial_opened

theorem Fs.Referenced.cursorsValid {fs : Fs} (referenced : fs.Referenced)
    (each : fs.EachDescriptor CursorValid) : fs.CursorsValid := by
  intro i desc opened _
  obtain ⟨file, held⟩ := Option.isSome_iff_exists.mp (referenced.live _ opened.openCount_pos)
  exact ⟨file, held, each i desc file opened held⟩

theorem resized_origin {fs : Fs} {fd : Int} {desc : FileDesc} {h h' : Handle} {newSize : Nat}
    (slot : fs.slot fd = some desc) (handle : fs.handle desc = some h) (same : h'.desc = h.desc)
    {i : Nat} {d : FileDesc} :
    ((fs.store fd h').mapDescriptors desc.atfile (FileDesc.clampTo newSize)).Opened i d ↔
      ∃ old, fs.Opened i old ∧ d = if old.atfile = desc.atfile then old.clampTo newSize else old := by
  obtain ⟨-, rfl, -⟩ := fs.handle_eq handle
  have here := slot_opened slot
  have table : ∀ j old, (fs.store fd h').Opened j old ↔ fs.Opened j old := by
    intro j old
    rw [fs.store_opened slot, same]
    constructor
    · rintro (⟨rfl, rfl⟩ | ⟨-, was⟩)
      · exact here
      · exact was
    · intro was
      by_cases place : j = (fd - 1).toNat
      · subst place
        exact Or.inl ⟨rfl, Option.some.inj (Option.some.inj (was.symm.trans here))⟩
      · exact Or.inr ⟨place, was⟩
  rw [mapDescriptors_opened]
  simp only [table]

section Resize

variable {fs : Fs} (consistent : fs.Consistent) (cursors : fs.EachDescriptor CursorValid)
  {fd : Int} {desc : FileDesc} {h h' : Handle} {newSize : Nat}
  (slot : fs.slot fd = some desc) (handle : fs.handle desc = some h)
  (bounded : newSize ≤ maxFileSize) (run : h.resize newSize = some h')

include consistent cursors slot handle bounded run

theorem resized_cursor {i : Nat} {old : FileDesc} (opened : fs.Opened i old)
    (onFile : old.atfile = desc.atfile) : CursorValid (old.clampTo newSize) h'.file ↔
      (old.curBlock ≠ none → ¬ (old.pos = newSize ∧ blockSize * old.curBlockIndex = newSize)) := by
  obtain ⟨held, rfl, -⟩ := fs.handle_eq handle
  have ready := fs.ready consistent.linked consistent.storage cursors slot handle
  obtain ⟨g, ran, -, -, -, -, -, ring, -⟩ := resize_spec ready.sound ready.stored bounded
  cases run.symm.trans ran
  have valid := cursors i old h.file opened (onFile ▸ held)
  have behind := consistent.behind i old h.file opened (onFile ▸ held)
  unfold FileDesc.clampTo
  split
  · next past =>
      constructor
      · rintro - - ⟨same, -⟩
        omega
      · rintro - b ⟨⟩
  next inside =>
  have kept : ∀ b, old.curBlock = some b → (h'.file.blocks[old.curBlockIndex.toNat]? = some b ↔
      old.curBlockIndex.toNat < blocksFor newSize) := by
    intro b cached
    obtain ⟨nonneg, found⟩ := valid b cached
    have row := (List.getElem?_eq_some_iff.mp found).1
    rw [ring, List.getElem?_take]
    split
    · next within =>
        rw [List.getElem?_append_left row]
        simp [found, within]
    · next beyond => simp [beyond]
  constructor
  · rintro after cached ⟨stands, begins⟩
    obtain ⟨b, cached⟩ := Option.ne_none_iff_exists'.mp cached
    obtain ⟨nonneg, found⟩ := after b cached
    have within := (kept b cached).mp found
    simp only [blocksFor, blockSize] at within begins
    omega
  · intro safe b cached
    have nonneg := (valid b cached).1
    have before := behind b cached
    have apart := safe (by simp [cached])
    refine ⟨nonneg, (kept b cached).mpr ?_⟩
    simp only [blocksFor, blockSize] at before apart ⊢
    omega

theorem resized_cursors (referenced : ((fs.store fd h').mapDescriptors desc.atfile
      (FileDesc.clampTo newSize)).Referenced) :
    ((fs.store fd h').mapDescriptors desc.atfile (FileDesc.clampTo newSize)).CursorsValid ↔
      ∀ i d, fs.Opened i d → d.atfile = desc.atfile → d.curBlock ≠ none →
        ¬ (d.pos = newSize ∧ blockSize * d.curBlockIndex = newSize) := by
  have decided := @resized_cursor fs consistent cursors fd desc h h' newSize slot handle bounded run
  have ready := fs.ready consistent.linked consistent.storage cursors slot handle
  obtain ⟨g, ran, keeps, -, -, same, -⟩ := resize_spec ready.sound ready.stored bounded
  cases run.symm.trans ran
  have atfile : h'.desc.atfile = desc.atfile := by
    rw [same, (fs.handle_eq handle).2.1]
  have file : ∀ f, ((fs.store fd h').mapDescriptors desc.atfile (FileDesc.clampTo newSize)).file f =
      if f = desc.atfile then some h'.file else fs.file f := atfile ▸ fs.store_file fd h'
  constructor
  · intro valid i d opened onFile
    refine (decided opened onFile).mp ?_
    refine valid.each i (d.clampTo newSize) h'.file ?_ ?_
    · exact (resized_origin slot handle same).mpr ⟨d, opened, by rw [if_pos onFile]⟩
    · rw [clampTo_atfile, file, if_pos onFile]
  · intro safe
    refine referenced.cursorsValid fun i d k opened held => ?_
    obtain ⟨old, was, rfl⟩ := (resized_origin slot handle same).mp opened
    rw [file] at held
    by_cases onFile : old.atfile = desc.atfile
    · rw [if_pos onFile] at held ⊢
      rw [clampTo_atfile, if_pos onFile] at held
      cases held
      exact (decided was onFile).mpr (safe i old was onFile)
    · rw [if_neg onFile] at held ⊢
      rw [if_neg onFile] at held
      exact cursors i old k was held

end Resize

theorem Effect.behind {fs fs' : Fs} {c : Call} {r : Int} (effect : Effect fs c r fs')
    (consistent : fs.Consistent) (cursors : fs.EachDescriptor CursorValid) : fs'.CursorsBehind := by
  have behind : fs.EachDescriptor fun desc _ => CursorBehind desc := consistent.behind
  have directory : c.transfers = false → fs'.CursorsBehind := fun directory =>
    effect.eachDescriptor consistent.linked directory cursorBehind_stable behind
  cases effect with
  | failed c r code => exact behind
  | wrote code slot allowed handle nonempty fits run =>
      have ready := fs.ready consistent.linked consistent.storage cursors slot handle
      obtain ⟨-, rfl, -⟩ := fs.handle_eq handle
      obtain ⟨g, n, ran, keeps, -, own, -⟩ := write_spec ready nonempty fits
      cases run.symm.trans ran
      exact behind.store slot handle keeps.atfile own fun _ same => same
  | readBytes slot allowed handle before run =>
      have ready := fs.ready consistent.linked consistent.storage cursors slot handle
      obtain ⟨-, rfl, -⟩ := fs.handle_eq handle
      obtain ⟨data, g, ran, keeps, -, own, -⟩ := read_spec ready before _
      cases run.symm.trans ran
      exact behind.store slot handle keeps.atfile own fun _ same => same
  | resized slot allowed handle bounded run =>
      have ready := fs.ready consistent.linked consistent.storage cursors slot handle
      obtain ⟨g, ran, keeps, -, -, same, -⟩ := resize_spec ready.sound ready.stored bounded
      cases run.symm.trans ran
      obtain ⟨held, rfl, -⟩ := fs.handle_eq handle
      have own := behind _ _ _ (slot_opened slot) held
      refine Fs.EachDescriptor.mapDescriptors (behind.store slot handle keeps.atfile
        (same.symm ▸ own) fun _ same => same) _ (clampTo_atfile _) fun d k _ before => ?_
      unfold FileDesc.clampTo
      split
      · rintro b ⟨⟩
      · exact before
  | reopened | created | closed | closedLast | unlisted | deleted => exact directory rfl

theorem Effect.cursors {fs fs' : Fs} {c : Call} {r : Int} (effect : Effect fs c r fs')
    (consistent : fs.Consistent) (cursors : fs.EachDescriptor CursorValid)
    (safe : SafeResize fs c) : fs'.CursorsValid := by
  have referenced := effect.referenced consistent.linked consistent.referenced
  have directory : c.transfers = false → fs'.CursorsValid := fun directory =>
    referenced.cursorsValid
      (effect.eachDescriptor consistent.linked directory cursorValid_stable cursors)
  cases effect with
  | failed c r code => exact referenced.cursorsValid cursors
  | wrote code slot allowed handle nonempty fits run =>
      have ready := fs.ready consistent.linked consistent.storage cursors slot handle
      obtain ⟨-, rfl, -⟩ := fs.handle_eq handle
      obtain ⟨g, n, ran, keeps, done, -, ring, -⟩ := write_spec ready nonempty fits
      cases run.symm.trans ran
      exact referenced.cursorsValid (cursors.store slot handle keeps.atfile done.valid
        fun _ valid => valid.append ring)
  | readBytes slot allowed handle before run =>
      have ready := fs.ready consistent.linked consistent.storage cursors slot handle
      obtain ⟨-, rfl, -⟩ := fs.handle_eq handle
      obtain ⟨data, g, ran, keeps, done, -, file, -⟩ := read_spec ready before _
      cases run.symm.trans ran
      exact referenced.cursorsValid (cursors.store slot handle keeps.atfile done.valid
        fun _ valid => file ▸ valid)
  | resized slot allowed handle bounded run =>
      exact (resized_cursors consistent cursors slot handle bounded run
        ((setError_sameDirectory _ _).referenced referenced)).mpr (safe _ slot allowed bounded)
  | reopened | created | closed | closedLast | unlisted | deleted => exact directory rfl

theorem step_consistent (fs : Fs) (c : Call) (fs' : Fs) (consistent : fs.Consistent)
    (cursors : fs.CursorsValid) (taken : step fs c = some fs') : fs'.Consistent := by
  obtain ⟨r, effect⟩ := step_effect taken
  exact ⟨effect.linked consistent.linked, effect.referenced consistent.linked consistent.referenced,
    effect.storage consistent.linked consistent.storage cursors.each,
    effect.behind consistent cursors.each⟩

theorem step_cursors (fs : Fs) (c : Call) (fs' : Fs) (consistent : fs.Consistent)
    (cursors : fs.CursorsValid) (taken : step fs c = some fs') :
    fs'.CursorsValid ↔ SafeResize fs c := by
  obtain ⟨r, effect⟩ := step_effect taken
  refine ⟨fun valid => ?_, effect.cursors consistent cursors.each⟩
  cases c with
  | resize fd newSize =>
      intro desc slot allowed bounded
      have ready := fun h handle =>
        fs.ready (h := h) consistent.linked consistent.storage cursors.each slot handle
      obtain ⟨h, handle⟩ := (consistent.referenced.valid consistent.linked).handle slot
      obtain ⟨h', run, keeps, -⟩ :=
        resize_spec (ready h handle).sound (ready h handle).stored bounded
      have result : step fs (.resize fd newSize) = some (((fs.store fd h').mapDescriptors
          desc.atfile (FileDesc.clampTo newSize)).setError .noErr) := by
        have writable : ¬ desc.flags &&& ufsWriteOnly = 0#32 := allowed
        simp [step, call, ufsResize, slot, writable, handle, run, Nat.not_lt.mpr bounded]
      cases taken.symm.trans result
      have referenced := effect.referenced consistent.linked consistent.referenced
      exact (resized_cursors consistent cursors.each slot handle bounded run
        ((setError_sameDirectory _ _).referenced referenced)).mp valid
  | «open» | read | write | close | delete => exact True.intro

theorem cursors_valid_along_iff (calls : List Call) :
    Run.Along step Fs.CursorsValid Fs.initial calls ↔
      Run.EachStep step SafeResize Fs.initial calls :=
  Run.along_iff_eachStep step_consistent step_cursors Fs.initial_consistent
    (fun _ _ opened => absurd opened Fs.initial_opened)

def danglingRun : List Call :=
  [.open (some [97]) ufsCreate, .resize 1 1, .open (some [97]) 0, .read 2 0, .resize 1 0]

theorem danglingRun_ends : (Run.exec step Fs.initial danglingRun).map (fun fs =>
    (fs.fileDescriptors[1]?.join.map fun desc => (desc.curBlock, desc.atfile),
      (fs.file 0).map File.blocks)) = some (some (some 0, 0), some []) := by
  decide +kernel

theorem cursors_can_dangle :
    ¬ ∀ calls fs, Run.exec step Fs.initial calls = some fs → fs.CursorsValid := by
  intro holds
  obtain ⟨fs, run, ended⟩ := Option.map_eq_some_iff.mp danglingRun_ends
  rw [Prod.mk.injEq] at ended
  obtain ⟨desc, there, cursor⟩ := Option.map_eq_some_iff.mp ended.1
  obtain ⟨cached, atfile⟩ := Prod.mk.injEq .. ▸ cursor
  have opened : fs.Opened 1 desc := Option.join_eq_some_iff.mp there
  have empty := ended.2
  obtain ⟨file, held, valid⟩ := holds danglingRun fs run 1 desc opened (by simp [cached])
  have none := (valid 0 cached).2
  rw [atfile] at held
  rw [held] at empty
  rw [Option.map_some, Option.some.injEq] at empty
  simp [empty] at none

end SystemProg.UserFs
