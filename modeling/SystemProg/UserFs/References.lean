import SystemProg.UserFs.Linked

set_option autoImplicit false

-- The file list, the reference counts, the deleted flags and the descriptor table tell the same
-- story in every state that calls reach.

namespace SystemProg.UserFs

open Rlist

def Fs.targets (fs : Fs) : List (Option Nat) := fs.fileDescriptors.map (Option.map FileDesc.atfile)

def Fs.openCount (fs : Fs) (f : Nat) : Nat := fs.targets.count (some f)

structure Fs.Counted (fs : Fs) : Prop where
  live : ∀ f, 0 < fs.openCount f → (fs.file f).isSome
  refs : ∀ f file, fs.file f = some file → file.refs = fs.openCount f

structure Fs.Indexed (fs : Fs) : Prop extends fs.Counted where
  listedOnce : fs.fileList.Nodup
  listed : ∀ f, f ∈ fs.fileList ↔ (fs.file f).isSome ∧ f ∉ fs.deletions
  names : ∀ f g file file', f ∈ fs.fileList → g ∈ fs.fileList → fs.file f = some file →
    fs.file g = some file' → file.name = file'.name → f = g
  flagged : ∀ f file, fs.file f = some file → (file.deleted = true ↔ f ∈ fs.deletions)
  existed : ∀ f ∈ fs.deletions, f < fs.nextFile
  releasedOnce : fs.releases.Nodup
  released : ∀ f, f ∈ fs.releases ↔ f < fs.nextFile ∧ fs.file f = none

-- A deleted file that no descriptor needs is released.
structure Fs.Referenced (fs : Fs) : Prop extends fs.Indexed where
  needed : ∀ f, f ∈ fs.deletions → (fs.file f).isSome → 0 < fs.openCount f

theorem Fs.initial_referenced : Fs.initial.Referenced := by
  refine ⟨⟨⟨?_, ?_⟩, ?_, ?_, ?_, ?_, ?_, ?_, ?_⟩, ?_⟩ <;>
    simp [Fs.initial, Fs.openCount, Fs.targets]

theorem Fs.Opened.target {fs : Fs} {i : Nat} {desc : FileDesc} (opened : fs.Opened i desc) :
    fs.targets[i]? = some (some desc.atfile) := by
  unfold Fs.Opened at opened
  simp [Fs.targets, opened]

theorem Fs.Opened.openCount_pos {fs : Fs} {i : Nat} {desc : FileDesc}
    (opened : fs.Opened i desc) : 0 < fs.openCount desc.atfile :=
  List.count_pos_iff.mpr (List.mem_of_getElem? opened.target)

theorem openCount_pos {fs : Fs} {f : Nat} :
    0 < fs.openCount f ↔ ∃ i desc, fs.Opened i desc ∧ desc.atfile = f := by
  constructor
  · intro positive
    obtain ⟨slot, inside, target⟩ := List.mem_map.mp (List.count_pos_iff.mp positive)
    obtain ⟨desc, rfl, rfl⟩ := Option.map_eq_some_iff.mp target
    obtain ⟨i, found⟩ := List.mem_iff_getElem?.mp inside
    exact ⟨i, desc, found, rfl⟩
  · rintro ⟨i, desc, opened, rfl⟩
    exact opened.openCount_pos

theorem count_set_add {targets : List (Option Nat)} {place : Nat} {old : Option Nat}
    (new : Option Nat) (there : targets[place]? = some old) (f : Nat) :
    (targets.set place new).count (some f) + (if old = some f then 1 else 0) =
      targets.count (some f) + (if new = some f then 1 else 0) := by
  obtain ⟨inside, same⟩ := List.getElem?_eq_some_iff.mp there
  have counted := List.count_set (a := new) (b := some f) inside
  have one := List.boole_getElem_le_count (a := some f) inside
  rw [same] at counted one
  simp only [beq_iff_eq] at counted one
  omega

theorem setSlot_targets (fs : Fs) (fd : Int) (desc : Option FileDesc) :
    (fs.setSlot fd desc).targets = fs.targets.set (fd - 1).toNat (desc.map FileDesc.atfile) := by
  simp [Fs.targets, Fs.setSlot, List.map_set]

theorem store_targets {fs : Fs} {fd : Int} {desc : FileDesc} {h : Handle}
    (slot : fs.slot fd = some desc) (atfile : h.desc.atfile = desc.atfile) :
    (fs.store fd h).targets = fs.targets := by
  obtain ⟨inside, same⟩ := List.getElem?_eq_some_iff.mp (slot_opened slot).target
  change (fs.setSlot fd (some h.desc)).targets = _
  rw [setSlot_targets, Option.map_some, atfile, ← same, List.set_getElem_self]

theorem mapDescriptors_targets (fs : Fs) (f : Nat) {change : FileDesc → FileDesc}
    (atfile : ∀ desc, (change desc).atfile = desc.atfile) :
    (fs.mapDescriptors f change).targets = fs.targets := by
  simp only [Fs.targets, Fs.mapDescriptors, List.map_map]
  refine List.map_congr_left fun slot _ => ?_
  cases slot with
  | none => rfl
  | some desc =>
      simp only [Function.comp_apply, Option.map_some, Option.some.injEq]
      split
      · exact atfile desc
      · rfl

theorem closed_openCount {fs : Fs} {fd : Int} {desc : FileDesc} (slot : fs.slot fd = some desc)
    (g : Nat) : (fs.setSlot fd none).openCount g + (if desc.atfile = g then 1 else 0) =
      fs.openCount g := by
  have counted := count_set_add none (slot_opened slot).target g
  simp only [Option.some.injEq, reduceCtorEq, if_false, Nat.add_zero] at counted
  rw [Fs.openCount, setSlot_targets]
  exact counted

theorem firstFree_target (slots : List (Option FileDesc)) (inside : firstFree slots < slots.length) :
    slots[firstFree slots]? = some none := by
  have closed := firstFree_closed slots
  rw [List.getElem?_eq_getElem inside] at closed ⊢
  cases held : slots[firstFree slots] with
  | none => rfl
  | some desc => exact absurd (congrArg some held) (closed desc)

theorem placed_openCount (fs : Fs) (desc : FileDesc) (g : Nat) :
    (placeDescriptor fs desc).2.openCount g =
      fs.openCount g + (if desc.atfile = g then 1 else 0) := by
  unfold Fs.openCount Fs.targets placeDescriptor
  dsimp only
  split
  · next inside =>
      have free : fs.targets[firstFree fs.fileDescriptors]? = some none := by
        simp [Fs.targets, firstFree_target _ inside]
      have counted := count_set_add (some desc.atfile) free g
      simp only [Option.some.injEq, reduceCtorEq, if_false, Nat.add_zero] at counted
      rw [List.map_set]
      exact counted
  · simp [List.count_append, List.count_singleton]

def File.entry (file : File) : Int × Name × Bool := (file.refs, file.name, file.deleted)

structure Fs.SameDirectory (fs fs' : Fs) : Prop where
  fileList : fs'.fileList = fs.fileList
  nextFile : fs'.nextFile = fs.nextFile
  deletions : fs'.deletions = fs.deletions
  releases : fs'.releases = fs.releases
  targets : fs'.targets = fs.targets
  entries : ∀ f, (fs'.file f).map File.entry = (fs.file f).map File.entry

theorem Fs.SameDirectory.isSome {fs fs' : Fs} (same : fs.SameDirectory fs') (f : Nat) :
    (fs'.file f).isSome = (fs.file f).isSome := by
  simpa using congrArg Option.isSome (same.entries f)

theorem Fs.SameDirectory.origin {fs fs' : Fs} (same : fs.SameDirectory fs') {f : Nat}
    {file : File} (held : fs'.file f = some file) : ∃ old, fs.file f = some old ∧
      old.refs = file.refs ∧ old.name = file.name ∧ old.deleted = file.deleted := by
  have entries := same.entries f
  rw [held] at entries
  obtain ⟨old, was, entry⟩ := Option.map_eq_some_iff.mp entries.symm
  simp only [File.entry, Prod.mk.injEq] at entry
  exact ⟨old, was, entry⟩

theorem Fs.SameDirectory.trans {fs middle fs' : Fs} (first : fs.SameDirectory middle)
    (second : middle.SameDirectory fs') : fs.SameDirectory fs' :=
  ⟨second.fileList.trans first.fileList, second.nextFile.trans first.nextFile,
    second.deletions.trans first.deletions, second.releases.trans first.releases,
    second.targets.trans first.targets, fun f => (second.entries f).trans (first.entries f)⟩

theorem Fs.SameDirectory.openCount {fs fs' : Fs} (same : fs.SameDirectory fs') (f : Nat) :
    fs'.openCount f = fs.openCount f := by
  rw [Fs.openCount, same.targets, Fs.openCount]

theorem Fs.SameDirectory.counted {fs fs' : Fs} (same : fs.SameDirectory fs')
    (counted : fs.Counted) : fs'.Counted := by
  constructor
  · intro f positive
    rw [same.isSome]
    exact counted.live f (same.openCount f ▸ positive)
  · intro f file held
    obtain ⟨old, was, refs, -, -⟩ := same.origin held
    rw [← refs, same.openCount]
    exact counted.refs f old was

theorem Fs.SameDirectory.indexed {fs fs' : Fs} (same : fs.SameDirectory fs')
    (indexed : fs.Indexed) : fs'.Indexed := by
  refine ⟨same.counted indexed.toCounted, ?_, ?_, ?_, ?_, ?_, ?_, ?_⟩
  · exact same.fileList ▸ indexed.listedOnce
  · intro f
    rw [same.fileList, same.isSome, same.deletions]
    exact indexed.listed f
  · intro f g file file' inside inside' held held' names
    obtain ⟨old, was, -, name, -⟩ := same.origin held
    obtain ⟨old', was', -, name', -⟩ := same.origin held'
    rw [same.fileList] at inside inside'
    exact indexed.names f g old old' inside inside' was was' (by rw [name, name', names])
  · intro f file held
    obtain ⟨old, was, -, -, deleted⟩ := same.origin held
    rw [← deleted, same.deletions]
    exact indexed.flagged f old was
  · intro f gone
    rw [same.deletions] at gone
    exact same.nextFile ▸ indexed.existed f gone
  · exact same.releases ▸ indexed.releasedOnce
  · intro f
    rw [same.releases, same.nextFile, indexed.released f, ← Option.not_isSome_iff_eq_none,
      ← Option.not_isSome_iff_eq_none, same.isSome]

theorem Fs.SameDirectory.referenced {fs fs' : Fs} (same : fs.SameDirectory fs')
    (referenced : fs.Referenced) : fs'.Referenced := by
  refine ⟨same.indexed referenced.toIndexed, fun f gone alive => ?_⟩
  rw [same.deletions] at gone
  rw [same.isSome] at alive
  rw [same.openCount]
  exact referenced.needed f gone alive

theorem store_sameDirectory {fs : Fs} {fd : Int} {desc : FileDesc} {h h' : Handle}
    (slot : fs.slot fd = some desc) (handle : fs.handle desc = some h) (keeps : h.Keeps h') :
    fs.SameDirectory (fs.store fd h') := by
  obtain ⟨held, rfl, -⟩ := fs.handle_eq handle
  refine ⟨rfl, rfl, rfl, rfl, store_targets slot keeps.atfile, fun f => ?_⟩
  rw [fs.store_file, keeps.atfile]
  split
  · next here =>
      rw [here, held]
      simp [File.entry, keeps.refs, keeps.name, keeps.deleted]
  · rfl

theorem setError_sameDirectory (fs : Fs) (code : UfsErrorCode) :
    fs.SameDirectory (fs.setError code) := ⟨rfl, rfl, rfl, rfl, rfl, fun _ => rfl⟩

theorem mapDescriptors_sameDirectory (fs : Fs) (f : Nat) {change : FileDesc → FileDesc}
    (atfile : ∀ desc, (change desc).atfile = desc.atfile) :
    fs.SameDirectory (fs.mapDescriptors f change) :=
  ⟨rfl, rfl, rfl, rfl, mapDescriptors_targets fs f atfile, fun _ => rfl⟩

def Call.transfers : Call → Bool
  | .read .. | .write .. | .resize .. => true
  | _ => false

theorem Effect.sameDirectory {fs fs' : Fs} {c : Call} {r : Int} (effect : Effect fs c r fs')
    (linked : fs.Linked) (transfers : c.transfers = true) : fs.SameDirectory fs' := by
  cases effect with
  | failed c r code => exact setError_sameDirectory fs code
  | wrote code slot allowed handle nonempty fits run =>
      have keeps := (write_stays (linked.whole slot handle) run).keeps
      exact (store_sameDirectory slot handle keeps).trans (setError_sameDirectory _ code)
  | readBytes slot allowed handle before run =>
      have keeps := (read_stays (linked.whole slot handle) run).1.keeps
      exact (store_sameDirectory slot handle keeps).trans (setError_sameDirectory _ _)
  | resized slot allowed handle bounded run =>
      have keeps := (resize_stays (linked.whole slot handle) run).keeps
      exact ((store_sameDirectory slot handle keeps).trans
        (mapDescriptors_sameDirectory _ _ (clampTo_atfile _))).trans (setError_sameDirectory _ _)
  | reopened | created | closed | closedLast | unlisted | deleted => cases transfers

section Directory

variable {fs : Fs}

theorem Fs.Linked.live_lt (linked : fs.Linked) {f : Nat} {file : File}
    (held : fs.file f = some file) : f < fs.nextFile := by
  refine lt_of_not_ge fun fresh => ?_
  cases held.symm.trans (linked.freshFiles f fresh)

theorem Fs.Linked.openCount_eq_zero (linked : fs.Linked) {f : Nat} (fresh : fs.nextFile ≤ f) :
    fs.openCount f = 0 := by
  refine Nat.eq_zero_of_not_pos fun positive => ?_
  obtain ⟨i, desc, opened, rfl⟩ := openCount_pos.mp positive
  have := linked.known i desc opened
  omega

theorem Fs.Counted.recount (counted : fs.Counted) {fs' : Fs} {f : Nat} {file' : File}
    (files : ∀ g, fs'.file g = if g = f then some file' else fs.file g)
    (refs : file'.refs = fs'.openCount f)
    (others : ∀ g, g ≠ f → fs'.openCount g = fs.openCount g) : fs'.Counted := by
  constructor
  · intro g positive
    rw [files]
    split
    · rfl
    · next away => exact counted.live g (others g away ▸ positive)
  · intro g k now
    rw [files] at now
    split at now
    · next here =>
        cases now
        rw [here, refs]
    · next away =>
        rw [others g away]
        exact counted.refs g k now

theorem Fs.Counted.withSlotClosed (counted : fs.Counted) {fd : Int} {desc : FileDesc} {file : File}
    (slot : fs.slot fd = some desc) (held : fs.file desc.atfile = some file) :
    (fs.withSlotClosed fd desc.atfile file).Counted := by
  have closed : ∀ g, (fs.withSlotClosed fd desc.atfile file).openCount g + _ = _ :=
    closed_openCount slot
  refine counted.recount (fs.setFile_file _ _) ?_ fun g away => ?_
  · have here := closed desc.atfile
    rw [if_pos rfl] at here
    have := counted.refs _ _ held
    dsimp only
    omega
  · have there := closed g
    rwa [if_neg (Ne.symm away)] at there

theorem Fs.Counted.reopened (counted : fs.Counted) {f : Nat} {file : File}
    (held : fs.file f = some file) {desc : FileDesc} (atfile : desc.atfile = f) :
    (placeDescriptor (fs.withReference f file) desc).2.Counted := by
  have openCount : ∀ g, (placeDescriptor (fs.withReference f file) desc).2.openCount g =
      fs.openCount g + (if f = g then 1 else 0) :=
    fun g => atfile ▸ placed_openCount (fs.withReference f file) desc g
  refine counted.recount (fs.setFile_file f _) ?_ fun g away => ?_
  · rw [openCount, if_pos rfl]
    have := counted.refs f file held
    dsimp only
    omega
  · rw [openCount, if_neg (Ne.symm away), Nat.add_zero]

theorem Fs.Counted.created (counted : fs.Counted) (linked : fs.Linked) (name : Name)
    {desc : FileDesc} (atfile : desc.atfile = fs.nextFile) :
    (placeDescriptor (fs.withNewFile name) desc).2.Counted := by
  have openCount : ∀ g, (placeDescriptor (fs.withNewFile name) desc).2.openCount g =
      fs.openCount g + (if fs.nextFile = g then 1 else 0) :=
    fun g => atfile ▸ placed_openCount (fs.withNewFile name) desc g
  refine counted.recount (fs.withNewFile_file name) ?_ fun g away => ?_
  · rw [openCount, if_pos rfl, linked.openCount_eq_zero le_rfl]
    rfl
  · rw [openCount, if_neg (Ne.symm away), Nat.add_zero]

theorem withFileUnlisted_openCount (fs : Fs) (f : Nat) (file : File) (g : Nat) :
    (fs.withFileUnlisted f file).openCount g = fs.openCount g := by
  unfold Fs.openCount Fs.withFileUnlisted
  rw [mapDescriptors_targets _ _ resetCursor_atfile]
  rfl

theorem withoutFile_openCount (fs : Fs) (f : Nat) (heap : Heap) (g : Nat) :
    (fs.withoutFile f heap).openCount g = fs.openCount g := by
  change (fs.mapDescriptors f FileDesc.resetCursor).openCount g = _
  rw [Fs.openCount, mapDescriptors_targets _ _ resetCursor_atfile, Fs.openCount]

theorem Fs.Counted.withFileUnlisted (counted : fs.Counted) {f : Nat} {file : File}
    (held : fs.file f = some file) : (fs.withFileUnlisted f file).Counted := by
  refine counted.recount (fs.setFile_file f _) ?_ fun g _ => withFileUnlisted_openCount fs f file g
  rw [withFileUnlisted_openCount]
  exact counted.refs f file held

theorem Fs.Counted.withoutFile (counted : fs.Counted) {f : Nat} (unused : fs.openCount f = 0)
    (heap : Heap) : (fs.withoutFile f heap).Counted := by
  constructor
  · intro g positive
    rw [withoutFile_openCount] at positive
    have away : g ≠ f := by
      rintro rfl
      omega
    rw [fs.withoutFile_file, if_neg away]
    exact counted.live g positive
  · intro g k now
    rw [withoutFile_openCount]
    rw [fs.withoutFile_file] at now
    split at now
    · cases now
    · exact counted.refs g k now

theorem Fs.Counted.closedLast_unused (counted : fs.Counted) {fd : Int} {desc : FileDesc}
    {file : File} (slot : fs.slot fd = some desc) (held : fs.file desc.atfile = some file)
    (last : file.refs - 1 = 0) :
    (fs.withSlotClosed fd desc.atfile file).openCount desc.atfile = 0 := by
  have here : (fs.withSlotClosed fd desc.atfile file).openCount desc.atfile + _ = _ :=
    closed_openCount slot desc.atfile
  have refs := counted.refs _ _ held
  rw [if_pos rfl] at here
  omega

theorem Effect.counted {fs' : Fs} {c : Call} {r : Int} (effect : Effect fs c r fs')
    (linked : fs.Linked) (counted : fs.Counted) : fs'.Counted := by
  by_cases transfers : c.transfers = true
  · exact (effect.sameDirectory linked transfers).counted counted
  have setError : ∀ {fs : Fs} (code : UfsErrorCode), fs.Counted → (fs.setError code).Counted :=
    fun code => (setError_sameDirectory _ code).counted
  cases effect with
  | failed c r code => exact setError code counted
  | wrote | readBytes | resized => exact absurd rfl transfers
  | reopened found held => exact counted.reopened held rfl
  | created absent => exact counted.created linked _ rfl
  | closed slot held needed => exact setError _ (counted.withSlotClosed slot held)
  | closedLast slot held last ghost freed =>
      exact setError _ ((counted.withSlotClosed slot held).withoutFile
        (counted.closedLast_unused slot held last) _)
  | unlisted found held needed => exact setError _ (counted.withFileUnlisted held)
  | deleted found held unused freed =>
      refine setError _ ((counted.withFileUnlisted held).withoutFile ?_ _)
      have refs := counted.refs _ _ held
      rw [withFileUnlisted_openCount]
      omega

theorem Fs.Indexed.recount (indexed : fs.Indexed) {fs' : Fs} {f : Nat} {file file' : File}
    (counted : fs'.Counted) (held : fs.file f = some file)
    (files : ∀ g, fs'.file g = if g = f then some file' else fs.file g)
    (fileList : fs'.fileList = fs.fileList) (nextFile : fs'.nextFile = fs.nextFile)
    (deletions : fs'.deletions = fs.deletions) (releases : fs'.releases = fs.releases)
    (name : file'.name = file.name) (deleted : file'.deleted = file.deleted) : fs'.Indexed := by
  have origin : ∀ g k, fs'.file g = some k →
      ∃ old, fs.file g = some old ∧ k.name = old.name ∧ k.deleted = old.deleted := by
    intro g k now
    rw [files] at now
    split at now
    · next here =>
        cases now
        exact ⟨file, here ▸ held, name, deleted⟩
    · exact ⟨k, now, rfl, rfl⟩
  have isSome : ∀ g, (fs'.file g).isSome = (fs.file g).isSome := by
    intro g
    rw [files]
    split
    · next here => simp [here, held]
    · rfl
  refine ⟨counted, fileList ▸ indexed.listedOnce, ?_, ?_, ?_, ?_, releases ▸ indexed.releasedOnce, ?_⟩
  · intro g
    rw [fileList, isSome, deletions]
    exact indexed.listed g
  · intro g g' k k' inside inside' now now' names
    obtain ⟨old, was, same, -⟩ := origin g k now
    obtain ⟨old', was', same', -⟩ := origin g' k' now'
    rw [fileList] at inside inside'
    exact indexed.names g g' old old' inside inside' was was' (by rw [← same, ← same', names])
  · intro g k now
    obtain ⟨old, was, -, same⟩ := origin g k now
    rw [same, deletions]
    exact indexed.flagged g old was
  · intro g gone
    rw [deletions] at gone
    exact nextFile ▸ indexed.existed g gone
  · intro g
    rw [releases, nextFile, indexed.released, ← Option.not_isSome_iff_eq_none,
      ← Option.not_isSome_iff_eq_none, isSome]

theorem Fs.Indexed.withSlotClosed (indexed : fs.Indexed) {fd : Int} {desc : FileDesc} {file : File}
    (slot : fs.slot fd = some desc) (held : fs.file desc.atfile = some file) :
    (fs.withSlotClosed fd desc.atfile file).Indexed :=
  indexed.recount (indexed.toCounted.withSlotClosed slot held) held (fs.setFile_file _ _)
    rfl rfl rfl rfl rfl rfl

theorem Fs.Referenced.closed (referenced : fs.Referenced) {fd : Int} {desc : FileDesc} {file : File}
    (slot : fs.slot fd = some desc) (held : fs.file desc.atfile = some file)
    (needed : ¬ (file.refs - 1 = 0 ∧ file.deleted = true)) :
    (fs.withSlotClosed fd desc.atfile file).Referenced := by
  refine ⟨referenced.withSlotClosed slot held, fun g gone alive => ?_⟩
  have counted : (fs.withSlotClosed fd desc.atfile file).openCount g + _ = _ :=
    closed_openCount slot g
  by_cases here : desc.atfile = g
  · subst here
    rw [if_pos rfl] at counted
    have deleted := (referenced.flagged _ _ held).mpr gone
    have refs := referenced.refs _ _ held
    have more : file.refs - 1 ≠ 0 := fun last => needed ⟨last, deleted⟩
    omega
  · rw [if_neg here] at counted
    have alive' : (fs.file g).isSome := by
      rw [Fs.withSlotClosed, Fs.setFile_file, if_neg (Ne.symm here)] at alive
      exact alive
    have := referenced.needed g gone alive'
    omega

theorem Fs.Referenced.reopened (referenced : fs.Referenced) {f : Nat} {file : File}
    (inside : f ∈ fs.fileList) (held : fs.file f = some file) (listed : file.deleted = false)
    {desc : FileDesc} (atfile : desc.atfile = f) :
    (placeDescriptor (fs.withReference f file) desc).2.Referenced := by
  have openCount : ∀ g, (placeDescriptor (fs.withReference f file) desc).2.openCount g =
      fs.openCount g + (if f = g then 1 else 0) :=
    fun g => atfile ▸ placed_openCount (fs.withReference f file) desc g
  refine ⟨referenced.recount (referenced.toCounted.reopened held atfile) held
    (fs.setFile_file f _) rfl rfl rfl rfl rfl listed.symm, fun g gone alive => ?_⟩
  · have undeleted := ((referenced.listed f).mp inside).2
    have away : g ≠ f := fun here => undeleted (here ▸ gone)
    have alive' : ((fs.withReference f file).file g).isSome := alive
    rw [Fs.withReference, Fs.setFile_file, if_neg away] at alive'
    rw [openCount, if_neg (Ne.symm away)]
    exact referenced.needed g gone alive'

theorem Fs.Referenced.created (referenced : fs.Referenced) (linked : fs.Linked) {name : Name}
    (absent : findFileByName fs (some name) fs.fileList = some none) {desc : FileDesc}
    (atfile : desc.atfile = fs.nextFile) :
    (placeDescriptor (fs.withNewFile name) desc).2.Referenced := by
  have empty : fs.file fs.nextFile = none := linked.freshFiles _ le_rfl
  have openCount : ∀ g, (placeDescriptor (fs.withNewFile name) desc).2.openCount g =
      fs.openCount g + (if fs.nextFile = g then 1 else 0) :=
    fun g => atfile ▸ placed_openCount (fs.withNewFile name) desc g
  have undeleted : fs.nextFile ∉ fs.deletions := fun gone => by
    have := referenced.existed _ gone
    omega
  have unlisted : fs.nextFile ∉ fs.fileList := fun inside => by
    have := ((referenced.listed _).mp inside).1
    simp [empty] at this
  have file : ∀ g, (placeDescriptor (fs.withNewFile name) desc).2.file g =
      if g = fs.nextFile then some (newFile name) else fs.file g := fs.withNewFile_file name
  have other : ∀ g k, g ∈ fs.fileList → fs.file g = some k → k.name ≠ name := by
    intro g k inside there
    rcases findFileByName_absent absent inside there with deleted | different
    · exact absurd ((referenced.flagged g k there).mp deleted) ((referenced.listed g).mp inside).2
    · exact different
  have member : ∀ g, g ∈ (placeDescriptor (fs.withNewFile name) desc).2.fileList ↔
      g ∈ fs.fileList ∨ g = fs.nextFile := fun g => by
    change g ∈ fs.fileList ++ [fs.nextFile] ↔ _
    rw [List.mem_append, List.mem_singleton]
  refine ⟨⟨referenced.toCounted.created linked name atfile, ?_, ?_, ?_, ?_, ?_,
    referenced.releasedOnce, ?_⟩, ?_⟩
  · change (fs.fileList ++ [fs.nextFile]).Nodup
    refine List.nodup_append.mpr ⟨referenced.listedOnce, List.nodup_singleton _, ?_⟩
    rintro g inside g' here rfl
    exact unlisted (List.mem_singleton.mp here ▸ inside)
  · intro g
    rw [member, file]
    change _ ↔ _ ∧ g ∉ fs.deletions
    by_cases here : g = fs.nextFile
    · simpa [here] using undeleted
    · simpa [here] using referenced.listed g
  · intro g g' k k' inside inside' there there' names
    rw [member] at inside inside'
    rw [file] at there there'
    split at there <;> split at there'
    · next here here' => rw [here, here']
    · next here away =>
        cases there
        exact absurd names.symm (other g' k' (inside'.resolve_right away) there')
    · next away here =>
        cases there'
        exact absurd names (other g k (inside.resolve_right away) there)
    · next away away' =>
        exact referenced.names g g' k k' (inside.resolve_right away) (inside'.resolve_right away')
          there there' names
  · intro g k there
    rw [file] at there
    change _ ↔ g ∈ fs.deletions
    split at there
    · next here =>
        cases there
        simp [newFile, here, undeleted]
    · exact referenced.flagged g k there
  · intro g gone
    exact Nat.lt_succ_of_lt (referenced.existed g gone)
  · intro g
    change g ∈ fs.releases ↔ g < fs.nextFile + 1 ∧ _
    rw [referenced.released, file]
    by_cases here : g = fs.nextFile
    · simp [here]
    · have order : g < fs.nextFile + 1 ↔ g < fs.nextFile := by omega
      simp [here, order]
  · intro g gone alive
    have away : g ≠ fs.nextFile := fun here => undeleted (here ▸ gone)
    rw [file, if_neg away] at alive
    rw [openCount, if_neg (Ne.symm away)]
    exact referenced.needed g gone alive

theorem Fs.Indexed.withFileUnlisted (indexed : fs.Indexed) (linked : fs.Linked) {f : Nat}
    {file : File} (inside : f ∈ fs.fileList) (held : fs.file f = some file) :
    (fs.withFileUnlisted f file).Indexed := by
  obtain ⟨alive, undeleted⟩ := (indexed.listed f).mp inside
  have there : ∀ g, (fs.withFileUnlisted f file).file g =
      if g = f then some { file with deleted := true } else fs.file g :=
    fun g => Fs.setFile_file _ f _ g
  have origin : ∀ g k, (fs.withFileUnlisted f file).file g = some k → ∃ old, fs.file g = some old ∧
      k.name = old.name ∧ k.deleted = (old.deleted || decide (g = f)) := by
    intro g k now
    rw [there] at now
    split at now
    · next here =>
        cases now
        exact ⟨file, here ▸ held, rfl, by simp [here]⟩
    · next away => exact ⟨k, now, rfl, by simp [away]⟩
  have isSome : ∀ g, ((fs.withFileUnlisted f file).file g).isSome = (fs.file g).isSome := by
    intro g
    rw [there]
    split
    · next here => simp [here, held]
    · rfl
  have member : ∀ g, g ∈ (fs.withFileUnlisted f file).fileList ↔ g ≠ f ∧ g ∈ fs.fileList :=
    fun g => List.Nodup.mem_erase_iff indexed.listedOnce
  have deletions : ∀ g, g ∈ (fs.withFileUnlisted f file).deletions ↔ g ∈ fs.deletions ∨ g = f :=
    fun g => by
      change g ∈ fs.deletions ++ [f] ↔ _
      rw [List.mem_append, List.mem_singleton]
  refine ⟨indexed.toCounted.withFileUnlisted held, indexed.listedOnce.erase f, ?_, ?_, ?_, ?_,
    indexed.releasedOnce, ?_⟩
  · intro g
    rw [member, isSome, deletions, indexed.listed g]
    tauto
  · intro g g' k k' now now' held held' names
    obtain ⟨old, was, name, -⟩ := origin g k held
    obtain ⟨old', was', name', -⟩ := origin g' k' held'
    exact indexed.names g g' old old' ((member g).mp now).2 ((member g').mp now').2 was was'
      (by rw [← name, ← name', names])
  · intro g k now
    obtain ⟨old, was, -, deleted⟩ := origin g k now
    rw [deleted, deletions, ← indexed.flagged g old was]
    simp
  · intro g gone
    rcases (deletions g).mp gone with old | rfl
    · exact indexed.existed g old
    · exact linked.live_lt held
  · intro g
    change g ∈ fs.releases ↔ g < fs.nextFile ∧ _
    rw [indexed.released, ← Option.not_isSome_iff_eq_none, ← Option.not_isSome_iff_eq_none, isSome]

theorem Fs.Referenced.unlisted (referenced : fs.Referenced) (linked : fs.Linked) {f : Nat}
    {file : File} (inside : f ∈ fs.fileList) (held : fs.file f = some file)
    (needed : file.refs ≠ 0) : (fs.withFileUnlisted f file).Referenced := by
  refine ⟨referenced.withFileUnlisted linked inside held, fun g gone alive => ?_⟩
  rw [withFileUnlisted_openCount]
  have refs := referenced.refs f file held
  by_cases here : g = f
  · rw [here]
    omega
  · have gone : g ∈ fs.deletions ++ [f] := gone
    rw [List.mem_append, List.mem_singleton] at gone
    have alive : ((Function.update fs.file f _) g).isSome := alive
    rw [Function.update_of_ne here] at alive
    exact referenced.needed g (gone.resolve_right here) alive

theorem Fs.Indexed.withoutFile (indexed : fs.Indexed) (linked : fs.Linked) {f : Nat}
    {file : File} {heap : Heap} (held : fs.file f = some file) (gone : f ∈ fs.deletions)
    (unused : fs.openCount f = 0)
    (needed : ∀ g, g ≠ f → g ∈ fs.deletions → (fs.file g).isSome → 0 < fs.openCount g) :
    (fs.withoutFile f heap).Referenced := by
  have there := fs.withoutFile_file f heap
  have remaining : ∀ g k, (fs.withoutFile f heap).file g = some k → g ≠ f ∧ fs.file g = some k := by
    intro g k now
    rw [there] at now
    split at now
    · cases now
    · next away => exact ⟨away, now⟩
  have unlisted : f ∉ fs.fileList := fun inside => ((indexed.listed f).mp inside).2 gone
  have unreleased : f ∉ fs.releases := fun freed => by
    cases held.symm.trans ((indexed.released f).mp freed).2
  refine ⟨⟨indexed.toCounted.withoutFile unused heap, indexed.listedOnce, ?_, ?_, ?_,
    indexed.existed, ?_, ?_⟩, ?_⟩
  · intro g
    change g ∈ fs.fileList ↔ _ ∧ g ∉ fs.deletions
    rw [there]
    by_cases here : g = f
    · simpa [here] using unlisted
    · simpa [here] using indexed.listed g
  · intro g g' k k' inside inside' now now'
    exact indexed.names g g' k k' inside inside' (remaining g k now).2 (remaining g' k' now').2
  · intro g k now
    exact indexed.flagged g k (remaining g k now).2
  · change (fs.releases ++ [f]).Nodup
    refine List.nodup_append.mpr ⟨indexed.releasedOnce, List.nodup_singleton _, ?_⟩
    rintro g inside g' here rfl
    exact unreleased (List.mem_singleton.mp here ▸ inside)
  · intro g
    change g ∈ fs.releases ++ [f] ↔ g < fs.nextFile ∧ _
    rw [List.mem_append, List.mem_singleton, there, indexed.released]
    by_cases here : g = f
    · simp [here, linked.live_lt held]
    · simp [here]
  · intro g ghost alive
    rw [withoutFile_openCount]
    by_cases here : g = f
    · rw [there, if_pos here] at alive
      cases alive
    · rw [there, if_neg here] at alive
      exact needed g here ghost alive

theorem Fs.Referenced.closedLast (referenced : fs.Referenced) (linked : fs.Linked) {fd : Int}
    {desc : FileDesc} {file : File} (slot : fs.slot fd = some desc)
    (held : fs.file desc.atfile = some file) (last : file.refs - 1 = 0)
    (ghost : file.deleted = true) (heap : Heap) :
    ((fs.withSlotClosed fd desc.atfile file).withoutFile desc.atfile heap).Referenced := by
  have counted : ∀ g, (fs.withSlotClosed fd desc.atfile file).openCount g + _ = _ :=
    closed_openCount slot
  refine (referenced.withSlotClosed slot held).withoutFile (linked.withSlotClosed slot held)
    (Function.update_self ..) ((referenced.flagged _ _ held).mp ghost)
    (referenced.closedLast_unused slot held last) fun g away gone alive => ?_
  have there := counted g
  rw [if_neg (Ne.symm away), Nat.add_zero] at there
  rw [there]
  rw [Fs.withSlotClosed, Fs.setFile_file, if_neg away] at alive
  exact referenced.needed g gone alive

theorem Fs.Referenced.deleted (referenced : fs.Referenced) (linked : fs.Linked) {f : Nat}
    {file : File} (inside : f ∈ fs.fileList) (held : fs.file f = some file)
    (unused : file.refs = 0) (heap : Heap) :
    ((fs.withFileUnlisted f file).withoutFile f heap).Referenced := by
  have refs := referenced.refs f file held
  refine (referenced.withFileUnlisted linked inside held).withoutFile
    (linked.withFileUnlisted held) (Function.update_self ..) (List.mem_append_right _ (by simp)) ?_
    fun g away gone alive => ?_
  · rw [withFileUnlisted_openCount]
    omega
  · rw [withFileUnlisted_openCount]
    have gone : g ∈ fs.deletions ++ [f] := gone
    rw [List.mem_append, List.mem_singleton] at gone
    have alive : ((Function.update fs.file f _) g).isSome := alive
    rw [Function.update_of_ne away] at alive
    exact referenced.needed g (gone.resolve_right away) alive

end Directory

theorem Effect.referenced {fs fs' : Fs} {c : Call} {r : Int} (effect : Effect fs c r fs')
    (linked : fs.Linked) (referenced : fs.Referenced) : fs'.Referenced := by
  by_cases transfers : c.transfers = true
  · exact (effect.sameDirectory linked transfers).referenced referenced
  have setError : ∀ {fs : Fs} (code : UfsErrorCode), fs.Referenced → (fs.setError code).Referenced :=
    fun code => (setError_sameDirectory _ code).referenced
  cases effect with
  | failed c r code => exact setError code referenced
  | wrote | readBytes | resized => exact absurd rfl transfers
  | reopened found held =>
      obtain ⟨inside, file, held', listed, -⟩ := findFileByName_found found
      cases held.symm.trans held'
      exact referenced.reopened inside held listed rfl
  | created absent => exact referenced.created linked absent rfl
  | closed slot held needed => exact setError _ (referenced.closed slot held needed)
  | closedLast slot held last ghost freed =>
      exact setError _ (referenced.closedLast linked slot held last ghost _)
  | unlisted found held needed =>
      exact setError _ (referenced.unlisted linked (findFileByName_found found).1 held needed)
  | deleted found held unused freed =>
      exact setError _ (referenced.deleted linked (findFileByName_found found).1 held unused _)

end SystemProg.UserFs
