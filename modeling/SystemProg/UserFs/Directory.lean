import Mathlib.Data.List.Dedup
import SystemProg.UserFs.Ghosts

set_option autoImplicit false

namespace SystemProg.UserFs

open Rlist

theorem defaultFlags_create (flags : Flags) : defaultFlags flags &&& ufsCreate = flags &&& ufsCreate := by
  unfold defaultFlags
  split
  · rw [BitVec.and_or_distrib_right]
    have apart : ufsReadWrite &&& ufsCreate = 0 := by decide
    rw [apart]
    exact BitVec.or_zero
  · rfl

theorem Fs.Opened.slot {fs : Fs} {i : Nat} {desc : FileDesc} (opened : fs.Opened i desc) :
    fs.slot (i + 1) = some desc := by
  unfold Fs.slot
  rw [if_neg (by omega), show ((i : Int) + 1 - 1).toNat = i by omega]
  exact Option.join_eq_some_iff.mpr opened

theorem placed_slot (fs : Fs) (desc : FileDesc) :
    (placeDescriptor fs desc).2.slot (firstFree fs.fileDescriptors + 1) = some desc :=
  Fs.Opened.slot (placeDescriptor_opened.mpr (Or.inl ⟨rfl, rfl⟩))

theorem firstFree_smallest (fs : Fs) : fs.slot (firstFree fs.fileDescriptors + 1) = none ∧
    ∀ k : Int, 0 < k → k < firstFree fs.fileDescriptors + 1 → (fs.slot k).isSome := by
  constructor
  · cases taken : fs.slot (firstFree fs.fileDescriptors + 1) with
    | none => rfl
    | some desc =>
        have opened := slot_opened taken
        rw [show ((firstFree fs.fileDescriptors : Int) + 1 - 1).toNat =
          firstFree fs.fileDescriptors by omega] at opened
        exact absurd opened (firstFree_closed fs.fileDescriptors desc)
  · intro k positive below
    obtain ⟨desc, opened⟩ : ∃ desc, fs.Opened (k - 1).toNat desc :=
      firstFree_below (show (k - 1).toNat < firstFree fs.fileDescriptors by omega)
    have taken := Fs.Opened.slot opened
    rw [show (((k - 1).toNat : Nat) : Int) + 1 = k by omega] at taken
    simp [taken]

theorem ufsOpen_cases {fs fs' : Fs} {filename : Option Name} {flags : Flags} {r : Int}
    (run : ufsOpen fs filename flags = some (r, fs')) : (r = -1 ∧ fs' = fs.setError .noFile ∧
      ∀ name, filename = some name → flags &&& ufsCreate = 0 ∧
        findFileByName fs (some name) fs.fileList = some none) ∨
    (r = firstFree fs.fileDescriptors + 1 ∧ ∃ name desc, filename = some name ∧
      fs'.slot r = some desc ∧
      ((findFileByName fs (some name) fs.fileList = some (some desc.atfile)) ∨
        (findFileByName fs (some name) fs.fileList = some none ∧ flags &&& ufsCreate ≠ 0 ∧
          desc.atfile = fs.nextFile ∧ fs'.file fs.nextFile = some (newFile name)))) := by
  unfold ufsOpen at run
  split at run
  · cases run
    exact Or.inl ⟨rfl, rfl, fun name given => by cases given⟩
  next name =>
  dsimp only at run
  rw [defaultFlags_create] at run
  split at run
  · cases run
  · next absent =>
      split at run
      · next create =>
          cases run
          refine Or.inr ⟨rfl, name, _, rfl, placed_slot _ _, Or.inr ⟨absent, create, rfl, ?_⟩⟩
          exact Function.update_self ..
      · next kept =>
          cases run
          refine Or.inl ⟨rfl, rfl, fun name' given => ?_⟩
          cases given
          exact ⟨not_not.mp kept, absent⟩
  · next f found =>
      obtain ⟨file, held, placed⟩ := Option.map_eq_some_iff.mp run
      cases placed
      exact Or.inr ⟨rfl, name, _, rfl, placed_slot _ _, Or.inl found⟩

theorem mem_filesToDelete (fs : Fs) (f : Nat) :
    f ∈ filesToDelete fs ↔ 0 < fs.openCount f ∨ f ∈ fs.fileList := by
  unfold filesToDelete
  rw [List.mem_dedup, List.mem_append, Fs.openCount, List.count_pos_iff, Fs.targets]
  simp

theorem Fs.Referenced.mem_filesToDelete {fs : Fs} (referenced : fs.Referenced) (f : Nat) :
    f ∈ filesToDelete fs ↔ (fs.file f).isSome := by
  rw [UserFs.mem_filesToDelete, referenced.listed]
  constructor
  · rintro (opened | ⟨alive, -⟩)
    · exact referenced.live f opened
    · exact alive
  · intro alive
    by_cases gone : f ∈ fs.deletions
    · exact Or.inl (referenced.needed f gone alive)
    · exact Or.inr ⟨alive, gone⟩

theorem releaseFiles_spec {fs : Fs} (linked : fs.Linked) {order : List Nat} (once : order.Nodup)
    (live : ∀ f ∈ order, (fs.file f).isSome) : ∃ fs', releaseFiles fs order = some fs' ∧
      fs'.releases = fs.releases ++ order ∧
      ∀ f, fs'.file f = if f ∈ order then none else fs.file f := by
  induction order generalizing fs with
  | nil => exact ⟨fs, rfl, by simp, by simp⟩
  | cons g rest ih =>
      rw [List.nodup_cons] at once
      obtain ⟨file, held⟩ := Option.isSome_iff_exists.mp (live g (by simp))
      obtain ⟨heap, freed⟩ :=
        freeBlocks_defined (linked.distinct g file held) (linked.allocated g file held)
      have released : releaseFile fs g = some (fs.withoutFile g heap) := by
        rw [releaseFile_eq held, freed]
        rfl
      obtain ⟨fs', later, releases, files⟩ := ih (linked.withoutFile held freed) once.2
        fun f inside => by
          have other : f ≠ g := fun same => once.1 (same ▸ inside)
          rw [Fs.withoutFile_file, if_neg other]
          exact live f (List.mem_cons_of_mem _ inside)
      refine ⟨fs', by rw [releaseFiles, released]; exact later, ?_, fun f => ?_⟩
      · rw [releases]
        simp [Fs.withoutFile]
      · rw [files, Fs.withoutFile_file]
        by_cases here : f = g
        · simp [here]
        · simp [here]

theorem ufsDestroy_spec {fs : Fs} (linked : fs.Linked) (referenced : fs.Referenced)
    {order : List Nat} (lists : order.Perm (filesToDelete fs)) :
    ∃ fs', ufsDestroy fs order = some fs' ∧ fs'.releases = fs.releases ++ order ∧ order.Nodup ∧
      (∀ f, f ∈ order ↔ (fs.file f).isSome) ∧ ∀ f, fs'.file f = none := by
  have once : order.Nodup := lists.nodup_iff.mpr (List.nodup_dedup _)
  have members : ∀ f, f ∈ order ↔ (fs.file f).isSome :=
    fun f => lists.mem_iff.trans (referenced.mem_filesToDelete f)
  obtain ⟨fs', released, releases, files⟩ :=
    releaseFiles_spec linked.emptied once fun f inside => (members f).mp inside
  refine ⟨fs'.setError .noErr, by rw [ufsDestroy, released]; rfl, releases, once, members,
    fun f => ?_⟩
  change fs'.file f = none
  rw [files]
  split
  · rfl
  · next outside =>
      rw [members, Option.not_isSome_iff_eq_none] at outside
      exact outside

theorem ufsDelete_remaining {fs fs' : Fs} {filename : Option Name} {r : Int}
    (run : ufsDelete fs filename = some (r, fs')) :
    (fs'.fileList = fs.fileList ∧ fs'.file = fs.file ∧
      findFileByName fs filename fs.fileList = some none) ∨
    ∃ g, findFileByName fs filename fs.fileList = some (some g) ∧
      fs'.fileList = rlistDel fs.fileList g ∧ ∀ f, f ≠ g → fs'.file f = fs.file f := by
  rcases ufsDelete_cases run with ⟨-, rfl, absent⟩ |
    ⟨-, g, file, found, -, ⟨-, rfl⟩ | ⟨-, heap, -, rfl⟩⟩
  · exact Or.inl ⟨rfl, rfl, absent⟩
  · refine Or.inr ⟨g, found, rfl, fun f other => ?_⟩
    exact (fs.setFile_file g _ f).trans (if_neg other)
  · refine Or.inr ⟨g, found, rfl, fun f other => ?_⟩
    have removed := (fs.withFileUnlisted g file).withoutFile_file g heap f
    rw [if_neg other] at removed
    exact removed.trans ((fs.setFile_file g _ f).trans (if_neg other))

theorem ufsDelete_absent {fs fs' : Fs} (referenced : fs.Referenced) {name : Name} {r : Int}
    (run : ufsDelete fs (some name) = some (r, fs')) {f : Nat} {file : File}
    (inside : f ∈ fs'.fileList) (held : fs'.file f = some file) : file.name ≠ name := by
  rcases ufsDelete_remaining run with ⟨list, files, absent⟩ | ⟨g, found, list, files⟩
  · rw [list] at inside
    rw [files] at held
    rcases findFileByName_absent absent inside held with deleted | different
    · exact absurd ((referenced.flagged f file held).mp deleted) ((referenced.listed f).mp inside).2
    · exact different
  · rw [list] at inside
    obtain ⟨other, listed⟩ := (List.Nodup.mem_erase_iff referenced.listedOnce).mp inside
    rw [files f other] at held
    obtain ⟨listed', k, there, -, named⟩ := findFileByName_found found
    intro same
    exact other (referenced.names f g file k listed listed' held there
      (same.trans (Option.some.inj named)))

theorem withFileUnlisted_opened {fs : Fs} (f : Nat) (file : File) {i : Nat} {desc : FileDesc}
    (opened : fs.Opened i desc) : ∃ desc', (fs.withFileUnlisted f file).Opened i desc' ∧
      desc'.atfile = desc.atfile ∧ desc'.pos = desc.pos ∧ desc'.flags = desc.flags := by
  refine ⟨if desc.atfile = f then desc.resetCursor else desc,
    mapDescriptors_opened.mpr ⟨desc, opened, rfl⟩, ?_⟩
  split <;> exact ⟨rfl, rfl, rfl⟩

theorem ufsDelete_opened {fs fs' : Fs} {filename : Option Name} {r : Int}
    (run : ufsDelete fs filename = some (r, fs')) {i : Nat} {desc : FileDesc}
    (opened : fs.Opened i desc) : ∃ desc', fs'.Opened i desc' ∧
      desc'.atfile = desc.atfile ∧ desc'.pos = desc.pos ∧ desc'.flags = desc.flags := by
  rcases ufsDelete_cases run with ⟨-, rfl, -⟩ |
    ⟨-, g, file, -, -, ⟨-, rfl⟩ | ⟨-, heap, -, rfl⟩⟩
  · exact ⟨desc, opened, rfl, rfl, rfl⟩
  · exact withFileUnlisted_opened g file opened
  · obtain ⟨middle, was, atfile, pos, flags⟩ :=
      withFileUnlisted_opened g file opened
    refine ⟨if middle.atfile = g then middle.resetCursor else middle,
      mapDescriptors_opened.mpr ⟨middle, was, rfl⟩, ?_⟩
    split <;> exact ⟨atfile, pos, flags⟩

-- What the directory promises in one state, and for the next call from it.
structure Fs.DirectoryCorrect (fs : Fs) : Prop where
  refs : ∀ f file, fs.file f = some file → file.refs = fs.openCount f
  listedOnce : fs.fileList.Nodup
  names : ∀ f g file file', f ∈ fs.fileList → g ∈ fs.fileList → fs.file f = some file →
    fs.file g = some file' → file.name = file'.name → f = g
  listed : ∀ f, f ∈ fs.fileList ↔ (fs.file f).isSome ∧ f ∉ fs.deletions
  -- a file is released at most once, and a deleted one as soon as it has no descriptor
  releasedOnce : fs.releases.Nodup
  released : ∀ f, f ∈ fs.releases ↔ f < fs.nextFile ∧ fs.file f = none
  ghosts : ∀ f ∈ fs.deletions, (fs.file f).isSome ↔ 0 < fs.openCount f
  -- what a call does not write keeps its contents, and a deletion keeps every descriptor
  unchanged : ∀ c r fs', call fs c = some (r, fs') → ∀ f, (fs.file f).isSome →
    (fs'.file f).isSome → ¬ c.Touches fs f → SameContents fs fs' f
  kept : ∀ filename r fs', call fs (.delete filename) = some (r, fs') → ∀ i desc,
    fs.Opened i desc → (fs'.file desc.atfile).isSome ∧ ∃ desc', fs'.Opened i desc' ∧
      desc'.atfile = desc.atfile ∧ desc'.pos = desc.pos ∧ desc'.flags = desc.flags
  -- reading, writing and resizing are the same whether the file is deleted or not
  usable : ∀ f deleted c, c.transfers = true → call (fs.mark f deleted) c =
    (call fs c).map (Prod.map id fun after => after.mark f deleted)
  reached : ∀ filename flags r fs', call fs (.open filename flags) = some (r, fs') → r ≠ -1 →
    ∃ desc, fs'.slot r = some desc ∧ desc.atfile ∉ fs.deletions
  fresh : ∀ name r fs', call fs (.delete (some name)) = some (r, fs') → ∀ flags r' fs'',
    call fs' (.open (some name) flags) = some (r', fs'') →
      if flags &&& ufsCreate = 0 then r' = -1
      else ∃ desc, fs''.slot r' = some desc ∧ desc.atfile = fs'.nextFile ∧
        fs'.file desc.atfile = none ∧ fs''.file desc.atfile = some (newFile name)
  smallest : ∀ filename flags r fs', call fs (.open filename flags) = some (r, fs') → r ≠ -1 →
    0 < r ∧ fs.slot r = none ∧ ∀ k, 0 < k → k < r → (fs.slot k).isSome
  defined : ∀ c, c.transfers = false → c ≠ .delete none → ∃ result, call fs c = some result
  destroyed : ∀ order, order.Perm (filesToDelete fs) → ∃ fs', ufsDestroy fs order = some fs' ∧
    fs'.releases = fs.releases ++ order ∧ order.Nodup ∧ (∀ f, f ∈ order ↔ (fs.file f).isSome) ∧
      ∀ f, fs'.file f = none

theorem directoryCorrect {fs : Fs} (linked : fs.Linked) (referenced : fs.Referenced) :
    fs.DirectoryCorrect where
  refs := referenced.refs
  listedOnce := referenced.listedOnce
  names := referenced.names
  listed := referenced.listed
  releasedOnce := referenced.releasedOnce
  released := referenced.released
  ghosts := fun f gone => ⟨referenced.needed f gone, referenced.live f⟩
  unchanged := fun c r fs' run f alive alive' away =>
    (call_effect run).sameContents linked away alive alive'
  kept := by
    intro filename r fs' run i desc opened
    obtain ⟨desc', opened', atfile, rest⟩ := ufsDelete_opened run opened
    have after := (call_effect run).referenced linked referenced
    exact ⟨atfile ▸ after.live _ opened'.openCount_pos, desc', opened', atfile, rest⟩
  usable := fun f deleted c transfers => transfers_mark linked f deleted c transfers
  reached := by
    intro filename flags r fs' run succeeded
    rcases ufsOpen_cases run with ⟨rfl, -⟩ | ⟨-, name, desc, -, slot, found | ⟨-, -, new, -⟩⟩
    · exact absurd rfl succeeded
    · exact ⟨desc, slot, ((referenced.listed _).mp (findFileByName_found found).1).2⟩
    · refine ⟨desc, slot, fun gone => ?_⟩
      have := referenced.existed _ gone
      omega
  fresh := by
    intro name r fs' deletion flags r' fs'' run
    have absent : ∀ g, findFileByName fs' (some name) fs'.fileList ≠ some (some g) := by
      intro g found
      obtain ⟨inside, file, held, -, named⟩ := findFileByName_found found
      exact ufsDelete_absent referenced deletion inside held (Option.some.inj named).symm
    have after := (call_effect deletion).linked linked
    have opening : ufsOpen fs' (some name) flags = some (r', fs'') := run
    split
    · next kept =>
        rcases ufsOpen_cases opening with ⟨rfl, -⟩ |
          ⟨-, name', desc, given, slot, found | ⟨-, create, -⟩⟩
        · rfl
        · cases given
          exact absurd found (absent _)
        · exact absurd kept create
    · next create =>
        rcases ufsOpen_cases opening with ⟨-, -, refused⟩ |
          ⟨-, name', desc, given, slot, found | ⟨-, -, new, created⟩⟩
        · exact absurd (refused name rfl).1 create
        · cases given
          exact absurd found (absent _)
        · cases given
          exact ⟨desc, slot, new, by rw [new, after.freshFiles _ le_rfl], by rw [new, created]⟩
  smallest := by
    intro filename flags r fs' run succeeded
    rcases ufsOpen_cases run with ⟨rfl, -⟩ | ⟨rfl, -⟩
    · exact absurd rfl succeeded
    · exact ⟨by omega, firstFree_smallest fs⟩
  defined := by
    intro c directory named
    have valid := referenced.valid linked
    cases c with
    | «open» filename flags => exact ufsOpen_defined valid filename flags
    | close fd => exact ufsClose_defined valid fd
    | delete filename =>
        cases filename with
        | none => exact absurd rfl named
        | some name => exact ufsDelete_defined valid name
    | read | write | resize => cases directory
  destroyed := fun order lists => ufsDestroy_spec linked referenced lists

end SystemProg.UserFs
