import SystemProg.UserFs.Integrity

set_option autoImplicit false

-- One constructor for each way a call can end; every invariant is proved by cases on it.

namespace SystemProg.UserFs

open Rlist

def Fs.Opened (fs : Fs) (i : Nat) (desc : FileDesc) : Prop :=
  fs.fileDescriptors[i]? = some (some desc)

-- The state after `free_file_blocks(f); delete f;` with the heap that leaves.
def Fs.withoutFile (fs : Fs) (f : Nat) (heap : Heap) : Fs :=
  { fs.mapDescriptors f FileDesc.resetCursor with
    heap := heap
    file := Function.update fs.file f none
    releases := fs.releases ++ [f] }

def Fs.withSlotClosed (fs : Fs) (fd : Int) (f : Nat) (file : File) : Fs :=
  (fs.setSlot fd none).setFile f { file with refs := file.refs - 1 }

def Fs.withFileUnlisted (fs : Fs) (f : Nat) (file : File) : Fs :=
  ({ fs with fileList := rlistDel fs.fileList f, deletions := fs.deletions ++ [f] }.setFile f
    { file with deleted := true }).mapDescriptors f FileDesc.resetCursor

def Fs.withNewFile (fs : Fs) (name : Name) : Fs :=
  { fs with nextFile := fs.nextFile + 1, fileList := rlistAddTail fs.fileList fs.nextFile }.setFile
    fs.nextFile (newFile name)

def Fs.withReference (fs : Fs) (f : Nat) (file : File) : Fs :=
  fs.setFile f { file with refs := file.refs + 1, deleted := false }

inductive Effect (fs : Fs) : Call → Int → Fs → Prop where
  | failed (c : Call) (r : Int) (code : UfsErrorCode) : Effect fs c r (fs.setError code)
  | wrote {fd : Int} {buf : List Byte} {desc : FileDesc} {h h' : Handle} {written : Int}
      (code : UfsErrorCode) (slot : fs.slot fd = some desc)
      (allowed : desc.flags &&& ufsWriteOnly ≠ 0) (handle : fs.handle desc = some h)
      (nonempty : 0 < buf.length) (fits : desc.pos + buf.length ≤ maxFileSize)
      (run : h.write buf = some (written, h')) :
      Effect fs (.write fd buf) written ((fs.store fd h').setError code)
  | readBytes {fd : Int} {size : Nat} {desc : FileDesc} {h h' : Handle} {data : List Byte}
      (slot : fs.slot fd = some desc) (allowed : desc.flags &&& ufsReadOnly ≠ 0)
      (handle : fs.handle desc = some h) (before : desc.pos < h.file.size)
      (run : h.read size = some (data, h')) :
      Effect fs (.read fd size) data.length ((fs.store fd h').setError .noErr)
  | resized {fd : Int} {newSize : Nat} {desc : FileDesc} {h h' : Handle}
      (slot : fs.slot fd = some desc) (allowed : desc.flags &&& ufsWriteOnly ≠ 0)
      (handle : fs.handle desc = some h) (bounded : newSize ≤ maxFileSize) (run : h.resize newSize = some h') :
      Effect fs (.resize fd newSize) 0 (((fs.store fd h').mapDescriptors desc.atfile
        (FileDesc.clampTo newSize)).setError .noErr)
  | reopened {name : Name} {flags : Flags} {f : Nat} {file : File}
      (found : findFileByName fs (some name) fs.fileList = some (some f))
      (held : fs.file f = some file) :
      Effect fs (.open (some name) flags) (firstFree fs.fileDescriptors + 1)
        (placeDescriptor (fs.withReference f file) (newDesc f (defaultFlags flags))).2
  | created {name : Name} {flags : Flags}
      (absent : findFileByName fs (some name) fs.fileList = some none) :
      Effect fs (.open (some name) flags) (firstFree fs.fileDescriptors + 1)
        (placeDescriptor (fs.withNewFile name) (newDesc fs.nextFile (defaultFlags flags))).2
  | closed {fd : Int} {desc : FileDesc} {file : File} (slot : fs.slot fd = some desc)
      (held : fs.file desc.atfile = some file)
      (needed : ¬ (file.refs - 1 = 0 ∧ file.deleted = true)) :
      Effect fs (.close fd) 0 ((fs.withSlotClosed fd desc.atfile file).setError .noErr)
  | closedLast {fd : Int} {desc : FileDesc} {file : File} {heap : Heap}
      (slot : fs.slot fd = some desc) (held : fs.file desc.atfile = some file)
      (last : file.refs - 1 = 0) (ghost : file.deleted = true)
      (freed : freeBlocks fs.heap file.blocks = some heap) :
      Effect fs (.close fd) 0 (((fs.withSlotClosed fd desc.atfile file).withoutFile
        desc.atfile heap).setError .noErr)
  | unlisted {filename : Option Name} {f : Nat} {file : File}
      (found : findFileByName fs filename fs.fileList = some (some f))
      (held : fs.file f = some file) (needed : file.refs ≠ 0) :
      Effect fs (.delete filename) 0 ((fs.withFileUnlisted f file).setError .noErr)
  | deleted {filename : Option Name} {f : Nat} {file : File} {heap : Heap}
      (found : findFileByName fs filename fs.fileList = some (some f))
      (held : fs.file f = some file) (unused : file.refs = 0)
      (freed : freeBlocks fs.heap file.blocks = some heap) :
      Effect fs (.delete filename) 0
        (((fs.withFileUnlisted f file).withoutFile f heap).setError .noErr)

theorem releaseFile_eq {fs : Fs} {f : Nat} {file : File} (held : fs.file f = some file) :
    releaseFile fs f = (freeBlocks fs.heap file.blocks).map (fs.withoutFile f) := by
  cases freed : freeBlocks fs.heap file.blocks with
  | none => simp [releaseFile, freeFileBlocks, held, freed]
  | some heap =>
      simp [releaseFile, freeFileBlocks, held, freed, deleteFile, Fs.setFile, Fs.mapDescriptors,
        Fs.withoutFile]

theorem ufsOpen_effect {fs fs' : Fs} {filename : Option Name} {flags : Flags} {r : Int}
    (run : ufsOpen fs filename flags = some (r, fs')) : Effect fs (.open filename flags) r fs' := by
  unfold ufsOpen at run
  split at run
  · cases run
    exact .failed _ _ _
  dsimp only at run
  split at run
  · cases run
  · next absent =>
      split at run
      · cases run
        exact .created absent
      · cases run
        exact .failed _ _ _
  · next f found =>
      obtain ⟨file, held, placed⟩ := Option.map_eq_some_iff.mp run
      cases placed
      exact .reopened found held

theorem ufsWrite_effect {fs fs' : Fs} {fd : Int} {buf : List Byte} {r : Int}
    (run : ufsWrite fs fd buf = some (r, fs')) : Effect fs (.write fd buf) r fs' := by
  unfold ufsWrite at run
  split at run
  · cases run
    exact .failed _ _ _
  next desc slot =>
  split at run
  · cases run
    exact .failed _ _ _
  next allowed =>
  split at run
  · cases run
    exact .failed _ _ _
  split at run
  · cases run
    exact .failed _ _ _
  next nonempty fits =>
  obtain ⟨h, handle, written, h', ran, same⟩ : ∃ h, fs.handle desc = some h ∧ ∃ written h',
      h.write buf = some (written, h') ∧
        (written, (fs.store fd h').setError (if written < 0 then .noMem else .noErr)) = (r, fs') := by
    simpa [Option.bind_eq_some_iff] using run
  cases same
  exact .wrote _ slot allowed handle (by omega) (by omega) ran

theorem ufsRead_effect {fs fs' : Fs} {fd : Int} {size : Nat} {r : Int} {data : List Byte}
    (run : ufsRead fs fd size = some (r, data, fs')) : Effect fs (.read fd size) r fs' := by
  unfold ufsRead at run
  split at run
  · cases run
    exact .failed _ _ _
  next desc slot =>
  split at run
  · cases run
    exact .failed _ _ _
  next allowed =>
  obtain ⟨h, handle, rest⟩ := Option.bind_eq_some_iff.mp run
  split at rest
  · cases rest
    exact .failed _ _ _
  next before =>
  obtain ⟨⟨data', h'⟩, ran, same⟩ := Option.bind_eq_some_iff.mp rest
  cases same
  exact .readBytes slot allowed handle (by omega) ran

theorem ufsResize_effect {fs fs' : Fs} {fd : Int} {newSize : Nat} {r : Int}
    (run : ufsResize fs fd newSize = some (r, fs')) : Effect fs (.resize fd newSize) r fs' := by
  unfold ufsResize at run
  split at run
  · cases run
    exact .failed _ _ _
  next desc slot =>
  split at run
  · cases run
    exact .failed _ _ _
  next allowed =>
  split at run
  · cases run
    exact .failed _ _ _
  next bounded =>
  obtain ⟨h, handle, rest⟩ := Option.bind_eq_some_iff.mp run
  obtain ⟨h', ran, same⟩ := Option.bind_eq_some_iff.mp rest
  cases same
  exact .resized slot allowed handle (by omega) ran

theorem ufsClose_effect {fs fs' : Fs} {fd : Int} {r : Int}
    (run : ufsClose fs fd = some (r, fs')) : Effect fs (.close fd) r fs' := by
  unfold ufsClose at run
  split at run
  · cases run
    exact .failed _ _ _
  next desc slot =>
  obtain ⟨file, held, rest⟩ := Option.bind_eq_some_iff.mp run
  obtain ⟨after, ended, same⟩ := Option.map_eq_some_iff.mp rest
  cases same
  have closedFile : (fs.withSlotClosed fd desc.atfile file).file desc.atfile =
      some { file with refs := file.refs - 1 } := by simp [Fs.withSlotClosed, Fs.setFile]
  split at ended
  · next last =>
      change releaseFile (fs.withSlotClosed fd desc.atfile file) desc.atfile = _ at ended
      rw [releaseFile_eq closedFile] at ended
      obtain ⟨heap, freed, same⟩ := Option.map_eq_some_iff.mp ended
      cases same
      exact .closedLast slot held last.1 last.2 freed
  · next needed =>
      cases ended
      exact .closed slot held needed

theorem ufsDelete_cases {fs fs' : Fs} {filename : Option Name} {r : Int}
    (run : ufsDelete fs filename = some (r, fs')) :
    (r = -1 ∧ fs' = fs.setError .noFile ∧ findFileByName fs filename fs.fileList = some none) ∨
    (r = 0 ∧ ∃ f file, findFileByName fs filename fs.fileList = some (some f) ∧
      fs.file f = some file ∧
      ((file.refs ≠ 0 ∧ fs' = (fs.withFileUnlisted f file).setError .noErr) ∨
        (file.refs = 0 ∧ ∃ heap, freeBlocks fs.heap file.blocks = some heap ∧
          fs' = ((fs.withFileUnlisted f file).withoutFile f heap).setError .noErr))) := by
  unfold ufsDelete at run
  split at run
  · cases run
  · next absent =>
      cases run
      exact Or.inl ⟨rfl, rfl, absent⟩
  next f found =>
  obtain ⟨file, held, rest⟩ := Option.bind_eq_some_iff.mp run
  obtain ⟨after, ended, same⟩ := Option.map_eq_some_iff.mp rest
  cases same
  refine Or.inr ⟨rfl, f, file, found, held, ?_⟩
  have markedFile : (fs.withFileUnlisted f file).file f = some { file with deleted := true } := by
    simp [Fs.withFileUnlisted, Fs.setFile, Fs.mapDescriptors]
  split at ended
  · next unused =>
      change releaseFile (fs.withFileUnlisted f file) f = _ at ended
      rw [releaseFile_eq markedFile] at ended
      obtain ⟨heap, freed, same⟩ := Option.map_eq_some_iff.mp ended
      exact Or.inr ⟨unused, heap, freed, by rw [← same]⟩
  · next needed =>
      cases ended
      exact Or.inl ⟨needed, rfl⟩

theorem ufsDelete_effect {fs fs' : Fs} {filename : Option Name} {r : Int}
    (run : ufsDelete fs filename = some (r, fs')) : Effect fs (.delete filename) r fs' := by
  rcases ufsDelete_cases run with ⟨rfl, rfl, -⟩ |
    ⟨rfl, f, file, found, held, ⟨needed, rfl⟩ | ⟨unused, heap, freed, rfl⟩⟩
  · exact .failed _ _ _
  · exact .unlisted found held needed
  · exact .deleted found held unused freed

theorem call_effect {fs fs' : Fs} {c : Call} {r : Int} (run : call fs c = some (r, fs')) :
    Effect fs c r fs' := by
  cases c with
  | «open» filename flags => exact ufsOpen_effect run
  | read fd size =>
      obtain ⟨⟨r', data, after⟩, ran, same⟩ := Option.map_eq_some_iff.mp run
      cases same
      exact ufsRead_effect ran
  | write fd buf => exact ufsWrite_effect run
  | resize fd newSize => exact ufsResize_effect run
  | close fd => exact ufsClose_effect run
  | delete filename => exact ufsDelete_effect run

theorem step_effect {fs fs' : Fs} {c : Call} (run : step fs c = some fs') :
    ∃ r, Effect fs c r fs' := by
  obtain ⟨⟨r, after⟩, ran, same⟩ := Option.map_eq_some_iff.mp run
  cases same
  exact ⟨r, call_effect ran⟩

theorem slot_opened {fs : Fs} {fd : Int} {desc : FileDesc} (slot : fs.slot fd = some desc) :
    fs.Opened (fd - 1).toNat desc := by
  unfold Fs.slot at slot
  split at slot
  · cases slot
  · exact Option.join_eq_some_iff.mp slot

theorem Fs.Opened.lt {fs : Fs} {i : Nat} {desc : FileDesc} (opened : fs.Opened i desc) :
    i < fs.fileDescriptors.length := (List.getElem?_eq_some_iff.mp opened).1

theorem setSlot_opened {fs : Fs} {fd : Int} {desc : FileDesc} (slot : fs.slot fd = some desc)
    (new : Option FileDesc) {i : Nat} {d : FileDesc} :
    (fs.setSlot fd new).Opened i d ↔
      (i = (fd - 1).toNat ∧ new = some d) ∨ (i ≠ (fd - 1).toNat ∧ fs.Opened i d) := by
  have inside := (slot_opened slot).lt
  unfold Fs.Opened Fs.setSlot
  generalize (fd - 1).toNat = place at inside
  simp only [List.getElem?_set]
  by_cases same : place = i
  · subst same
    simp [inside]
  · simp [same, Ne.symm same]

theorem mapDescriptors_opened {fs : Fs} {f : Nat} {change : FileDesc → FileDesc} {i : Nat}
    {d : FileDesc} : (fs.mapDescriptors f change).Opened i d ↔
      ∃ desc, fs.Opened i desc ∧ d = if desc.atfile = f then change desc else desc := by
  unfold Fs.Opened Fs.mapDescriptors
  simp only [List.getElem?_map]
  cases fs.fileDescriptors[i]? with
  | none => simp
  | some slot => cases slot <;> simp [eq_comm]

theorem firstFree_le (slots : List (Option FileDesc)) : firstFree slots ≤ slots.length := by
  induction slots with
  | nil => simp [firstFree]
  | cons slot rest ih => cases slot <;> simp [firstFree, ih]

theorem firstFree_closed (slots : List (Option FileDesc)) (desc : FileDesc) :
    slots[firstFree slots]? ≠ some (some desc) := by
  induction slots with
  | nil => simp [firstFree]
  | cons slot rest ih => cases slot <;> simp [firstFree, ih]

theorem firstFree_below {slots : List (Option FileDesc)} {i : Nat} (below : i < firstFree slots) :
    ∃ desc, slots[i]? = some (some desc) := by
  induction slots generalizing i with
  | nil => simp [firstFree] at below
  | cons slot rest ih =>
      cases slot with
      | none => simp [firstFree] at below
      | some desc =>
          cases i with
          | zero => exact ⟨desc, rfl⟩
          | succ i =>
              have inner : i < firstFree rest := by simpa [firstFree] using below
              exact ih inner

theorem placeDescriptor_opened {fs : Fs} {desc : FileDesc} {i : Nat} {d : FileDesc} :
    (placeDescriptor fs desc).2.Opened i d ↔
      (i = firstFree fs.fileDescriptors ∧ d = desc) ∨ fs.Opened i d := by
  have bound := firstFree_le fs.fileDescriptors
  have closed := firstFree_closed fs.fileDescriptors
  unfold Fs.Opened placeDescriptor
  dsimp only
  split
  · next inside =>
      generalize firstFree fs.fileDescriptors = place at inside closed
      rw [List.getElem?_set]
      by_cases same : place = i
      · subst same
        have free : fs.fileDescriptors[place]? ≠ some (some d) := closed d
        simp only [if_pos inside, if_true, Option.some.injEq, true_and, free, or_false]
        exact eq_comm
      · simp [same, Ne.symm same]
  · next outside =>
      have last : firstFree fs.fileDescriptors = fs.fileDescriptors.length := by omega
      rw [last]
      by_cases same : i = fs.fileDescriptors.length
      · subst same
        simp [eq_comm]
      · by_cases before : i < fs.fileDescriptors.length
        · rw [List.getElem?_append_left before]
          simp [same]
        · have beyond : fs.fileDescriptors[i]? = none := List.getElem?_eq_none (by omega)
          rw [List.getElem?_append_right (by omega)]
          have far : i - fs.fileDescriptors.length ≠ 0 := by omega
          simp [same, beyond, far]

theorem findFileByName_found {fs : Fs} {name : Option Name} {list : List Nat} {f : Nat}
    (found : findFileByName fs name list = some (some f)) :
    f ∈ list ∧ ∃ file, fs.file f = some file ∧ file.deleted = false ∧ name = some file.name := by
  induction list with
  | nil => cases found
  | cons g rest ih =>
      obtain ⟨file, held, later⟩ := Option.bind_eq_some_iff.mp found
      split at later
      · obtain ⟨inside, facts⟩ := ih later
        exact ⟨List.mem_cons_of_mem _ inside, facts⟩
      next listed =>
      obtain ⟨name', given, matched⟩ := Option.bind_eq_some_iff.mp later
      split at matched
      · next same =>
          cases matched
          exact ⟨by simp, file, held, by simpa using listed, by rw [given, same]⟩
      · obtain ⟨inside, facts⟩ := ih matched
        exact ⟨List.mem_cons_of_mem _ inside, facts⟩

theorem findFileByName_absent {fs : Fs} {name : Name} {list : List Nat}
    (absent : findFileByName fs (some name) list = some none) {f : Nat} (inside : f ∈ list)
    {file : File} (held : fs.file f = some file) : file.deleted = true ∨ file.name ≠ name := by
  induction list with
  | nil => cases inside
  | cons g rest ih =>
      obtain ⟨file', held', later⟩ := Option.bind_eq_some_iff.mp absent
      have here : f = g → file' = file := by
        rintro rfl
        exact Option.some.inj (held'.symm.trans held)
      split at later
      · next deleted =>
          rcases List.mem_cons.mp inside with same | more
          · exact Or.inl (here same ▸ deleted)
          · exact ih later more
      change (if file'.name = name then some (some g)
        else findFileByName fs (some name) rest) = some none at later
      split at later
      · cases later
      · next other =>
          rcases List.mem_cons.mp inside with same | more
          · exact Or.inr (here same ▸ other)
          · exact ih later more

theorem findFileByName_defined {fs : Fs} {list : List Nat} (name : Name)
    (live : ∀ f ∈ list, (fs.file f).isSome) : ∃ found, findFileByName fs (some name) list = some found := by
  induction list with
  | nil => exact ⟨none, rfl⟩
  | cons g rest ih =>
      obtain ⟨file, held⟩ := Option.isSome_iff_exists.mp (live g (by simp))
      obtain ⟨found, later⟩ := ih fun f inside => live f (List.mem_cons_of_mem _ inside)
      unfold findFileByName
      simp only [held, bind, Option.bind_some]
      split
      · exact ⟨found, later⟩
      split
      · exact ⟨_, rfl⟩
      · exact ⟨found, later⟩

theorem freeBlocks_spec {heap heap' : Heap} {blocks : List Nat}
    (freed : freeBlocks heap blocks = some heap') :
    heap'.next = heap.next ∧
      ∀ b, heap'.block b = if b ∈ blocks then none else heap.block b := by
  induction blocks generalizing heap with
  | nil =>
      cases freed
      exact ⟨rfl, by simp⟩
  | cons c rest ih =>
      obtain ⟨middle, cut, later⟩ := Option.bind_eq_some_iff.mp freed
      obtain ⟨block, held, rfl⟩ := Option.map_eq_some_iff.mp cut
      obtain ⟨next, shape⟩ := ih later
      refine ⟨next, fun b => ?_⟩
      rw [shape b]
      by_cases same : b = c
      · simp [same]
      · simp [same]

theorem freeBlocks_defined {heap : Heap} {blocks : List Nat} (distinct : blocks.Nodup)
    (allocated : ∀ b ∈ blocks, (heap.block b).isSome) : ∃ heap', freeBlocks heap blocks = some heap' := by
  induction blocks generalizing heap with
  | nil => exact ⟨heap, rfl⟩
  | cons c rest ih =>
      rw [List.nodup_cons] at distinct
      obtain ⟨block, held⟩ := Option.isSome_iff_exists.mp (allocated c (by simp))
      have cut : heap.deleteBlock c = some { heap with block := Function.update heap.block c none } := by
        simp [Heap.deleteBlock, held]
      obtain ⟨heap', later⟩ := @ih { heap with block := Function.update heap.block c none }
        distinct.2 (fun b inside => by
          have other : b ≠ c := fun same => distinct.1 (same ▸ inside)
          simpa [Function.update_of_ne other] using allocated b (List.mem_cons_of_mem _ inside))
      exact ⟨heap', by simp [freeBlocks, cut, later]⟩

end SystemProg.UserFs
