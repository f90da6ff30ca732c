import SystemProg.UserFs.Plain

set_option autoImplicit false

-- One call at a time: what the code answers is what the plain file system answers, and the states
-- after it correspond again. Whole runs follow by the simulation rule.

namespace SystemProg.UserFs

theorem slot_iff {fs : Fs} {fd : Int} {desc : FileDesc} :
    fs.slot fd = some desc ↔ 0 < fd ∧ fs.Opened (fd - 1).toNat desc := by
  constructor
  · intro slot
    refine ⟨?_, slot_opened slot⟩
    by_contra low
    rw [Fs.slot, if_pos (Int.not_lt.mp low)] at slot
    cases slot
  · rintro ⟨positive, opened⟩
    have slot := opened.slot
    rwa [show (((fd - 1).toNat : Nat) : Int) + 1 = fd by omega] at slot

theorem placed_slots (fs : Fs) (desc : FileDesc) (fd : Int) :
    (placeDescriptor fs desc).2.slot fd =
      if fd = firstFree fs.fileDescriptors + 1 then some desc else fs.slot fd := by
  apply Option.ext
  intro d
  rw [slot_iff, placeDescriptor_opened]
  split
  · next here =>
      have closed := firstFree_closed fs.fileDescriptors d
      rw [Option.some.injEq, here, show ((firstFree fs.fileDescriptors : Int) + 1 - 1).toNat =
        firstFree fs.fileDescriptors by omega]
      constructor
      · rintro ⟨-, ⟨-, rfl⟩ | taken⟩
        · rfl
        · exact absurd taken closed
      · rintro rfl
        exact ⟨by omega, Or.inl ⟨rfl, rfl⟩⟩
  · next away =>
      rw [slot_iff]
      constructor
      · rintro ⟨positive, ⟨here, -⟩ | opened⟩
        · omega
        · exact ⟨positive, opened⟩
      · rintro ⟨positive, opened⟩
        exact ⟨positive, Or.inr opened⟩

theorem plain_opening (fs : Fs) (fd : Int) :
    fs.plain.opening fd = (fs.slot fd).map FileDesc.opening := rfl

theorem plain_content (fs : Fs) (f : Nat) :
    fs.plain.content f = (fs.file f).map fun file => file.content fs.heap := rfl

theorem freeNumber_eq (fs : Fs) : fs.plain.freeNumber = firstFree fs.fileDescriptors + 1 := by
  obtain ⟨free, taken⟩ := firstFree_smallest fs
  have member : firstFree fs.fileDescriptors ∈ {n : Nat | fs.plain.opening (n + 1) = none} := by
    rw [Set.mem_ofPred_eq, plain_opening, free]
    rfl
  have least : sInf {n : Nat | fs.plain.opening (n + 1) = none} = firstFree fs.fileDescriptors := by
    refine le_antisymm (Nat.sInf_le member) (le_csInf ⟨_, member⟩ fun n closed => ?_)
    by_contra below
    have opened := taken (n + 1) (by omega) (by omega)
    rw [Set.mem_ofPred_eq, plain_opening, Option.map_eq_none_iff] at closed
    rw [closed] at opened
    cases opened
  rw [Plain.freeNumber, least]

def Fs.Names (fs : Fs) (name : Name) (f : Nat) : Prop :=
  f ∈ fs.fileList ∧ (fs.file f).map File.name = some name

theorem Fs.Indexed.unflagged {fs : Fs} (indexed : fs.Indexed) {f : Nat} {file : File}
    (inside : f ∈ fs.fileList) (held : fs.file f = some file) : file.deleted = false := by
  have kept := ((indexed.listed f).mp inside).2
  have flagged := indexed.flagged f file held
  cases deleted : file.deleted with
  | false => rfl
  | true => exact absurd (flagged.mp deleted) kept

theorem Fs.Indexed.found_iff {fs : Fs} (indexed : fs.Indexed) (name : Name) (found : Option Nat) :
    findFileByName fs (some name) fs.fileList = some found ↔ ∀ f, found = some f ↔ fs.Names name f := by
  obtain ⟨found', lookup⟩ := findFileByName_defined name
    fun f inside => ((indexed.listed f).mp inside).1
  have names : ∀ f, found' = some f ↔ fs.Names name f := by
    intro f
    constructor
    · rintro rfl
      obtain ⟨inside, file, held, -, named⟩ := findFileByName_found lookup
      exact ⟨inside, by rw [held, named]; rfl⟩
    · rintro ⟨inside, named⟩
      obtain ⟨file, held, named⟩ := Option.map_eq_some_iff.mp named
      cases found' with
      | none =>
          rcases findFileByName_absent lookup inside held with deleted | different
          · rw [indexed.unflagged inside held] at deleted
            cases deleted
          · exact absurd named different
      | some g =>
          obtain ⟨inside', file', held', -, named'⟩ := findFileByName_found lookup
          have same := named.trans (Option.some.inj named')
          rw [indexed.names f g file file' inside inside' held held' same]
  rw [lookup, Option.some.injEq]
  constructor
  · rintro rfl
    exact names
  · intro other
    apply Option.ext
    intro f
    rw [names f, other f]

theorem Fs.Indexed.named_iff {fs : Fs} (indexed : fs.Indexed) {name : Name} {f : Nat} :
    fs.plain.named name = some f ↔ fs.Names name f := by
  obtain ⟨found, lookup⟩ := findFileByName_defined name
    fun f inside => ((indexed.listed f).mp inside).1
  change (findFileByName fs (some name) fs.fileList).join = some f ↔ _
  rw [lookup]
  exact (indexed.found_iff name found).mp lookup f

theorem named_eq {fs : Fs} {name : Name} {found : Option Nat}
    (lookup : findFileByName fs (some name) fs.fileList = some found) :
    fs.plain.named name = found := by
  change (findFileByName fs (some name) fs.fileList).join = found
  rw [lookup]
  rfl

def File.label (file : File) : Bool × Name := (file.deleted, file.name)

theorem findFileByName_congr {fs fs' : Fs} {list : List Nat}
    (same : ∀ f ∈ list, (fs'.file f).map File.label = (fs.file f).map File.label)
    (name : Option Name) : findFileByName fs' name list = findFileByName fs name list := by
  induction list with
  | nil => rfl
  | cons f rest ih =>
      have here := same f (List.mem_cons_self ..)
      unfold findFileByName
      rw [ih fun g inside => same g (List.mem_cons_of_mem _ inside)]
      cases held : fs.file f with
      | none =>
          rw [held, Option.map_none, Option.map_eq_none_iff] at here
          rw [here]
      | some file =>
          rw [held] at here
          obtain ⟨file', held', label⟩ := Option.map_eq_some_iff.mp here
          obtain ⟨deleted, named⟩ := Prod.mk.inj label
          rw [held']
          simp only [bind, Option.bind_some, deleted, named]

theorem named_congr {fs fs' : Fs} (list : fs'.fileList = fs.fileList)
    (same : ∀ f ∈ fs.fileList, (fs'.file f).map File.label = (fs.file f).map File.label) :
    fs'.plain.named = fs.plain.named := by
  funext name
  change (findFileByName fs' (some name) fs'.fileList).join = _
  rw [list, findFileByName_congr same]
  rfl

theorem Fs.Indexed.needed_iff {fs : Fs} (indexed : fs.Indexed) {f : Nat} :
    fs.plain.Needed f ↔ f ∈ fs.fileList ∨ 0 < fs.openCount f := by
  refine or_congr ?_ ?_
  · constructor
    · rintro ⟨name, named⟩
      exact (indexed.named_iff.mp named).1
    · intro inside
      obtain ⟨file, held⟩ := Option.isSome_iff_exists.mp ((indexed.listed f).mp inside).1
      exact ⟨file.name, indexed.named_iff.mpr ⟨inside, by rw [held]; rfl⟩⟩
  · rw [openCount_pos]
    constructor
    · rintro ⟨fd, o, opened, same⟩
      obtain ⟨desc, slot, rfl⟩ := Option.map_eq_some_iff.mp opened
      exact ⟨_, desc, slot_opened slot, same⟩
    · rintro ⟨i, desc, opened, same⟩
      exact ⟨_, desc.opening, congrArg (Option.map _) opened.slot, same⟩

theorem setError_plain (fs : Fs) (code : UfsErrorCode) :
    (fs.setError code).plain = { fs.plain with error := code } := by
  ext1
  · rfl
  · rfl
  · exact named_congr rfl fun _ _ => rfl
  · rfl
  · rfl

theorem mapDescriptors_plain (fs : Fs) (f : Nat) (change : FileDesc → FileDesc)
    (kept : ∀ desc, (change desc).opening = desc.opening) :
    (fs.mapDescriptors f change).plain = fs.plain := by
  ext1
  · rfl
  · funext fd
    rw [plain_opening, plain_opening, mapDescriptors_slot, Option.map_map]
    congr 1
    funext desc
    rw [Function.comp_apply]
    split
    · exact kept desc
    · rfl
  · exact named_congr rfl fun _ _ => rfl
  · rfl
  · rfl

theorem withoutFile_plain {fs : Fs} (linked : fs.Linked) {f : Nat} {file : File} {heap : Heap}
    (held : fs.file f = some file) (freed : freeBlocks fs.heap file.blocks = some heap)
    (unlisted : f ∉ fs.fileList) : (fs.withoutFile f heap).plain =
      { fs.plain with content := Function.update fs.plain.content f none } := by
  obtain ⟨-, blocks⟩ := freeBlocks_spec freed
  have reset := mapDescriptors_plain fs f FileDesc.resetCursor fun _ => rfl
  ext1
  · funext g
    change _ = Function.update fs.plain.content f none g
    rw [plain_content, fs.withoutFile_file, Function.update_apply]
    split
    · rfl
    · next away =>
        rw [plain_content]
        cases there : fs.file g with
        | none => rfl
        | some other =>
            refine congrArg some (content_congr fun b inside => ?_)
            rw [show (fs.withoutFile f heap).heap = heap from rfl, blocks,
              if_neg (linked.apart _ _ _ _ away there held b inside)]
  · exact congrArg (fun p => p.opening) reset
  · refine named_congr rfl fun g inside => ?_
    rw [fs.withoutFile_file, if_neg fun here : g = f => unlisted (here ▸ inside)]
  · rfl
  · rfl

theorem placed_plain (fs : Fs) (desc : FileDesc) : (placeDescriptor fs desc).2.plain =
    { fs.plain with
      opening := Function.update fs.plain.opening fs.plain.freeNumber (some desc.opening)
      error := .noErr } := by
  rw [freeNumber_eq]
  ext1
  · rfl
  · funext fd
    change _ = Function.update fs.plain.opening _ _ fd
    rw [plain_opening, placed_slots, Function.update_apply]
    split <;> rfl
  · exact named_congr rfl fun _ _ => rfl
  · rfl
  · rfl

theorem place_plain (fs : Fs) (f : Nat) (flags : Flags) : fs.plain.place f flags =
    (⟨firstFree fs.fileDescriptors + 1, [], .noErr⟩,
      (placeDescriptor fs (newDesc f flags)).2.plain) := by
  rw [placed_plain, freeNumber_eq, Plain.place, freeNumber_eq]
  rfl

theorem setFile_plain {fs : Fs} {f : Nat} {file file' : File} (held : fs.file f = some file)
    (content : ∀ heap, file'.content heap = file.content heap) (label : file'.label = file.label) :
    (fs.setFile f file').plain = fs.plain := by
  ext1
  · funext g
    rw [plain_content, plain_content, fs.setFile_file]
    split
    · next here =>
        rw [here, held]
        exact congrArg some (content fs.heap)
    · rfl
  · rfl
  · refine named_congr rfl fun g _ => ?_
    rw [fs.setFile_file]
    split
    · next here =>
        rw [here, held]
        exact congrArg some label
    · rfl
  · rfl
  · rfl

theorem withReference_plain {fs : Fs} {f : Nat} {file : File} (held : fs.file f = some file)
    (listed : file.deleted = false) : (fs.withReference f file).plain = fs.plain :=
  setFile_plain held (fun _ => rfl) (Prod.ext listed.symm rfl)

theorem findFileByName_cons (fs : Fs) (name : Option Name) (f : Nat) (rest : List Nat) :
    findFileByName fs name (f :: rest) = (fs.file f).bind fun file =>
      if file.deleted then findFileByName fs name rest
      else name.bind fun name' =>
        if file.name = name' then some (some f) else findFileByName fs name rest := rfl

theorem findFileByName_append (fs : Fs) (name : Option Name) (front back : List Nat) :
    findFileByName fs name (front ++ back) =
      (findFileByName fs name front).bind fun found =>
        if found = none then findFileByName fs name back else some found := by
  induction front with
  | nil => rfl
  | cons f rest ih =>
      rw [List.cons_append, findFileByName_cons, findFileByName_cons, ih]
      cases fs.file f with
      | none => rfl
      | some file =>
          simp only [Option.bind_some]
          split
          · rfl
          · cases name with
            | none => rfl
            | some name =>
                simp only [Option.bind_some]
                split <;> rfl

theorem withNewFile_plain {fs : Fs} (linked : fs.Linked) (indexed : fs.Indexed) {name : Name}
    (absent : findFileByName fs (some name) fs.fileList = some none) :
    (fs.withNewFile name).plain = fs.plain.create name := by
  have files := fs.withNewFile_file name
  have old : ∀ f ∈ fs.fileList,
      ((fs.withNewFile name).file f).map File.label = (fs.file f).map File.label := by
    intro f inside
    obtain ⟨file, held⟩ := Option.isSome_iff_exists.mp ((indexed.listed f).mp inside).1
    rw [files, if_neg (Nat.ne_of_lt (linked.live_lt held))]
  have new : (fs.withNewFile name).file fs.nextFile = some (newFile name) := by
    rw [files, if_pos rfl]
  ext1
  · funext g
    change _ = Function.update fs.plain.content fs.nextFile (some []) g
    rw [plain_content, files, Function.update_apply]
    split
    · simp [newFile, File.content]
    · rfl
  · rfl
  · funext name'
    change (findFileByName _ (some name') (fs.fileList ++ [fs.nextFile])).join =
      Function.update fs.plain.named name (some fs.nextFile) name'
    rw [findFileByName_append, findFileByName_congr old, Function.update_apply]
    by_cases same : name' = name
    · rw [same, absent, if_pos rfl]
      simp [findFileByName, new, newFile]
    · obtain ⟨found, lookup⟩ := findFileByName_defined name'
        fun f inside => ((indexed.listed f).mp inside).1
      rw [if_neg same, named_eq lookup, lookup]
      cases found with
      | none => simp [findFileByName, new, newFile, Ne.symm same]
      | some f => rfl
  · rfl
  · rfl

theorem ufsOpen_plain {fs : Fs} (linked : fs.Linked) (referenced : fs.Referenced)
    {filename : Option Name} {flags : Flags} {r : Int} {fs' : Fs}
    (run : ufsOpen fs filename flags = some (r, fs')) :
    fs.plain.ufsOpen filename flags = (⟨r, [], fs'.errorCode⟩, fs'.plain) := by
  cases filename with
  | none =>
      cases run
      rw [setError_plain]
      rfl
  | some name =>
  unfold ufsOpen at run
  dsimp only at run
  cases lookup : findFileByName fs (some name) fs.fileList with
  | none => rw [lookup] at run; cases run
  | some found =>
  rw [lookup] at run
  have named := named_eq lookup
  cases found with
  | none =>
      simp only [Plain.ufsOpen, named, defaultFlags_create] at run ⊢
      split at run
      · next create =>
          cases run
          rw [if_pos create, ← withNewFile_plain linked referenced.toIndexed lookup]
          exact place_plain _ _ _
      · next refused =>
          cases run
          rw [if_neg refused, setError_plain]
          rfl
  | some f =>
      obtain ⟨file, held, placed⟩ := Option.map_eq_some_iff.mp run
      obtain ⟨inside, -⟩ := findFileByName_found lookup
      have listed := referenced.unflagged inside held
      simp only [Plain.ufsOpen, named]
      rw [← withReference_plain held listed, place_plain]
      cases placed
      rfl

theorem ufsClose_cases {fs fs' : Fs} {fd : Int} {r : Int}
    (run : ufsClose fs fd = some (r, fs')) :
    (r = -1 ∧ fs' = fs.setError .noFile ∧ fs.slot fd = none) ∨
    (r = 0 ∧ ∃ desc file, fs.slot fd = some desc ∧ fs.file desc.atfile = some file ∧
      ((¬ (file.refs - 1 = 0 ∧ file.deleted = true) ∧
          fs' = (fs.withSlotClosed fd desc.atfile file).setError .noErr) ∨
        (file.refs - 1 = 0 ∧ file.deleted = true ∧
          ∃ heap, freeBlocks fs.heap file.blocks = some heap ∧
            fs' = ((fs.withSlotClosed fd desc.atfile file).withoutFile
              desc.atfile heap).setError .noErr))) := by
  unfold ufsClose at run
  split at run
  · next closed =>
      cases run
      exact Or.inl ⟨rfl, rfl, closed⟩
  next desc slot =>
  obtain ⟨file, held, rest⟩ := Option.bind_eq_some_iff.mp run
  obtain ⟨after, ended, same⟩ := Option.map_eq_some_iff.mp rest
  cases same
  refine Or.inr ⟨rfl, desc, file, slot, held, ?_⟩
  have closedFile : (fs.withSlotClosed fd desc.atfile file).file desc.atfile =
      some { file with refs := file.refs - 1 } := Function.update_self ..
  split at ended
  · next last =>
      change releaseFile (fs.withSlotClosed fd desc.atfile file) desc.atfile = _ at ended
      rw [releaseFile_eq closedFile] at ended
      obtain ⟨heap, freed, rfl⟩ := Option.map_eq_some_iff.mp ended
      exact Or.inr ⟨last.1, last.2, heap, freed, rfl⟩
  · next needed =>
      cases ended
      exact Or.inl ⟨needed, rfl⟩

theorem setSlot_plain {fs : Fs} {fd : Int} {desc : FileDesc} (slot : fs.slot fd = some desc) :
    (fs.setSlot fd none).plain =
      { fs.plain with opening := Function.update fs.plain.opening fd none } := by
  have positive := (slot_iff.mp slot).1
  have opened (fd' : Int) (d : FileDesc) : (fs.setSlot fd none).slot fd' = some d ↔
      fd' ≠ fd ∧ fs.slot fd' = some d := by
    rw [slot_iff, setSlot_opened slot, slot_iff]
    constructor
    · rintro ⟨positive', ⟨-, none⟩ | ⟨away, there⟩⟩
      · cases none
      · exact ⟨fun same => away (by rw [same]), positive', there⟩
    · rintro ⟨away, positive', there⟩
      exact ⟨positive', Or.inr ⟨by omega, there⟩⟩
  ext1
  · rfl
  · funext fd'
    change _ = Function.update fs.plain.opening fd none fd'
    rw [Function.update_apply, plain_opening, plain_opening]
    split
    · next same =>
        rw [Option.map_eq_none_iff, Option.eq_none_iff_forall_ne_some]
        exact fun d there => ((opened fd' d).mp there).1 same
    · next away =>
        congr 1
        apply Option.ext
        intro d
        rw [opened, and_iff_right away]
  · exact named_congr rfl fun _ _ => rfl
  · rfl
  · rfl

theorem withSlotClosed_plain {fs : Fs} {fd : Int} {desc : FileDesc} {file : File}
    (slot : fs.slot fd = some desc) (held : fs.file desc.atfile = some file) :
    (fs.withSlotClosed fd desc.atfile file).plain =
      { fs.plain with opening := Function.update fs.plain.opening fd none } := by
  rw [← setSlot_plain slot]
  exact setFile_plain held (fun _ => rfl) rfl

theorem collect_plain {fs : Fs} (indexed : fs.Indexed) {f : Nat} {file : File}
    (held : fs.file f = some file) (needed : ¬ (file.refs = 0 ∧ file.deleted = true)) :
    fs.plain.collect f = fs.plain := by
  rw [Plain.collect, if_pos]
  rw [indexed.needed_iff, indexed.listed, held]
  have refs := indexed.refs f file held
  by_cases gone : f ∈ fs.deletions
  · have deleted := (indexed.flagged f file held).mpr gone
    have used : file.refs ≠ 0 := fun unused => needed ⟨unused, deleted⟩
    exact Or.inr (by omega)
  · exact Or.inl ⟨rfl, gone⟩

theorem collect_withoutFile {fs : Fs} (linked : fs.Linked) (indexed : fs.Indexed) {f : Nat}
    {file : File} {heap : Heap} (held : fs.file f = some file) (unused : file.refs = 0)
    (ghost : file.deleted = true) (freed : freeBlocks fs.heap file.blocks = some heap) :
    fs.plain.collect f = (fs.withoutFile f heap).plain := by
  have gone := (indexed.flagged f file held).mp ghost
  have unlisted : f ∉ fs.fileList := fun inside => ((indexed.listed f).mp inside).2 gone
  have refs := indexed.refs f file held
  rw [withoutFile_plain linked held freed unlisted, Plain.collect, if_neg]
  rw [indexed.needed_iff]
  rintro (inside | opened)
  · exact unlisted inside
  · omega

theorem ufsClose_plain {fs : Fs} (linked : fs.Linked) (referenced : fs.Referenced) {fd : Int}
    {r : Int} {fs' : Fs} (run : ufsClose fs fd = some (r, fs')) :
    fs.plain.ufsClose fd = (⟨r, [], fs'.errorCode⟩, fs'.plain) := by
  unfold Plain.ufsClose
  rcases ufsClose_cases run with ⟨rfl, rfl, closed⟩ | ⟨rfl, desc, file, slot, held, ended⟩
  · rw [plain_opening, closed, setError_plain]
    rfl
  have indexed := referenced.withSlotClosed slot held
  have after : (fs.withSlotClosed fd desc.atfile file).file desc.atfile =
      some { file with refs := file.refs - 1 } := Function.update_self ..
  rw [plain_opening, slot, Option.map_some]
  dsimp only
  rw [← withSlotClosed_plain slot held]
  change Plain.accept ((fs.withSlotClosed fd desc.atfile file).plain.collect desc.atfile) 0 [] = _
  rcases ended with ⟨needed, rfl⟩ | ⟨last, ghost, heap, freed, rfl⟩
  · rw [collect_plain indexed after needed, setError_plain]
    rfl
  · rw [collect_withoutFile (linked.withSlotClosed slot held) indexed after last ghost freed,
      setError_plain]
    rfl

theorem Fs.Indexed.names_inj {fs : Fs} (indexed : fs.Indexed) {name : Name} {f g : Nat}
    (first : fs.Names name f) (second : fs.Names name g) : f = g :=
  Option.some.inj ((indexed.named_iff.mpr first).symm.trans (indexed.named_iff.mpr second))

theorem withFileUnlisted_plain {fs : Fs} (linked : fs.Linked) (indexed : fs.Indexed) {f : Nat}
    {file : File} (inside : f ∈ fs.fileList) (held : fs.file f = some file) :
    (fs.withFileUnlisted f file).plain =
      { fs.plain with named := Function.update fs.plain.named file.name none } := by
  have files := fs.setFile_file f { file with deleted := true }
  have own : fs.Names file.name f := ⟨inside, congrArg (Option.map _) held⟩
  have after : (fs.withFileUnlisted f file).Indexed := indexed.withFileUnlisted linked inside held
  have names (name : Name) (g : Nat) :
      (fs.withFileUnlisted f file).Names name g ↔ name ≠ file.name ∧ fs.Names name g := by
    change g ∈ fs.fileList.erase f ∧
      ((fs.setFile f { file with deleted := true }).file g).map File.name = some name ↔ _
    rw [List.Nodup.mem_erase_iff indexed.listedOnce, files]
    constructor
    · rintro ⟨⟨other, listed⟩, named⟩
      rw [if_neg other] at named
      refine ⟨?_, listed, named⟩
      rintro rfl
      exact other (indexed.names_inj ⟨listed, named⟩ own)
    · rintro ⟨different, listed, named⟩
      have other : g ≠ f := by
        rintro rfl
        rw [held, Option.map_some, Option.some.injEq] at named
        exact different named.symm
      exact ⟨⟨other, listed⟩, by rw [if_neg other]; exact named⟩
  ext1
  · funext g
    change Option.map _ ((fs.setFile f { file with deleted := true }).file g) = fs.plain.content g
    rw [files, plain_content]
    split
    · next here =>
        rw [here, held]
        rfl
    · rfl
  · exact congrArg (fun p => p.opening)
      (mapDescriptors_plain fs f FileDesc.resetCursor fun _ => rfl)
  · funext name
    change _ = Function.update fs.plain.named file.name none name
    apply Option.ext
    intro g
    rw [after.named_iff, names, Function.update_apply]
    split
    · next same => exact iff_of_false (fun both => both.1 same) (fun none => by cases none)
    · next different => rw [and_iff_right different, indexed.named_iff]
  · rfl
  · rfl

theorem ufsDelete_plain {fs : Fs} (linked : fs.Linked) (referenced : fs.Referenced) {name : Name}
    {r : Int} {fs' : Fs} (run : ufsDelete fs (some name) = some (r, fs')) :
    fs.plain.ufsDelete (some name) = (⟨r, [], fs'.errorCode⟩, fs'.plain) := by
  unfold Plain.ufsDelete
  dsimp only
  rcases ufsDelete_cases run with ⟨rfl, rfl, absent⟩ | ⟨rfl, f, file, found, held, ended⟩
  · rw [named_eq absent, setError_plain]
    rfl
  obtain ⟨inside, file', held', -, same⟩ := findFileByName_found found
  cases held.symm.trans held'
  cases same
  have indexed := referenced.withFileUnlisted linked inside held
  have after : (fs.withFileUnlisted f file).file f = some { file with deleted := true } :=
    Function.update_self ..
  rw [named_eq found]
  dsimp only
  rw [← withFileUnlisted_plain linked referenced.toIndexed inside held]
  rcases ended with ⟨needed, rfl⟩ | ⟨unused, heap, freed, rfl⟩
  · rw [collect_plain indexed after fun both => needed both.1, setError_plain]
    rfl
  · rw [collect_withoutFile (linked.withFileUnlisted held) indexed after unused rfl freed,
      setError_plain]
    rfl

theorem refusal_eq (fs : Fs) (fd : Int) (right : Flags) (size : Nat → Nat) :
    fs.plain.refusal fd right size = match fs.slot fd with
      | none => some .noFile
      | some desc =>
          if desc.flags &&& right = 0 then some .noPermission
          else if size desc.pos > maxFileSize then some .noMem
          else none := by
  rw [Plain.refusal, plain_opening]
  cases fs.slot fd <;> rfl

theorem transfer_plain {fs fs' : Fs} (same : fs.SameDirectory fs') :
    fs'.plain = { fs.plain with toFlat := fs'.flat, error := fs'.errorCode } := by
  have labels (f : Nat) : (fs'.file f).map File.label = (fs.file f).map File.label := by
    have entries := congrArg (Option.map fun entry => (entry.2.2, entry.2.1)) (same.entries f)
    rw [Option.map_map, Option.map_map] at entries
    exact entries
  ext1
  · rfl
  · rfl
  · exact named_congr same.fileList fun f _ => labels f
  · exact same.nextFile
  · rfl

theorem ufsWrite_noErr {fs fs' : Fs} {fd : Int} {buf : List Byte} {r : Int}
    (run : ufsWrite fs fd buf = some (r, fs')) (done : 0 ≤ r) : fs'.errorCode = .noErr := by
  unfold ufsWrite at run
  split at run
  · cases run
    cases done
  split at run
  · cases run
    cases done
  split at run
  · cases run
    rfl
  split at run
  · cases run
    cases done
  obtain ⟨h, -, rest⟩ := Option.bind_eq_some_iff.mp run
  obtain ⟨⟨written, h'⟩, -, same⟩ := Option.bind_eq_some_iff.mp rest
  cases same
  exact if_neg (Int.not_lt.mpr done)

theorem ufsRead_noErr {fs fs' : Fs} {fd : Int} {size : Nat} {r : Int} {data : List Byte}
    (run : ufsRead fs fd size = some (r, data, fs')) (done : 0 ≤ r) : fs'.errorCode = .noErr := by
  unfold ufsRead at run
  split at run
  · cases run
    cases done
  split at run
  · cases run
    cases done
  obtain ⟨h, -, rest⟩ := Option.bind_eq_some_iff.mp run
  split at rest
  · cases rest
    rfl
  obtain ⟨⟨data', h'⟩, -, same⟩ := Option.bind_eq_some_iff.mp rest
  cases same
  rfl

theorem ufsResize_noErr {fs fs' : Fs} {fd : Int} {newSize : Nat} {r : Int}
    (run : ufsResize fs fd newSize = some (r, fs')) (done : 0 ≤ r) : fs'.errorCode = .noErr := by
  unfold ufsResize at run
  split at run
  · cases run
    cases done
  split at run
  · cases run
    cases done
  split at run
  · cases run
    cases done
  obtain ⟨h, -, rest⟩ := Option.bind_eq_some_iff.mp run
  obtain ⟨h', -, same⟩ := Option.bind_eq_some_iff.mp rest
  cases same
  rfl

section Transfers

variable {fs : Fs} (consistent : fs.Consistent) (cursors : fs.CursorsValid)

include consistent cursors

theorem ufsWrite_plain {fd : Int} {buf : List Byte} {r : Int} {fs' : Fs}
    (run : ufsWrite fs fd buf = some (r, fs')) :
    fs.plain.ufsWrite fd buf = (⟨r, [], fs'.errorCode⟩, fs'.plain) := by
  have valid := consistent.referenced.valid consistent.linked
  have same := (ufsWrite_effect run).sameDirectory consistent.linked rfl
  obtain ⟨r', after, run', flat, -⟩ :=
    ufsWrite_flat valid consistent.storage cursors.each fd buf
  cases run.symm.trans run'
  rw [Plain.ufsWrite, refusal_eq]
  cases slot : fs.slot fd with
  | none =>
      simp only [ufsWrite, slot] at run
      cases run
      rw [setError_plain]
      rfl
  | some desc =>
      dsimp only
      by_cases readOnly : desc.flags &&& ufsWriteOnly = 0
      · simp only [ufsWrite, slot, if_pos readOnly] at run
        cases run
        rw [if_pos readOnly, setError_plain]
        rfl
      have within : desc.pos ≤ maxFileSize := by
        obtain ⟨h, handle⟩ := valid.handle slot
        have ready := fs.ready consistent.linked consistent.storage cursors.each slot handle
        obtain ⟨-, rfl, -⟩ := fs.handle_eq handle
        exact ready.placed.trans ready.stored.bounded
      by_cases tooLarge : desc.pos + buf.length > maxFileSize
      · simp only [ufsWrite, slot, if_neg readOnly] at run
        rw [if_neg (by omega), if_pos (by omega)] at run
        cases run
        rw [if_neg readOnly, if_pos tooLarge, setError_plain]
        rfl
      · have written := flat
        have refused : ¬ (desc.opening.flags &&& ufsWriteOnly = 0 ∨
            desc.opening.pos + buf.length > maxFileSize) := not_or.mpr ⟨readOnly, tooLarge⟩
        unfold Flat.write at written
        rw [flat_opening slot] at written
        dsimp only at written
        rw [if_neg refused] at written
        have result : r = buf.length := congrArg Prod.fst written
        rw [if_neg readOnly, if_neg tooLarge, transfer_plain same,
          ufsWrite_noErr run (by omega), result]
        change Plain.accept { fs.plain with toFlat := (fs.flat.write fd buf).2 } _ _ = _
        rw [← flat]
        rfl

theorem ufsRead_plain {fd : Int} {size : Nat} {r : Int} {data : List Byte} {fs' : Fs}
    (run : ufsRead fs fd size = some (r, data, fs')) :
    fs.plain.ufsRead fd size = (⟨r, data, fs'.errorCode⟩, fs'.plain) := by
  have valid := consistent.referenced.valid consistent.linked
  have same := (ufsRead_effect run).sameDirectory consistent.linked rfl
  obtain ⟨r', data', after, run', flat, -⟩ :=
    ufsRead_flat valid consistent.storage cursors.each fd size
  cases run.symm.trans run'
  rw [Plain.ufsRead, refusal_eq]
  cases slot : fs.slot fd with
  | none =>
      simp only [ufsRead, slot] at run
      cases run
      rw [setError_plain]
      rfl
  | some desc =>
      dsimp only
      by_cases writeOnly : desc.flags &&& ufsReadOnly = 0
      · simp only [ufsRead, slot, if_pos writeOnly] at run
        cases run
        rw [if_pos writeOnly, setError_plain]
        rfl
      · have copied := flat
        have refused : ¬ desc.opening.flags &&& ufsReadOnly = 0 := writeOnly
        unfold Flat.read at copied
        rw [flat_opening slot] at copied
        dsimp only at copied
        rw [if_neg refused] at copied
        have result : r = data.length := by
          rw [Prod.mk.injEq, Prod.mk.injEq] at copied
          rw [copied.1, copied.2.1]
        rw [if_neg writeOnly, if_neg (Nat.not_lt_zero _), transfer_plain same,
          ufsRead_noErr run (by omega)]
        change Plain.accept { fs.plain with toFlat := (fs.flat.read fd size).2.2 }
          (fs.flat.read fd size).1 (fs.flat.read fd size).2.1 = _
        rw [← flat]
        rfl

theorem ufsResize_plain {fd : Int} {newSize : Nat} {r : Int} {fs' : Fs}
    (run : ufsResize fs fd newSize = some (r, fs')) :
    fs.plain.ufsResize fd newSize = (⟨r, [], fs'.errorCode⟩, fs'.plain) := by
  have valid := consistent.referenced.valid consistent.linked
  have same := (ufsResize_effect run).sameDirectory consistent.linked rfl
  obtain ⟨r', after, run', flat, -⟩ :=
    ufsResize_flat valid consistent.storage cursors.each fd newSize
  cases run.symm.trans run'
  rw [Plain.ufsResize, refusal_eq]
  cases slot : fs.slot fd with
  | none =>
      simp only [ufsResize, slot] at run
      cases run
      rw [setError_plain]
      rfl
  | some desc =>
      dsimp only
      by_cases readOnly : desc.flags &&& ufsWriteOnly = 0
      · simp only [ufsResize, slot, if_pos readOnly] at run
        cases run
        rw [if_pos readOnly, setError_plain]
        rfl
      by_cases tooLarge : newSize > maxFileSize
      · simp only [ufsResize, slot, if_neg readOnly, if_pos tooLarge] at run
        cases run
        rw [if_neg readOnly, if_pos tooLarge, setError_plain]
        rfl
      · have cut := flat
        have refused : ¬ (desc.opening.flags &&& ufsWriteOnly = 0 ∨ newSize > maxFileSize) :=
          not_or.mpr ⟨readOnly, tooLarge⟩
        unfold Flat.resize at cut
        rw [flat_opening slot] at cut
        dsimp only at cut
        rw [if_neg refused] at cut
        have result : r = 0 := congrArg Prod.fst cut
        rw [if_neg readOnly, if_neg tooLarge, transfer_plain same,
          ufsResize_noErr run (by omega), result]
        change Plain.accept { fs.plain with toFlat := (fs.flat.resize fd newSize).2 } _ _ = _
        rw [← flat]
        rfl

end Transfers

theorem ufsDestroy_plain {fs : Fs} (consistent : fs.Consistent) {order : List Nat}
    (lists : order.Perm (filesToDelete fs)) :
    ∃ fs', ufsDestroy fs order = some fs' ∧ fs'.Consistent ∧ fs'.CursorsValid ∧
      fs.plain.ufsDestroy = (⟨0, [], fs'.errorCode⟩, fs'.plain) := by
  obtain ⟨fs', run, linked, referenced, -, emptied, nextFile, error⟩ :=
    ufsDestroy_emptied consistent.linked consistent.referenced lists
  refine ⟨fs', run, ⟨linked, referenced, ⟨fun f file held => ?_, fun i desc file opened => ?_⟩,
    fun i desc file opened => ?_⟩, fun i desc opened => ?_, ?_⟩
  · cases (emptied.files f).symm.trans held
  · exact absurd opened (emptied.unopened i desc)
  · exact absurd opened (emptied.unopened i desc)
  · exact absurd opened (emptied.unopened i desc)
  · rw [error]
    refine congrArg (Prod.mk _) ?_
    ext1
    · funext f
      change none = (fs'.file f).map _
      rw [emptied.files]
      rfl
    · funext fd
      change none = fs'.plain.opening fd
      rw [plain_opening, eq_comm, Option.map_eq_none_iff, Option.eq_none_iff_forall_ne_some]
      exact fun desc slot => emptied.unopened _ desc (slot_opened slot)
    · funext name
      change none = (findFileByName fs' (some name) fs'.fileList).join
      rw [emptied.fileList]
      rfl
    · exact nextFile.symm
    · exact error.symm

theorem initial_plain : Fs.initial.plain = Plain.initial := by
  ext1
  · rfl
  · funext fd
    rw [plain_opening, Plain.initial, Option.map_eq_none_iff, Option.eq_none_iff_forall_ne_some]
    exact fun desc slot => Fs.initial_opened (slot_opened slot)
  · rfl
  · rfl
  · rfl

theorem respond_plain (fs : Fs) (operation : Operation)
    (invariant : fs.Consistent ∧ fs.CursorsValid) (proper : operation.Proper fs) :
    ∃ answer next, respond fs operation = some (answer, next) ∧
      (next.Consistent ∧ next.CursorsValid) ∧ fs.plain.reply operation = (answer, next.plain) := by
  obtain ⟨consistent, cursors⟩ := invariant
  have linked := consistent.linked
  have referenced := consistent.referenced
  cases operation with
  | destroy order =>
      obtain ⟨fs', run, consistent', cursors', same⟩ := ufsDestroy_plain consistent proper
      have lists : order.Perm (filesToDelete fs) := proper
      refine ⟨_, fs', ?_, ⟨consistent', cursors'⟩, same⟩
      rw [respond, operate, if_pos lists, run]
      rfl
  | call c =>
      obtain ⟨⟨r, fs'⟩, run⟩ :=
        call_defined (referenced.valid linked) consistent.storage cursors.each c proper.1
      have taken : step fs c = some fs' := congrArg (Option.map Prod.snd) run
      have kept := step_consistent fs c fs' consistent cursors taken
      have still := (step_cursors fs c fs' consistent cursors taken).mpr proper.2
      cases c with
      | «open» filename flags =>
          exact ⟨_, fs', congrArg (Option.map _) run, ⟨kept, still⟩,
            ufsOpen_plain linked referenced run⟩
      | read fd size =>
          obtain ⟨⟨r', data, after⟩, ran, same⟩ := Option.map_eq_some_iff.mp run
          cases same
          exact ⟨_, after, congrArg (Option.map _) ran, ⟨kept, still⟩,
            ufsRead_plain consistent cursors ran⟩
      | write fd buf =>
          exact ⟨_, fs', congrArg (Option.map _) run, ⟨kept, still⟩,
            ufsWrite_plain consistent cursors run⟩
      | resize fd newSize =>
          exact ⟨_, fs', congrArg (Option.map _) run, ⟨kept, still⟩,
            ufsResize_plain consistent cursors run⟩
      | close fd =>
          exact ⟨_, fs', congrArg (Option.map _) run, ⟨kept, still⟩,
            ufsClose_plain linked referenced run⟩
      | delete filename =>
          cases filename with
          | none => exact absurd rfl proper.1
          | some name =>
              exact ⟨_, fs', congrArg (Option.map _) run, ⟨kept, still⟩,
                ufsDelete_plain linked referenced run⟩

-- Every run of proper calls is defined, and its results, bytes and error codes are those of the
-- plain file system.
theorem runs_plain {operations : List Operation}
    (proper : Run.Meets respond (fun fs operation => operation.Proper fs) Fs.initial operations) :
    ∃ given last, Run.answers respond Fs.initial operations = some (given, last) ∧
      Run.replies Plain.reply Plain.initial operations = (given, last.plain) := by
  obtain ⟨given, last, run, -, same⟩ := Run.answers_refine Fs.plain respond_plain
    ⟨Fs.initial_consistent, fun _ _ opened => absurd opened Fs.initial_opened⟩ proper
  exact ⟨given, last, run, initial_plain ▸ same⟩

theorem runs_plain_reread : ∃ given last, Run.answers respond Fs.initial
    [.call (.open (some [97]) ufsCreate), .call (.write 1 [1, 2]), .call (.delete (some [97])),
      .call (.read 1 5), .call (.close 1)] = some (given, last) ∧
    Run.replies Plain.reply Plain.initial
      [.call (.open (some [97]) ufsCreate), .call (.write 1 [1, 2]), .call (.delete (some [97])),
        .call (.read 1 5), .call (.close 1)] = (given, last.plain) :=
  runs_plain (Run.meets_of_forall (by simp [Operation.Proper, SafeResize]) _)

end SystemProg.UserFs
