import SystemProg.UserFs.Handle

set_option autoImplicit false

-- Without any assumption on sizes, every completed operation keeps the block list sound, touches
-- the memory of its own blocks only, and leaves a cursor that is released or on the list.

namespace SystemProg.UserFs

open Rlist

def Handle.Own (h : Handle) (b : Nat) : Prop :=
  b < h.heap.next ∧ (h.heap.block b ≠ none → b ∈ h.file.blocks)

structure Handle.Whole (h : Handle) : Prop where
  sound : h.Sound
  counted : h.file.blocksCount = h.file.blocks.length
  own : ∀ b, h.desc.curBlock = some b → h.Own b

structure Handle.Stays (h h' : Handle) : Prop where
  keeps : h.Keeps h'
  ring : ∀ b ∈ h'.file.blocks, b ∈ h.file.blocks ∨ h.heap.next ≤ b
  gone : ∀ b ∈ h.file.blocks, b ∈ h'.file.blocks ∨ h'.heap.block b = none
  whole : h'.Whole

theorem Handle.Keeps.refl (h : Handle) : h.Keeps h :=
  ⟨rfl, rfl, rfl, rfl, rfl, le_rfl, fun _ _ _ => rfl⟩

theorem Handle.Whole.stays {h : Handle} (whole : h.Whole) : h.Stays h :=
  ⟨.refl h, fun _ inside => Or.inl inside, fun _ inside => Or.inl inside, whole⟩

theorem Handle.Whole.linked {h : Handle} (whole : h.Whole) {b : Nat} (inside : b ∈ h.file.blocks) :
    h.Own b := ⟨whole.sound.lt_next inside, fun _ => inside⟩

theorem Handle.Stays.own {h h' : Handle} (stays : h.Stays h') {b : Nat} (own : h.Own b) :
    h'.Own b := by
  refine ⟨lt_of_lt_of_le own.1 stays.keeps.next, fun live => ?_⟩
  by_cases inside : b ∈ h.file.blocks
  · rcases stays.gone b inside with there | gone
    · exact there
    · exact absurd gone live
  · rw [stays.keeps.others b inside own.1] at live
    exact absurd (own.2 live) inside

theorem Handle.Stays.trans {h₁ h₂ h₃ : Handle} (first : h₁.Stays h₂) (second : h₂.Stays h₃)
    (sound : h₁.Sound) : h₁.Stays h₃ where
  keeps := by
    obtain ⟨keeps₁, ring₁, -, -⟩ := first
    obtain ⟨keeps₂, -, -, -⟩ := second
    refine ⟨keeps₂.atfile.trans keeps₁.atfile, keeps₂.flags.trans keeps₁.flags,
      keeps₂.refs.trans keeps₁.refs, keeps₂.name.trans keeps₁.name,
      keeps₂.deleted.trans keeps₁.deleted, keeps₁.next.trans keeps₂.next, ?_⟩
    intro b outside old
    have later : b ∉ h₂.file.blocks := by
      intro inside
      rcases ring₁ b inside with own | fresh
      · exact outside own
      · omega
    rw [keeps₂.others b later (lt_of_lt_of_le old keeps₁.next), keeps₁.others b outside old]
  ring := by
    intro b inside
    rcases second.ring b inside with own | fresh
    · exact first.ring b own
    · exact Or.inr (first.keeps.next.trans fresh)
  gone := by
    intro b inside
    rcases first.gone b inside with there | gone
    · exact second.gone b there
    · have dropped : b ∉ h₂.file.blocks := fun there => by
        have live := first.whole.sound.allocated b there
        simp [gone] at live
      have old := lt_of_lt_of_le (sound.lt_next inside) first.keeps.next
      exact Or.inr ((second.keeps.others b dropped old).trans gone)
  whole := second.whole

theorem Handle.Stays.setSize {h g : Handle} (stays : h.Stays g) (size : Nat) :
    h.Stays { g with file := { g.file with size := size } } :=
  ⟨⟨stays.keeps.atfile, stays.keeps.flags, stays.keeps.refs, stays.keeps.name,
    stays.keeps.deleted, stays.keeps.next, stays.keeps.others⟩, stays.ring, stays.gone,
    ⟨⟨stays.whole.sound.distinct, stays.whole.sound.allocated, stays.whole.sound.fresh⟩,
      stays.whole.counted, stays.whole.own⟩⟩

section Primitives

variable {h : Handle} (whole : h.Whole)

include whole

theorem setCursor_stays {b : Nat} (own : h.Own b) (index : Int) :
    h.Stays (h.setCursor (some b) index) := by
  refine ⟨⟨rfl, rfl, rfl, rfl, rfl, le_rfl, fun _ _ _ => rfl⟩, fun _ inside => Or.inl inside,
    fun _ inside => Or.inl inside, whole.sound.setCursor _ _, whole.counted, ?_⟩
  rintro c ⟨⟩
  exact own

theorem advance_stays (count : Nat) : h.Stays (h.advance count) :=
  ⟨⟨rfl, rfl, rfl, rfl, rfl, le_rfl, fun _ _ _ => rfl⟩, fun _ inside => Or.inl inside,
    fun _ inside => Or.inl inside,
    ⟨whole.sound.distinct, whole.sound.allocated, whole.sound.fresh⟩, whole.counted, whole.own⟩

theorem appendBlocks_own (n : Nat) {b : Nat} (own : h.Own b) : (h.appendBlocks n).Own b := by
  have extended := appendBlocks_extends whole.sound n
  refine ⟨by rw [extended.next]; have := own.1; omega, fun live => ?_⟩
  have old := own.1
  rw [appendBlocks_block, if_neg (by omega)] at live
  rw [extended.file]
  exact List.mem_append_left _ (own.2 live)

theorem appendBlocks_stays (n : Nat) : h.Stays (h.appendBlocks n) := by
  have extended := appendBlocks_extends whole.sound n
  refine ⟨extended.keeps, ?_, ?_, extended.sound, extended.count whole.counted, ?_⟩
  · intro b inside
    rw [extended.file] at inside
    rcases List.mem_append.mp inside with old | fresh
    · exact Or.inl old
    · exact Or.inr (List.mem_range'_1.mp fresh).1
  · intro b inside
    rw [extended.file]
    exact Or.inl (List.mem_append_left _ inside)
  · intro b cached
    rw [appendBlocks_desc] at cached
    exact appendBlocks_own whole n (whole.own b cached)

theorem modify_stays {b : Nat} {change : Block → Block} {heap : Heap} (own : h.Own b)
    (changed : h.heap.modify b change = some heap) :
    h.Stays { h with heap := heap } ∧ b ∈ h.file.blocks ∧
      ∀ c, h.Own c → ({ h with heap := heap } : Handle).Own c := by
  obtain ⟨block, held, rfl⟩ : ∃ block, h.heap.block b = some block ∧
      { h.heap with block := Function.update h.heap.block b (some (change block)) } = heap := by
    simpa [Heap.modify, Option.map_eq_some_iff] using changed
  have inside : b ∈ h.file.blocks := own.2 (by simp [held])
  have stillOwn : ∀ c, h.Own c →
      ({ h with heap := { h.heap with
        block := Function.update h.heap.block b (some (change block)) } } : Handle).Own c := by
    intro c own'
    refine ⟨own'.1, fun live => ?_⟩
    by_cases same : c = b
    · rw [same]
      exact inside
    · exact own'.2 (by simpa [Function.update_of_ne same] using live)
  refine ⟨⟨⟨rfl, rfl, rfl, rfl, rfl, le_rfl, ?_⟩, fun _ old => Or.inl old,
    fun _ old => Or.inl old, ⟨whole.sound.distinct, ?_, ?_⟩, whole.counted,
    fun c cached => stillOwn c (whole.own c cached)⟩,
    inside, stillOwn⟩
  · intro c outside _
    have other : c ≠ b := fun same => outside (same ▸ inside)
    simp [Function.update_of_ne other]
  · intro c old
    by_cases same : c = b
    · simp [same]
    · simpa [Function.update_of_ne same] using whole.sound.allocated c old
  · intro c beyond
    have other : c ≠ b := by
      rintro rfl
      have := whole.sound.lt_next inside
      change h.heap.next ≤ c at beyond
      omega
    simpa [Function.update_of_ne other] using whole.sound.fresh c beyond

end Primitives

theorem rlistNext_mem {ring : List Nat} {b c : Nat} (next : rlistNext ring b = some (some c)) :
    c ∈ ring := by
  induction ring with
  | nil => cases next
  | cons first rest ih =>
      simp only [rlistNext] at next
      split at next
      · exact List.mem_cons_of_mem _ (List.mem_of_mem_head? (Option.some.inj next))
      · exact List.mem_cons_of_mem _ (ih next)

theorem walkTo_mem {index i : Int} {blocks : List Nat} {b : Nat}
    (found : walkTo index i blocks = some b) : b ∈ blocks := by
  induction blocks generalizing i with
  | nil => cases found
  | cons first rest ih =>
      simp only [walkTo] at found
      split at found
      · simp [Option.some.inj found]
      · exact List.mem_cons_of_mem _ (ih found)

theorem cachedStep_mem {h : Handle} {index offset : Int}
    {link : List Nat → Nat → Option (Option Nat)}
    (links : ∀ b c, link h.file.blocks b = some (some c) → c ∈ h.file.blocks) {c : Nat}
    (stepped : h.cachedStep index offset link = some (some c)) : c ∈ h.file.blocks := by
  unfold Handle.cachedStep at stepped
  split at stepped
  · cases stepped
  · split at stepped
    · exact links _ _ stepped
    · cases stepped

theorem getBlockByIndex_stays {h h' : Handle} (whole : h.Whole) {index : Int}
    {create : Bool} {b : Option Nat} (run : getBlockByIndex h index create = some (b, h')) :
    h.Stays h' ∧ ∀ c, b = some c → h'.Own c := by
  have listed : ∀ c, c ∈ h.file.blocks → h.Stays (h.setCursor (some c) index) ∧
      ∀ c', some c = some c' → (h.setCursor (some c) index).Own c' := by
    intro c inside
    refine ⟨setCursor_stays whole (whole.linked inside) index, ?_⟩
    rintro c' ⟨⟩
    exact whole.linked inside
  unfold getBlockByIndex at run
  split at run
  · cases run
    exact ⟨whole.stays, by simp⟩
  next positive =>
  split at run
  · cases run
    exact ⟨whole.stays, whole.own⟩
  split at run
  · cases run
  · next c stepped =>
      cases run
      exact listed c (cachedStep_mem (fun _ _ => rlistNext_mem) stepped)
  split at run
  · cases run
  · next c stepped =>
      cases run
      exact listed c (cachedStep_mem
        (fun _ _ linked => List.mem_reverse.mp (rlistNext_mem linked)) stepped)
  split at run
  · next c walked =>
      cases run
      exact listed c (walkTo_mem walked)
  next walked =>
  split at run
  · cases run
    -- the walk ended before the index, so at least one block is appended and is the last one
    obtain ⟨n, times⟩ : ∃ n, n = (index + 1 - h.file.blocksCount).toNat := ⟨_, rfl⟩
    have grown := appendBlocks_stays whole n
    have some_added : 0 < n := by
      rw [walkTo_eq _ _ _ (by omega), List.getElem?_eq_none_iff] at walked
      have := whole.counted
      omega
    have last : (h.appendBlocks n).file.last = some (h.heap.next + n - 1) := by
      simp only [appendBlocks_file]
      rw [if_neg (by omega)]
    have inside : h.heap.next + n - 1 ∈ (h.appendBlocks n).file.blocks := by
      simp only [appendBlocks_file]
      exact List.mem_append_right _ (List.mem_range'_1.mpr (by omega))
    have isGrown : h.growTo (index + 1) = h.appendBlocks n := by rw [times]; rfl
    rw [isGrown, last]
    have own := grown.whole.linked inside
    refine ⟨grown.trans (setCursor_stays grown.whole own index) whole.sound, ?_⟩
    rintro c ⟨⟩
    exact own
  · cases run
    exact ⟨whole.stays, by simp⟩

theorem writeLoop_stays {h h' : Handle} (whole : h.Whole) {b index b' index' : Nat}
    {offset : Fin blockSize} {rest : List Byte} (own : h.Own b)
    (run : writeLoop h b index offset rest = some (b', index', h')) :
    h.Stays h' ∧ h'.Own b' := by
  induction size : rest.length using Nat.strong_induction_on generalizing h b index offset rest with
  | _ size ih =>
  have bound := offset.isLt
  rw [writeLoop] at run
  dsimp only at run
  split at run
  · cases run
  next heap changed =>
  obtain ⟨changedStays, inside, stillOwn⟩ := modify_stays whole own changed
  have copiedStays := changedStays.trans
    (advance_stays changedStays.whole (min (blockSize - offset) rest.length)) whole.sound
  split at run
  · cases run
    exact ⟨copiedStays, stillOwn _ own⟩
  next more =>
  split at run
  · cases run
  next next linked =>
  have moved : ∀ (g : Handle) (c : Nat), h.Stays g → g.Own c →
      writeLoop (g.setCursor (some c) (index + 1)) c (index + 1) ⟨0, by decide⟩
        (rest.drop (min (blockSize - offset) rest.length)) = some (b', index', h') →
      h.Stays h' ∧ h'.Own b' := by
    intro g c stays ownC later
    have seated := setCursor_stays stays.whole ownC ((index : Int) + 1)
    obtain ⟨tail, ownB⟩ := ih _ (by rw [List.length_drop]; omega) seated.whole ownC later rfl
    exact ⟨(stays.trans seated whole.sound).trans tail whole.sound, ownB⟩
  cases next with
  | some c => exact moved _ c copiedStays (copiedStays.whole.linked (rlistNext_mem linked)) run
  | none =>
      have grown := appendBlocks_stays copiedStays.whole 1
      refine moved _ _ (copiedStays.trans grown whole.sound) ?_ run
      exact grown.whole.linked (by simp [appendBlocks_file])

theorem readLoop_stays {h h' : Handle} (whole : h.Whole) {b index b' index' left : Nat}
    {offset : Fin blockSize} {data : List Byte} (own : h.Own b)
    (run : readLoop h b index offset left = some (data, b', index', h')) :
    h.Stays h' ∧ h'.Own b' ∧ h'.file = h.file ∧ h'.heap = h.heap := by
  induction size : left using Nat.strong_induction_on
    generalizing h b index offset left data with
  | _ size ih =>
  have bound := offset.isLt
  rw [readLoop] at run
  split at run
  · cases run
    exact ⟨whole.stays, own, rfl, rfl⟩
  next nonempty =>
  dsimp only at run
  split at run
  · cases run
  next block held =>
  have advanced := advance_stays whole (min (blockSize - offset) left)
  split at run
  · cases run
    exact ⟨advanced, own, rfl, rfl⟩
  next more =>
  split at run
  · cases run
  · cases run
    exact ⟨advanced, own, rfl, rfl⟩
  next c linked =>
  split at run
  · cases run
  next more' result later =>
  cases run
  have ownC : h.Own c := whole.linked (rlistNext_mem linked)
  have seated := setCursor_stays advanced.whole (b := c) ownC ((index : Int) + 1)
  obtain ⟨tail, ownB, file, heap⟩ := ih (left - min (blockSize - offset) left) (by omega)
    seated.whole ownC later rfl
  exact ⟨(advanced.trans seated whole.sound).trans tail whole.sound, ownB, file, heap⟩

theorem write_stays {h h' : Handle} (whole : h.Whole) {buf : List Byte} {written : Int}
    (run : h.write buf = some (written, h')) : h.Stays h' := by
  unfold Handle.write at run
  dsimp only at run
  split at run
  · cases run
  · next found lookup =>
      cases run
      exact (getBlockByIndex_stays whole lookup).1
  next b found lookup =>
  obtain ⟨foundStays, own⟩ := getBlockByIndex_stays whole lookup
  split at run
  · cases run
  next b' index' copied copying =>
  cases run
  obtain ⟨copiedStays, own'⟩ := writeLoop_stays foundStays.whole (own b rfl) copying
  have sized := (foundStays.trans copiedStays whole.sound).setSize
    (if copied.desc.pos > copied.file.size then copied.desc.pos else copied.file.size)
  exact sized.trans (setCursor_stays sized.whole own' _) whole.sound

theorem getBlockByIndex_lookup {h h' : Handle} {index : Int} {b : Option Nat}
    (run : getBlockByIndex h index false = some (b, h')) :
    h'.file = h.file ∧ h'.heap = h.heap := by
  unfold getBlockByIndex at run
  repeat' split at run
  all_goals first
    | (cases run; exact ⟨rfl, rfl⟩)
    | contradiction

theorem read_stays {h h' : Handle} (whole : h.Whole) {size : Nat} {data : List Byte}
    (run : h.read size = some (data, h')) :
    h.Stays h' ∧ h'.file = h.file ∧ h'.heap = h.heap := by
  unfold Handle.read at run
  dsimp only at run
  split at run
  · cases run
  · next found lookup =>
      cases run
      exact ⟨(getBlockByIndex_stays whole lookup).1, getBlockByIndex_lookup lookup⟩
  next b found lookup =>
  obtain ⟨foundStays, own⟩ := getBlockByIndex_stays whole lookup
  obtain ⟨foundFile, foundHeap⟩ := getBlockByIndex_lookup lookup
  split at run
  · cases run
  next data' b' index' moved copying =>
  cases run
  obtain ⟨movedStays, own', file, heap⟩ := readLoop_stays foundStays.whole (own b rfl) copying
  have together := foundStays.trans movedStays whole.sound
  exact ⟨together.trans (setCursor_stays together.whole own' _) whole.sound, file.trans foundFile,
    heap.trans foundHeap⟩

theorem clearLast_stays {h h' : Handle} (whole : h.Whole) {start count : Nat}
    (run : h.clearLast start count = some h') : h.Stays h' := by
  obtain ⟨b, last, heap, changed, rfl⟩ : ∃ b, h.file.blocks.getLast? = some b ∧
      ∃ heap, h.heap.modify b (fun block => block.clear start count) = some heap ∧
        { h with heap := heap } = h' := by
    simpa [Handle.clearLast, Option.bind_eq_some_iff] using run
  exact (modify_stays whole (whole.linked (List.mem_of_getLast? last)) changed).1

theorem shrinkTo_stays {h h' : Handle} (whole : h.Whole) {limit : Nat}
    (run : h.shrinkTo limit = some h') : h.Stays h' := by
  by_cases fewer : limit ≤ h.file.blocks.length
  · obtain ⟨g, same, kept, sound, desc, count, ring, freed, -⟩ :=
      shrinkTo_spec whole.sound whole.counted fewer
    rw [run] at same
    cases same
    have prefixed : ∀ b ∈ h'.file.blocks, b ∈ h.file.blocks := by
      rw [ring]
      exact fun b => List.mem_of_mem_take
    refine ⟨kept, fun b inside => Or.inl (prefixed b inside), ?_, sound, ?_, ?_⟩
    · intro b inside
      rw [← List.take_append_drop limit h.file.blocks] at inside
      rw [ring]
      exact (List.mem_append.mp inside).imp_right (freed b)
    · rw [count, ring, List.length_take]
      omega
    · intro b cached
      rw [desc] at cached
      obtain ⟨old, own⟩ := whole.own b cached
      refine ⟨lt_of_lt_of_le old kept.next, fun live => ?_⟩
      by_cases inside : b ∈ h.file.blocks
      · rw [← List.take_append_drop limit h.file.blocks] at inside
        rcases List.mem_append.mp inside with stays | dropped
        · rw [ring]
          exact stays
        · exact absurd (freed b dropped) live
      · rw [kept.others b inside old] at live
        exact absurd (own live) inside
  · have idle : (h.file.blocksCount - (limit : Int)).toNat = 0 := by
      have := whole.counted
      omega
    unfold Handle.shrinkTo at run
    rw [idle] at run
    cases run
    exact whole.stays

theorem reshape_stays {h h' : Handle} (whole : h.Whole) {newSize : Nat}
    (run : h.reshape newSize = some h') : h.Stays h' := by
  unfold Handle.reshape at run
  split at run
  · have grown : h.Stays (h.growTo (blocksFor newSize)) := appendBlocks_stays whole _
    unfold Handle.grow at run
    dsimp only at run
    split at run
    · exact grown.trans (clearLast_stays grown.whole run) whole.sound
    · cases run
      exact grown
  split at run
  · unfold Handle.shrink at run
    split at run
    · cases run
    next shrunk cut =>
    have shrunkStays := shrinkTo_stays whole cut
    split at run
    · exact shrunkStays.trans (clearLast_stays shrunkStays.whole run) whole.sound
    · cases run
      exact shrunkStays
  · cases run
    exact whole.stays

theorem resize_stays {h h' : Handle} (whole : h.Whole) {newSize : Nat}
    (run : h.resize newSize = some h') : h.Stays h' := by
  obtain ⟨g, reshaped, rfl⟩ : ∃ g, h.reshape newSize = some g ∧
      { g with file := { g.file with size := newSize } } = h' := by
    simpa [Handle.resize, Option.map_eq_some_iff] using run
  exact (reshape_stays whole reshaped).setSize newSize

end SystemProg.UserFs
