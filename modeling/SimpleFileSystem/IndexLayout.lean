import SimpleFileSystem.FormatSpec
import Mathlib.Order.Interval.Set.Basic

/-!
# Where the free blocks are listed

The second loop of `format_fs` walks over the free blocks with a cursor into the index
blocks, which it moves lazily: a full block is left in the iteration after the one that
filled it.  `placements` are the assignments that it makes to `free_index`, and
`mem_placements_iff` says that the block number `n` of the free ones has its own place, the
slot `1 + n % 63` of the index block `n / 63`; slot 0 of each index block is the pointer to
the next.

The loop goes through the cursors of `cursorAt` on every host, as far as it gets
(`freeIndexStep_goes_on`); that the assertion in it holds of each is `returns_freeIndexStep`.
Where no call of the host fails it goes through all of them, and writes what it has placed
whenever an index block is full (`freeIndexStep_run`).
-/

open ByteCodec

namespace SimpleFileSystem

variable {F : Type}

/-! ## The cursor -/

namespace IndexCursor

variable {c : IndexCursor} {first : UInt64}

/-- The cursor of the next iteration. -/
def next (c : IndexCursor) (first : UInt64) : IndexCursor :=
  { (c.advance.link first).put with i := (c.advance.link first).put.i + 1 }

/-- **The assignments of one iteration** to `free_index`: the index block, the slot and the
value. -/
def placements (c : IndexCursor) (first : UInt64) : List (ℕ × ℕ × ℕ) :=
  (if c.advance.curIndexBlockPos = 0 then
    [(c.advance.curIndexBlock.toNat, 0, (Block.word (c.advance.link first).freeIndex 0).toNat)]
  else []) ++
  [((c.advance.link first).curIndexBlock.toNat, (c.advance.link first).curIndexBlockPos.toNat,
    (c.advance.link first).i.toNat)]

/-- The scratch block after the iteration has these words. -/
theorem freeIndex_next :
    (c.next first).freeIndex = (c.placements first).foldl
      (fun block p => Block.setWord block p.2.1 (UInt64.ofNat p.2.2)) c.freeIndex := by
  have hadvance : c.advance.freeIndex = c.freeIndex := by
    rw [advance]
    split <;> rfl
  rw [next, put, placements]
  by_cases hpos : c.advance.curIndexBlockPos = 0
  · rw [if_pos hpos]
    simp only [List.singleton_append, List.foldl_cons, List.foldl_nil, UInt64.ofNat_toNat, link,
      if_pos hpos, hadvance, Block.word_setWord _ _ (show 0 < 64 by decide)]
  · rw [if_neg hpos]
    simp only [List.nil_append, List.foldl_cons, List.foldl_nil, UInt64.ofNat_toNat, link,
      if_neg hpos, hadvance]

end IndexCursor

/-- The cursor before the iteration `n` of the loop. -/
def Superblock.cursorAt (s : Superblock) (tmp : Block) (n : ℕ) : IndexCursor :=
  (fun c => c.next (firstFreeBlock s))^[n] ⟨firstFreeBlock s, s.freeBlocksHead, 0, tmp⟩

/-- The assignments of the loop to `free_index`. -/
def Superblock.placements (s : Superblock) (tmp : Block) : List (ℕ × ℕ × ℕ) :=
  (List.range (s.blocks.toNat - (firstFreeBlock s).toNat)).flatMap fun n =>
    (s.cursorAt tmp n).placements (firstFreeBlock s)

/-- **What an index block holds** once the free block `n` has been put into it, where `head`
is the first index block and `first` the first free block. -/
structure IndexHolds (head first n : ℕ) (block : Block) : Prop where
  slots : ∀ j ≤ n % 63, (Block.word block (1 + j)).toNat = first + (n - n % 63 + j)
  next : (Block.word block 0).toNat = if head + n / 63 = first - 1 then 0 else head + n / 63 + 1

section Cursor

variable {B t : ℕ} {c : IndexCursor} {first : UInt64}

/-- The words that have been placed, by the number of the free block. -/
theorem IndexPrefix.holds {n p : ℕ} {block : Block} (h : IndexPrefix B (n / 63) p block)
    (hn : n < dataBlocks B) (hp : n % 63 + 1 < p) :
    IndexHolds (spareHead B) (firstFree B) n block := by
  have hq := div_lt_indexBlocks hn
  have hsplit : firstFree B = spareHead B + indexBlocks B := rfl
  refine ⟨fun j hj => ?_, ?_⟩
  · rw [h.slots (1 + j) (by omega) (by omega)]
    omega
  · rw [h.next]
    by_cases hmore : n / 63 + 1 < indexBlocks B
    · rw [if_pos hmore, if_neg (by omega)]
    · rw [if_neg hmore, if_pos (by omega)]

theorem Cursor.next (hB : 3 ≤ B) (hlt : B < 2 ^ 55) (hfirst : first.toNat = firstFree B)
    (h : Cursor B t c) (ht : t < dataBlocks B) : Cursor B (t + 1) (c.next first) :=
  ((h.ready hB hlt hfirst ht).1.put hB hlt ht).1

/-- The position in the index block, once a full one has been left. -/
theorem Cursor.advance_pos (h : Cursor B t c) : c.advance.curIndexBlockPos = 0 ↔ t % 63 = 0 := by
  rw [IndexCursor.advance]
  by_cases h0 : t = 0
  · obtain ⟨-, hpos⟩ := h.start h0
    have hne : ¬ c.curIndexBlockPos = 64 := by
      rw [hpos]
      decide
    rw [if_neg hne, h0]
    exact iff_of_true hpos rfl
  · obtain ⟨-, hpos, -⟩ := h.here h0
    by_cases hfull : c.curIndexBlockPos = 64
    · rw [hfull] at hpos
      have hpos' : 64 = (t - 1) % 63 + 2 := hpos
      rw [if_pos hfull]
      exact iff_of_true rfl (by omega)
    · have hne : c.curIndexBlockPos.toNat ≠ 64 := fun e => hfull (UInt64.toNat_inj.mp e)
      rw [if_neg hfull, ← UInt64.toNat_inj, hpos]
      show (t - 1) % 63 + 2 = 0 ↔ _
      omega

/-- **The assignments of the iteration `t`**: in the first of an index block the pointer to
the next, and then the number of the free block. -/
theorem Cursor.placements (hB : 3 ≤ B) (hlt : B < 2 ^ 55) (hfirst : first.toNat = firstFree B)
    (h : Cursor B t c) (ht : t < dataBlocks B) :
    c.placements first =
      (if t % 63 = 0 then [(spareHead B + t / 63, 0,
        if spareHead B + t / 63 = firstFree B - 1 then 0 else spareHead B + t / 63 + 1)] else []) ++
      [(spareHead B + t / 63, 1 + t % 63, firstFree B + t)] := by
  obtain ⟨hready, hcur⟩ := h.ready hB hlt hfirst ht
  have hq := div_lt_indexBlocks ht
  have hsplit : firstFree B = spareHead B + indexBlocks B := rfl
  rw [IndexCursor.placements, hready.cur, hready.pos, hready.i, hcur, hready.index.next,
    Nat.add_comm (t % 63) 1]
  refine congrArg (· ++ _) ?_
  by_cases hmod : t % 63 = 0
  · rw [if_pos (h.advance_pos.mpr hmod), if_pos hmod]
    by_cases hmore : t / 63 + 1 < indexBlocks B
    · rw [if_pos hmore, if_neg (by omega)]
    · rw [if_neg hmore, if_pos (by omega)]
  · rw [if_neg (mt h.advance_pos.mp hmod), if_neg hmod]

end Cursor

/-! ## The loop -/

section Loop

variable {B n : ℕ} {now : UInt64} {tmp : Block}

variable (now tmp) in
/-- **The cursor before the iteration `n`** of the loop on a disk of `B` blocks. -/
theorem cursor_cursorAt {blocks : UInt64} (hblocks : blocks.toNat = B) (hB : 3 ≤ B)
    (hlt : B < 2 ^ 55) (hn : n ≤ dataBlocks B) :
    Cursor B n ((superblockFor blocks now).cursorAt tmp n) := by
  have hfirst := toNat_firstFreeBlock now hblocks hB hlt
  induction n with
  | zero =>
    exact ⟨hn, hfirst, fun _ => ⟨toNat_freeBlocksHead now hblocks hB, rfl⟩, fun h => absurd rfl h⟩
  | succ n ih =>
    have hnext := (ih (Nat.le_of_succ_le hn)).next hB hlt hfirst hn
    rw [Superblock.cursorAt, Function.iterate_succ_apply']
    exact hnext

/-- **An iteration that goes on** does so with the next cursor, and one that does not fail
ends the loop only when there is no free block left. -/
theorem freeIndexStep_goes_on (blocks first : UInt64) (c : IndexCursor) :
    Run.Allows (freeIndexStep blocks first c : Fs F _)
      (Sum.elim (fun c' => c.i < blocks ∧ c' = c.next first)
        fun ret => ret ≠ none → ¬ c.i < blocks ∧ ret = some c.curIndexBlock) := by
  rw [freeIndexStep]
  by_cases hmore : c.i < blocks
  · rw [if_neg (not_not.mpr hmore)]
    refine (Run.allows_true _).bind fun _ _ => ?_
    dsimp only
    split
    · refine (Run.allows_true _).bind fun ret _ => ?_
      split
      · exact Run.allows_pure fun h => absurd rfl h
      · exact Run.allows_pure ⟨hmore, rfl⟩
    · exact Run.allows_pure ⟨hmore, rfl⟩
  · rw [if_pos hmore]
    exact Run.allows_pure fun _ => ⟨hmore, rfl⟩

/-- **The assertion in the loop never fails**, on any host. -/
theorem returns_freeIndexStep {c : IndexCursor} {blocks first : UInt64} (hB : 3 ≤ B)
    (hlt : B < 2 ^ 55) (hblocks : blocks.toNat = B) (hfirst : first.toNat = firstFree B)
    (hc : Cursor B n c) : Run.Returns (freeIndexStep blocks first c : Fs F _) := by
  have hsum := firstFree_add_dataBlocks hB
  rw [freeIndexStep]
  by_cases hmore : c.i < blocks
  · have ht : n < dataBlocks B := by
      rw [UInt64.lt_iff_toNat_lt, hc.i, hblocks] at hmore
      omega
    have hassert : c.advance.curIndexBlock < first := by
      have hq := div_lt_indexBlocks ht
      rw [UInt64.lt_iff_toNat_lt, (hc.ready hB hlt hfirst ht).2, hfirst, firstFree]
      omega
    rw [if_neg (not_not.mpr hmore)]
    dsimp only
    rw [decide_eq_true hassert, Run.assert_true, Run.pure_bind']
    exact ((returns_blockWrite _ _).bind fun _ =>
      (Run.returns_pure _).ite (Run.returns_pure _)).ite (Run.returns_pure _)
  · rw [if_pos hmore]
    exact Run.returns_pure _

/-- **An iteration where no call fails** places its block and goes on, and writes the index
block if that is full now. -/
theorem freeIndexStep_run {fs : Filesystem F} {c : IndexCursor} {blocks first : UInt64}
    (hB : 3 ≤ B) (hlt : B < 2 ^ 55) (hnf : fs.host.NoFaults) (hsize : 512 * B ≤ fs.disk.size)
    (hdisk : fs.disk.size < 2 ^ 63) (hblocks : blocks.toNat = B)
    (hfirst : first.toNat = firstFree B) (hc : Cursor B n c) (hn : n < dataBlocks B) :
    (freeIndexStep blocks first c).run fs = .done (.inl (c.next first))
      (if n % 63 = 62 then fs.writeBlock (c.next first).curIndexBlock (c.next first).freeIndex
        else fs) := by
  have hsum := firstFree_add_dataBlocks hB
  have hq := div_lt_indexBlocks hn
  obtain ⟨hready, hcur⟩ := hc.ready hB hlt hfirst hn
  obtain ⟨-, hpos, -⟩ := hready.put hB hlt hn
  have hmore : c.i < blocks := by
    rw [UInt64.lt_iff_toNat_lt, hc.i, hblocks]
    omega
  have hassert : c.advance.curIndexBlock < first := by
    rw [UInt64.lt_iff_toNat_lt, hcur, hfirst, firstFree]
    omega
  have hcur' : (c.advance.link first).put.curIndexBlock.toNat = spareHead B + n / 63 := hready.cur
  rw [freeIndexStep, if_neg (not_not.mpr hmore)]
  dsimp only
  rw [decide_eq_true hassert, Run.assert_true, Run.pure_bind']
  by_cases hfull : n % 63 = 62
  · have h64 : (c.advance.link first).put.curIndexBlockPos = 64 :=
      UInt64.toNat_inj.mp (hpos.trans (congrArg (· + 2) hfull))
    have hholds : fs.disk.Holds (c.advance.link first).put.curIndexBlock := by
      refine ⟨?_, hdisk⟩
      rw [hcur']
      unfold firstFree at hsum
      omega
    rw [if_pos h64, if_pos hfull, Run.run_bind, blockWrite_of_holds hnf hholds, Run.andThen_done,
      if_neg (not_not.mpr rfl)]
    rfl
  · have h64 : (c.advance.link first).put.curIndexBlockPos ≠ 64 := fun e => hfull (by
      have hpos' : 64 = n % 63 + 2 := by rw [← hpos, e]; rfl
      omega)
    rw [if_neg h64, if_neg hfull]
    rfl

variable (now tmp) in
/-- **The places of the block numbers.** -/
theorem mem_placements_iff {blocks : UInt64} (hblocks : blocks.toNat = B) (hB : 3 ≤ B)
    (hlt : B < 2 ^ 55) {q k v : ℕ} :
    (q, k, v) ∈ (superblockFor blocks now).placements tmp ↔ ∃ n < dataBlocks B,
      q = spareHead B + n / 63 ∧
      (n % 63 = 0 ∧ k = 0 ∧ v = (if q = firstFree B - 1 then 0 else q + 1) ∨
        k = 1 + n % 63 ∧ v = firstFree B + n) := by
  have hfirst := toNat_firstFreeBlock now hblocks hB hlt
  have hcount : (superblockFor blocks now).blocks.toNat -
      (firstFreeBlock (superblockFor blocks now)).toNat = dataBlocks B := by
    have hsum := firstFree_add_dataBlocks hB
    rw [hfirst]
    show blocks.toNat - _ = _
    omega
  rw [Superblock.placements, hcount, List.mem_flatMap]
  simp only [List.mem_range]
  refine exists_congr fun n => and_congr_right fun hn => ?_
  rw [(cursor_cursorAt now tmp hblocks hB hlt hn.le).placements hB hlt hfirst hn]
  by_cases hmod : n % 63 = 0
  · rw [if_pos hmod]
    simp only [List.singleton_append, List.mem_cons, List.not_mem_nil, or_false, Prod.mk.injEq,
      hmod, true_and]
    constructor
    · rintro (⟨rfl, rfl, rfl⟩ | ⟨rfl, rfl, rfl⟩)
      · exact ⟨rfl, Or.inl ⟨rfl, rfl⟩⟩
      · exact ⟨rfl, Or.inr ⟨rfl, rfl⟩⟩
    · rintro ⟨rfl, ⟨rfl, rfl⟩ | ⟨rfl, rfl⟩⟩
      · exact Or.inl ⟨rfl, rfl, rfl⟩
      · exact Or.inr ⟨rfl, rfl, rfl⟩
  · rw [if_neg hmod]
    simp only [List.nil_append, List.mem_singleton, Prod.mk.injEq, hmod, false_and, false_or]

end Loop

/-! ## The arithmetic -/

/-- **The sizes that `format_fs` computes** for a disk of `B` blocks are those of the
numbers: what is subtracted is not greater, and no sum or product wraps. -/
structure ExactLayout (B : ℕ) (s : Superblock) : Prop where
  blocks : s.blocks.toNat = B
  /-- `blocks - 1` -/
  one_le : 1 ≤ s.blocks
  inodeTableBlocks : s.inodeTableBlocks.toNat = max 1 ((B - 1) / 16)
  tableEnd : (s.inodeTableBlocks + 1).toNat = s.inodeTableBlocks.toNat + 1
  inodes : s.inodes.toNat = s.inodeTableBlocks.toNat * 3
  freeBlocksHead : s.freeBlocksHead.toNat = 2 + s.inodeTableBlocks.toNat
  /-- `free_blocks` -/
  head_le : s.freeBlocksHead ≤ s.blocks
  sum : (s.freeBlocksHead + (s.blocks - s.freeBlocksHead)).toNat = B
  product : ((s.blocks - s.freeBlocksHead) * slotsPerBlock).toNat =
    (B - s.freeBlocksHead.toNat) * 63
  /-- The last subtraction of `first_free_block`. -/
  slots_le : (s.blocks - s.freeBlocksHead) * slotsPerBlock / (slotsPerBlock + 1) ≤
    s.freeBlocksHead + (s.blocks - s.freeBlocksHead)
  firstFreeBlock : (firstFreeBlock s).toNat = B - (B - s.freeBlocksHead.toNat) * 63 / 64
  /-- `first_free_block - 1` -/
  one_le_first : 1 ≤ SimpleFileSystem.firstFreeBlock s

theorem exactLayout {blocks : UInt64} (now : UInt64) {B : ℕ} (hblocks : blocks.toNat = B)
    (hB : 3 ≤ B) (hlt : B < 2 ^ 55) : ExactLayout B (superblockFor blocks now) := by
  have hhead := toNat_freeBlocksHead now hblocks hB
  have hsplit := firstFree_add_dataBlocks hB
  have htable : (superblockFor blocks now).inodeTableBlocks.toNat = tableBlocks B :=
    toNat_inodeTableBlocksFor hblocks hB
  obtain ⟨hslots, hfirst⟩ := toNat_firstFreeBlock_of_le now hblocks hB hlt
  have hle := spareHead_le hB
  have hspare : spareHead B = tableBlocks B + 2 := rfl
  refine ⟨hblocks, ?_, htable, ?_, ?_, ?_, (toNat_freeBlocks now hblocks hB).1,
    toNat_head_add now hblocks hB, ?_, hslots, ?_, ?_⟩
  · rw [UInt64.le_iff_toNat_le]
    show 1 ≤ blocks.toNat
    omega
  · rw [toNat_succ htable (by omega), htable]
  · rw [toNat_inodes hblocks hB, htable, Nat.mul_comm]
  · rw [hhead, htable, hspare, Nat.add_comm]
  · rw [toNat_freeSlots now hblocks hB hlt, hhead, spareBlocks]
  · rw [hfirst, hhead, ← spareBlocks, ← dataBlocks]
    omega
  · rw [UInt64.le_iff_toNat_le, hfirst]
    show 1 ≤ tableBlocks B + 2 + indexBlocks B
    omega

/-- **The layout of the free blocks is sound.**  For a disk of `B` blocks the arithmetic is
that of the numbers.  The index blocks are those from `free_blocks_head` up to
`first_free_block` and the free blocks the others.  Every iteration of the loop passes the
assertion in it, on any host, and if it goes on it does so with the next cursor.  The number
of the free block `n` is put into slot `1 + n % 63` of the index block `n / 63`, which is in
front of `first_free_block`, and nowhere else; and into slot 0 of each index block that is
started goes the next block, or 0 if it is the last before `first_free_block`.  These are the
words of `free_index` after the iteration.  Where no call of the host fails each iteration goes
on, a full index block is written as it is, and the loop leaves it so on the disk. -/
theorem index_layout_is_sound {B : ℕ} (hB : 3 ≤ B) (hlt : B ≤ (2 ^ 63 - 1) / 512)
    (now : UInt64) (tmp : Block) :
    let s := superblockFor (UInt64.ofNat B) now
    let head := s.freeBlocksHead.toNat
    let first := (firstFreeBlock s).toNat
    ExactLayout B s ∧
    (head ≤ first ∧ first ≤ B ∧ Set.Ico head first ∪ Set.Ico first B = Set.Ico head B ∧
      ∀ m ∈ Set.Ico head first, m ∉ Set.Ico first B) ∧
    (∀ n ≤ B - first,
      Run.Returns (freeIndexStep s.blocks (firstFreeBlock s) (s.cursorAt tmp n) : Fs F _) ∧
      Run.Allows (freeIndexStep s.blocks (firstFreeBlock s) (s.cursorAt tmp n) : Fs F _)
        (Sum.elim (fun c => n < B - first ∧ c = s.cursorAt tmp (n + 1))
          fun ret => ret ≠ none → n = B - first)) ∧
    (∀ n < B - first, head + n / 63 < first ∧ ∀ q k,
      (q, k, first + n) ∈ s.placements tmp ↔ q = head + n / 63 ∧ k = 1 + n % 63) ∧
    (∀ q v, (q, 0, v) ∈ s.placements tmp ↔
      (∃ n < B - first, q = head + n / 63) ∧ v = if q = first - 1 then 0 else q + 1) ∧
    (∀ n < B - first,
      (s.cursorAt tmp (n + 1)).freeIndex =
        ((s.cursorAt tmp n).placements (firstFreeBlock s)).foldl
          (fun block p => Block.setWord block p.2.1 (UInt64.ofNat p.2.2))
          (s.cursorAt tmp n).freeIndex ∧
      (s.cursorAt tmp (n + 1)).curIndexBlock.toNat = head + n / 63 ∧
      IndexHolds head first n (s.cursorAt tmp (n + 1)).freeIndex) ∧
    ∀ fs : Filesystem F, fs.host.NoFaults → 512 * B ≤ fs.disk.size → fs.disk.size < 2 ^ 63 →
      (∀ n < B - first,
        (freeIndexStep s.blocks (firstFreeBlock s) (s.cursorAt tmp n)).run fs =
          .done (.inl (s.cursorAt tmp (n + 1)))
            (if n % 63 = 62 then fs.writeBlock (s.cursorAt tmp (n + 1)).curIndexBlock
              (s.cursorAt tmp (n + 1)).freeIndex else fs)) ∧
      Run.Ensures (Run.loop (freeIndexStep s.blocks (firstFreeBlock s)) loopBound
          (s.cursorAt tmp 0)) fs fun ret fs' => ret ≠ none ∧
        ∀ n < B - first, n / 63 < (B - first) / 63 →
          IndexHolds head first n (fs'.disk.block (head + n / 63)) := by
  intro s head first
  have hlt54 : B < 2 ^ 55 := by omega
  have hblocks : (UInt64.ofNat B).toNat = B := toNat_ofNat_of_lt' (by omega)
  have hhead : head = spareHead B := toNat_freeBlocksHead now hblocks hB
  have hfirst : first = firstFree B := toNat_firstFreeBlock now hblocks hB hlt54
  have hsum := firstFree_add_dataBlocks hB
  have hsplit : firstFree B = spareHead B + indexBlocks B := rfl
  have hcount : B - first = dataBlocks B := by omega
  rw [hcount, hhead, hfirst]
  have hle : spareHead B ≤ firstFree B := Nat.le_add_right _ _
  have hle' : firstFree B ≤ B := by omega
  have hnext : ∀ n, s.cursorAt tmp (n + 1) = (s.cursorAt tmp n).next (firstFreeBlock s) :=
    fun n => by rw [Superblock.cursorAt, Superblock.cursorAt, Function.iterate_succ_apply']
  refine ⟨exactLayout now hblocks hB hlt54, ⟨hle, hle', Set.Ico_union_Ico_eq_Ico hle hle',
    fun m hm hm' => absurd hm.2 (Nat.not_lt.mpr hm'.1)⟩, fun n hn => ?_, fun n hn =>
      ⟨?_, fun q k => ?_⟩, fun q v => ?_, fun n hn => ⟨?_, ?_⟩, fun fs hnf hsize hdisk =>
        ⟨fun n hn => ?_, ?_⟩⟩
  · have hc := cursor_cursorAt now tmp hblocks hB hlt54 hn
    have hmore : (s.cursorAt tmp n).i < s.blocks ↔ n < dataBlocks B := by
      rw [UInt64.lt_iff_toNat_lt, hc.i]
      show _ < (UInt64.ofNat B).toNat ↔ _
      omega
    refine ⟨returns_freeIndexStep hB hlt54 hblocks hfirst hc,
      (freeIndexStep_goes_on _ _ _).mono fun r hr => ?_⟩
    cases r with
    | inl c =>
      obtain ⟨hi, rfl⟩ := hr
      exact ⟨hmore.mp hi, (hnext n).symm⟩
    | inr ret =>
      intro hret
      have hstop := mt hmore.mpr (hr hret).1
      omega
  · have hq := div_lt_indexBlocks hn
    omega
  · rw [mem_placements_iff now tmp hblocks hB hlt54]
    constructor
    · rintro ⟨m, hm, rfl, ⟨-, -, hv⟩ | ⟨rfl, hv⟩⟩
      · -- a pointer to an index block is not the number of a free one
        have hq := div_lt_indexBlocks hm
        split at hv <;> omega
      · obtain rfl : n = m := Nat.add_left_cancel hv
        exact ⟨rfl, rfl⟩
    · rintro ⟨rfl, rfl⟩
      exact ⟨n, hn, rfl, Or.inr ⟨rfl, rfl⟩⟩
  · rw [mem_placements_iff now tmp hblocks hB hlt54]
    constructor
    · rintro ⟨n, hn, rfl, ⟨-, -, hv⟩ | ⟨hk, -⟩⟩
      · exact ⟨⟨n, hn, rfl⟩, hv⟩
      · omega
    · rintro ⟨⟨n, hn, rfl⟩, hv⟩
      exact ⟨63 * (n / 63), by omega, by omega, Or.inl ⟨by omega, rfl, hv⟩⟩
  · rw [hnext]
    exact IndexCursor.freeIndex_next
  · obtain ⟨hcur, -, hindex⟩ := (cursor_cursorAt now tmp hblocks hB hlt54
      (Nat.succ_le_of_lt hn)).here (Nat.succ_ne_zero n)
    exact ⟨hcur, hindex.holds hn (Nat.lt_succ_self _)⟩
  · rw [hnext]
    exact freeIndexStep_run hB hlt54 hnf hsize hdisk hblocks hfirst
      (cursor_cursorAt now tmp hblocks hB hlt54 hn.le) hn
  · refine (freeIndex_ensures fs hsize hdisk hB hblocks hfirst hhead tmp hnf).mono ?_
    rintro ret fs' ⟨cur, rfl, -, -, hindex, -⟩
    refine ⟨Option.some_ne_none cur, fun n hn hq => ?_⟩
    exact (hindex (n / 63) hq).holds hn (by omega)

/-- On a disk of five blocks the last is listed in the one before it: the loop puts its number
there, and writes nothing. -/
theorem index_layout_is_sound_five :
    (3, 1, 4) ∈ (superblockFor (UInt64.ofNat 5) 0).placements Block.zero ∧
      IndexHolds 3 4 0 ((superblockFor (UInt64.ofNat 5) 0).cursorAt Block.zero 1).freeIndex := by
  obtain ⟨-, -, -, hplaces, -, hholds, -⟩ :=
    index_layout_is_sound (F := Unit) (B := 5) (by decide) (by decide) 0 Block.zero
  have hplace := (hplaces 0 (by decide)).2 3 1
  exact ⟨hplace.mpr ⟨by decide, by decide⟩, (hholds 0 (by decide)).2.2⟩

end SimpleFileSystem
