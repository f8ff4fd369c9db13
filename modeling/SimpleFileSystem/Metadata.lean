import SimpleFileSystem.BlockPool
import SimpleFileSystem.FailedWrites

/-!
# What a block pointer can reach

The block pointers of an inode come from the disk and may be any numbers.  The blocks of
data that they name are checked against the range of the data blocks before they are read
or written.  The index block is not: `read_from_indirect` reads the block that the
indirect pointer names, and if the entry asked for is empty it allocates a block, enters
it, and writes the index block back, wherever that is.

`KeepsOffMetadata` is what file I/O should do whatever the pointers, on every host, and it
does so exactly if the index block is a data block where it would be written
(`IndexIsData`, `file_io_keeps_off_metadata_iff`).  A block number is multiplied by 512 in
64 bits, so the index block is the one at that offset, which is the pointer modulo
`2 ^ 55`.
-/

open ByteCodec

namespace SimpleFileSystem

variable {F : Type}

/-! ## What may change -/

/-- Every byte is what it was, or one that may be there. -/
def Disk.Changes (may : ℕ → Fin 512 → UInt8 → Prop) (d d' : Disk) : Prop :=
  ∀ m i, d'.block m i = d.block m i ∨ may m i (d'.block m i)

namespace Disk.Changes

variable {may may' : ℕ → Fin 512 → UInt8 → Prop} {d d' d'' : Disk}

theorem refl (d : Disk) : Disk.Changes may d d :=
  fun _ _ => Or.inl rfl

theorem trans (h : Disk.Changes may d d') (h' : Disk.Changes may d' d'') :
    Disk.Changes may d d'' := by
  intro m i
  rcases h' m i with hsame | hmay
  · rw [hsame]
    exact h m i
  · exact Or.inr hmay

theorem mono (h : Disk.Changes may d d') (hmay : ∀ m i y, may m i y → may' m i y) :
    Disk.Changes may' d d' :=
  fun m i => (h m i).imp_right (hmay m i _)

/-- **A write of a block**, however it ends. -/
theorem of_pwrite {n : UInt64} {b : Block} (hn : d.Holds n) (fault : Fault)
    (hb : ∀ i, may n.toNat i (b i)) : Disk.Changes may d (d.pwrite fault (n * 512) b).2 := by
  intro m i
  by_cases hm : n.toNat = m
  · subst hm
    rcases Disk.block_pwrite_apply hn fault b i with hnew | hold
    · rw [hnew]
      exact Or.inr (hb i)
    · exact Or.inl hold
  · rw [Disk.block_pwrite_of_ne hn fault b hm]
    exact Or.inl rfl

end Disk.Changes

/-- The number of a data block. -/
def Superblock.IsData (s : Superblock) (m : ℕ) : Prop :=
  ∃ b, s.inRange b = true ∧ b.toNat = m

/-- What the allocator may put on the disk: anything into a data block, and a superblock
with another head of the free list into block 0. -/
def Superblock.MayAllocate (s : Superblock) (m : ℕ) (i : Fin 512) (y : UInt8) : Prop :=
  s.IsData m ∨ m = 0 ∧ ∃ x, y = Block.zero.setSuperblock { s with freeBlocksHead := x } i

/-- What a write of a logical block may put on the disk: if it writes the inode, also the
block that is in the cache and dirty. -/
def Filesystem.MayWrite (fs : Filesystem F) (writesInode : Prop) (m : ℕ) (i : Fin 512)
    (y : UInt8) : Prop :=
  fs.superblock.MayAllocate m i y ∨
    writesInode ∧ fs.inodeCache.dirty = true ∧ m = fs.cachedBlock.toNat ∧ y = fs.inodeCache.data i

/-- Whether a write of a logical block gives the inode a pointer. -/
def Inode.GetsPointer (v : Inode) (i : UInt64) : Prop :=
  i < sfsNdirBlocks ∧ v.pointer i.toNat = 0 ∨
    ¬ i < sfsNdirBlocks ∧ i < sfsNdirBlocks + sfsNindBlocks ∧ v.pointer 12 = 0

/-! ## Every host -/

/-- What the functions below rely on: the disk file has its blocks, and the free chain is
well formed and made of data blocks. -/
structure PoolOk (fs : Filesystem F) (nodes : List UInt64) : Prop where
  covers : 512 * fs.superblock.blocks.toNat ≤ fs.disk.size
  addressable : fs.disk.size < 2 ^ 63
  table : fs.superblock.inodeTableBlocks < fs.superblock.blocks
  chain : FreeChain fs nodes
  data : ∀ b ∈ poolOf fs.disk nodes, fs.superblock.inRange b = true

/-- Between two states of a call: the superblock may have another head, and the disk has
changed as it may. -/
structure Reaches (may : ℕ → Fin 512 → UInt8 → Prop) (fs fs' : Filesystem F) : Prop where
  superblock : fs'.superblock =
    { fs.superblock with freeBlocksHead := fs'.superblock.freeBlocksHead }
  size : fs'.disk.size = fs.disk.size
  changes : Disk.Changes may fs.disk fs'.disk

namespace Reaches

variable {may may' : ℕ → Fin 512 → UInt8 → Prop} {fs fs' fs'' : Filesystem F}

theorem refl (fs : Filesystem F) : Reaches may fs fs :=
  ⟨rfl, rfl, Disk.Changes.refl _⟩

theorem trans (h : Reaches may fs fs') (h' : Reaches may fs' fs'') : Reaches may fs fs'' where
  superblock := by rw [h'.superblock, h.superblock]
  size := h'.size.trans h.size
  changes := h.changes.trans h'.changes

theorem mono (h : Reaches may fs fs') (hmay : ∀ m i y, may m i y → may' m i y) :
    Reaches may' fs fs' :=
  ⟨h.superblock, h.size, h.changes.mono hmay⟩

theorem inRange (h : Reaches may fs fs') : fs'.superblock.inRange = fs.superblock.inRange :=
  Superblock.inRange_congr (by rw [h.superblock]) (by rw [h.superblock])

theorem mayAllocate (h : Reaches may fs fs') :
    fs'.superblock.MayAllocate = fs.superblock.MayAllocate := by
  funext m i y
  rw [Superblock.MayAllocate, Superblock.IsData, h.inRange, h.superblock]
  rfl

theorem holds (h : Reaches may fs fs') {n : UInt64} (hn : fs.disk.Holds n) : fs'.disk.Holds n :=
  ⟨by rw [h.size]; exact hn.le_size, by rw [h.size]; exact hn.addressable⟩

end Reaches

section Steps

variable {may : ℕ → Fin 512 → UInt8 → Prop} {fs fs' : Filesystem F} {nodes : List UInt64}
  {n : UInt64} {b : Block}

variable (may) in
/-- **`block_write`** on any host, and what it has written if it says that it has. -/
theorem blockWrite_reaches (hn : fs.disk.Holds n) (hb : ∀ i, may n.toNat i (b i)) :
    Run.Permits (blockWrite n b) fs fun ret fs' => Reaches may fs fs' ∧
      fs'.inodeCache = fs.inodeCache ∧
      (ret = 512 → ∃ host, fs' = (fs.writeBlock n b).onHost host) := by
  intro ret fs' hrun
  rw [blockWrite_run] at hrun
  cases hrun
  refine ⟨⟨rfl, Disk.size_pwrite hn _ _, Disk.Changes.of_pwrite hn _ hb⟩, rfl, fun hret => ?_⟩
  refine ⟨fs.called.host, ?_⟩
  have hdisk : (fs.disk.pwrite (fs.host.faults 0) (n * 512) b).2 = fs.disk.setBlock n.toNat b := by
    rw [Disk.pwrite_of_full hret, Disk.pwrite_none hn]
  rw [hdisk]
  rfl

/-- **`block_read`** on any host. -/
theorem blockRead_reaches (hn : fs.disk.Holds n) (b : Block) :
    Run.Permits (blockRead n b) fs fun x fs' =>
      (∃ host, fs' = fs.onHost host) ∧ (x.1 = 512 → x.2 = fs.disk.block n.toNat) := by
  intro x fs' hrun
  rw [blockRead_run] at hrun
  cases hrun
  refine ⟨⟨fs.called.host, rfl⟩, fun hret => ?_⟩
  have hfull : (fs.disk.pread (fs.host.faults 0) (n * 512) b).1 = 512 := hret
  dsimp only
  rw [if_neg (by rw [hfull]; decide)]
  exact Disk.pread_of_full hn hfull

namespace PoolOk

theorem onHost (h : PoolOk fs nodes) (host : Host) : PoolOk (fs.onHost host) nodes :=
  ⟨h.covers, h.addressable, h.table, ⟨h.chain.linked, h.chain.nodup, h.chain.inDisk⟩, h.data⟩

theorem quiet (h : PoolOk fs nodes) : (fs.onHost Host.quiet).Reliable :=
  ⟨fun _ => rfl, h.covers, h.addressable⟩

theorem holds (h : PoolOk fs nodes) (hn : fs.superblock.inRange n = true) : fs.disk.Holds n := by
  have hlt := UInt64.lt_iff_toNat_lt.mp (Superblock.lt_of_inRange hn)
  have hcovers := h.covers
  exact ⟨by omega, h.addressable⟩

theorem holds_zero (h : PoolOk fs nodes) : fs.disk.Holds 0 := by
  have hpos := UInt64.lt_iff_toNat_lt.mp h.table
  have hcovers := h.covers
  refine ⟨?_, h.addressable⟩
  show 512 * (0 + 1) ≤ fs.disk.size
  omega

/-- What one block less makes of it. -/
theorem of_takes {nodes' : List UInt64} (h : PoolOk fs nodes) (hreaches : Reaches may fs fs')
    (htakes : PoolTakes (fs.onHost Host.quiet) nodes n (fs'.onHost Host.quiet) nodes') :
    PoolOk fs' nodes' where
  covers := by
    rw [hreaches.size, hreaches.superblock]
    exact h.covers
  addressable := by
    rw [hreaches.size]
    exact h.addressable
  table := by
    rw [hreaches.superblock]
    exact h.table
  chain := ⟨htakes.chain.linked, htakes.chain.nodup, htakes.chain.inDisk⟩
  data b hb := by
    rw [hreaches.inRange]
    exact h.data b (htakes.perm.mem_iff.mpr (List.mem_cons_of_mem _ hb))

end PoolOk

end Steps

section Allocate

variable {fs : Filesystem F} {nodes : List UInt64} {v : Inode}

theorem reaches_onHost (may : ℕ → Fin 512 → UInt8 → Prop) (fs : Filesystem F) (host : Host) :
    Reaches may fs (fs.onHost host) :=
  ⟨rfl, rfl, Disk.Changes.refl _⟩

/-- What a call of the allocator leaves. -/
structure Allocates (fs fs' : Filesystem F) (answer : Option UInt64) : Prop where
  reaches : Reaches fs.superblock.MayAllocate fs fs'
  inodeCache : fs'.inodeCache = fs.inodeCache
  found : ∀ n, answer = some n →
    fs.superblock.inRange n = true ∧ ∃ nodes', PoolOk fs' nodes'

theorem Allocates.of_none {fs' : Filesystem F} (h : Reaches fs.superblock.MayAllocate fs fs')
    (hcache : fs'.inodeCache = fs.inodeCache) : Allocates fs fs' none :=
  ⟨h, hcache, fun _ hn => absurd hn.symm (Option.some_ne_none _)⟩

/-- **`sfs_fs_allocate_block`** on any host. -/
theorem sfsFsAllocateBlock_reaches (h : PoolOk fs nodes) :
    Run.Permits sfsFsAllocateBlock fs fun answer fs' => Allocates fs fs' answer := by
  rw [sfsFsAllocateBlock]
  refine Run.Permits.get_bind ?_
  cases nodes with
  | nil =>
    have h0 : fs.superblock.freeBlocksHead = 0 := h.chain.linked
    rw [if_pos h0]
    exact Run.permits_pure (Allocates.of_none (Reaches.refl fs) rfl)
  | cons n ns =>
    have hhead : fs.superblock.freeBlocksHead = n := h.chain.linked.1
    have h0 : n ≠ 0 := h.chain.linked.2.1
    have hpool := h.data n (mem_poolOf_of_mem List.mem_cons_self)
    have hheld := h.holds hpool
    have hchain : FreeChain (fs.onHost Host.quiet) (n :: ns) := (h.onHost Host.quiet).chain
    rw [hhead, if_neg h0]
    refine (blockRead_reaches hheld Block.zero).bind ?_
    rintro ⟨ret, index⟩ _ ⟨⟨host, rfl⟩, hindex⟩
    dsimp only at hindex ⊢
    split
    · exact Run.permits_pure (Allocates.of_none (reaches_onHost _ fs host) rfl)
    next hret =>
    rw [hindex (not_not.mp hret)]
    cases hfind : findSlot (· ≠ 0) (fs.disk.block n.toNat) with
    | some i =>
      dsimp only
      have hwrite : ∀ index, Run.Permits (blockWrite n index) (fs.onHost host) _ := fun index =>
        blockWrite_reaches fs.superblock.MayAllocate hheld fun _ => Or.inl ⟨n, hpool, rfl⟩
      refine (hwrite _).bind ?_
      rintro ret fs' ⟨hreaches, hcache, hdone⟩
      have hall : Reaches fs.superblock.MayAllocate fs fs' :=
        (reaches_onHost _ fs host).trans hreaches
      split
      · exact Run.permits_pure (Allocates.of_none hall hcache)
      next hret =>
      obtain ⟨host', rfl⟩ := hdone (not_not.mp hret)
      have htakes := poolTakes_slot h.quiet hchain hfind
      refine Run.permits_pure ⟨hall, hcache, fun m hm => ⟨?_, _, h.of_takes hall htakes⟩⟩
      rw [← Option.some.inj hm]
      exact h.data _ (htakes.perm.mem_iff.mpr List.mem_cons_self)
    | none =>
      dsimp only
      have hset : Reaches fs.superblock.MayAllocate fs
          { fs.onHost host with superblock := { fs.superblock with
            freeBlocksHead := Block.word (fs.disk.block n.toNat) 0 } } :=
        ⟨rfl, rfl, Disk.Changes.refl _⟩
      refine Run.Permits.bind (P := fun _ fs' => fs' = { fs.onHost host with
        superblock := { fs.superblock with
          freeBlocksHead := Block.word (fs.disk.block n.toNat) 0 } })
        (by intro _ fs' hrun; cases hrun; rfl) ?_
      rintro _ _ rfl
      rw [syncSuperblock, Run.bind_assoc']
      refine Run.Permits.get_bind ?_
      rw [writeSuperblock, Run.bind_assoc']
      refine (blockWrite_reaches fs.superblock.MayAllocate (hset.holds h.holds_zero)
        fun i => Or.inr ⟨rfl, _, rfl⟩).bind ?_
      rintro ret fs' ⟨hreaches, hcache, hdone⟩
      have hall := hset.trans hreaches
      by_cases hret : ret = 512
      · obtain ⟨host', rfl⟩ := hdone hret
        have htakes := poolTakes_node h.quiet hchain hfind
        rw [if_neg (not_not.mpr hret)]
        refine Run.permits_pure ⟨hall, hcache, fun m hm => ⟨?_, _, h.of_takes hall htakes⟩⟩
        rw [← Option.some.inj hm]
        exact hpool
      · rw [if_pos hret]
        exact Run.permits_pure (Allocates.of_none hall hcache)

end Allocate

/-! ### The index block -/

/-- The block number that a pointer amounts to: the product with 512 wraps. -/
def wrapped (p : UInt64) : UInt64 :=
  p % 2 ^ 55

section Index

variable {fs : Filesystem F} {nodes : List UInt64} {p idx : UInt64}

theorem toNat_wrapped (p : UInt64) : (wrapped p).toNat = p.toNat % 2 ^ 55 := by
  rw [wrapped, UInt64.toNat_mod]
  rfl

theorem wrapped_mul (p : UInt64) : wrapped p * 512 = p * 512 := by
  rw [← UInt64.toNat_inj, UInt64.toNat_mul, UInt64.toNat_mul, toNat_wrapped]
  show p.toNat % 2 ^ 55 * 512 % 2 ^ 64 = p.toNat * 512 % 2 ^ 64
  omega

theorem blockRead_wrapped (p : UInt64) (b : Block) :
    (blockRead (wrapped p) b : Fs F (ℤ × Block)) = blockRead p b := by
  rw [blockRead, blockRead, wrapped_mul]

theorem blockWrite_wrapped (p : UInt64) (b : Block) :
    (blockWrite (wrapped p) b : Fs F ℤ) = blockWrite p b := by
  rw [blockWrite, blockWrite, wrapped_mul]

theorem Filesystem.holds_wrapped_of_holds {d : Disk} (h : d.Holds p) : wrapped p = p := by
  have h1 := h.le_size
  have h2 := h.addressable
  rw [← UInt64.toNat_inj, toNat_wrapped]
  omega

/-- What is not all on the disk is not read. -/
theorem blockRead_of_not_holds (hsize : fs.disk.size < 2 ^ 63) (hp : ¬ fs.disk.Holds (wrapped p))
    (b : Block) : Run.Permits (blockRead p b) fs fun x fs' =>
      (∃ host, fs' = fs.onHost host) ∧ x.1 ≠ 512 := by
  intro x fs' hrun
  rw [← blockRead_wrapped, blockRead_run] at hrun
  cases hrun
  refine ⟨⟨fs.called.host, rfl⟩, ?_⟩
  have hpast : ¬ 512 * ((wrapped p).toNat + 1) ≤ fs.disk.size := fun hle => hp ⟨hle, hsize⟩
  have hoff : (wrapped p * 512).toNat = 512 * (wrapped p).toNat := by
    rw [UInt64.toNat_mul, toNat_wrapped]
    show p.toNat % 2 ^ 55 * 512 % 2 ^ 64 = _
    omega
  show (fs.disk.pread (fs.host.faults 0) (wrapped p * 512) b).1 ≠ 512
  rw [Disk.pread, hoff]
  have hfailed : (-1 : ℤ) ≠ 512 := by decide
  split
  · exact hfailed
  · cases fs.host.faults 0 with
    | none =>
      show (min blockSize (fs.disk.size - 512 * (wrapped p).toNat) : ℕ) ≠ (512 : ℤ)
      unfold blockSize
      omega
    | error => exact hfailed
    | short n =>
      show (min (n : ℤ) (min blockSize (fs.disk.size - 512 * (wrapped p).toNat) : ℕ)) ≠ (512 : ℤ)
      unfold blockSize
      omega

/-- **The rewriting of an index block goes where it should**: if the entry is empty, and
there is a block for it, then the index block is a data block. -/
def Filesystem.IndexIsData (fs : Filesystem F) (p idx : UInt64) : Prop :=
  p ≠ 0 → 512 * ((wrapped p).toNat + 1) ≤ fs.disk.size →
    Block.word (fs.disk.block (wrapped p).toNat) idx.toNat = 0 →
      fs.superblock.freeBlocksHead ≠ 0 → fs.superblock.inRange (wrapped p) = true

/-- **`read_from_indirect`**, where an empty entry is filled in. -/
theorem readFromIndirect_reaches (h : PoolOk fs nodes) (hp : fs.IndexIsData p idx) :
    Run.Permits (readFromIndirect p idx true) fs fun _ fs' =>
      Reaches fs.superblock.MayAllocate fs fs' := by
  rw [readFromIndirect]
  split
  · exact Run.permits_pure (Reaches.refl fs)
  next h0 =>
  by_cases hheld : fs.disk.Holds (wrapped p)
  swap
  · refine (blockRead_of_not_holds h.addressable hheld Block.zero).bind ?_
    rintro ⟨ret, arr⟩ _ ⟨⟨host, rfl⟩, hret⟩
    dsimp only at hret ⊢
    rw [if_pos hret]
    exact Run.permits_pure (reaches_onHost _ fs host)
  rw [← blockRead_wrapped]
  refine (blockRead_reaches hheld Block.zero).bind ?_
  rintro ⟨ret, arr⟩ _ ⟨⟨host, rfl⟩, harr⟩
  dsimp only at harr ⊢
  split
  · exact Run.permits_pure (reaches_onHost _ fs host)
  next hret =>
  rw [harr (not_not.mp hret)]
  split
  swap
  · exact Run.permits_pure (reaches_onHost _ fs host)
  next hempty =>
  by_cases hhead : fs.superblock.freeBlocksHead = 0
  · have hnone : (sfsFsAllocateBlock : Fs F _).run (fs.onHost host) =
        .done none (fs.onHost host) := by
      rw [sfsFsAllocateBlock, Run.run_bind, Run.run_get, Run.andThen_done, onHost_superblock,
        if_pos hhead, Run.run_pure]
    intro found fs' hrun
    rw [Run.run_bind, hnone] at hrun
    cases hrun
    exact reaches_onHost _ fs host
  have hdata := hp h0 hheld.le_size hempty.2 hhead
  refine (sfsFsAllocateBlock_reaches (h.onHost host)).bind fun answer fs₁ hall => ?_
  have hreach : Reaches fs.superblock.MayAllocate fs fs₁ :=
    (reaches_onHost _ fs host).trans hall.reaches
  cases answer with
  | none => exact Run.permits_pure hreach
  | some n =>
    dsimp only
    have hwrite : ∀ arr, Run.Permits (blockWrite (wrapped p) arr) fs₁ _ := fun arr =>
      blockWrite_reaches fs.superblock.MayAllocate (hreach.holds hheld)
        fun _ => Or.inl ⟨_, hdata, rfl⟩
    rw [← blockWrite_wrapped]
    refine (hwrite _).bind ?_
    rintro ret fs₂ ⟨hwrite, -, -⟩
    split
    · exact Run.permits_pure (hreach.trans hwrite)
    · exact Run.permits_pure (hreach.trans hwrite)

end Index

/-! ### The inode -/

section WriteInode

variable {fs fs' : Filesystem F} {nodes : List UInt64} {v : Inode}

/-- What the inode cache may put on the disk. -/
def Filesystem.MayEvict (fs : Filesystem F) (m : ℕ) (i : Fin 512) (y : UInt8) : Prop :=
  fs.inodeCache.dirty = true ∧ m = fs.cachedBlock.toNat ∧ y = fs.inodeCache.data i

theorem flush_reaches (hdirty : fs.inodeCache.dirty = true → fs.disk.Holds fs.cachedBlock) :
    Reaches fs.MayEvict fs fs.flush.2 := by
  cases hd : fs.inodeCache.dirty with
  | false =>
    rw [flush_of_clean hd]
    exact Reaches.refl fs
  | true =>
    refine ⟨?_, ?_, ?_⟩
    · rw [flush_superblock]
    · rw [Filesystem.flush, if_pos hd]
      exact Disk.size_pwrite (hdirty hd) _ _
    · rw [Filesystem.flush, if_pos hd]
      exact Disk.Changes.of_pwrite (hdirty hd) _ fun i => ⟨hd, rfl, rfl⟩

/-- **`sfs_fs_write_inode`** on any host: what it writes to the disk is the block that it
evicts. -/
theorem sfsFsWriteInode_reaches
    (hdirty : fs.inodeCache.dirty = true → fs.disk.Holds fs.cachedBlock) :
    Run.Permits (sfsFsWriteInode v) fs fun _ fs' =>
      Reaches fs.MayEvict fs fs' ∧ fs'.superblock = fs.superblock := by
  have haccess : Run.Permits (cacheInodeBlock false (inodeBlock v.inumber)) fs fun _ fs' =>
      Reaches fs.MayEvict fs fs' ∧ fs'.superblock = fs.superblock := by
    intro ret fs' hrun
    have hflush := flush_reaches hdirty
    by_cases hhit : fs.cachedBlock = inodeBlock v.inumber
    · rw [cacheInodeBlock_of_hit hhit] at hrun
      cases hrun
      exact ⟨Reaches.refl fs, rfl⟩
    by_cases hdone : fs.flush.1 = 512
    · rw [cacheInodeBlock_of_miss hhit hdone] at hrun
      cases hrun
      exact ⟨⟨hflush.superblock, hflush.size, hflush.changes⟩, flush_superblock fs⟩
    · rw [cacheInodeBlock_of_stuck hhit hdone] at hrun
      cases hrun
      exact ⟨hflush, flush_superblock fs⟩
  rw [sfsFsWriteInode]
  refine Run.Permits.bind (P := fun _ fs' => fs' = fs) ?_ ?_
  · intro _ fs' hrun
    cases hpos : decide (0 < v.inumber) with
    | false =>
      rw [hpos] at hrun
      cases hrun
    | true =>
      rw [hpos] at hrun
      cases hrun
      rfl
  rintro _ _ rfl
  refine haccess.bind ?_
  rintro ret fs' ⟨hreaches, hsuper⟩
  split
  · exact Run.permits_pure ⟨hreaches, hsuper⟩
  · intro ret fs'' hrun
    cases hrun
    exact ⟨⟨hreaches.superblock, hreaches.size, hreaches.changes⟩, hsuper⟩

/-- A step that keeps off the data blocks keeps the pool. -/
theorem PoolOk.of_evict (h : PoolOk fs nodes) (hreaches : Reaches fs.MayEvict fs fs')
    (hsuper : fs'.superblock = fs.superblock)
    (hoff : fs.inodeCache.dirty = true → fs.superblock.inRange fs.cachedBlock = false) :
    PoolOk fs' nodes := by
  have hblock : ∀ b, fs.superblock.inRange b = true →
      fs'.disk.block b.toNat = fs.disk.block b.toNat := by
    intro b hb
    funext i
    refine (hreaches.changes b.toNat i).resolve_right ?_
    rintro ⟨hdirty, hcached, -⟩
    rw [UInt64.toNat_inj.mp hcached, hoff hdirty] at hb
    cases hb
  have hnodes : ∀ n ∈ nodes, fs'.disk.block n.toNat = fs.disk.block n.toNat := fun n hn =>
    hblock n (h.data n (mem_poolOf_of_mem hn))
  have hpool := poolOf_congr hnodes
  refine ⟨?_, ?_, ?_, ⟨?_, ?_, ?_⟩, ?_⟩
  · rw [hsuper, hreaches.size]
    exact h.covers
  · rw [hreaches.size]
    exact h.addressable
  · rw [hsuper]
    exact h.table
  · rw [hsuper]
    refine h.chain.linked.congr fun n hn => ?_
    rw [Disk.nextNode, hnodes n hn, Disk.nextNode]
  · rw [hpool]
    exact h.chain.nodup
  · rw [hpool, hsuper]
    exact h.chain.inDisk
  · rw [hpool, hsuper]
    exact h.data

end WriteInode

/-! ## Logical blocks -/

section Logical

variable {fs : Filesystem F} {nodes : List UInt64} {v : Inode} {i : UInt64}

/-- What is cached and dirty is a block of the inode table. -/
def Filesystem.EvictsTable (fs : Filesystem F) : Prop :=
  fs.inodeCache.dirty = true → fs.superblock.InTable fs.cachedBlock

theorem PoolOk.holds_cached (h : PoolOk fs nodes) (hcache : fs.EvictsTable)
    (hdirty : fs.inodeCache.dirty = true) : fs.disk.Holds fs.cachedBlock := by
  have hin := UInt64.le_iff_toNat_le.mp (hcache hdirty).2
  have hlt := UInt64.lt_iff_toNat_lt.mp h.table
  have hcovers := h.covers
  exact ⟨by omega, h.addressable⟩

theorem PoolOk.notData_cached (h : PoolOk fs nodes) (hcache : fs.EvictsTable)
    (hdirty : fs.inodeCache.dirty = true) : fs.superblock.inRange fs.cachedBlock = false := by
  cases hr : fs.superblock.inRange fs.cachedBlock with
  | false => rfl
  | true => exact absurd (hcache hdirty) (Superblock.notInTable_of_inRange h.table hr)

/-- **A block is allocated and the inode written**: what both ways of giving an inode a
pointer come to. -/
theorem Allocates.writeInode {fs₁ : Filesystem F} {n : UInt64} {writes : Prop}
    (hall : Allocates fs fs₁ (some n)) (hcache : fs.EvictsTable) (hwrites : writes)
    (host : Host) (w : Inode) :
    Run.Permits (sfsFsWriteInode w) (fs₁.onHost host) fun _ fs₂ =>
      Reaches (fs.MayWrite writes) fs fs₂ ∧ ∃ nodes', PoolOk fs₂ nodes' := by
  obtain ⟨hn, nodes', hpool⟩ := hall.found n rfl
  have hsame : (fs₁.onHost host).inodeCache = fs.inodeCache := hall.inodeCache
  have hcached : (fs₁.onHost host).cachedBlock = fs.cachedBlock := by
    rw [Filesystem.cachedBlock, hsame, Filesystem.cachedBlock]
  have hcache' : (fs₁.onHost host).EvictsTable := by
    intro hdirty
    rw [hsame] at hdirty
    rw [hcached, onHost_superblock, Superblock.InTable, hall.reaches.superblock]
    exact hcache hdirty
  have hpool' := hpool.onHost host
  refine (sfsFsWriteInode_reaches (hpool'.holds_cached hcache')).mono ?_
  rintro _ fs₂ ⟨hreaches, hsuper⟩
  refine ⟨?_, _, hpool'.of_evict hreaches hsuper (hpool'.notData_cached hcache')⟩
  refine Reaches.trans ((hall.reaches.trans (reaches_onHost _ fs₁ host)).mono fun m j y hy =>
    Or.inl hy) (hreaches.mono fun m j y hy => Or.inr ⟨hwrites, ?_⟩)
  obtain ⟨hdirty, hm, hy⟩ := hy
  rw [hsame] at hdirty hy
  rw [hcached] at hm
  exact ⟨hdirty, hm, hy⟩

theorem directForWrite_reaches (h : PoolOk fs nodes) (hcache : fs.EvictsTable)
    (hi : i < sfsNdirBlocks) : Run.Permits (directForWrite v i.toNat) fs fun _ fs' =>
      Reaches (fs.MayWrite (v.GetsPointer i)) fs fs' := by
  rw [directForWrite]
  split
  · exact Run.permits_pure (Reaches.refl fs)
  next h0 =>
  refine (sfsFsAllocateBlock_reaches h).bind fun answer fs₁ hall => ?_
  cases answer with
  | none => exact Run.permits_pure (hall.reaches.mono fun m j y hy => Or.inl hy)
  | some n =>
    have hwrite := hall.writeInode hcache
      (show v.GetsPointer i from Or.inl ⟨hi, not_not.mp h0⟩) fs₁.host (v.setPointer i.toNat n)
    refine hwrite.bind ?_
    rintro ret fs₂ ⟨hreaches, -⟩
    split
    · exact Run.permits_pure hreaches
    · exact Run.permits_pure hreaches

theorem ensureIndirect_reaches (h : PoolOk fs nodes) (hcache : fs.EvictsTable)
    (hi : ¬ i < sfsNdirBlocks) (h76 : i < sfsNdirBlocks + sfsNindBlocks)
    (hindex : fs.IndexIsData (v.pointer 12) (i - sfsNdirBlocks)) :
    Run.Permits (ensureIndirect v) fs fun x fs' =>
      Reaches (fs.MayWrite (v.GetsPointer i)) fs fs' ∧ (x.2 = 0 →
        (∃ nodes', PoolOk fs' nodes') ∧
        fs'.IndexIsData (x.1.pointer 12) (i - sfsNdirBlocks)) := by
  rw [ensureIndirect]
  split
  · exact Run.permits_pure ⟨Reaches.refl fs, fun _ => ⟨⟨nodes, h⟩, hindex⟩⟩
  next h0 =>
  refine (sfsFsAllocateBlock_reaches h).bind fun answer fs₁ hall => ?_
  cases answer with
  | none =>
    exact Run.permits_pure ⟨hall.reaches.mono fun m j y hy => Or.inl hy, fun h0 =>
      absurd h0 (by simp)⟩
  | some n =>
    refine Run.Permits.bind (P := fun now fs₂ => fs₂ = fs₁.onHost fs₁.ticked.host) ?_ ?_
    · intro now fs₂ hrun
      rw [time_run] at hrun
      cases hrun
      rfl
    rintro now _ rfl
    obtain ⟨hn, -⟩ := hall.found n rfl
    refine (hall.writeInode hcache (show v.GetsPointer i from Or.inr ⟨hi, h76, not_not.mp h0⟩) _
      _).bind ?_
    rintro ret fs₂ ⟨hreaches, hpool⟩
    dsimp only
    split
    · exact Run.permits_pure ⟨hreaches, fun h0 => absurd h0 (by simp)⟩
    · refine Run.permits_pure ⟨hreaches, fun _ => ⟨hpool, fun _ _ _ _ => ?_⟩⟩
      have hp :
          Inode.pointer { v.setPointer sfsNdirBlocks.toNat n with changeTime := now } 12 = n :=
        Inode.pointer_setPointer v n (by decide)
      rw [hp, Filesystem.holds_wrapped_of_holds (h.holds hn), hreaches.inRange]
      exact hn

/-- **A write of a logical block** on any host, if its index block is where it should be. -/
theorem sfsFsInodeBlockWrite_reaches (h : PoolOk fs nodes) (hcache : fs.EvictsTable)
    (hindex : ¬ i < sfsNdirBlocks → i < sfsNdirBlocks + sfsNindBlocks →
      fs.IndexIsData (v.pointer 12) (i - sfsNdirBlocks)) (data : Block) :
    Run.Permits (sfsFsInodeBlockWrite v i data) fs fun _ fs' =>
      Reaches (fs.MayWrite (v.GetsPointer i)) fs fs' := by
  have hnumber : Run.Permits (blockNumberForWrite v i) fs fun _ fs' =>
      Reaches (fs.MayWrite (v.GetsPointer i)) fs fs' := by
    rw [blockNumberForWrite]
    split
    · next hi => exact directForWrite_reaches h hcache hi
    next hi =>
    split
    · next h76 =>
      refine (ensureIndirect_reaches h hcache hi h76 (hindex hi h76)).bind ?_
      rintro ⟨w, ret⟩ fs₁ ⟨hreaches, hready⟩
      dsimp only at hready ⊢
      split
      · exact Run.permits_pure hreaches
      next hret =>
      obtain ⟨⟨nodes', hpool⟩, hdata⟩ := hready (not_not.mp hret)
      refine (readFromIndirect_reaches hpool hdata).bind fun found fs₂ hread => ?_
      rw [hreaches.mayAllocate] at hread
      exact Run.permits_pure (hreaches.trans (hread.mono fun m j y hy => Or.inl hy))
    · exact Run.permits_pure (Reaches.refl fs)
  rw [sfsFsInodeBlockWrite]
  refine hnumber.bind ?_
  rintro ⟨w, found⟩ fs₁ hreaches
  cases found with
  | none => exact Run.permits_pure hreaches
  | some n =>
    refine Run.Permits.get_bind ?_
    split
    · exact Run.permits_pure hreaches
    next hn =>
    rw [hreaches.inRange] at hn
    have hn' : fs.superblock.inRange n = true := not_not.mp hn
    refine (blockWrite_reaches (fs.MayWrite (v.GetsPointer i)) (hreaches.holds (h.holds hn'))
      fun _ => Or.inl (Or.inl ⟨n, hn', rfl⟩)).bind ?_
    rintro ret fs₂ ⟨hwrite, -, -⟩
    exact Run.permits_pure (hreaches.trans hwrite)

/-- **A read of a logical block** on any host, whatever the pointers. -/
theorem sfsFsInodeBlockRead_permits (h : PoolOk fs nodes) (block : Block) :
    Run.Permits (sfsFsInodeBlockRead v i block) fs fun x _ => x.1 = 0 →
      x.2 = Block.zero ∨
        ∃ n, fs.superblock.inRange n = true ∧ x.2 = fs.disk.block n.toNat := by
  have hindirect : ∀ p idx, Run.Permits (readFromIndirect p idx false) fs fun _ fs' =>
      ∃ host, fs' = fs.onHost host := by
    intro p idx
    rw [readFromIndirect]
    split
    · exact Run.permits_pure ⟨fs.host, rfl⟩
    refine Run.Permits.bind (P := fun _ fs' => ∃ host, fs' = fs.onHost host) ?_ ?_
    · intro x fs' hrun
      rw [blockRead_run] at hrun
      cases hrun
      exact ⟨fs.called.host, rfl⟩
    · rintro ⟨ret, arr⟩ fs' hhost
      dsimp only
      split
      · exact Run.permits_pure hhost
      · rw [if_neg (by simp)]
        exact Run.permits_pure hhost
  have hnumber : Run.Permits (blockNumberForRead v i) fs fun _ fs' =>
      ∃ host, fs' = fs.onHost host := by
    rw [blockNumberForRead]
    split
    · exact Run.permits_pure ⟨fs.host, rfl⟩
    split
    · exact hindirect _ _
    · exact Run.permits_pure ⟨fs.host, rfl⟩
  rw [sfsFsInodeBlockRead]
  refine hnumber.bind ?_
  rintro found _ ⟨host, rfl⟩
  cases found with
  | none => exact Run.permits_pure fun h0 => absurd h0 (by simp)
  | some n =>
    dsimp only
    split
    · exact Run.permits_pure fun _ => Or.inl rfl
    refine Run.Permits.get_bind ?_
    split
    · exact Run.permits_pure fun h0 => absurd h0 (by simp)
    next hn =>
    have hn' : fs.superblock.inRange n = true := not_not.mp hn
    refine (blockRead_reaches (show (fs.onHost host).disk.Holds n from h.holds hn') block).bind ?_
    rintro ⟨ret, data⟩ fs' ⟨-, hdata⟩
    refine Run.permits_pure fun h0 => Or.inr ⟨n, hn', hdata ?_⟩
    by_contra hret
    dsimp only at h0 hret
    rw [if_pos hret] at h0
    exact absurd h0 (by decide)

end Logical

/-! ## When file I/O keeps off the metadata -/

/-- **File I/O keeps off the metadata**, whatever the host does: a read that succeeds
returns zeros or a data block, and a write changes data blocks, the superblock in block 0,
and the block that the inode cache evicts. -/
def Filesystem.KeepsOffMetadata (fs : Filesystem F) (v : Inode) (i : UInt64) : Prop :=
  ∀ host,
    (∀ block, Run.Permits (sfsFsInodeBlockRead v i block) (fs.onHost host) fun x _ =>
      x.1 = 0 → x.2 = Block.zero ∨
        ∃ n, fs.superblock.inRange n = true ∧ x.2 = fs.disk.block n.toNat) ∧
    ∀ data, Run.Permits (sfsFsInodeBlockWrite v i data) (fs.onHost host) fun _ fs' =>
      Disk.Changes (fs.MayWrite (v.GetsPointer i)) fs.disk fs'.disk

section Main

variable {fs : Filesystem F} {nodes : List UInt64} {v : Inode} {i p idx : UInt64}

/-- What a write through a foreign index block does when nothing fails. -/
theorem readFromIndirect_foreign (h : PoolOk fs nodes) (h0 : p ≠ 0)
    (hsize : 512 * ((wrapped p).toNat + 1) ≤ fs.disk.size) (hi : idx.toNat < 64)
    (hempty : Block.word (fs.disk.block (wrapped p).toNat) idx.toNat = 0)
    (hhead : fs.superblock.freeBlocksHead ≠ 0) :
    ∃ n fs', n ≠ 0 ∧ fs.superblock.inRange n = true ∧
      (readFromIndirect p idx true).run (fs.onHost Host.quiet) = .done (some n) fs' ∧
      fs'.superblock.inRange = fs.superblock.inRange ∧ fs'.disk.size = fs.disk.size ∧
      fs'.host.NoFaults ∧ fs'.disk.block (wrapped p).toNat =
        (fs.disk.block (wrapped p).toNat).setWord idx.toNat n := by
  have hr := h.quiet
  have hchain : FreeChain (fs.onHost Host.quiet) nodes := (h.onHost Host.quiet).chain
  have hheld : (fs.onHost Host.quiet).disk.Holds (wrapped p) := ⟨hsize, h.addressable⟩
  obtain ⟨-, hnodes, -⟩ | ⟨n, nodes', hnext, htakes⟩ := allocate_spec hr hchain
  · rw [hnodes] at hchain
    exact absurd hchain.linked hhead
  have hn : fs.superblock.inRange n = true :=
    h.data n (htakes.perm.mem_iff.mpr List.mem_cons_self)
  have hheld' : (fs.onHost Host.quiet).afterAllocate.disk.Holds (wrapped p) :=
    ⟨by rw [htakes.frame.size]; exact hheld.le_size, by rw [htakes.frame.size]; exact h.addressable⟩
  refine ⟨n, (fs.onHost Host.quiet).afterAllocate.writeBlock (wrapped p)
    ((fs.disk.block (wrapped p).toNat).setWord idx.toNat n),
    Superblock.ne_zero_of_inRange h.table hn, hn, ?_, ?_, ?_, ?_,
    Filesystem.block_writeBlock _ _ _⟩
  · have hempty' : Block.word ((fs.onHost Host.quiet).disk.block (wrapped p).toNat) idx.toNat = 0 :=
      hempty
    rw [readFromIndirect, if_neg h0, ← blockRead_wrapped, Run.run_bind,
      blockRead_of_holds hr.noFaults hheld, Run.andThen_done]
    dsimp only
    rw [if_neg (by simp), if_pos ⟨rfl, hempty'⟩, Run.run_bind, sfsFsAllocateBlock_run hr hchain,
      Run.andThen_done, hnext]
    dsimp only
    rw [← blockWrite_wrapped, Run.run_bind,
      blockWrite_of_holds (htakes.frame.reliable hr).noFaults hheld', Run.andThen_done,
      if_neg (by simp), Run.run_pure, Block.word_setWord _ _ hi]
    rfl
  · exact Superblock.inRange_congr htakes.frame.inodeTableBlocks htakes.frame.blocks
  · rw [Filesystem.size_writeBlock _ hheld']
    exact htakes.frame.size
  · exact (htakes.frame.reliable hr).noFaults

theorem sfsFsInodeBlockWrite_foreign (h : PoolOk fs nodes) (h12 : ¬ i < sfsNdirBlocks)
    (h76 : i < sfsNdirBlocks + sfsNindBlocks) (hforeign : ¬ fs.IndexIsData (v.pointer 12)
      (i - sfsNdirBlocks)) (data : Block) :
    ∃ n fs', n ≠ 0 ∧ (sfsFsInodeBlockWrite v i data).run (fs.onHost Host.quiet) =
        .done (0, v) fs' ∧
      fs'.disk.block (wrapped (v.pointer 12)).toNat =
        (fs.disk.block (wrapped (v.pointer 12)).toNat).setWord (i - sfsNdirBlocks).toNat n := by
  simp only [Filesystem.IndexIsData, not_forall] at hforeign
  obtain ⟨h0, hsize, hempty, hhead, hout⟩ := hforeign
  obtain ⟨n, fs₁, hn0, hn, hrun, hrange, hsize', hquiet, hblock⟩ :=
    readFromIndirect_foreign h h0 hsize (toNat_entry_lt h12 h76) hempty hhead
  have hheld : fs₁.disk.Holds n := by
    have hheld := h.holds hn
    exact ⟨by rw [hsize']; exact hheld.le_size, by rw [hsize']; exact hheld.addressable⟩
  have hne : n.toNat ≠ (wrapped (v.pointer 12)).toNat := by
    intro e
    rw [UInt64.toNat_inj.mp e] at hn
    exact hout hn
  refine ⟨n, fs₁.writeBlock n data, hn0, ?_, ?_⟩
  · have hensure : (ensureIndirect v).run (fs.onHost Host.quiet) =
        .done (v, 0) (fs.onHost Host.quiet) := by
      rw [ensureIndirect, if_pos (show v.pointer sfsNdirBlocks.toNat ≠ 0 from h0), Run.run_pure]
    have hnumber : (blockNumberForWrite v i).run (fs.onHost Host.quiet) =
        .done (v, some n) fs₁ := by
      rw [blockNumberForWrite, if_neg h12, if_pos h76, Run.run_bind, hensure, Run.andThen_done]
      dsimp only
      have hrun' : (readFromIndirect (v.pointer sfsNdirBlocks.toNat) (i - sfsNdirBlocks) true).run
          (fs.onHost Host.quiet) = .done (some n) fs₁ := hrun
      rw [if_neg (by simp), Run.run_bind, hrun', Run.andThen_done]
      rfl
    rw [sfsFsInodeBlockWrite, Run.run_bind, hnumber, Run.andThen_done]
    dsimp only
    rw [Run.run_bind, Run.run_get, Run.andThen_done, hrange, if_neg (not_not.mpr hn),
      Run.run_bind, blockWrite_of_holds hquiet hheld, Run.andThen_done]
    rfl
  · rw [Filesystem.block_writeBlock_of_ne _ hheld hne, hblock]

/-- **What a write puts on the disk is not a new entry** of an index block outside the data
blocks, whose old entry is empty. -/
theorem entry_eq_zero (hsync : fs.Synced) (h12 : ¬ i < sfsNdirBlocks) (h0 : v.pointer 12 ≠ 0)
    (hi : idx.toNat < 64) (hempty : Block.word (fs.disk.block p.toNat) idx.toNat = 0)
    (hhead : fs.superblock.freeBlocksHead ≠ 0) (hout : ¬ fs.superblock.inRange p = true)
    {fs' : Filesystem F}
    (hchanges : Disk.Changes (fs.MayWrite (v.GetsPointer i)) fs.disk fs'.disk) :
    Block.word (fs'.disk.block p.toNat) idx.toNat = 0 := by
  rw [Block.word_eq_zero_iff _ hi]
  intro j hle hlt
  rcases hchanges p.toNat j with hsame | (⟨b, hb, hbp⟩ | ⟨hzero, x, hx⟩) | ⟨hwrites, -⟩
  · rw [hsame]
    exact (Block.word_eq_zero_iff _ hi).mp hempty j hle hlt
  · rw [UInt64.toNat_inj.mp hbp] at hb
    exact absurd hb hout
  · -- only the head of the free list may be new, and its word was not zero
    rw [hzero] at hempty
    have h7 : idx.toNat ≠ 7 := by
      intro e
      rw [e, (Block.word_eq_superblock _).2.2.2.2.2.1, hsync] at hempty
      exact hhead hempty
    have hword := Block.word_setSuperblock_eq_zero hi h7 hempty x
    rw [hsync] at hword
    rw [hx]
    exact (Block.word_eq_zero_iff _ hi).mp hword j hle hlt
  · rcases hwrites with ⟨hdirect, -⟩ | ⟨-, -, hpointer⟩
    · exact absurd hdirect h12
    · exact absurd hpointer h0

/-- **A foreign index block** is written to. -/
theorem Filesystem.KeepsOffMetadata.indexIsData (hkeeps : fs.KeepsOffMetadata v i)
    (h : PoolOk fs nodes) (hsync : fs.Synced) (h12 : ¬ i < sfsNdirBlocks)
    (h76 : i < sfsNdirBlocks + sfsNindBlocks) :
    fs.IndexIsData (v.pointer 12) (i - sfsNdirBlocks) := by
  by_contra hforeign
  obtain ⟨n, fs', hn0, hrun, hblock⟩ := sfsFsInodeBlockWrite_foreign h h12 h76 hforeign Block.zero
  have hchanges := (hkeeps Host.quiet).2 Block.zero (0, v) fs' hrun
  simp only [Filesystem.IndexIsData, not_forall] at hforeign
  obtain ⟨h0, -, hempty, hhead, hout⟩ := hforeign
  have hi := toNat_entry_lt h12 h76
  refine hn0 ?_
  rw [← Block.word_setWord (fs.disk.block (wrapped (v.pointer 12)).toNat) n hi, ← hblock]
  exact entry_eq_zero hsync h12 h0 hi hempty hhead hout hchanges

/-- **File I/O keeps off the metadata** if the index block that it would write to is a data
block, and only then where block 0 holds the superblock. -/
theorem file_io_keeps_off_metadata_iff (hhandle : CoherentHandle fs) (hchain : FreeChain fs nodes)
    (hdata : ∀ b ∈ poolOf fs.disk nodes, fs.superblock.inRange b = true) :
    ((¬ i < sfsNdirBlocks → i < sfsNdirBlocks + sfsNindBlocks →
        fs.IndexIsData (v.pointer 12) (i - sfsNdirBlocks)) → fs.KeepsOffMetadata v i) ∧
    (fs.Synced → fs.KeepsOffMetadata v i → ¬ i < sfsNdirBlocks →
      i < sfsNdirBlocks + sfsNindBlocks →
        fs.IndexIsData (v.pointer 12) (i - sfsNdirBlocks)) := by
  have h : PoolOk fs nodes :=
    ⟨hhandle.covers, hhandle.addressable, hhandle.table.inDisk, hchain, hdata⟩
  refine ⟨fun hindex host => ?_, fun hsync hkeeps => hkeeps.indexIsData h hsync⟩
  refine ⟨sfsFsInodeBlockRead_permits (h.onHost host), fun data => ?_⟩
  have hdirty : fs.inodeCache.dirty = true → fs.superblock.InTable fs.cachedBlock :=
    hhandle.quiet.inTable_of_dirty
  exact (sfsFsInodeBlockWrite_reaches (h.onHost host) hdirty hindex data).mono
    fun _ _ hreaches => hreaches.changes

end Main

theorem coherentHandle_oneFreeBlock : CoherentHandle (Filesystem.blank oneFreeBlock ()) :=
  ⟨inodeState_oneFreeBlock.reliable.covers, inodeState_oneFreeBlock.reliable.addressable,
    inodeState_oneFreeBlock.table, inodeState_oneFreeBlock.cache⟩

theorem inRange_poolOf_oneFreeBlock : ∀ b ∈ poolOf (Filesystem.blank oneFreeBlock ()).disk [3],
    oneFreeBlock.inRange b = true := by
  intro b hb
  rw [poolOf_oneFreeBlock, List.mem_singleton] at hb
  rw [hb]
  decide

/-- An inode whose indirect pointer is past the end of a disk of eight blocks. -/
theorem file_io_keeps_off_metadata_iff_past :
    (Filesystem.blank oneFreeBlock ()).KeepsOffMetadata (emptyTwo.setPointer 12 1000) 12 := by
  refine (file_io_keeps_off_metadata_iff coherentHandle_oneFreeBlock
    poolState_oneFreeBlock.chain inRange_poolOf_oneFreeBlock).1 fun _ _ _ hsize => ?_
  exact absurd hsize (by decide)

/-- **A write enters a block number into the inode table**, where an indirect pointer names
the block of the table that holds the inodes 1 to 3. -/
theorem file_write_changes_inode_table :
    ∃ fs', (sfsFsInodeBlockWrite (emptyTwo.setPointer 12 1) 12 Block.zero).run
        (Filesystem.blank oneFreeBlock ()) = .done (0, emptyTwo.setPointer 12 1) fs' ∧
      Block.word ((Filesystem.blank oneFreeBlock ()).disk.block 1) 0 = 0 ∧
      Block.word (fs'.disk.block 1) 0 ≠ 0 ∧
      ¬ (Filesystem.blank oneFreeBlock ()).KeepsOffMetadata (emptyTwo.setPointer 12 1) 12 := by
  have h : PoolOk (Filesystem.blank oneFreeBlock ()) [3] :=
    ⟨coherentHandle_oneFreeBlock.covers, coherentHandle_oneFreeBlock.addressable,
      coherentHandle_oneFreeBlock.table.inDisk, poolState_oneFreeBlock.chain,
      inRange_poolOf_oneFreeBlock⟩
  have hword : Block.word ((Filesystem.blank oneFreeBlock ()).disk.block 1) 0 = 0 := by
    rw [block_blank (by decide), Block.word_zero]
  have hforeign : ¬ (Filesystem.blank oneFreeBlock ()).IndexIsData 1 0 := fun hindex =>
    absurd (hindex (by decide) (by decide) hword (by decide)) (by decide)
  obtain ⟨n, fs', hn0, hrun, hblock⟩ := sfsFsInodeBlockWrite_foreign
    (v := emptyTwo.setPointer 12 1) (i := 12) h (by decide) (by decide) hforeign Block.zero
  refine ⟨fs', hrun, hword, ?_, fun hkeeps => hforeign (hkeeps.indexIsData h
    poolState_oneFreeBlock.synced (by decide) (by decide))⟩
  have hnew : Block.word (fs'.disk.block 1) 0 = n := by
    have hset := Block.word_setWord ((Filesystem.blank oneFreeBlock ()).disk.block 1) n
      (show 0 < 64 by decide)
    rw [← hset]
    exact congrArg (fun b => Block.word b 0) hblock
  rw [hnew]
  exact hn0

end SimpleFileSystem
