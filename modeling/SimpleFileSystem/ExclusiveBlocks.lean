import SimpleFileSystem.BlockWrite
import SimpleFileSystem.Library.Execution

/-!
# No block is in two places

Writes and deallocations on a well-formed image: a write takes its blocks from the pool
and gives them to its file, a deallocation gives the direct blocks of its file back, and
the census is conserved by each --- but for one step.  The block that becomes the index
block of a file is handed out as the allocator found it, so its old words become entries
of the file.  `FreshIndexOk` is the condition under which they do no harm, and
`blocks_stay_exclusive` is what then holds of every run; `write_shares_a_block` is the
run without it.
-/

open ByteCodec

namespace SimpleFileSystem

variable {F : Type}

/-! ## The condition on a write -/

/-- A block that is free, or in a file of `A`. -/
def Filesystem.Held (fs : Filesystem F) (A : List UInt64) (b : UInt64) : Prop :=
  (∃ nodes, Linked 0 fs.disk.nextNode fs.superblock.freeBlocksHead nodes ∧
    b ∈ poolOf fs.disk nodes) ∨ ∃ k ∈ A, b ∈ fs.ownedBy k

/-- **If the write gives the file its index block**, the old words of that block name
data blocks that nothing holds, each once. -/
def Filesystem.FreshIndexOk (fs : Filesystem F) (A : List UInt64) (v : Inode) (i : UInt64) : Prop :=
  sfsNdirBlocks ≤ i → i < sfsNdirBlocks + sfsNindBlocks → v.pointer 12 = 0 →
    ∀ n, fs.nextFree = some n → (fs.disk.indexEntries n).Nodup ∧
      ∀ b ∈ fs.disk.indexEntries n, fs.superblock.inRange b = true ∧ ¬ fs.Held A b

section Write

variable {fs fs' : Filesystem F} {nodes A : List UInt64} {v r : Inode} {i : UInt64}

theorem held_of_mem_census {b : UInt64} (h : Image fs nodes A [])
    (hb : b ∈ census fs nodes A []) : fs.Held A b := by
  rcases Image.mem_census.mp hb with hb | hb | hb
  · exact Or.inl ⟨nodes, h.linked, hb⟩
  · exact absurd hb List.not_mem_nil
  · exact Or.inr hb

/-- What a write leaves before the data is stored: a well-formed image, the caller's
inode, and a block number that is one of a data block of the file. -/
structure Located (fs' : Filesystem F) (A : List UInt64) (r : Inode) (t : Option UInt64) :
    Prop where
  image : ∃ nodes, Image fs' nodes A []
  current : fs'.Current A r
  leaf : ∀ n, t = some n → n ∈ r.leaves fs'.disk

/-- A step that keeps the inodes keeps the caller's copy. -/
theorem Filesystem.Current.of_eq (hv : fs.Current A v)
    (hsame : fs'.logicalInode v.inumber = fs.logicalInode v.inumber) : fs'.Current A v :=
  ⟨hv.mem, by rw [hsame]; exact hv.pointers⟩

/-- **Finding or filling an entry** of the index block of a file. -/
theorem EntryPlan.located {p : UInt64} {t : Option UInt64} {idx : ℕ} (h : Image fs nodes A [])
    (hv : fs.Current A v) (hp : v.pointer 12 = p) (h0 : p ≠ 0) (hidx : idx < 64)
    (hplan : EntryPlan fs p idx t fs') : Located fs' A v t := by
  subst hp
  cases hplan with
  | present hword =>
    refine ⟨⟨nodes, h⟩, hv, fun n e => ?_⟩
    rw [← Option.some.inj e]
    exact Inode.word_mem_leaves h0 hidx hword
  | full hword hfull =>
    rw [h.allocate_none hfull]
    exact ⟨⟨nodes, h⟩, hv, fun _ e => nomatch e⟩
  | fresh hword n hn =>
    obtain ⟨nodes', -, himage, hstep⟩ := h.allocate_some hn
    have hinode := hstep.logicalInode h.state.table (h.valid _ hv.mem)
    -- the index block is not a node, so taking a block did not touch it
    have hblock : fs.afterAllocate.disk.block (v.pointer 12).toNat =
        fs.disk.block (v.pointer 12).toNat := hv.index_block h h0
    rw [← hblock] at hword ⊢
    have hp' : (fs.afterAllocate.logicalInode v.inumber).pointer 12 = v.pointer 12 := by
      rw [hinode, hv.pointer]
    obtain ⟨himage', hstep'⟩ := himage.writeIndex hv.mem hp' h0 hidx hword
    refine ⟨⟨nodes', himage'⟩, (hv.of_eq hinode).of_eq
      (hstep'.logicalInode himage.state.table (himage.valid _ hv.mem)), fun m e => ?_⟩
    have hn0 := himage.ne_zero_of_inRange (himage.inRange n (Image.loose_mem List.mem_cons_self))
    rw [← Option.some.inj e, Inode.leaves]
    refine List.mem_append_right _ ((Inode.indexEntries_setWord h0 hidx hword hn0 ?_).mem_iff.mpr
      List.mem_cons_self)
    exact Filesystem.block_writeBlock _ _ _

/-- The caller's copy of the inode of a file that has been given its index block. -/
theorem current_afterIndex (h : Image fs nodes A []) (hv : fs.Current A v)
    (hint : (inodeBlock v.inumber).toNat < 2 ^ 31) {n : UInt64} (hn : fs.nextFree = some n) :
    (fs.afterIndex v n).Current A (v.withIndex n (fs.afterAllocate.host.clock 0)) := by
  obtain ⟨nodes', -, himage, -⟩ := h.allocate_some hn
  have hvalid : fs.afterAllocate.ticked.superblock.ValidInumber
      (v.withIndex n (fs.afterAllocate.host.clock 0)).inumber := himage.valid _ hv.mem
  obtain ⟨-, -, -, hset, -⟩ := (sfsFsWriteInode_ensures himage.ticked.state hvalid hint).post
    (sfsFsWriteInode_run himage.ticked.state hvalid)
  exact ⟨hv.mem, congrArg Inode.blockPointers hset.symm⟩

/-- **Giving a file its index block**, when the old words do no harm. -/
theorem image_afterIndex (h : Image fs nodes A []) (hv : fs.Current A v)
    (hint : (inodeBlock v.inumber).toNat < 2 ^ 31) (h0 : v.pointer 12 = 0) {n : UInt64}
    (hn : fs.nextFree = some n) (hnodup : (fs.disk.indexEntries n).Nodup)
    (hfree : ∀ b ∈ fs.disk.indexEntries n,
      fs.superblock.inRange b = true ∧ b ∉ census fs nodes A []) :
    ∃ nodes', Image (fs.afterIndex v n) nodes' A [] := by
  obtain ⟨nodes', hperm, himage, hstep⟩ := h.allocate_some hn
  have hinode := hstep.logicalInode h.state.table (h.valid _ hv.mem)
  have hn0 := himage.ne_zero_of_inRange (himage.inRange n (Image.loose_mem List.mem_cons_self))
  have hblock : fs.afterAllocate.disk.block n.toNat = fs.disk.block n.toNat :=
    hstep.block fun hS => hS.elim hn0 fun hS => hS.2 rfl
  have hwords : fs.afterAllocate.disk.indexEntries n = fs.disk.indexEntries n := by
    rw [Disk.indexEntries, Disk.indexEntries, hblock]
  have hrange : fs.afterAllocate.ticked.superblock.inRange = fs.superblock.inRange := hstep.inRange
  -- what is held before the block is taken is what is held after it
  have hcensus : (census fs.afterAllocate.ticked nodes' A [n]).Perm (census fs nodes A []) := by
    show (poolOf fs.afterAllocate.disk nodes' ++
      ([n] ++ A.flatMap fs.afterAllocate.ownedBy)).Perm _
    rw [h.files_of_allocator hstep, census, List.nil_append, ← List.append_assoc]
    refine List.Perm.append_right _ ((List.perm_append_singleton n _).trans hperm.symm)
  have hadopt := himage.ticked.adopt (W := fs.disk.indexEntries n) hnodup
    (fun b hb => by rw [hrange]; exact (hfree b hb).1)
    (fun b hb hc => (hfree b hb).2 (hcensus.mem_iff.mp hc))
  have howned : fs.afterAllocate.ticked.ownedBy v.inumber = v.owned fs.afterAllocate.disk :=
    ((hv.of_eq hinode).owned).symm
  have hpost := (hadopt.writeInode [] (v := v.withIndex n (fs.afterAllocate.host.clock 0))
    hv.mem hint ?_ fun _ => ?_).post (sfsFsWriteInode_run himage.ticked.state
      (himage.valid _ hv.mem))
  · exact ⟨nodes', hpost.2.1⟩
  · show (([] ++ (v.setPointer 12 n).owned fs.afterAllocate.disk).Perm
      (fs.disk.indexEntries n ++ [n] ++ fs.afterAllocate.ticked.ownedBy v.inumber))
    rw [howned, ← hwords, List.nil_append]
    refine (Inode.owned_setIndex h0 hn0).trans ?_
    rw [← List.cons_append]
    exact (List.perm_append_singleton n _).symm.append_right _
  · rw [Inode.withIndex_pointer, Inode.pointer_setPointer _ _ (by decide)]
    exact himage.inRange n (Image.loose_mem List.mem_cons_self)

/-- **Whichever way a write goes**, the image it arrives at is well formed. -/
theorem WritePlan.located {t : Option UInt64} (h : Image fs nodes A []) (hv : fs.Current A v)
    (hint : (inodeBlock v.inumber).toNat < 2 ^ 31) (hindex : fs.FreshIndexOk A v i)
    (hplan : WritePlan fs v i r t fs') : Located fs' A r t := by
  have hfull : fs.nextFree = none → Located fs.afterAllocate A v none := fun hnone => by
    rw [h.allocate_none hnone]
    exact ⟨⟨nodes, h⟩, hv, fun _ e => nomatch e⟩
  cases hplan with
  | beyond => exact ⟨⟨nodes, h⟩, hv, fun _ e => nomatch e⟩
  | direct hi h0 =>
    refine ⟨⟨nodes, h⟩, hv, fun n e => ?_⟩
    rw [← Option.some.inj e]
    exact Inode.pointer_mem_leaves (toNat_lt_of_direct hi) h0
  | directFull _ _ hnone => exact hfull hnone
  | directFresh hi h0 n hn =>
    obtain ⟨nodes', -, himage, hstep⟩ := h.allocate_some hn
    have hi12 := toNat_lt_of_direct hi
    have hinode := hstep.logicalInode h.state.table (h.valid _ hv.mem)
    have hn0 := himage.ne_zero_of_inRange (himage.inRange n (Image.loose_mem List.mem_cons_self))
    have hcurrent := hv.of_eq hinode
    have hpost := (himage.writeInode [] (v := v.setPointer i.toNat n) hv.mem hint ?_
      fun hp => ?_).post (sfsFsWriteInode_run himage.state (himage.valid _ hv.mem))
    · obtain ⟨-, himage', -, hset, -⟩ := hpost
      refine ⟨⟨nodes', himage'⟩, ⟨hv.mem, congrArg Inode.blockPointers hset.symm⟩, fun m e => ?_⟩
      have hpointer := Inode.pointer_setPointer v n (i := i.toNat) (by omega)
      have hleaf := Inode.pointer_mem_leaves (v := v.setPointer i.toNat n)
        (d := (fs.afterAllocate.withInode (v.setPointer i.toNat n)).disk) hi12
        (by rw [hpointer]; exact hn0)
      rw [hpointer] at hleaf
      rw [← Option.some.inj e]
      exact hleaf
    · show ([] ++ (v.setPointer i.toNat n).owned fs.afterAllocate.disk).Perm
        ([n] ++ fs.afterAllocate.ownedBy v.inumber)
      rw [← hcurrent.owned]
      exact Inode.owned_setPointer hi12 h0 hn0
    · rw [Inode.pointer_setPointer_of_ne _ _ (by omega)] at hp ⊢
      exact hcurrent.indexOk himage hp
  | entry h12 h76 h0 t fs' plan => exact plan.located h hv rfl h0 (toNat_entry_lt h12 h76)
  | indexFull _ _ _ hnone => exact hfull hnone
  | newIndex h12 h76 h0 n hn t fs' plan =>
    obtain ⟨hnodup, hfree⟩ := hindex (UInt64.not_lt.mp h12) h76 h0 n hn
    obtain ⟨nodes', himage⟩ := image_afterIndex h hv hint h0 hn hnodup
      fun b hb => ⟨(hfree b hb).1, fun hc => (hfree b hb).2 (held_of_mem_census h hc)⟩
    have hcurrent := current_afterIndex h hv hint hn
    have hpointer : (v.withIndex n (fs.afterAllocate.host.clock 0)).pointer 12 = n :=
      Inode.pointer_setPointer v n (by decide)
    have hn0 := h.ne_zero_of_inRange (h.nextFree_inRange hn)
    exact plan.located himage hcurrent hpointer hn0 (toNat_entry_lt h12 h76)

/-- Storing the data conserves the image. -/
theorem Located.store {t : Option UInt64} (h : Located fs A r t) (block : Block) :
    Located (fs.store t block).2 A r none := by
  obtain ⟨nodes, himage⟩ := h.image
  cases t with
  | none => exact ⟨⟨nodes, himage⟩, h.current, fun _ e => nomatch e⟩
  | some n =>
    rw [Filesystem.store]
    split
    · have hleaf : n ∈ (fs.logicalInode r.inumber).leaves fs.disk := by
        rw [← h.current.leaves]
        exact h.leaf n rfl
      have hmem := Inode.mem_owned_of_mem_leaves hleaf
      obtain ⟨himage', hstep⟩ := himage.writeData
        (himage.inRange n (Image.owned_mem h.current.mem hmem))
        (fun hn => himage.owned_notMem_pool h.current.mem hmem (mem_poolOf_of_mem hn))
        (fun k hk => himage.leaf_ne_index hk h.current.mem hleaf) block
      exact ⟨⟨nodes, himage'⟩, h.current.of_eq
        (hstep.logicalInode himage.state.table (himage.valid _ h.current.mem)), fun _ e =>
          nomatch e⟩
    · exact ⟨⟨nodes, himage⟩, h.current, fun _ e => nomatch e⟩

/-- **A write** conserves the image, and the inode that it leaves to its caller is
current. -/
theorem sfsFsInodeBlockWrite_ensures (h : Image fs nodes A []) (hv : fs.Current A v)
    (hint : (inodeBlock v.inumber).toNat < 2 ^ 31) (hindex : fs.FreshIndexOk A v i)
    (block : Block) :
    Run.Ensures (sfsFsInodeBlockWrite v i block) fs fun x fs' =>
      (∃ nodes', Image fs' nodes' A []) ∧ fs'.Current A x.2 := by
  obtain ⟨r, t, fs', hplan, hrun⟩ := sfsFsInodeBlockWrite_run h hv i
  have hstore := (hplan.located h hv hint hindex).store block
  exact Run.Ensures.of_eq (hrun block) ⟨hstore.image, hstore.current⟩

end Write

/-! ## Deallocation -/

section Deallocate

variable {fs : Filesystem F} {nodes A : List UInt64} {v : Inode}

/-- A file is given up: its direct blocks are to be freed, the others are loose. -/
theorem Filesystem.Current.released (hv : fs.Current A v) (h : Image fs nodes A []) :
    Image fs nodes (A.erase v.inumber) (v.direct.filter (· ≠ 0) ++
      (nonzero v.pointer [12] ++ fs.disk.indexEntries (v.pointer 12))) := by
  have hA := List.perm_cons_erase hv.mem
  have hloose : ([] ++ fs.ownedBy v.inumber).Perm
      (v.direct.filter (· ≠ 0) ++
        (nonzero v.pointer [12] ++ fs.disk.indexEntries (v.pointer 12))) := by
    rw [List.nil_append, ← hv.owned]
    refine Inode.owned_perm.trans ?_
    exact List.perm_append_comm_assoc _ _ _
  exact ((h.reorder hA.symm (List.Perm.refl _)).release).reorder (List.Perm.refl _) hloose.symm

/-- **A deallocation** of a file conserves the image of the others. -/
theorem sfsFsInodeDeallocate_ensures (h : Image fs nodes A []) (hv : fs.Current A v)
    (hint : (inodeBlock v.inumber).toNat < 2 ^ 31) :
    Run.Ensures (sfsFsInodeDeallocate v) fs fun ret fs' =>
      ret = 0 ∧ ∃ nodes', Image fs' nodes' (A.erase v.inumber) [] := by
  have hnot : v.inumber ∉ A.erase v.inumber := h.files.not_mem_erase
  refine (deallocate_loose (hv.released h) hnot (h.valid _ hv.mem) hint).mono ?_
  rintro ret fs' ⟨hret, nodes', himage, -⟩
  exact ⟨hret, nodes', himage.forget (List.nil_sublist _)⟩

end Deallocate

/-! ## Runs -/

/-- A call on a file, with the caller's copy of the inode. -/
inductive FileEvent where
  | write (inode : Inode) (iblock : UInt64) (block : Block)
  | deallocate (inode : Inode)

/-- A filesystem with its allocated inodes; a call for an allocated inode, which
returns. -/
inductive FileCall : Filesystem F × List UInt64 → FileEvent → Filesystem F × List UInt64 →
    Prop where
  | write {fs fs' : Filesystem F} {A : List UInt64} {v : Inode} {i : UInt64} {block : Block}
      {x : ℤ × Inode} (current : fs.Current A v)
      (run : (sfsFsInodeBlockWrite v i block).run fs = .done x fs') :
      FileCall (fs, A) (.write v i block) (fs', A)
  | deallocate {fs fs' : Filesystem F} {A : List UInt64} {v : Inode} {ret : ℤ}
      (current : fs.Current A v) (run : (sfsFsInodeDeallocate v).run fs = .done ret fs') :
      FileCall (fs, A) (.deallocate v) (fs', A.erase v.inumber)

/-- A well-formed image: no data block is in two places. -/
def Exclusive (s : Filesystem F × List UInt64) : Prop :=
  ∃ nodes, Image s.1 nodes s.2 []

/-- **The condition on a call**: its inode is in a block whose number fits into the
`int` of the inode cache, and a write that makes a block an index block finds no words
in it that name a block already in use. -/
def Careful (s : Filesystem F × List UInt64) : FileEvent → Prop
  | .write v i _ => (inodeBlock v.inumber).toNat < 2 ^ 31 ∧ s.1.FreshIndexOk s.2 v i
  | .deallocate v => (inodeBlock v.inumber).toNat < 2 ^ 31

/-- A call that meets the condition. -/
def CarefulCall (s : Filesystem F × List UInt64) (e : FileEvent) (t : Filesystem F × List UInt64) :
    Prop :=
  Careful s e ∧ FileCall s e t

theorem exclusive_of_carefulCall {s t : Filesystem F × List UInt64} {e : FileEvent}
    (h : Exclusive s) (hcall : CarefulCall s e t) : Exclusive t := by
  obtain ⟨nodes, himage⟩ := h
  obtain ⟨hcareful, hcall⟩ := hcall
  cases hcall with
  | write current run =>
    exact ((sfsFsInodeBlockWrite_ensures himage current hcareful.1 hcareful.2 _).post run).1
  | deallocate current run =>
    exact ((sfsFsInodeDeallocate_ensures himage current hcareful).post run).2

/-- **No block is ever in two places.**  In every run whose calls meet the condition the
image is well formed at the end, and every further call that meets it returns. -/
theorem blocks_stay_exclusive {s t : Filesystem F × List UInt64} {tr : List FileEvent}
    (h : Exclusive s) (hexec : Exec CarefulCall s tr t) :
    Exclusive t ∧
      (∀ v i block, t.1.Current t.2 v → Careful t (.write v i block) →
        Run.Ensures (sfsFsInodeBlockWrite v i block) t.1 fun _ fs' => Exclusive (fs', t.2)) ∧
      ∀ v, t.1.Current t.2 v → Careful t (.deallocate v) →
        Run.Ensures (sfsFsInodeDeallocate v) t.1 fun ret fs' =>
          ret = 0 ∧ Exclusive (fs', t.2.erase v.inumber) := by
  have hlast : Exclusive t := hexec.invariant (fun _ _ _ => exclusive_of_carefulCall) h
  obtain ⟨nodes, himage⟩ := hlast
  refine ⟨⟨nodes, himage⟩, fun v i block hv hcareful => ?_, fun v hv hcareful => ?_⟩
  · exact (sfsFsInodeBlockWrite_ensures himage hv hcareful.1 hcareful.2 block).mono
      fun _ _ hpost => hpost.1
  · exact sfsFsInodeDeallocate_ensures himage hv hcareful

/-! ## Small disks -/

/-- A disk of eight blocks, open, on which only the index nodes of the free chain may
differ from zero. -/
structure SmallDisk (fs : Filesystem Unit) (nodes : List UInt64) : Prop where
  frame : AllocatorFrame (· ∈ nodes) (Filesystem.blank oneFreeBlock ()) fs
  head : fs.superblock.freeBlocksHead = 3
  linked : Linked 0 fs.disk.nextNode 3 nodes
  pool : poolOf fs.disk nodes = nodes
  inRange : ∀ n ∈ nodes, oneFreeBlock.inRange n = true

namespace SmallDisk

variable {fs : Filesystem Unit} {nodes : List UInt64}

theorem dataStep (h : SmallDisk fs nodes) :
    DataStep (· ∈ nodes) (Filesystem.blank oneFreeBlock ()) fs :=
  ⟨h.frame, fun b hb => Superblock.notInTable_of_inRange (s := oneFreeBlock) (by decide)
    (h.inRange b hb)⟩

theorem valid : (Filesystem.blank oneFreeBlock ()).superblock.ValidInumber 2 := by
  constructor <;> decide

/-- The inode 2 is empty. -/
theorem current (h : SmallDisk fs nodes) : fs.Current [2] emptyTwo := by
  refine ⟨List.mem_singleton_self 2, ?_⟩
  have hblank : (Filesystem.blank oneFreeBlock ()).logicalInode 2 = Inode.zero := by
    have hcached : (Filesystem.blank oneFreeBlock ()).cachedBlock ≠ inodeBlock 2 := by decide
    rw [Filesystem.logicalInode, Filesystem.tableBlock, if_neg hcached, block_blank (by decide),
      Block.inode_zero]
  show _ = (fs.logicalInode 2).blockPointers
  rw [h.dataStep.logicalInode inodeState_oneFreeBlock.table valid, hblank]
  rfl

/-- The image with that file. -/
theorem image (h : SmallDisk fs nodes) : Image fs nodes [2] [] := by
  have howned : fs.ownedBy 2 = [] := by
    rw [← show emptyTwo.inumber = 2 from rfl, ← h.current.owned, Inode.owned, Inode.pointers,
      emptyTwo_pointer, Disk.indexEntries, if_pos rfl, List.append_nil, nonzero,
      List.filter_eq_nil_iff]
    intro x hx
    obtain ⟨j, -, rfl⟩ := List.mem_map.mp hx
    simp [emptyTwo_pointer]
  have hcensus : census fs nodes [2] [] = nodes := by
    rw [census, h.pool, List.flatMap_cons, howned]
    simp
  refine ⟨h.dataStep.inodeState inodeState_oneFreeBlock, ?_, List.nodup_singleton 2, ?_, ?_, ?_⟩
  · rw [h.head]
    exact h.linked
  · intro k hk
    rw [List.mem_singleton.mp hk, Superblock.ValidInumber, h.frame.inodes]
    exact valid
  · rw [hcensus]
    exact h.linked.nodup
  · intro b hb
    rw [hcensus] at hb
    rw [h.dataStep.inRange]
    exact h.inRange b hb

end SmallDisk

theorem smallDisk_blank : SmallDisk (Filesystem.blank oneFreeBlock ()) [3] := by
  refine ⟨AllocatorFrame.refl _, rfl, linked_oneFreeBlock, poolOf_oneFreeBlock, ?_⟩
  intro n hn
  rw [List.mem_singleton.mp hn]
  decide

/-- One write through a new index block with nothing in it. -/
theorem blocks_stay_exclusive_blank : ∃ t : Filesystem Unit × List UInt64,
    Exec CarefulCall (Filesystem.blank oneFreeBlock (), [2]) [.write emptyTwo 12 Block.zero] t ∧
      Exclusive t := by
  have himage := smallDisk_blank.image
  have hblock : (Filesystem.blank oneFreeBlock ()).disk.block (3 : UInt64).toNat = Block.zero :=
    block_blank (by decide)
  have hnext : (Filesystem.blank oneFreeBlock ()).nextFree = some 3 :=
    (allocate_of_slots_eq_nil smallDisk_blank.head (by decide)
      (by rw [hblock]; exact Block.slots_zero)).1
  have hcareful : Careful (Filesystem.blank oneFreeBlock (), [2])
      (.write emptyTwo 12 Block.zero) := by
    refine ⟨by decide, fun _ _ _ n hn => ?_⟩
    have hwords : (Filesystem.blank oneFreeBlock ()).disk.indexEntries n = [] := by
      rw [Option.some.inj (hn.symm.trans hnext), Disk.indexEntries, hblock,
        if_neg (by decide), nonzero,
        List.filter_eq_nil_iff]
      intro x hx
      obtain ⟨j, -, rfl⟩ := List.mem_map.mp hx
      simp
    rw [hwords]
    exact ⟨List.nodup_nil, fun b hb => absurd hb List.not_mem_nil⟩
  obtain ⟨x, fs', hrun, -⟩ := sfsFsInodeBlockWrite_ensures himage smallDisk_blank.current
    hcareful.1 hcareful.2 Block.zero
  have hexec : Exec CarefulCall (Filesystem.blank oneFreeBlock (), [2])
      [.write emptyTwo 12 Block.zero] (fs', [2]) :=
    Exec.cons ⟨hcareful, FileCall.write smallDisk_blank.current hrun⟩ (Exec.nil _)
  exact ⟨_, hexec, (blocks_stay_exclusive ⟨_, himage⟩ hexec).1⟩

/-- The free chain 3, 4: an index node without slots whose next pointer is in use. -/
def staleNode : Filesystem Unit :=
  (Filesystem.blank oneFreeBlock ()).writeBlock 3 (Block.zero.setWord 0 4)

theorem staleNode_block : staleNode.disk.block (3 : UInt64).toNat = Block.zero.setWord 0 4 :=
  Filesystem.block_writeBlock _ _ _

theorem staleNode_block_four : staleNode.disk.block (4 : UInt64).toNat = Block.zero := by
  have hholds : (Filesystem.blank oneFreeBlock ()).disk.Holds 3 :=
    inodeState_oneFreeBlock.reliable.holds (by decide)
  rw [staleNode, Filesystem.block_writeBlock_of_ne _ hholds (by decide), block_blank (by decide)]

theorem smallDisk_stale : SmallDisk staleNode [3, 4] := by
  have hholds : (Filesystem.blank oneFreeBlock ()).disk.Holds 3 :=
    inodeState_oneFreeBlock.reliable.holds (by decide)
  have h4 := staleNode_block_four
  refine ⟨AllocatorFrame.of_writeBlock _ hholds List.mem_cons_self, rfl,
    ⟨rfl, by decide, ?_, by decide, ?_⟩, ?_, ?_⟩
  · rw [Disk.nextNode, staleNode_block, Block.word_setWord _ _ (by decide)]
  · show Disk.nextNode _ 4 = 0
    rw [Disk.nextNode, h4, Block.word_zero]
  · rw [poolOf_cons, poolOf_cons, staleNode_block, h4, Block.slots_setWord_zero, Block.slots_zero]
    rfl
  · intro n hn
    rcases List.mem_cons.mp hn with rfl | hn
    · decide
    · rw [List.mem_singleton.mp hn]
      decide

/-- What a write through a new index block does on that disk: block 3 becomes the index
block, its next pointer an entry, and the data goes into the block that heads the free
chain. -/
theorem write_staleNode (block : Block) :
    staleNode.nextFree = some 3 ∧
    (sfsFsInodeBlockWrite emptyTwo 12 block).run staleNode =
      .done (0, emptyTwo.withIndex 3 (staleNode.afterAllocate.host.clock 0))
        ((staleNode.afterIndex emptyTwo 3).writeBlock 4 block) ∧
    (staleNode.afterIndex emptyTwo 3).disk.block (3 : UInt64).toNat = Block.zero.setWord 0 4 ∧
    (staleNode.afterIndex emptyTwo 3).superblock.freeBlocksHead = 4 := by
  have himage := smallDisk_stale.image
  have hslots : Block.slots (staleNode.disk.block (3 : UInt64).toNat) = [] := by
    rw [staleNode_block, Block.slots_setWord_zero, Block.slots_zero]
  obtain ⟨hnext, hafter⟩ := allocate_of_slots_eq_nil smallDisk_stale.head (by decide) hslots
  obtain ⟨nodes', -, -, hframe, hsuper, -⟩ := afterIndex_spec himage emptyTwo hnext
  have hblock : (staleNode.afterIndex emptyTwo 3).disk.block (3 : UInt64).toNat =
      Block.zero.setWord 0 4 := by
    rw [← staleNode_block]
    exact hframe.block 3 (by decide) fun h => h.2 rfl
  have hword :
      Block.word ((staleNode.afterIndex emptyTwo 3).disk.block (3 : UInt64).toNat) 0 = 4 := by
    rw [hblock, Block.word_setWord _ _ (by decide)]
  refine ⟨hnext, ?_, hblock, ?_⟩
  · obtain ⟨r, t, fs', hplan, hrun⟩ := sfsFsInodeBlockWrite_run himage smallDisk_stale.current 12
    have hrun := hrun block
    cases hplan with
    | beyond h => exact absurd (by decide) h
    | direct h => exact absurd h (by decide)
    | directFull h => exact absurd h (by decide)
    | directFresh h => exact absurd h (by decide)
    | entry _ _ h => exact absurd (emptyTwo_pointer 12) h
    | indexFull _ _ _ h => exact absurd (hnext.symm.trans h) (Option.some_ne_none _)
    | newIndex _ _ _ n hn t fs' plan =>
      have hn3 := Option.some.inj (hnext.symm.trans hn)
      subst hn3
      have hidx : ((12 : UInt64) - sfsNdirBlocks).toNat = 0 := rfl
      rw [hidx] at plan
      cases plan with
      | present =>
        rw [hword] at hrun
        have hrange : (staleNode.afterIndex emptyTwo 3).superblock.inRange 4 = true := by
          rw [hframe.inRange]
          exact smallDisk_stale.inRange 4 (by decide)
        rw [hrun, Filesystem.store, if_pos hrange]
      | full h => exact absurd (hword.symm.trans h) (by decide)
      | fresh h => exact absurd (hword.symm.trans h) (by decide)
  · rw [hsuper, hafter, withHead_head, staleNode_block, Block.word_setWord _ _ (by decide)]

/-- A block that is not the one of an inode does not matter for the inode. -/
theorem logicalInode_writeBlock {fs : Filesystem F} {n k : UInt64} (block : Block)
    (hn : fs.disk.Holds n) (hne : n ≠ inodeBlock k) :
    (fs.writeBlock n block).logicalInode k = fs.logicalInode k := by
  rw [Filesystem.logicalInode, Filesystem.tableBlock,
    Filesystem.block_writeBlock_of_ne _ hn (toNat_ne_of_ne hne)]
  rfl

/-- **The write shares a block** between the free pool and the file. -/
theorem write_shares_a_block :
    Exclusive (staleNode, [2]) ∧
      ∃ t, FileCall (staleNode, [2]) (.write emptyTwo 12 Block.zero) t ∧ ¬ Exclusive t := by
  have himage := smallDisk_stale.image
  have hcurrent := smallDisk_stale.current
  obtain ⟨hnext, hrun, hblock, hhead⟩ := write_staleNode Block.zero
  obtain ⟨-, -, -, hframe, -⟩ := afterIndex_spec himage emptyTwo hnext
  have hholds : (staleNode.afterIndex emptyTwo 3).disk.Holds 4 :=
    hframe.reliable.holds (Superblock.lt_of_inRange
      (by rw [hframe.inRange]; exact smallDisk_stale.inRange 4 (by decide)))
  -- the caller's inode is the one in the table
  have hcurrent' := (current_afterIndex himage hcurrent (by decide) hnext).of_eq
    (logicalInode_writeBlock Block.zero hholds (k := 2) (by decide))
  refine ⟨⟨_, himage⟩, _, FileCall.write hcurrent hrun, ?_⟩
  rintro ⟨nodes, himage'⟩
  have hpool : 4 ∈ nodes := by
    have hlinked := himage'.linked
    cases nodes with
    | nil => exact absurd (hhead.symm.trans hlinked) (by decide)
    | cons n ns => exact List.mem_cons.mpr (Or.inl (hhead.symm.trans hlinked.1))
  refine himage'.owned_notMem_pool (k := 2) (List.mem_singleton_self 2) (b := 4) ?_
    (mem_poolOf_of_mem hpool)
  -- the old next pointer of block 3 is an entry of the index block of the file
  have hpointer : (emptyTwo.withIndex 3 (staleNode.afterAllocate.host.clock 0)).pointer 12 = 3 :=
    Inode.pointer_setPointer emptyTwo 3 (by decide)
  have hblock' : ((staleNode.afterIndex emptyTwo 3).writeBlock 4 Block.zero).disk.block
      (3 : UInt64).toNat = Block.zero.setWord 0 4 := by
    rw [Filesystem.block_writeBlock_of_ne _ hholds (by decide), hblock]
  show 4 ∈ ((staleNode.afterIndex emptyTwo 3).writeBlock 4 Block.zero).ownedBy
    (emptyTwo.withIndex 3 (staleNode.afterAllocate.host.clock 0)).inumber
  rw [← hcurrent'.owned, Inode.owned, hpointer, Disk.indexEntries, if_neg (by decide), hblock']
  refine List.mem_append_right _ (mem_nonzero.mpr
    ⟨by decide, 0, List.mem_range.mpr (by decide), ?_⟩)
  exact Block.word_setWord _ _ (by decide)

end SimpleFileSystem
