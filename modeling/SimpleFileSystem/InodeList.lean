import SimpleFileSystem.Ownership
import SimpleFileSystem.Library.Stack

/-!
# The free inodes as a stack

The free inodes are a list whose next pointers are kept where the `size` of a file is,
in inodes that may be in the cache or on the disk, and whose head is in the superblock.
`FreeInodes` says what list that is, in terms of the logical inode table, so that the
cache does not matter.  It ends with 0, where that of a new disk ends with the number after the
last inode (`FreeInodesTo`).

`FsCall` is the system of the functions of `fs.c` that allocate, free, read and write
inodes and blocks, each with what its callers promise: that what they free or write is
not free.  On it the list is a stack, `fsCall_refines` being one step and
`free_inodes_are_a_stack` every execution.
-/

namespace SimpleFileSystem

variable {F : Type}

/-! ## The list -/

/-- The next pointer of a free inode, "hidden in the `size` member". -/
def Filesystem.nextInode (fs : Filesystem F) (k : UInt64) : UInt64 :=
  (fs.logicalInode k).size

/-- **A free inode list** whose last inode points to `last`. -/
structure FreeInodesTo (last : UInt64) (fs : Filesystem F) (L : List UInt64) : Prop where
  linked : Linked last fs.nextInode fs.superblock.freeInodeHead L
  valid : ∀ k ∈ L, fs.superblock.ValidInumber k
  own : ∀ k ∈ L, (fs.logicalInode k).inumber = k

/-- **A well-formed free inode list.**  That it visits no inode twice is
`FreeInodesTo.nodup`. -/
abbrev FreeInodes (fs : Filesystem F) (L : List UInt64) : Prop :=
  FreeInodesTo 0 fs L

/-- The free inodes, and what the last of them points to. -/
structure FreeList where
  inodes : List UInt64
  last : UInt64

/-- The head of the list is an inode, if there is one. -/
def Superblock.HeadOk (s : Superblock) : Prop :=
  s.freeInodeHead ≠ 0 → s.ValidInumber s.freeInodeHead

namespace FreeInodesTo

variable {fs fs' : Filesystem F} {last : UInt64} {L L' : List UInt64}

theorem nodup (h : FreeInodesTo last fs L) : L.Nodup :=
  h.linked.nodup

theorem unique (h : FreeInodesTo last fs L) (h' : FreeInodesTo last fs L') : L = L' :=
  h.linked.unique h'.linked

/-- The list is that of any filesystem with the same head and the same free inodes. -/
theorem congr (h : FreeInodesTo last fs L)
    (hhead : fs'.superblock.freeInodeHead = fs.superblock.freeInodeHead)
    (hinodes : fs'.superblock.inodes = fs.superblock.inodes)
    (hsame : ∀ k ∈ L, fs'.logicalInode k = fs.logicalInode k) : FreeInodesTo last fs' L where
  linked := by
    rw [hhead]
    refine h.linked.congr fun k hk => ?_
    rw [Filesystem.nextInode, hsame k hk, Filesystem.nextInode]
  valid k hk := by
    rw [Superblock.ValidInumber, hinodes]
    exact h.valid k hk
  own k hk := by
    rw [hsame k hk]
    exact h.own k hk

/-- The list without its head. -/
theorem tail {k : UInt64} (h : FreeInodesTo last fs (k :: L))
    (hhead : fs'.superblock.freeInodeHead = (fs.logicalInode k).size)
    (hinodes : fs'.superblock.inodes = fs.superblock.inodes)
    (hsame : ∀ j ∈ L, fs'.logicalInode j = fs.logicalInode j) : FreeInodesTo last fs' L where
  linked := by
    rw [hhead]
    refine h.linked.2.2.congr fun j hj => ?_
    rw [Filesystem.nextInode, hsame j hj, Filesystem.nextInode]
  valid j hj := by
    rw [Superblock.ValidInumber, hinodes]
    exact h.valid j (List.mem_cons_of_mem k hj)
  own j hj := by
    rw [hsame j hj]
    exact h.own j (List.mem_cons_of_mem k hj)

/-- **A new head**, which points to the old one. -/
theorem cons {k : UInt64} (h : FreeInodesTo last fs L) (hk : fs.superblock.ValidInumber k)
    (hlast : k ≠ last) (hhead : fs'.superblock.freeInodeHead = k)
    (hinodes : fs'.superblock.inodes = fs.superblock.inodes)
    (hown : (fs'.logicalInode k).inumber = k)
    (hnext : (fs'.logicalInode k).size = fs.superblock.freeInodeHead)
    (hsame : ∀ j ∈ L, fs'.logicalInode j = fs.logicalInode j) :
    FreeInodesTo last fs' (k :: L) where
  linked := by
    rw [hhead]
    refine Linked.cons (h.linked.congr fun j hj => ?_) hlast hnext
    rw [Filesystem.nextInode, hsame j hj, Filesystem.nextInode]
  valid j hj := by
    rw [Superblock.ValidInumber, hinodes]
    rcases List.mem_cons.mp hj with rfl | hj
    · exact hk
    · exact h.valid j hj
  own j hj := by
    rcases List.mem_cons.mp hj with rfl | hj
    · exact hown
    · rw [hsame j hj]
      exact h.own j hj

end FreeInodesTo

/-! ## Allocating an inode -/

/-- What `sfs_fs_inode_allocate` does when it hands out the inode `k`. -/
structure InodeAllocated (fs : Filesystem F) (k : UInt64) (fs' : Filesystem F) : Prop where
  superblock : fs'.superblock =
    { fs.superblock with freeInodeHead := (fs.logicalInode k).size }
  host : fs'.host = fs.host
  files : fs'.files = fs.files
  inodes : ∀ j, 0 < j → fs'.logicalInode j = fs.logicalInode j
  synced : fs'.Synced

section Allocate

variable {fs : Filesystem F} {nodes A X : List UInt64} {k : UInt64}

theorem sfsFsInodeAllocate_of_head_eq_zero (h0 : fs.superblock.freeInodeHead = 0) :
    (sfsFsInodeAllocate : Fs F (Option Inode)).run fs = .done none fs := by
  rw [sfsFsInodeAllocate, Run.run_bind, Run.run_get, Run.andThen_done]
  exact congrArg (fun x : Fs F (Option Inode) => x.run fs) (if_pos h0)

/-- `sfs_fs_inode_allocate` reads the inode at the head of the list and sets the head. -/
theorem Image.allocateInode_reads (h : Image fs nodes A X)
    (hhead : fs.superblock.freeInodeHead = k) (hk : fs.superblock.ValidInumber k)
    (hint : (inodeBlock k).toNat < 2 ^ 31) :
    Run.Ensures sfsFsInodeAllocate fs fun answer fs' => answer = some (fs.logicalInode k) ∧
      ∃ fs₁, Image fs₁ nodes A X ∧ TableFrame fs fs₁ ∧
        (∀ j, 0 < j → fs₁.logicalInode j = fs.logicalInode j) ∧
        fs' = fs₁.withInodeHead (fs.logicalInode k).size := by
  rw [sfsFsInodeAllocate]
  refine Run.Ensures.bind (P := fun s t => fs = s ∧ fs = t) ⟨fs, fs, rfl, rfl, rfl⟩ ?_
  rintro _ _ ⟨rfl, rfl⟩
  rw [hhead, if_neg (Ne.symm (UInt64.ne_of_lt hk.1))]
  refine (h.readInode hk hint).bind ?_
  rintro _ fs' ⟨rfl, himage, hframe, hsame⟩
  refine ⟨some (fs.logicalInode k), fs'.withInodeHead (fs.logicalInode k).size, ?_, rfl,
    fs', himage, hframe, hsame, rfl⟩
  dsimp only
  rw [setInodeHead_run himage.state.reliable himage.blocks_pos', if_neg (by simp), Run.run_pure]

/-- **`sfs_fs_inode_allocate`** hands out the inode at the head of the list. -/
theorem Image.allocateInode (h : Image fs nodes A X)
    (hhead : fs.superblock.freeInodeHead = k) (hk : fs.superblock.ValidInumber k)
    (hint : (inodeBlock k).toNat < 2 ^ 31) :
    Run.Ensures sfsFsInodeAllocate fs fun answer fs' => answer = some (fs.logicalInode k) ∧
      Image fs' nodes A X ∧ InodeAllocated fs k fs' := by
  refine (h.allocateInode_reads hhead hk hint).mono ?_
  rintro answer _ ⟨hanswer, fs', himage, hframe, hsame, rfl⟩
  refine ⟨hanswer, himage.withInodeHead _, ?_, hframe.host, hframe.files, fun j hj => ?_,
    Filesystem.Synced.of_synced _⟩
  · show { fs'.superblock with freeInodeHead := (fs.logicalInode k).size } = _
    rw [hframe.superblock]
  · rw [logicalInode_withInodeHead _ hj, hsame j hj]

end Allocate

/-! ## The calls -/

/-- A call of a function of `fs.c`, with its answer. -/
inductive FsEvent where
  | allocateInode (answer : Option Inode)
  | deallocateInode (inode : Inode)
  | readInode (inumber : UInt64) (answer : Option Inode)
  | writeInode (inode : Inode)
  | allocateBlock (answer : Option UInt64)
  | freeBlock (blockNumber : UInt64)
  | writeBlock (blockNumber : UInt64) (block : Block)

namespace FsEvent

/-- What a call is for the free inodes. -/
def listCall : FsEvent → Option (PoolEvent UInt64)
  | allocateInode answer => some (.take (answer.map Inode.inumber))
  | deallocateInode inode => some (.give inode.inumber)
  | _ => none

end FsEvent

/-- An inode that is not free. -/
def Filesystem.InUse (fs : Filesystem F) (k : UInt64) : Prop :=
  fs.superblock.ValidInumber k ∧ ∀ L, FreeInodes fs L → k ∉ L

/-- A data block that is not free. -/
def Filesystem.BlockInUse (fs : Filesystem F) (b : UInt64) : Prop :=
  fs.superblock.inRange b = true ∧ ∀ nodes, FreeChain fs nodes → b ∉ poolOf fs.disk nodes

/-- An inode that may be deallocated: it is not free, and the blocks that its direct
pointers name are distinct and not free either. -/
structure Filesystem.MayDeallocate (fs : Filesystem F) (v : Inode) : Prop where
  inUse : fs.InUse v.inumber
  distinct : (v.direct.filter (· ≠ 0)).Nodup
  blocks : ∀ b ∈ v.direct.filter (· ≠ 0), fs.BlockInUse b

/-- A call, which returns. -/
inductive FsCall : Filesystem F → FsEvent → Filesystem F → Prop where
  | allocateInode {fs fs' : Filesystem F} {answer : Option Inode}
      (run : sfsFsInodeAllocate.run fs = .done answer fs') : FsCall fs (.allocateInode answer) fs'
  | deallocateInode {fs fs' : Filesystem F} {v : Inode} {ret : ℤ} (may : fs.MayDeallocate v)
      (run : (sfsFsInodeDeallocate v).run fs = .done ret fs') : FsCall fs (.deallocateInode v) fs'
  | readInode {fs fs' : Filesystem F} {k : UInt64} {answer : Option Inode} (inUse : fs.InUse k)
      (run : (sfsFsReadInode k).run fs = .done answer fs') : FsCall fs (.readInode k answer) fs'
  | writeInode {fs fs' : Filesystem F} {v : Inode} {ret : ℤ} (inUse : fs.InUse v.inumber)
      (run : (sfsFsWriteInode v).run fs = .done ret fs') : FsCall fs (.writeInode v) fs'
  | allocateBlock {fs fs' : Filesystem F} {answer : Option UInt64}
      (run : sfsFsAllocateBlock.run fs = .done answer fs') : FsCall fs (.allocateBlock answer) fs'
  | freeBlock {fs fs' : Filesystem F} {b : UInt64} {ret : ℤ} (inUse : fs.BlockInUse b)
      (run : (sfsFsFreeBlock b).run fs = .done ret fs') : FsCall fs (.freeBlock b) fs'
  | writeBlock {fs fs' : Filesystem F} {b : UInt64} {block : Block} {ret : ℤ}
      (inUse : fs.BlockInUse b) (run : (blockWrite b block).run fs = .done ret fs') :
      FsCall fs (.writeBlock b block) fs'

/-! ## The state between the calls -/

/-- **A mounted filesystem** with the index nodes `nodes` of its free block chain and the
free inodes `L`.  The number of the cached block is an `int`. -/
structure Mounted (fs : Filesystem F) (nodes L : List UInt64) : Prop where
  image : Image fs nodes [] []
  list : FreeInodes fs L
  small : fs.superblock.inodeTableBlocks.toNat < 2 ^ 31

/-- Of the superblock only the heads of the free lists changed. -/
def SameLayout (fs fs' : Filesystem F) : Prop :=
  fs'.superblock = { fs.superblock with
    freeBlocksHead := fs'.superblock.freeBlocksHead
    freeInodeHead := fs'.superblock.freeInodeHead }

namespace SameLayout

variable {fs fs' fs'' : Filesystem F}

theorem refl (fs : Filesystem F) : SameLayout fs fs := rfl

theorem trans (h : SameLayout fs fs') (h' : SameLayout fs' fs'') : SameLayout fs fs'' := by
  rw [SameLayout] at h h' ⊢
  rw [h', h]

theorem inodes (h : SameLayout fs fs') : fs'.superblock.inodes = fs.superblock.inodes := by
  rw [h]

theorem inodeTableBlocks (h : SameLayout fs fs') :
    fs'.superblock.inodeTableBlocks = fs.superblock.inodeTableBlocks := by
  rw [h]

theorem of_tableFrame (h : TableFrame fs fs') : SameLayout fs fs' := by
  rw [SameLayout, h.superblock]

theorem of_dataStep {S : UInt64 → Prop} (h : DataStep S fs fs') : SameLayout fs fs' := by
  rw [SameLayout, h.frame.superblock]

end SameLayout

namespace Mounted

variable {fs fs' : Filesystem F} {nodes nodes' L : List UInt64} {k b : UInt64} {v : Inode}

theorem lt_int (h : Mounted fs nodes L) (hk : fs.superblock.ValidInumber k) :
    (inodeBlock k).toNat < 2 ^ 31 :=
  h.image.state.table.lt_int hk h.small

/-- A step that leaves the free inodes alone. -/
theorem of_image (h : Mounted fs nodes L) (himage : Image fs' nodes' [] [])
    (hlayout : SameLayout fs fs')
    (hhead : fs'.superblock.freeInodeHead = fs.superblock.freeInodeHead)
    (hsame : ∀ k ∈ L, fs'.logicalInode k = fs.logicalInode k) : Mounted fs' nodes' L where
  image := himage
  list := h.list.congr hhead hlayout.inodes hsame
  small := by
    rw [hlayout.inodeTableBlocks]
    exact h.small

/-- A step on data blocks leaves the free inodes alone. -/
theorem of_dataStep {S : UInt64 → Prop} (h : Mounted fs nodes L)
    (himage : Image fs' nodes' [] []) (hstep : DataStep S fs fs') : Mounted fs' nodes' L := by
  refine h.of_image himage (SameLayout.of_dataStep hstep) hstep.frame.freeInodeHead fun k hk => ?_
  exact hstep.logicalInode h.image.state.table (h.list.valid k hk)

/-- Blocks in use are loose blocks of the image. -/
theorem image_cons (h : Mounted fs nodes L) {X : List UInt64} (hX : X.Nodup)
    (hused : ∀ b ∈ X, fs.BlockInUse b) : Image fs nodes [] X := by
  have hadopt := h.image.adopt hX (fun b hb => (hused b hb).1) fun b hb hc => ?_
  · rwa [List.append_nil] at hadopt
  rcases Image.mem_census.mp hc with hc | hc | ⟨k, hk, -⟩
  · exact (hused b hb).2 nodes h.image.chain hc
  · exact absurd hc List.not_mem_nil
  · exact absurd hk List.not_mem_nil

end Mounted

/-! ## What each call does -/

/-- What `sfs_fs_inode_allocate` does to the list, and to the inodes. -/
def AllocateInodePost (fs : Filesystem F) (nodes L : List UInt64) (answer : Option Inode)
    (fs' : Filesystem F) : Prop :=
  match L with
  | [] => answer = none ∧ fs' = fs
  | k :: L => answer = some (fs.logicalInode k) ∧ (fs.logicalInode k).inumber = k ∧
      Mounted fs' nodes L ∧ SameLayout fs fs' ∧
      ∀ j, 0 < j → fs'.logicalInode j = fs.logicalInode j

/-- What `sfs_fs_inode_deallocate` does to the list, and to the inodes. -/
def DeallocateInodePost (fs : Filesystem F) (L : List UInt64) (v : Inode) (ret : ℤ)
    (fs' : Filesystem F) : Prop :=
  ret = 0 ∧ SameLayout fs fs' ∧ (∃ nodes', Mounted fs' nodes' (v.inumber :: L)) ∧
    ∀ j, fs.superblock.ValidInumber j → j ≠ v.inumber →
      fs'.logicalInode j = fs.logicalInode j

/-- What the other calls do: the list stays what it is. -/
def ListKept (fs : Filesystem F) (L : List UInt64) (fs' : Filesystem F) : Prop :=
  SameLayout fs fs' ∧ ∃ nodes', Mounted fs' nodes' L

namespace Mounted

variable {fs fs' : Filesystem F} {nodes nodes' L : List UInt64} {k b : UInt64} {v : Inode}

theorem allocateInode_ensures (h : Mounted fs nodes L) :
    Run.Ensures sfsFsInodeAllocate fs (AllocateInodePost fs nodes L) := by
  cases L with
  | nil =>
    exact Run.Ensures.of_eq (sfsFsInodeAllocate_of_head_eq_zero h.list.linked) ⟨rfl, rfl⟩
  | cons k L =>
    have hk := h.list.valid k List.mem_cons_self
    refine (h.image.allocateInode h.list.linked.1 hk (h.lt_int hk)).mono ?_
    rintro answer fs' ⟨hanswer, himage, hdone⟩
    have hlayout : SameLayout fs fs' := by
      rw [SameLayout, hdone.superblock]
    refine ⟨hanswer, h.list.own k List.mem_cons_self, ⟨himage, ?_, ?_⟩, hlayout, hdone.inodes⟩
    · refine h.list.tail ?_ hlayout.inodes fun j hj => ?_
      · rw [hdone.superblock]
      · exact hdone.inodes j (h.list.valid j (List.mem_cons_of_mem k hj)).1
    · rw [hlayout.inodeTableBlocks]
      exact h.small

theorem deallocateInode_ensures (h : Mounted fs nodes L) (hv : fs.MayDeallocate v) :
    Run.Ensures (sfsFsInodeDeallocate v) fs (DeallocateInodePost fs L v) := by
  have hloose : Image fs nodes [] (v.direct.filter (· ≠ 0) ++ []) := by
    rw [List.append_nil]
    exact h.image_cons hv.distinct hv.blocks
  have hvalid := hv.inUse.1
  refine (deallocate_loose hloose List.not_mem_nil hvalid (h.lt_int hvalid)).mono ?_
  rintro ret fs' ⟨hret, nodes', himage, hdone⟩
  have hlayout : SameLayout fs fs' := by
    rw [SameLayout, hdone.superblock]
  refine ⟨hret, hlayout, ⟨nodes', himage, ?_, ?_⟩, hdone.others⟩
  · refine h.list.cons hvalid (Ne.symm (UInt64.ne_of_lt hvalid.1)) ?_ hlayout.inodes ?_ ?_
      fun j hj => ?_
    · rw [hdone.superblock]
    · rw [hdone.inode]
    · rw [hdone.inode]
    · refine hdone.others j (h.list.valid j hj) ?_
      rintro rfl
      exact hv.inUse.2 L h.list hj
  · rw [hlayout.inodeTableBlocks]
    exact h.small

theorem readInode_ensures (h : Mounted fs nodes L) (hk : fs.superblock.ValidInumber k) :
    Run.Ensures (sfsFsReadInode k) fs fun answer fs' =>
      answer = some (fs.logicalInode k) ∧ ListKept fs L fs' := by
  refine (h.image.readInode hk (h.lt_int hk)).mono ?_
  rintro answer fs' ⟨hanswer, himage, hframe, hsame⟩
  refine ⟨hanswer, SameLayout.of_tableFrame hframe, nodes, h.of_image himage
    (SameLayout.of_tableFrame hframe) ?_ fun j hj => hsame j (h.list.valid j hj).1⟩
  rw [hframe.superblock]

theorem writeInode_ensures (h : Mounted fs nodes L) (hv : fs.InUse v.inumber) :
    Run.Ensures (sfsFsWriteInode v) fs fun ret fs' => ret = 0 ∧ ListKept fs L fs' := by
  refine (h.image.writeFreed List.not_mem_nil hv.1 (h.lt_int hv.1)).mono ?_
  rintro ret fs' ⟨hret, himage, hframe, -, hsame⟩
  refine ⟨hret, SameLayout.of_tableFrame hframe, nodes, h.of_image himage
    (SameLayout.of_tableFrame hframe) ?_ fun j hj => hsame j (h.list.valid j hj).1 ?_⟩
  · rw [hframe.superblock]
  · rintro rfl
    exact hv.2 L h.list hj

theorem allocateBlock_ensures (h : Mounted fs nodes L) :
    Run.Ensures sfsFsAllocateBlock fs fun _ fs' => ListKept fs L fs' := by
  refine Run.Ensures.of_eq (sfsFsAllocateBlock_run h.image.state.reliable h.image.chain) ?_
  rcases h.image.allocate with ⟨-, hsame⟩ | ⟨n, nodes', -, -, himage, hstep⟩
  · rw [hsame]
    exact ⟨SameLayout.refl fs, nodes, h⟩
  · exact ⟨SameLayout.of_dataStep hstep, nodes',
      h.of_dataStep (himage.forget (List.nil_sublist _)) hstep⟩

theorem freeBlock_ensures (h : Mounted fs nodes L) (hb : fs.BlockInUse b) :
    Run.Ensures (sfsFsFreeBlock b) fs fun ret fs' => ret = 0 ∧ ListKept fs L fs' := by
  have hloose : Image fs nodes [] ([b] ++ []) := by
    rw [List.append_nil]
    exact h.image_cons (List.nodup_singleton b) fun x hx => List.mem_singleton.mp hx ▸ hb
  refine (free_spec h.image.state.reliable h.image.chain (h.image.ne_zero_of_inRange hb.1)
    (Superblock.lt_of_inRange hb.1) (hb.2 nodes h.image.chain)).mono ?_
  rintro ret fs' ⟨hret, nodes', hgets⟩
  have hfreed := Freed.of_poolGets hgets
  have hstep := hloose.dataStep_of_freed hfreed
  exact ⟨hret, SameLayout.of_dataStep hstep, nodes', h.of_dataStep (hloose.of_freed hfreed) hstep⟩

theorem writeBlock_ensures (h : Mounted fs nodes L) (hb : fs.BlockInUse b) (block : Block) :
    Run.Ensures (blockWrite b block) fs fun ret fs' => ret = 512 ∧ ListKept fs L fs' := by
  have hnode : b ∉ nodes := fun hn => hb.2 nodes h.image.chain (mem_poolOf_of_mem hn)
  obtain ⟨himage, hstep⟩ := h.image.writeData hb.1 hnode
    (fun k hk => absurd hk List.not_mem_nil) block
  refine Run.Ensures.of_eq
    (blockWrite_of_holds h.image.state.reliable.noFaults (h.image.holds hb.1) block) ⟨rfl, ?_⟩
  exact ⟨SameLayout.of_dataStep hstep, nodes, h.of_dataStep himage hstep⟩

/-- **One call is one step of the stack**, or leaves the stack alone. -/
theorem fsCall_refines {e : FsEvent} (h : Mounted fs nodes L) (hcall : FsCall fs e fs') :
    ∃ nodes' L', Mounted fs' nodes' L' ∧ SameLayout fs fs' ∧
      match e.listCall with
      | none => L' = L
      | some call => StackStep L call L' := by
  cases hcall with
  | @allocateInode _ answer run =>
    have hpost := h.allocateInode_ensures.post run
    cases L with
    | nil =>
      obtain ⟨rfl, rfl⟩ := hpost
      exact ⟨nodes, [], h, SameLayout.refl fs', StackStep.refuse⟩
    | cons k L =>
      obtain ⟨rfl, hown, hmounted, hlayout, -⟩ := hpost
      refine ⟨nodes, L, hmounted, hlayout, ?_⟩
      show StackStep (k :: L) (.take (some (fs.logicalInode k).inumber)) L
      rw [hown]
      exact StackStep.pop k L
  | @deallocateInode _ v _ may run =>
    obtain ⟨-, hlayout, ⟨nodes', hmounted⟩, -⟩ := (h.deallocateInode_ensures may).post run
    exact ⟨nodes', v.inumber :: L, hmounted, hlayout, StackStep.push (may.inUse.2 L h.list)⟩
  | readInode inUse run =>
    obtain ⟨-, hlayout, nodes', hmounted⟩ := (h.readInode_ensures inUse.1).post run
    exact ⟨nodes', L, hmounted, hlayout, rfl⟩
  | writeInode inUse run =>
    obtain ⟨-, hlayout, nodes', hmounted⟩ := (h.writeInode_ensures inUse).post run
    exact ⟨nodes', L, hmounted, hlayout, rfl⟩
  | allocateBlock run =>
    obtain ⟨hlayout, nodes', hmounted⟩ := h.allocateBlock_ensures.post run
    exact ⟨nodes', L, hmounted, hlayout, rfl⟩
  | freeBlock inUse run =>
    obtain ⟨-, hlayout, nodes', hmounted⟩ := (h.freeBlock_ensures inUse).post run
    exact ⟨nodes', L, hmounted, hlayout, rfl⟩
  | writeBlock inUse run =>
    obtain ⟨-, hlayout, nodes', hmounted⟩ := (h.writeBlock_ensures inUse _).post run
    exact ⟨nodes', L, hmounted, hlayout, rfl⟩

end Mounted

/-! ## Executions -/

section Executions

variable {fs fs' : Filesystem F} {nodes L : List UInt64} {tr : List FsEvent}

/-- An execution leaves a mounted filesystem, and what it does to the list is what an
execution of the stack does. -/
theorem Mounted.exec (h : Mounted fs nodes L) (hexec : Exec FsCall fs tr fs') :
    ∃ nodes' L', Mounted fs' nodes' L' ∧ SameLayout fs fs' ∧
      Exec StackStep L (tr.filterMap FsEvent.listCall) L' := by
  obtain ⟨L', hstack, ⟨nodes', hmounted⟩, hlayout⟩ := hexec.project FsEvent.listCall
    (R := fun t L => (∃ nodes, Mounted t nodes L) ∧ SameLayout fs t)
    (by
      rintro s e t L ⟨⟨nodes, hs⟩, hlayout⟩ hcall hlabel
      obtain ⟨nodes', L', ht, hlayout', hL⟩ := hs.fsCall_refines hcall
      rw [hlabel] at hL
      subst hL
      exact ⟨⟨nodes', ht⟩, hlayout.trans hlayout'⟩)
    (by
      rintro s e t L call ⟨⟨nodes, hs⟩, hlayout⟩ hcall hlabel
      obtain ⟨nodes', L', ht, hlayout', hL⟩ := hs.fsCall_refines hcall
      rw [hlabel] at hL
      exact ⟨L', hL, ⟨nodes', ht⟩, hlayout.trans hlayout'⟩)
    ⟨⟨nodes, h⟩, SameLayout.refl fs⟩
  exact ⟨nodes', L', hmounted, hlayout, hstack⟩

/-- **The free inodes are a stack.**  After any calls the list is well formed; allocation
fails exactly on the empty list and otherwise hands out its head, under its number;
deallocation puts just that inode in front; reading and writing the inodes in use leave
the list alone.  An inode number handed out twice was deallocated in between. -/
theorem free_inodes_are_a_stack (h : Mounted fs nodes L) (hexec : Exec FsCall fs tr fs') :
    (∃ nodes' L', Mounted fs' nodes' L' ∧
      Exec StackStep L (tr.filterMap FsEvent.listCall) L' ∧
      Run.Ensures sfsFsInodeAllocate fs' (AllocateInodePost fs' nodes' L') ∧
      (∀ v, fs'.MayDeallocate v →
        Run.Ensures (sfsFsInodeDeallocate v) fs' (DeallocateInodePost fs' L' v)) ∧
      (∀ k, fs'.InUse k → Run.Ensures (sfsFsReadInode k) fs' fun answer fs'' =>
        answer = some (fs'.logicalInode k) ∧ ListKept fs' L' fs'') ∧
      ∀ v : Inode, fs'.InUse v.inumber →
        Run.Ensures (sfsFsWriteInode v) fs' fun ret fs'' => ret = 0 ∧ ListKept fs' L' fs'') ∧
    ∀ v w tr₁ tr₂ tr₃,
      tr = tr₁ ++ .allocateInode (some v) :: (tr₂ ++ .allocateInode (some w) :: tr₃) →
      v.inumber = w.inumber → ∃ u : Inode, .deallocateInode u ∈ tr₂ ∧ u.inumber = v.inumber := by
  obtain ⟨nodes', L', hmounted, -, hstack⟩ := h.exec hexec
  refine ⟨⟨nodes', L', hmounted, hstack, hmounted.allocateInode_ensures,
    fun v hv => hmounted.deallocateInode_ensures hv,
    fun k hk => hmounted.readInode_ensures hk.1, fun v hv => hmounted.writeInode_ensures hv⟩, ?_⟩
  rintro v w tr₁ tr₂ tr₃ rfl hvw
  simp only [List.filterMap_append, List.filterMap_cons, FsEvent.listCall, Option.map_some,
    ← hvw] at hstack
  have hgive := StackStep.given_between h.list.nodup hstack
  obtain ⟨e, he, hcall⟩ := List.mem_filterMap.mp hgive
  cases e with
  | deallocateInode u =>
    simp only [FsEvent.listCall, Option.some.injEq, PoolEvent.give.injEq] at hcall
    exact ⟨u, he, hcall⟩
  | allocateInode answer => simp [FsEvent.listCall] at hcall
  | _ => simp [FsEvent.listCall] at hcall

end Executions

/-! ## A small disk -/

/-- The disk with one free block, after its inode 2 has been written. -/
theorem exists_mounted_oneFreeBlock :
    ∃ fs : Filesystem Unit, Mounted fs [3] [2] ∧
      SameLayout (Filesystem.blank oneFreeBlock ()) fs := by
  have hvalid : (Filesystem.blank oneFreeBlock ()).superblock.ValidInumber emptyTwo.inumber := by
    constructor <;> decide
  obtain ⟨-, fs, -, -, himage, hframe, hset, -⟩ :=
    image_oneFreeBlock.writeFreed List.not_mem_nil hvalid (by decide)
  have hnext : fs.nextInode 2 = 0 := by
    rw [Filesystem.nextInode, show fs.logicalInode 2 = emptyTwo from hset]
    rfl
  refine ⟨fs, ⟨himage, ⟨?_, ?_, ?_⟩, ?_⟩, SameLayout.of_tableFrame hframe⟩
  · rw [hframe.superblock]
    exact ⟨rfl, by decide, hnext⟩
  · intro k hk
    rw [List.mem_singleton.mp hk, hframe.superblock]
    exact hvalid
  · intro k hk
    rw [List.mem_singleton.mp hk, show fs.logicalInode 2 = emptyTwo from hset]
    rfl
  · rw [hframe.superblock]
    decide

/-- An inode without pointers may be deallocated once it is in use. -/
theorem mayDeallocate_emptyTwo {fs : Filesystem Unit} (h : fs.InUse 2) :
    fs.MayDeallocate emptyTwo := by
  have hnone : emptyTwo.direct.filter (· ≠ 0) = [] := by
    refine List.filter_eq_nil_iff.mpr fun b hb => ?_
    obtain ⟨j, -, rfl⟩ := List.mem_map.mp hb
    simp [emptyTwo_pointer]
  refine ⟨h, ?_, fun b hb => ?_⟩
  · rw [hnone]
    exact List.nodup_nil
  · rw [hnone] at hb
    exact absurd hb List.not_mem_nil

/-- Its free inode is handed out, a second one is not there, and it is handed out again once it
has been given back. -/
theorem free_inodes_are_a_stack_oneFreeBlock :
    ∃ (fs fs' : Filesystem Unit) (v w : Inode), v.inumber = 2 ∧ w.inumber = 2 ∧
      Exec FsCall fs [.allocateInode (some v), .allocateInode none, .deallocateInode emptyTwo,
        .allocateInode (some w)] fs' ∧
      ∃ nodes' L', Mounted fs' nodes' L' ∧
        Exec StackStep [2] [.take (some 2), .take none, .give 2, .take (some 2)] L' := by
  obtain ⟨fs, hmounted, -⟩ := exists_mounted_oneFreeBlock
  have hvalid := hmounted.list.valid 2 List.mem_cons_self
  obtain ⟨_, fs₁, htake, rfl, hown, hmounted₁, hlayout, -⟩ := hmounted.allocateInode_ensures
  obtain ⟨_, fs₂, hrefuse, rfl, rfl⟩ := hmounted₁.allocateInode_ensures
  have hinUse : fs₂.InUse 2 := by
    refine ⟨?_, fun L hL => ?_⟩
    · rw [Superblock.ValidInumber, hlayout.inodes]
      exact hvalid
    · rw [hL.unique hmounted₁.list]
      exact List.not_mem_nil
  have hmay := mayDeallocate_emptyTwo hinUse
  obtain ⟨ret, fs₃, hgive, -, -, ⟨nodes₃, hmounted₃⟩, -⟩ :=
    hmounted₁.deallocateInode_ensures hmay
  obtain ⟨_, fs₄, hagain, rfl, hown', -⟩ := hmounted₃.allocateInode_ensures
  have hexec : Exec FsCall fs _ fs₄ := .cons (.allocateInode htake)
    (.cons (.allocateInode hrefuse) (.cons (.deallocateInode hmay hgive)
      (.cons (.allocateInode hagain) (.nil fs₄))))
  obtain ⟨⟨nodes', L', hmounted', hstack, -⟩, -⟩ := free_inodes_are_a_stack hmounted hexec
  refine ⟨fs, fs₄, _, _, hown, hown', hexec, nodes', L', hmounted', ?_⟩
  simp only [List.filterMap_cons, FsEvent.listCall, Option.map_some, Option.map_none,
    List.filterMap_nil, hown] at hstack
  rw [show (fs₃.logicalInode emptyTwo.inumber).inumber = 2 from hown'] at hstack
  exact hstack

end SimpleFileSystem
