import SimpleFileSystem.Library.ByteCodec
import Mathlib.Logic.Function.Basic
import Mathlib.Tactic.IntervalCases

/-!
# What the bytes of the flat file mean

`fs.h` describes the disk by C structures that are cast onto 512-byte blocks.  Here
are those structures, the codec of each --- the fields in source order, no padding,
little endian --- and the accessors that the code's casts amount to:

* a superblock at the front of a block (`Block.superblock`),
* an array of three inodes (`Block.inode`), 168 bytes each, eight bytes left over,
* an array of sixty-four block numbers (`Block.word`), which is what an index node of
  the free list and an indirect block both are,
* an array of one directory entry (`Block.dirEntry`).

A block read as one of these and a block read as another are the same bytes; nothing
in the code tags a block with what it holds.
-/

open ByteCodec

namespace SimpleFileSystem

/-- `BLOCK_SIZE`. -/
def blockSize : ℕ := 512

/-- `sfs_block_t`: the bytes of one disk block. -/
abbrev Block := Fin 512 → UInt8

/-! ## The structures of `fs.h` and `dir.h` -/

/-- `struct sfs_fs_superblock`: the first block of the disk file. -/
structure Superblock where
  signature : Fin 16 → UInt8
  createTime : UInt64
  blockSize : UInt64
  /-- How many consecutive blocks after the superblock are for inodes. -/
  inodeTableBlocks : UInt64
  /-- The number of inodes. -/
  inodes : UInt64
  blocks : UInt64
  /-- The start block of the free blocks index. -/
  freeBlocksHead : UInt64
  /-- The inode number beginning the free inode list. -/
  freeInodeHead : UInt64

/-- `SFS_NDIR_BLOCKS` -/
def sfsNdirBlocks : UInt64 := 12

/-- `SFS_NIND_BLOCKS`: the number of entries of the one indirect block. -/
def sfsNindBlocks : UInt64 := 64

/-- `S_IFDIR` -/
def sIfdir : UInt32 := 0x4000

/-- `struct sfs_fs_inode`.  Number 0 is the null inode and number 1 the root
directory; in a free inode `size` is the number of the next free inode. -/
structure Inode where
  inumber : UInt64
  mode : UInt32
  uid : UInt32
  gid : UInt32
  links : UInt32
  accessTime : UInt64
  modifiedTime : UInt64
  changeTime : UInt64
  size : UInt64
  /-- Twelve direct pointers, the indirect one, the doubly indirect one. -/
  blockPointers : Fin 14 → UInt64

/-- `struct sfs_dir_entry`. -/
structure DirEntry where
  inumber : UInt64
  name : Fin 256 → UInt8

/-! ## Their codecs -/

/-- The bytes of a superblock. -/
def Superblock.codec : Codec Superblock :=
  ((Codec.array 16 Codec.byte).pair <| Codec.uint64.pair <| Codec.uint64.pair <|
    Codec.uint64.pair <| Codec.uint64.pair <| Codec.uint64.pair <|
      Codec.uint64.pair Codec.uint64).map
    (fun ⟨g, t, z, tb, n, b, fb, fi⟩ => ⟨g, t, z, tb, n, b, fb, fi⟩)
    (fun s => ⟨s.signature, s.createTime, s.blockSize, s.inodeTableBlocks, s.inodes, s.blocks,
      s.freeBlocksHead, s.freeInodeHead⟩)
    fun _ => rfl

/-- The bytes of an inode. -/
def Inode.codec : Codec Inode :=
  (Codec.uint64.pair <| Codec.uint32.pair <| Codec.uint32.pair <| Codec.uint32.pair <|
    Codec.uint32.pair <| Codec.uint64.pair <| Codec.uint64.pair <| Codec.uint64.pair <|
      Codec.uint64.pair (Codec.array 14 Codec.uint64)).map
    (fun ⟨i, m, u, g, l, a, t, c, z, p⟩ => ⟨i, m, u, g, l, a, t, c, z, p⟩)
    (fun v => ⟨v.inumber, v.mode, v.uid, v.gid, v.links, v.accessTime, v.modifiedTime,
      v.changeTime, v.size, v.blockPointers⟩)
    fun _ => rfl

/-- The bytes of a directory entry. -/
def DirEntry.codec : Codec DirEntry :=
  (Codec.uint64.pair (Codec.array 256 Codec.byte)).map
    (fun ⟨i, n⟩ => ⟨i, n⟩) (fun e => ⟨e.inumber, e.name⟩) fun _ => rfl

/-- `BLOCK_SIZE / sizeof(struct sfs_fs_inode)`. -/
def inodesPerBlock : UInt64 := 3

/-- `BLOCK_SIZE / sizeof(struct sfs_dir_entry)`. -/
def entriesPerBlock : UInt64 := 1

example : blockSize / Inode.codec.width = inodesPerBlock.toNat := by decide

example : blockSize / DirEntry.codec.width = entriesPerBlock.toNat := by decide

/-! ## Blocks, read as what they hold -/

namespace Block

/-- A block of zeros. -/
def zero : Block := fun _ => 0

/-- `((uint64_t*)block)[i]`. -/
def word (b : Block) (i : ℕ) : UInt64 :=
  Codec.uint64.get b (8 * i)

/-- `((uint64_t*)block)[i] = x`. -/
def setWord (b : Block) (i : ℕ) (x : UInt64) : Block :=
  Codec.uint64.put b (8 * i) x

/-- `((struct sfs_fs_inode*)block)[p]`. -/
def inode (b : Block) (p : ℕ) : Inode :=
  Inode.codec.get b (168 * p)

/-- `((struct sfs_fs_inode*)block)[p] = v`. -/
def setInode (b : Block) (p : ℕ) (v : Inode) : Block :=
  Inode.codec.put b (168 * p) v

/-- `*(struct sfs_fs_superblock*)block`. -/
def superblock (b : Block) : Superblock :=
  Superblock.codec.get b 0

/-- `memcpy(block, superblock, sizeof(struct sfs_fs_superblock))`. -/
def setSuperblock (b : Block) (s : Superblock) : Block :=
  Superblock.codec.put b 0 s

/-- `((struct sfs_dir_entry*)block)[j]`. -/
def dirEntry (b : Block) (j : ℕ) : DirEntry :=
  DirEntry.codec.get b (264 * j)

/-- Both fields of `((struct sfs_dir_entry*)block)[j]` assigned. -/
def setDirEntry (b : Block) (j : ℕ) (e : DirEntry) : Block :=
  DirEntry.codec.put b (264 * j) e

/-- `((struct sfs_dir_entry*)block)[j].inumber = x`. -/
def setDirInumber (b : Block) (j : ℕ) (x : UInt64) : Block :=
  Codec.uint64.put b (264 * j) x

/-! ### The laws of the accessors -/

@[simp] theorem word_setWord (b : Block) {i : ℕ} (x : UInt64) (h : i < 64) :
    (b.setWord i x).word i = x :=
  Codec.uint64.get_put b x (by show 8 * i + 8 ≤ 512; omega)

theorem word_setWord_of_ne (b : Block) {i j : ℕ} (x : UInt64) (h : i ≠ j) :
    (b.setWord i x).word j = b.word j :=
  Codec.get_put_of_disjoint _ _ b x
    (by show 8 * j + 8 ≤ 8 * i ∨ 8 * i + 8 ≤ 8 * j; omega)

@[simp] theorem inode_setInode (b : Block) {p : ℕ} (v : Inode) (h : p < 3) :
    (b.setInode p v).inode p = v :=
  Inode.codec.get_put b v (by show 168 * p + 168 ≤ 512; omega)

theorem inode_setInode_of_ne (b : Block) {p q : ℕ} (v : Inode) (h : p ≠ q) :
    (b.setInode p v).inode q = b.inode q :=
  Codec.get_put_of_disjoint _ _ b v
    (by show 168 * q + 168 ≤ 168 * p ∨ 168 * p + 168 ≤ 168 * q; omega)

@[simp] theorem superblock_setSuperblock (b : Block) (s : Superblock) :
    (b.setSuperblock s).superblock = s :=
  Superblock.codec.get_put b s (by show 0 + 72 ≤ 512; omega)

@[simp] theorem dirEntry_setDirEntry (b : Block) (e : DirEntry) :
    (b.setDirEntry 0 e).dirEntry 0 = e :=
  DirEntry.codec.get_put b e (by show 264 * 0 + 264 ≤ 512; omega)

/-- The number of an entry is its first field. -/
theorem dirEntry_inumber (b : Block) (j : ℕ) :
    (b.dirEntry j).inumber = Codec.uint64.get b (264 * j) := rfl

@[simp] theorem dirEntry_setDirInumber_inumber (b : Block) (x : UInt64) :
    ((b.setDirInumber 0 x).dirEntry 0).inumber = x := by
  rw [dirEntry_inumber]
  exact Codec.uint64.get_put b x (by show 264 * 0 + 8 ≤ 512; omega)

/-- Every word of a zero block is zero. -/
@[simp] theorem word_zero (i : ℕ) : zero.word i = 0 := by
  refine Codec.uint64.decode_of_eq fun j _ => ?_
  have hbyte : leByte (0 : UInt64).toNat j = 0 := by simp [leByte]
  show view zero (8 * i) j = leByte (0 : UInt64).toNat j
  rw [hbyte, view]
  split <;> rfl

/-- A word is zero if its bytes are. -/
theorem word_eq_zero_iff (b : Block) {j : ℕ} (hj : j < 64) :
    b.word j = 0 ↔ ∀ i : Fin 512, 8 * j ≤ i → (i : ℕ) < 8 * j + 8 → b i = 0 := by
  rw [word, Codec.get, Codec.uint64_decode_eq_zero]
  constructor
  · intro h i hle hlt
    have hi := h (i - 8 * j) (by omega)
    rwa [view, dif_pos (by omega), show (⟨8 * j + ((i : ℕ) - 8 * j), _⟩ : Fin 512) = i from
      Fin.ext (by show 8 * j + ((i : ℕ) - 8 * j) = i; omega)] at hi
  · intro h i hi
    rw [view, dif_pos (by omega)]
    exact h _ (Nat.le_add_right _ _) (Nat.add_lt_add_left hi _)

/-- The words of a block, by the fields of the superblock at its front. -/
theorem word_eq_superblock (b : Block) :
    b.word 2 = b.superblock.createTime ∧ b.word 3 = b.superblock.blockSize ∧
    b.word 4 = b.superblock.inodeTableBlocks ∧ b.word 5 = b.superblock.inodes ∧
    b.word 6 = b.superblock.blocks ∧ b.word 7 = b.superblock.freeBlocksHead ∧
    b.word 8 = b.superblock.freeInodeHead := by
  refine ⟨?_, ?_, ?_, ?_, ?_, ?_, ?_⟩ <;>
  · refine Codec.uint64.decode_congr _ _ fun i _ => ?_
    simp [view, Codec.array, Codec.byte, Codec.uint64, ← Nat.add_assoc]

theorem superblock_signature (b : Block) (i : Fin 16) :
    b.superblock.signature i = b ⟨i, Nat.lt_of_lt_of_le i.isLt (by decide)⟩ := by
  show view b 0 (1 * (i : ℕ) + 0) = _
  rw [view, dif_pos (by omega)]
  congr 1
  ext
  simp

/-- **A word that a superblock has zero** is zero whatever the head of the free list. -/
theorem word_setSuperblock_eq_zero {b : Block} {j : ℕ} (hj : j < 64) (h7 : j ≠ 7)
    (h0 : b.word j = 0) (x : UInt64) :
    (zero.setSuperblock { b.superblock with freeBlocksHead := x }).word j = 0 := by
  generalize hb' : zero.setSuperblock { b.superblock with freeBlocksHead := x } = b'
  have hsuper : b'.superblock = { b.superblock with freeBlocksHead := x } := by
    rw [← hb', superblock_setSuperblock]
  by_cases h9 : j < 9
  · obtain ⟨h2, h3, h4, h5, h6, -, h8⟩ := word_eq_superblock b
    obtain ⟨h2', h3', h4', h5', h6', -, h8'⟩ := word_eq_superblock b'
    rw [hsuper] at h2' h3' h4' h5' h6' h8'
    have hsignature : j < 2 → b'.word j = 0 := fun h2 => by
      rw [word_eq_zero_iff _ hj] at h0 ⊢
      intro i hle hlt
      have hi : (i : ℕ) < 16 := by omega
      have hsame := (superblock_signature b' ⟨i, hi⟩).symm.trans
        ((congrArg (fun s => Superblock.signature s ⟨i, hi⟩) hsuper).trans
          (superblock_signature b ⟨i, hi⟩))
      exact hsame.trans (h0 i hle hlt)
    interval_cases j
    · exact hsignature (by decide)
    · exact hsignature (by decide)
    · exact h2'.trans (h2.symm.trans h0)
    · exact h3'.trans (h3.symm.trans h0)
    · exact h4'.trans (h4.symm.trans h0)
    · exact h5'.trans (h5.symm.trans h0)
    · exact h6'.trans (h6.symm.trans h0)
    · exact absurd rfl h7
    · exact h8'.trans (h8.symm.trans h0)
  · rw [← hb', word, setSuperblock, Codec.get_put_of_disjoint _ _ _ _
      (by show 8 * j + 8 ≤ 0 ∨ 0 + 72 ≤ 8 * j; omega)]
    exact word_zero j

/-- A zero block read as a directory entry is an unused one. -/
@[simp] theorem dirEntry_zero_inumber : (zero.dirEntry 0).inumber = 0 :=
  word_zero 0

end Block

/-! ## Inodes -/

namespace Inode

/-- An inode of zeros. -/
def zero : Inode where
  inumber := 0
  mode := 0
  uid := 0
  gid := 0
  links := 0
  accessTime := 0
  modifiedTime := 0
  changeTime := 0
  size := 0
  blockPointers _ := 0

/-- `block_pointers[i]`. -/
def pointer (v : Inode) (i : ℕ) : UInt64 :=
  if h : i < 14 then v.blockPointers ⟨i, h⟩ else 0

/-- `block_pointers[i] = x`. -/
def setPointer (v : Inode) (i : ℕ) (x : UInt64) : Inode :=
  { v with blockPointers := fun j => if (j : ℕ) = i then x else v.blockPointers j }

@[simp] theorem pointer_setPointer (v : Inode) {i : ℕ} (x : UInt64) (h : i < 14) :
    (v.setPointer i x).pointer i = x := by
  simp [pointer, setPointer, h]

theorem pointer_setPointer_of_ne (v : Inode) {i j : ℕ} (x : UInt64) (h : i ≠ j) :
    (v.setPointer i x).pointer j = v.pointer j := by
  unfold pointer setPointer
  split
  · exact if_neg (Ne.symm h)
  · rfl

@[simp] theorem pointer_zero (i : ℕ) : zero.pointer i = 0 := by
  unfold pointer
  split <;> rfl

@[simp] theorem setPointer_inumber (v : Inode) (i : ℕ) (x : UInt64) :
    (v.setPointer i x).inumber = v.inumber := rfl

@[simp] theorem setPointer_size (v : Inode) (i : ℕ) (x : UInt64) :
    (v.setPointer i x).size = v.size := rfl

@[simp] theorem setPointer_links (v : Inode) (i : ℕ) (x : UInt64) :
    (v.setPointer i x).links = v.links := rfl

@[simp] theorem setPointer_mode (v : Inode) (i : ℕ) (x : UInt64) :
    (v.setPointer i x).mode = v.mode := rfl

end Inode

/-- A zero block read as an array of inodes is one of zero inodes. -/
@[simp] theorem Block.inode_zero (p : ℕ) : Block.zero.inode p = Inode.zero := by
  refine Inode.codec.decode_of_eq fun j _ => ?_
  have hleft : view Block.zero (168 * p) j = 0 := by
    rw [view]
    split <;> rfl
  show view Block.zero (168 * p) j = _
  rw [hleft]
  simp [Inode.codec, Codec.map, Codec.pair, Codec.array, Codec.uint64, Codec.uint32, Inode.zero,
    leByte]

end SimpleFileSystem
