import SimpleFileSystem.FreeChain
import SimpleFileSystem.Library.Pool
import Mathlib.Data.UInt

/-!
# The free blocks as a pool

`sfs_fs_allocate_block` and `sfs_fs_free_block` in any order, on a filesystem whose
free block chain is well formed, are the calls of a pool: the finite set of the blocks
that the chain names is all that decides what they answer, and each of them changes it
by one block.

`PoolCall` is the system of the two functions, each with what its callers promise;
`poolCall_refines` is one step of it, and `free_blocks_are_a_pool` what holds of every execution.
-/

namespace SimpleFileSystem

variable {F : Type}

/-- The blocks that a chain names, as a set. -/
def poolSet (d : Disk) (nodes : List UInt64) : Finset UInt64 :=
  (poolOf d nodes).toFinset

theorem card_poolSet {fs : Filesystem F} {nodes : List UInt64} (hc : FreeChain fs nodes) :
    (poolSet fs.disk nodes).card = (poolOf fs.disk nodes).length :=
  List.toFinset_card_of_nodup hc.nodup

/-- A block that may be freed: a nonzero block of the disk that is not in the pool. -/
def Filesystem.MayFree (fs : Filesystem F) (b : UInt64) : Prop :=
  b ≠ 0 ∧ b < fs.superblock.blocks ∧ ∀ nodes, FreeChain fs nodes → b ∉ poolOf fs.disk nodes

/-- A call of one of the two functions, with its answer. -/
inductive PoolCall : Filesystem F → PoolEvent UInt64 → Filesystem F → Prop where
  | allocate {fs fs' : Filesystem F} {answer : Option UInt64}
      (run : sfsFsAllocateBlock.run fs = .done answer fs') : PoolCall fs (.take answer) fs'
  | free {fs fs' : Filesystem F} {b : UInt64} {ret : ℤ} (may : fs.MayFree b)
      (run : (sfsFsFreeBlock b).run fs = .done ret fs') : PoolCall fs (.give b) fs'

/-- What holds between the calls: I/O works, the superblock on the disk is the one in
memory, and the chain is well formed. -/
structure PoolState (fs : Filesystem F) (nodes : List UInt64) : Prop where
  reliable : fs.Reliable
  synced : fs.Synced
  chain : FreeChain fs nodes

namespace PoolTakes

variable {fs fs' : Filesystem F} {nodes nodes' : List UInt64} {b : UInt64}

theorem poolSet_eq (h : PoolTakes fs nodes b fs' nodes') (hc : FreeChain fs nodes) :
    b ∈ poolSet fs.disk nodes ∧ poolSet fs'.disk nodes' = (poolSet fs.disk nodes).erase b := by
  have hnodup := List.nodup_cons.mp (h.perm.nodup_iff.mp hc.nodup)
  have hset : poolSet fs.disk nodes = insert b (poolSet fs'.disk nodes') := by
    rw [poolSet, List.toFinset_eq_of_perm _ _ h.perm, List.toFinset_cons, poolSet]
  have hb : b ∉ poolSet fs'.disk nodes' := fun hm => hnodup.1 (List.mem_toFinset.mp hm)
  rw [hset]
  exact ⟨Finset.mem_insert_self _ _, (Finset.erase_insert hb).symm⟩

theorem poolState (h : PoolTakes fs nodes b fs' nodes') (hp : PoolState fs nodes) :
    PoolState fs' nodes' :=
  ⟨h.frame.reliable hp.reliable, h.synced hp.synced, h.chain⟩

end PoolTakes

namespace PoolGets

variable {fs fs' : Filesystem F} {nodes nodes' : List UInt64} {b : UInt64}

theorem poolSet_eq (h : PoolGets fs nodes b fs' nodes') :
    poolSet fs'.disk nodes' = insert b (poolSet fs.disk nodes) := by
  rw [poolSet, List.toFinset_eq_of_perm _ _ h.perm, List.toFinset_cons, poolSet]

theorem poolState (h : PoolGets fs nodes b fs' nodes') (hp : PoolState fs nodes) :
    PoolState fs' nodes' :=
  ⟨h.frame.reliable hp.reliable, h.synced hp.synced, h.chain⟩

end PoolGets

/-- What `sfs_fs_allocate_block` does to the pool, and to nothing else. -/
def AllocatePost (fs : Filesystem F) (nodes : List UInt64) (answer : Option UInt64)
    (fs' : Filesystem F) : Prop :=
  match answer with
  | none => poolSet fs.disk nodes = ∅ ∧ fs' = fs
  | some b => ∃ nodes', PoolState fs' nodes' ∧ b ∈ poolSet fs.disk nodes ∧
      poolSet fs'.disk nodes' = (poolSet fs.disk nodes).erase b ∧
      AllocatorFrame (fun x => x = 0 ∨ x ∈ nodes) fs fs'

/-- What `sfs_fs_free_block` does to the pool, and to nothing else. -/
def FreePost (fs : Filesystem F) (nodes : List UInt64) (b : UInt64) (ret : ℤ)
    (fs' : Filesystem F) : Prop :=
  ret = 0 ∧ ∃ nodes', PoolState fs' nodes' ∧
    poolSet fs'.disk nodes' = insert b (poolSet fs.disk nodes) ∧
    AllocatorFrame (fun x => x = 0 ∨ x ∈ nodes ∨ x = b) fs fs'

section Step

variable {fs fs' : Filesystem F} {nodes : List UInt64}

theorem allocate_ensures (hp : PoolState fs nodes) :
    Run.Ensures sfsFsAllocateBlock fs (AllocatePost fs nodes) := by
  refine Run.Ensures.of_eq (sfsFsAllocateBlock_run hp.reliable hp.chain) ?_
  rcases allocate_spec hp.reliable hp.chain with ⟨hnone, rfl, hsame⟩ | ⟨b, nodes', hsome, htakes⟩
  · rw [hnone, hsame]
    exact ⟨rfl, rfl⟩
  · obtain ⟨hb, hset⟩ := htakes.poolSet_eq hp.chain
    rw [hsome]
    exact ⟨nodes', htakes.poolState hp, hb, hset,
      htakes.frame.mono fun x hx => hx.imp_right And.left⟩

theorem free_ensures (hp : PoolState fs nodes) {b : UInt64} (hb : fs.MayFree b) :
    Run.Ensures (sfsFsFreeBlock b) fs (FreePost fs nodes b) := by
  refine (free_spec hp.reliable hp.chain hb.1 hb.2.1 (hb.2.2 nodes hp.chain)).mono ?_
  rintro r fs' ⟨rfl, nodes', hgets⟩
  exact ⟨rfl, nodes', hgets.poolState hp, hgets.poolSet_eq, hgets.frame⟩

/-- **One call is one step of the pool.** -/
theorem poolCall_refines {e : PoolEvent UInt64} (hp : PoolState fs nodes)
    (h : PoolCall fs e fs') : ∃ nodes', PoolState fs' nodes' ∧
      PoolStep (poolSet fs.disk nodes) e (poolSet fs'.disk nodes') := by
  cases h with
  | @allocate _ answer run =>
    have hpost := (allocate_ensures hp).post run
    cases answer with
    | none =>
      obtain ⟨hempty, rfl⟩ := hpost
      refine ⟨nodes, hp, ?_⟩
      rw [hempty]
      exact PoolStep.refuse
    | some b =>
      obtain ⟨nodes', hp', hb, hset, -⟩ := hpost
      refine ⟨nodes', hp', ?_⟩
      rw [hset]
      exact PoolStep.take hb
  | @free _ b _ may run =>
    obtain ⟨-, nodes', hp', hset, -⟩ := (free_ensures hp may).post run
    have hb : b ∉ poolSet fs.disk nodes := fun hm =>
      may.2.2 nodes hp.chain (List.mem_toFinset.mp hm)
    refine ⟨nodes', hp', ?_⟩
    rw [hset]
    exact PoolStep.give hb

end Step

/-- An execution of the two functions is one of the pool. -/
theorem poolExec_refines {fs fs' : Filesystem F} {nodes : List UInt64}
    {tr : List (PoolEvent UInt64)} (hp : PoolState fs nodes) (h : Exec PoolCall fs tr fs') :
    ∃ nodes', PoolState fs' nodes' ∧
      Exec PoolStep (poolSet fs.disk nodes) tr (poolSet fs'.disk nodes') := by
  obtain ⟨P, hexec, nodes', hp', rfl⟩ := h.simulate
    (R := fun fs P => ∃ nodes, PoolState fs nodes ∧ poolSet fs.disk nodes = P)
    (by
      rintro fs e fs' _ ⟨nodes, hp, rfl⟩ hcall
      obtain ⟨nodes', hp', hstep⟩ := poolCall_refines hp hcall
      exact ⟨_, hstep, nodes', hp', rfl⟩)
    ⟨nodes, hp, rfl⟩
  exact ⟨nodes', hp', hexec⟩

/-- **The free blocks are a pool.**  After any calls of the two functions on a
well-formed chain, the chain is well formed and the superblock on the disk agrees with
the one in memory; the next call returns, allocation fails exactly on the empty pool
and otherwise takes one of its blocks, freeing adds one, and only block 0, the nodes of
the chain and the block being freed are written.  A block handed out twice was freed in
between, and with no block freed a pool of `n` blocks serves `n` allocations and no
more. -/
theorem free_blocks_are_a_pool {fs fs' : Filesystem F} {nodes : List UInt64}
    {tr : List (PoolEvent UInt64)} (hp : PoolState fs nodes) (h : Exec PoolCall fs tr fs') :
    (∃ nodes', PoolState fs' nodes' ∧
      Run.Ensures sfsFsAllocateBlock fs' (AllocatePost fs' nodes') ∧
      ∀ b, fs'.MayFree b → Run.Ensures (sfsFsFreeBlock b) fs' (FreePost fs' nodes' b)) ∧
    (∀ b tr₁ tr₂ tr₃,
      tr = tr₁ ++ .take (some b) :: (tr₂ ++ .take (some b) :: tr₃) → .give b ∈ tr₂) ∧
    ((∀ e ∈ tr, ∃ answer, e = .take answer) →
      tr.countP PoolEvent.isTaken = min tr.length (poolOf fs.disk nodes).length) := by
  obtain ⟨nodes', hp', hexec⟩ := poolExec_refines hp h
  refine ⟨⟨nodes', hp', allocate_ensures hp', fun b hb => free_ensures hp' hb⟩, ?_,
    fun htakes => ?_⟩
  · rintro b tr₁ tr₂ tr₃ rfl
    exact PoolStep.given_between hexec
  · rw [PoolStep.taken_of_takes hexec htakes, card_poolSet hp.chain]

theorem poolState_oneFreeBlock : PoolState (Filesystem.blank oneFreeBlock ()) [3] where
  reliable := reliable_blank (by decide) (by decide)
  synced := Filesystem.Synced.of_synced _
  chain := by
    refine ⟨linked_oneFreeBlock, ?_, ?_⟩
    · rw [poolOf_oneFreeBlock]
      exact List.nodup_singleton 3
    · rw [poolOf_oneFreeBlock]
      intro b hb
      rw [List.mem_singleton.mp hb]
      decide

/-- The one free block is taken, a second one is not, and it is taken again once it has been
given back. -/
def takeAndGive : Fs Unit (Option UInt64 × Option UInt64 × ℤ × Option UInt64) := do
  let first ← sfsFsAllocateBlock
  let second ← sfsFsAllocateBlock
  let ret ← sfsFsFreeBlock 3
  let third ← sfsFsAllocateBlock
  return (first, second, ret, third)

/-- These calls on a disk with one free block. -/
theorem free_blocks_are_a_pool_oneFreeBlock :
    ∃ fs' : Filesystem Unit,
      Exec PoolCall (Filesystem.blank oneFreeBlock ())
        [.take (some 3), .take none, .give 3, .take (some 3)] fs' ∧
      ∃ nodes', PoolState fs' nodes' := by
  have hvalue : (takeAndGive.run (Filesystem.blank oneFreeBlock ())).value =
      some (some 3, none, 0, some 3) := by
    decide +kernel
  obtain ⟨last, hrun⟩ := Outcome.exists_of_value hvalue
  obtain ⟨first, fs₁, htake, hrun⟩ := Run.bind_eq_done.mp hrun
  obtain ⟨second, fs₂, hrefuse, hrun⟩ := Run.bind_eq_done.mp hrun
  obtain ⟨ret, fs₃, hgive, hrun⟩ := Run.bind_eq_done.mp hrun
  obtain ⟨third, fs₄, hagain, hrun⟩ := Run.bind_eq_done.mp hrun
  cases hrun
  obtain ⟨nodes, hp, -⟩ := (allocate_ensures poolState_oneFreeBlock).post htake
  obtain ⟨hempty, rfl⟩ := (allocate_ensures hp).post hrefuse
  have hmay : fs₂.MayFree 3 := by
    have hframe := ((allocate_ensures poolState_oneFreeBlock).post htake).choose_spec.2.2.2
    refine ⟨by decide, ?_, fun nodes' hc hmem => ?_⟩
    · rw [hframe.blocks]
      decide
    · rw [hc.nodes_unique hp.chain] at hmem
      have hmem' : (3 : UInt64) ∈ poolSet fs₂.disk nodes := List.mem_toFinset.mpr hmem
      rw [hempty] at hmem'
      exact absurd hmem' (Finset.notMem_empty 3)
  have hexec : Exec PoolCall (Filesystem.blank oneFreeBlock ())
      [.take (some 3), .take none, .give 3, .take (some 3)] last :=
    .cons (.allocate htake) (.cons (.allocate hrefuse) (.cons (.free hmay hgive)
      (.cons (.allocate hagain) (.nil last))))
  obtain ⟨⟨nodes', hp', -⟩, -⟩ := free_blocks_are_a_pool poolState_oneFreeBlock hexec
  exact ⟨last, hexec, nodes', hp'⟩

end SimpleFileSystem
