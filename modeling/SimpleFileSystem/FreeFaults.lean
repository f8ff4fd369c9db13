import SimpleFileSystem.AllocateFaults

/-!
# The free lists after a free that fails

`sfs_fs_free_block` reads the nodes up to the first one with an empty slot and writes that
one back, or, where there is none, makes two writes: the freed block is first put into the
chain, or into the superblock in memory, and the second write comes too late.
`Disk.FreeTears` follows the search, and says where a failure tears the pool.

How many calls of the host there are depends on the empty slots of the nodes alone
(`callsToFill`), and so does what is left of them (`fillFirst`).  `FreeEnds` is how a call
may end on any host, from where its search stands: one lemma for each way the search goes
on, and `freeLoop_ends` by induction on the nodes to come.  Freeing several blocks is
`freePointers_ends`.
-/

open ByteCodec

namespace SimpleFileSystem

variable {F : Type}

/-! ## The empty slots of the nodes -/

/-- The empty slots of a node. -/
def Block.holes (b : Block) : ℕ :=
  63 - b.slots.length

/-- The calls of the host that freeing a block takes, by the empty slots of the nodes: the
nodes up to the first one with an empty slot are read and that one is written, and where
there is none two writes follow. -/
def callsToFill : List ℕ → ℕ
  | [] => 2
  | 0 :: holes => callsToFill holes + 1
  | (_ + 1) :: _ => 2

theorem callsToFill_pos (holes : List ℕ) : 0 < callsToFill holes := by
  induction holes using callsToFill.induct with
  | case1 => exact Nat.two_pos
  | case2 holes ih => exact Nat.succ_pos _
  | case3 h holes => exact Nat.two_pos

/-- The empty slots after a block is freed: one fewer in the first node that has any, or a
node more. -/
def fillFirst : List ℕ → List ℕ
  | [] => [63]
  | 0 :: holes => 0 :: fillFirst holes
  | (h + 1) :: holes => h :: holes

/-- The calls of the host that freeing so many blocks takes. -/
def callsToFree : ℕ → List ℕ → ℕ
  | 0, _ => 0
  | count + 1, holes => callsToFill holes + callsToFree count (fillFirst holes)

/-- The empty slots of the nodes of a chain. -/
def Disk.holes (d : Disk) (nodes : List UInt64) : List ℕ :=
  nodes.map fun n => Block.holes (d.block n.toNat)

@[simp] theorem Disk.holes_nil (d : Disk) : d.holes [] = [] := rfl

@[simp] theorem Disk.holes_cons (d : Disk) (n : UInt64) (nodes : List UInt64) :
    d.holes (n :: nodes) = Block.holes (d.block n.toNat) :: d.holes nodes := rfl

@[simp] theorem Disk.holes_append (d : Disk) (l l' : List UInt64) :
    d.holes (l ++ l') = d.holes l ++ d.holes l' :=
  List.map_append

theorem Disk.holes_congr {d d' : Disk} {nodes : List UInt64}
    (h : ∀ n ∈ nodes, d'.block n.toNat = d.block n.toNat) : d'.holes nodes = d.holes nodes :=
  List.map_congr_left fun n hn => by rw [h n hn]

namespace Block

variable {b : Block}

theorem length_slots_le (b : Block) : b.slots.length ≤ 63 := by
  have hle := List.length_filter_le (· ≠ 0) ((List.range' 1 63).map b.word)
  rwa [List.length_map, List.length_range'] at hle

@[simp] theorem holes_zero : Block.zero.holes = 63 := by
  rw [holes, slots_zero]
  rfl

/-- A node in which the search finds an empty slot has one. -/
theorem holes_of_findSlot {i : ℕ} (h : findSlot (· = 0) b = some i) {x : UInt64} (hx : x ≠ 0) :
    b.holes = (b.setWord i x).holes + 1 := by
  have hperm := (slots_setWord_of_findSlot h hx).length_eq
  have hle := length_slots_le (b.setWord i x)
  rw [holes, holes]
  rw [List.length_cons] at hperm
  omega

/-- A node in which it finds none is full. -/
theorem holes_eq_zero (h : findSlot (· = 0) b = none) : b.holes = 0 := by
  have hall : ((List.range' 1 63).map b.word).filter (· ≠ 0) = (List.range' 1 63).map b.word := by
    refine List.filter_eq_self.mpr fun x hx => ?_
    obtain ⟨i, hi, rfl⟩ := List.mem_map.mp hx
    simpa using findSlot_eq_none h hi
  rw [holes, slots, hall, List.length_map, List.length_range']

theorem holes_setWord_zero (b : Block) (x : UInt64) : (b.setWord 0 x).holes = b.holes := by
  rw [holes, slots_setWord_zero, holes]

end Block

/-- A new node at the end of a chain. -/
theorem Disk.holes_tail {d d' : Disk} {p : List UInt64} {n b : UInt64}
    (hsame : ∀ m ∈ p, d'.block m.toNat = d.block m.toNat)
    (hn : d'.block n.toNat = Block.setWord (d.block n.toNat) 0 b)
    (hb : d'.block b.toNat = Block.zero) : d'.holes (p ++ [n, b]) = d.holes (p ++ [n]) ++ [63] := by
  simp [Disk.holes_congr hsame, hn, hb, Block.holes_setWord_zero]

/-- A slot of a node filled. -/
theorem Disk.holes_slot {d d' : Disk} {p q : List UInt64} {n b : UInt64} {i : ℕ} (hb : b ≠ 0)
    (hsame : ∀ m ∈ p ++ q, d'.block m.toNat = d.block m.toNat)
    (hfind : findSlot (· = 0) (d.block n.toNat) = some i)
    (hn : d'.block n.toNat = Block.setWord (d.block n.toNat) i b) :
    d'.holes (p ++ n :: q) = d.holes p ++ fillFirst (d.holes (n :: q)) := by
  have hp := Disk.holes_congr fun m hm => hsame m (List.mem_append_left q hm)
  have hq := Disk.holes_congr fun m hm => hsame m (List.mem_append_right p hm)
  simp only [Disk.holes_append, Disk.holes_cons, hp, hq, hn, Block.holes_of_findSlot hfind hb,
    fillFirst]

/-! ## Freeing a block -/

/-- **A call of `sfs_fs_free_block` that tears the pool**, from where its search stands: the
calls of the host to come are `faults`, the node that was passed last is `prev`, and the
nodes to come are the list.  In the end a full write is followed by one that fails, and
before that only a torn node matters. -/
def Disk.FreeTears (d : Disk) (b : UInt64) : (ℕ → Fault) → Option UInt64 → List UInt64 → Prop
  | faults, prev, [] =>
    (faults 0).full = true ∧ (faults 1).full = false ∨
      ∃ n, prev = some n ∧
        (faults 0).Tears (d.block n.toNat) (Block.setWord (d.block n.toNat) 0 b)
  | faults, _, n :: nodes =>
    (faults 0).full = true ∧
      match findSlot (· = 0) (d.block n.toNat) with
      | some i => (faults 1).Tears (d.block n.toNat) (Block.setWord (d.block n.toNat) i b)
      | none => d.FreeTears b (fun i => faults (i + 1)) (some n) nodes

/-- A call that tears the pool is one of which a call of the host fails. -/
theorem Disk.FreeTears.exists_cut {d : Disk} {b : UInt64} (hb : b ≠ 0) {faults : ℕ → Fault}
    {prev : Option UInt64} {nodes : List UInt64} (h : d.FreeTears b faults prev nodes) :
    ∃ i < callsToFill (d.holes nodes), (faults i).full = false := by
  induction nodes generalizing faults prev with
  | nil =>
    rcases h with ⟨-, hcut⟩ | ⟨n, -, htears⟩
    · exact ⟨1, Nat.one_lt_two, hcut⟩
    · exact ⟨0, Nat.two_pos, htears.not_full⟩
  | cons n nodes ih =>
    rw [Disk.FreeTears] at h
    cases hfind : findSlot (· = 0) (d.block n.toNat) with
    | some i =>
      rw [hfind] at h
      refine ⟨1, ?_, h.2.not_full⟩
      rw [Disk.holes_cons, Block.holes_of_findSlot hfind hb]
      exact Nat.one_lt_two
    | none =>
      rw [hfind] at h
      obtain ⟨i, hi, hcut⟩ := ih h.2
      refine ⟨i + 1, ?_, hcut⟩
      rw [Disk.holes_cons, Block.holes_eq_zero hfind]
      exact Nat.succ_lt_succ hi

/-- How a call of `sfs_fs_free_block` may end, `p` being the nodes that its search has
passed and `q` those to come: the block is free, or nothing has happened, or the pool is
torn. -/
inductive FreeEnds (fs : Filesystem F) (b : UInt64) (p q : List UInt64) :
    ℤ → Filesystem F → Prop where
  | freed {fs' : Filesystem F} {nodes' : List UInt64}
      (full : ∀ i < callsToFill (fs.disk.holes q), (fs.host.faults i).full = true)
      (faults : fs'.host.faults = fun i => fs.host.faults (i + callsToFill (fs.disk.holes q)))
      (gets : PoolGets (fs.onHost Host.quiet) (p ++ q) b (fs'.onHost Host.quiet) nodes')
      (holes : fs'.disk.holes nodes' = fs.disk.holes p ++ fillFirst (fs.disk.holes q)) :
      FreeEnds fs b p q 0 fs'
  | refused {fs' : Filesystem F}
      (cut : ∃ i < callsToFill (fs.disk.holes q), (fs.host.faults i).full = false)
      (untorn : ¬ fs.disk.FreeTears b fs.host.faults p.getLast? q)
      (superblock : fs'.superblock = fs.superblock) (inodeCache : fs'.inodeCache = fs.inodeCache)
      (block : ∀ m, m ≠ b → fs'.disk.block m.toNat = fs.disk.block m.toNat) :
      FreeEnds fs b p q (-1) fs'
  | torn {fs' : Filesystem F}
      (tears : fs.disk.FreeTears b fs.host.faults p.getLast? q)
      (lost : ∀ nodes', FreeChain fs' nodes' →
        ¬ ∀ x, x ∈ poolOf fs'.disk nodes' ↔ x ∈ poolOf fs.disk (p ++ q)) :
      FreeEnds fs b p q (-1) fs'

section Free

variable {fs : Filesystem F} {nodes L p q : List UInt64} {b n : UInt64}

/-- **The end of the search**: the freed block is to be the node after the last one. -/
theorem freeBlockStep_last (h : PoolOk fs (p ++ [n])) (hb : fs.superblock.inRange b = true)
    (hfree : b ∉ poolOf fs.disk (p ++ [n])) :
    Run.Ensures (freeBlockStep b (0, n, fs.disk.block n.toNat)) fs fun r fs' =>
      ∃ ret, r = .inr ret ∧ FreeEnds fs b (p ++ [n]) [] ret fs' := by
  have hnode : n ∈ p ++ [n] := List.mem_append_right _ List.mem_cons_self
  have hheld : fs.disk.Holds n := h.holds (h.data n (mem_poolOf_of_mem hnode))
  have hb0 := Superblock.ne_zero_of_inRange h.table hb
  have hnb : n ≠ b := fun e => hfree (e ▸ mem_poolOf_of_mem hnode)
  have hnp : ∀ m ∈ p, m ≠ n := fun m hm =>
    (List.nodup_append.mp h.chain.linked.nodup).2.2 m hm n List.mem_cons_self
  have hpb : ∀ m ∈ p, m ≠ b := fun m hm e =>
    hfree (e ▸ mem_poolOf_of_mem (List.mem_append_left _ hm))
  set index := Block.setWord (fs.disk.block n.toNat) 0 b with hindex
  have hnext : index.word 0 = b := Block.word_setWord _ _ (by omega)
  have hlast : (p ++ [n]).getLast? = some n := List.getLast?_concat
  rw [freeBlockStep, if_pos rfl]
  cases hlink : (fs.host.faults 0).full with
  | false =>
    obtain ⟨ret, hwrite, hret⟩ := blockWrite_of_cut hlink n index
    refine ⟨.inr (-1), fs.wrote n index, ?_, -1, rfl, ?_⟩
    · rw [Run.run_bind, hwrite, Run.andThen_done, if_pos hret, Run.run_pure]
    by_cases htears : (fs.host.faults 0).Tears (fs.disk.block n.toNat) index
    · refine FreeEnds.torn (Or.inr ⟨n, hlast, htears⟩) fun nodes' hc' => ?_
      have hzero : (fs.disk.block n.toNat).word 0 = 0 := h.chain.linked.suffix.2.2
      have hword : ((fs.wrote n index).disk.block n.toNat).word 0 ≠
          (fs.disk.block n.toNat).word 0 := word_wrote_of_tears hheld htears
      rw [List.append_nil]
      exact pool_ne_of_next h.chain hc' rfl
        (fun m hm => block_wrote_of_ne hheld index (hnp m hm))
        (fun j hj => word_wrote_of_ne hheld 0 b hj) (hzero ▸ hword)
    · refine FreeEnds.refused ⟨0, Nat.two_pos, hlink⟩ ?_ rfl rfl fun m _ =>
        block_wrote_of_cut hheld hlink htears m
      rintro (⟨hfull, -⟩ | ⟨m, hm, htears'⟩)
      · exact Bool.false_ne_true (hlink.symm.trans hfull)
      · obtain rfl := Option.some.inj (hlast.symm.trans hm)
        exact htears htears'
  | true =>
    set fs₁ := fs.called.writeBlock n index with hfs₁
    have hbheld : fs₁.disk.Holds b := Filesystem.holds_writeBlock index hheld (h.holds hb)
    have hother : ∀ m ∈ p, fs₁.disk.block m.toNat = fs.disk.block m.toNat := fun m hm =>
      Filesystem.block_writeBlock_of_ne index hheld (toNat_ne_of_ne (hnp m hm).symm)
    have hwrite := blockWrite_of_full hheld hlink index
    cases hzero : (fs.host.faults 1).full with
    | false =>
      have hcut : (fs₁.host.faults 0).full = false := hzero
      obtain ⟨ret, hwrite', hret⟩ := blockWrite_of_cut hcut b Block.zero
      refine ⟨.inr (-1), fs₁.wrote b Block.zero, ?_, -1, rfl, ?_⟩
      · rw [Run.run_bind, hwrite, Run.andThen_done, if_neg (by simp), Run.run_bind, hwrite',
          Run.andThen_done, if_pos hret, Run.run_pure]
      have hblock : (fs₁.wrote b Block.zero).disk.block n.toNat = index := by
        rw [block_wrote_of_ne hbheld _ hnb, hfs₁, Filesystem.block_writeBlock]
      refine FreeEnds.torn (Or.inl ⟨hlink, hzero⟩) fun nodes' hc' => ?_
      rw [List.append_nil]
      refine pool_ne_of_next h.chain hc' rfl (fun m hm => ?_) (fun j hj => ?_) ?_
      · rw [block_wrote_of_ne hbheld _ (hpb m hm), hother m hm]
      · rw [hblock, hindex, Block.word_setWord_of_ne _ _ (Ne.symm hj)]
      · rw [hblock, hnext]
        exact hb0
    | true =>
      refine ⟨.inr 0, fs₁.called.writeBlock b Block.zero, ?_, 0, rfl, ?_⟩
      · rw [Run.run_bind, hwrite, Run.andThen_done, if_neg (by simp), Run.run_bind,
          blockWrite_of_full hbheld hzero, Run.andThen_done, if_neg (by simp), Run.run_pure]
      have hgets := poolGets_tail h.quiet (h.onHost Host.quiet).chain hb0
        (Superblock.lt_of_inRange hb) hfree
      refine FreeEnds.freed (fun i hi => ?_) rfl (by rw [List.append_nil]; exact hgets) ?_
      · have hi2 : i < 2 := hi
        obtain rfl | rfl : i = 0 ∨ i = 1 := by omega
        · exact hlink
        · exact hzero
      have hbheld' : fs₁.called.disk.Holds b := hbheld
      refine Disk.holes_tail (fun m hm => ?_) ?_ (Filesystem.block_writeBlock _ _ _)
      · rw [Filesystem.block_writeBlock_of_ne _ hbheld' (toNat_ne_of_ne (hpb m hm).symm)]
        exact hother m hm
      · rw [Filesystem.block_writeBlock_of_ne _ hbheld' (toNat_ne_of_ne hnb.symm)]
        exact Filesystem.block_writeBlock _ _ _

/-- **A node with an empty slot** ends the search. -/
theorem freeBlockStep_slot {i : ℕ} {prev : UInt64} {buffer : Block} (h : PoolOk fs (p ++ n :: q))
    (hb : fs.superblock.inRange b = true) (hfree : b ∉ poolOf fs.disk (p ++ n :: q))
    (hread : (fs.host.faults 0).full = true)
    (hfind : findSlot (· = 0) (fs.disk.block n.toNat) = some i) :
    Run.Ensures (freeBlockStep b (n, prev, buffer)) fs fun r fs' =>
      ∃ ret, r = .inr ret ∧ FreeEnds fs b p (n :: q) ret fs' := by
  have hnode : n ∈ p ++ n :: q := List.mem_append_right _ List.mem_cons_self
  have hheld : fs.disk.Holds n := h.holds (h.data n (mem_poolOf_of_mem hnode))
  have hb0 := Superblock.ne_zero_of_inRange h.table hb
  have hn0 : n ≠ 0 := h.chain.linked.ne_nil_of_mem hnode
  have hnodup := List.nodup_cons.mp (List.nodup_middle.mp h.chain.linked.nodup)
  have hne : ∀ m ∈ p ++ q, m ≠ n := fun m hm e => hnodup.1 (e ▸ hm)
  obtain ⟨-, hi, hlt, -⟩ := findSlot_split hfind
  set index := Block.setWord (fs.disk.block n.toNat) i b with hindex
  have hcalls : callsToFill (fs.disk.holes (n :: q)) = 2 := by
    rw [Disk.holes_cons, Block.holes_of_findSlot hfind hb0, callsToFill]
  have htearsIff : fs.disk.FreeTears b fs.host.faults p.getLast? (n :: q) ↔
      (fs.host.faults 1).Tears (fs.disk.block n.toNat) index := by
    rw [Disk.FreeTears, hfind]
    exact ⟨fun htears => htears.2, fun htears => ⟨hread, htears⟩⟩
  have hstart : (freeBlockStep b (n, prev, buffer)).run fs =
      (do
        if (← blockWrite n index) ≠ 512 then return .inr (-1)
        return .inr 0 : Fs F ((UInt64 × UInt64 × Block) ⊕ ℤ)).run fs.called := by
    rw [freeBlockStep, if_neg hn0, Run.run_bind, blockRead_of_full hheld hread, Run.andThen_done]
    dsimp only
    rw [if_neg (by simp), hfind]
  rw [Run.run_bind] at hstart
  cases hwrite : (fs.host.faults 1).full with
  | false =>
    have hcut : (fs.called.host.faults 0).full = false := hwrite
    obtain ⟨ret, hdone, hret⟩ := blockWrite_of_cut hcut n index
    rw [hdone, Run.andThen_done, if_pos hret, Run.run_pure] at hstart
    refine Run.Ensures.of_eq hstart ⟨-1, rfl, ?_⟩
    have hheld' : fs.called.disk.Holds n := hheld
    by_cases htears : (fs.host.faults 1).Tears (fs.disk.block n.toNat) index
    · refine FreeEnds.torn (htearsIff.mpr htears) fun nodes' hc' => ?_
      exact pool_ne_of_slot h.chain hc' rfl
        (fun m hm => block_wrote_of_ne hheld' index (hne m hm)) hi hlt
        (fun j hj => word_wrote_of_ne hheld' i b hj) (word_wrote_of_tears hheld' htears)
    · refine FreeEnds.refused ⟨1, by rw [hcalls]; exact Nat.one_lt_two, hwrite⟩
        (fun htears' => htears (htearsIff.mp htears')) rfl rfl fun m _ => ?_
      exact block_wrote_of_cut hheld' hwrite htears m
  | true =>
    have hheld' : fs.called.disk.Holds n := hheld
    rw [blockWrite_of_full hheld' hwrite, Run.andThen_done, if_neg (by simp),
      Run.run_pure] at hstart
    refine Run.Ensures.of_eq hstart ⟨0, rfl, ?_⟩
    refine FreeEnds.freed (fun j hj => ?_) ?_ (poolGets_slot h.quiet (h.onHost Host.quiet).chain hb0
      (Superblock.lt_of_inRange hb) hfree hfind) ?_
    · rw [hcalls] at hj
      obtain rfl | rfl : j = 0 ∨ j = 1 := by omega
      · exact hread
      · exact hwrite
    · rw [hcalls]
      rfl
    · refine Disk.holes_slot hb0 (fun m hm => ?_) hfind (Filesystem.block_writeBlock _ _ _)
      exact Filesystem.block_writeBlock_of_ne _ hheld (toNat_ne_of_ne (hne m hm).symm)

/-- **A full node** is passed. -/
theorem FreeEnds.of_called {ret : ℤ} {fs' : Filesystem F} (hread : (fs.host.faults 0).full = true)
    (hfind : findSlot (· = 0) (fs.disk.block n.toNat) = none)
    (h : FreeEnds fs.called b (p ++ [n]) q ret fs') : FreeEnds fs b p (n :: q) ret fs' := by
  have hcalls : callsToFill (fs.disk.holes (n :: q)) = callsToFill (fs.disk.holes q) + 1 := by
    rw [Disk.holes_cons, Block.holes_eq_zero hfind, callsToFill]
  have hsplit : p ++ n :: q = p ++ [n] ++ q := by rw [List.append_assoc, List.singleton_append]
  have htearsIff : fs.disk.FreeTears b fs.host.faults p.getLast? (n :: q) ↔
      fs.called.disk.FreeTears b fs.called.host.faults (p ++ [n]).getLast? q := by
    rw [Disk.FreeTears, hfind, List.getLast?_concat]
    exact ⟨fun htears => htears.2, fun htears => ⟨hread, htears⟩⟩
  cases h with
  | freed full faults gets holes =>
    refine FreeEnds.freed (fun i hi => ?_) ?_ (by rw [hsplit]; exact gets) ?_
    · rw [hcalls] at hi
      cases i with
      | zero => exact hread
      | succ i => exact full i (Nat.lt_of_succ_lt_succ hi)
    · rw [hcalls]
      exact faults
    · rw [holes, Disk.holes_cons, Block.holes_eq_zero hfind, fillFirst, Disk.holes_append,
        Disk.holes_cons, Disk.holes_nil]
      show fs.disk.holes p ++ [Block.holes (fs.disk.block n.toNat)] ++ _ = _
      rw [Block.holes_eq_zero hfind, List.append_assoc]
      rfl
  | refused cut untorn superblock inodeCache block =>
    obtain ⟨i, hi, hcut⟩ := cut
    exact FreeEnds.refused ⟨i + 1, by rw [hcalls]; exact Nat.succ_lt_succ hi, hcut⟩
      (fun htears => untorn (htearsIff.mp htears)) superblock inodeCache block
  | torn tears lost =>
    refine FreeEnds.torn (htearsIff.mpr tears) fun nodes' hc' => ?_
    rw [hsplit]
    exact lost nodes' hc'

/-- **The search of `sfs_fs_free_block`**, from where it stands. -/
theorem freeLoop_ends (hb : fs.superblock.inRange b = true) {w : UInt64 × UInt64 × Block}
    {fuel : ℕ} (h : PoolOk fs (p ++ q)) (hne : p ++ q ≠ []) (hfree : b ∉ poolOf fs.disk (p ++ q))
    (hw : FreeWalk fs p q w) (hfuel : q.length < fuel) :
    Run.Ensures (Run.loop (freeBlockStep b) fuel w) fs (FreeEnds fs b p q) := by
  induction q generalizing fs p w fuel with
  | nil =>
    obtain ⟨fuel, rfl⟩ := Nat.exists_eq_succ_of_ne_zero (Nat.ne_of_gt hfuel)
    rw [List.append_nil] at h hne hfree
    obtain ⟨r, n, rfl⟩ : ∃ r n, p = r ++ [n] :=
      ⟨p.dropLast, p.getLast hne, (List.dropLast_append_getLast hne).symm⟩
    obtain ⟨node, prev, index⟩ := w
    obtain ⟨rfl, rfl⟩ : prev = n ∧ index = fs.disk.block n.toNat := hw.last r n rfl
    obtain rfl : node = 0 := hw.linked
    refine (freeBlockStep_last h hb hfree).bind ?_
    rintro _ fs' ⟨ret, rfl, hends⟩
    exact Run.ensures_pure hends
  | cons n q ih =>
    obtain ⟨fuel, rfl⟩ := Nat.exists_eq_succ_of_ne_zero (Nat.ne_of_gt (Nat.lt_of_le_of_lt
      (Nat.zero_le _) hfuel))
    obtain ⟨node, prev, index⟩ := w
    obtain ⟨hnode, hn0, hq⟩ := hw.linked
    obtain rfl : node = n := hnode
    have hmem : node ∈ p ++ node :: q := List.mem_append_right _ List.mem_cons_self
    have hheld : fs.disk.Holds node := h.holds (h.data node (mem_poolOf_of_mem hmem))
    cases hread : (fs.host.faults 0).full with
    | false =>
      obtain ⟨⟨ret, data⟩, hrun, hret⟩ := blockRead_of_cut hread node index
      have hstep : (freeBlockStep b (node, prev, index)).run fs = .done (.inr (-1)) fs.called := by
        rw [freeBlockStep, if_neg hn0, Run.run_bind, hrun, Run.andThen_done]
        dsimp only
        rw [if_pos hret, Run.run_pure]
      refine Run.Ensures.of_eq (Run.loop_succ_of_inr hstep) (FreeEnds.refused ⟨0, ?_, hread⟩ ?_ rfl
        rfl fun _ _ => rfl)
      · exact callsToFill_pos _
      · exact fun htears => Bool.false_ne_true (hread.symm.trans htears.1)
    | true =>
      cases hfind : findSlot (· = 0) (fs.disk.block node.toNat) with
      | some i =>
        refine (freeBlockStep_slot h hb hfree hread hfind).bind ?_
        rintro _ fs' ⟨ret, rfl, hends⟩
        exact Run.ensures_pure hends
      | none =>
        have hstep : (freeBlockStep b (node, prev, index)).run fs =
            .done (.inl (Block.word (fs.disk.block node.toNat) 0, node, fs.disk.block node.toNat))
              fs.called := by
          rw [freeBlockStep, if_neg hn0, Run.run_bind, blockRead_of_full hheld hread,
            Run.andThen_done]
          dsimp only
          rw [if_neg (by simp), hfind, Run.run_pure]
        have hsplit : p ++ node :: q = p ++ [node] ++ q := by
          rw [List.append_assoc, List.singleton_append]
        rw [hsplit] at h hne hfree
        have hw' : FreeWalk fs.called (p ++ [node]) q
            (Block.word (fs.disk.block node.toNat) 0, node, fs.disk.block node.toNat) := by
          refine ⟨hq, fun r m hrm => ?_⟩
          obtain ⟨-, hm⟩ := List.append_inj' hrm rfl
          obtain rfl := List.singleton_inj.mp hm
          exact ⟨rfl, rfl⟩
        have h' : PoolOk fs.called (p ++ [node] ++ q) := h.onHost fs.called.host
        have hb' : fs.called.superblock.inRange b = true := hb
        obtain ⟨ret, fs', hrun, hends⟩ := ih hb' h' hne hfree hw' (Nat.lt_of_succ_lt_succ hfuel)
        refine Run.Ensures.of_eq ?_ (hends.of_called hread hfind)
        rw [Run.loop_succ_of_inl hstep, hrun]

/-- The freed block as the only node: it is in memory when the superblock is written. -/
theorem freeBlock_first (h : PoolOk fs []) (hb : fs.superblock.inRange b = true) :
    Run.Ensures (do
      if (← blockWrite b Block.zero) ≠ 512 then return -1
      setFreeBlocksHead b
      if (← syncSuperblock) ≠ 0 then return -1
      return 0 : Fs F ℤ) fs (FreeEnds fs b [] []) := by
  have hheld := h.holds hb
  have hb0 := Superblock.ne_zero_of_inRange h.table hb
  cases hzero : (fs.host.faults 0).full with
  | false =>
    obtain ⟨ret, hwrite, hret⟩ := blockWrite_of_cut hzero b Block.zero
    refine ⟨-1, fs.wrote b Block.zero, ?_, FreeEnds.refused ⟨0, Nat.two_pos, hzero⟩ ?_ rfl rfl
      fun m hm => block_wrote_of_ne hheld _ hm⟩
    · rw [Run.run_bind, hwrite, Run.andThen_done, if_pos hret, Run.run_pure]
    · rintro (⟨hfull, -⟩ | ⟨m, hm, -⟩)
      · exact Bool.false_ne_true (hzero.symm.trans hfull)
      · exact nomatch hm
  | true =>
    have hwrite := blockWrite_of_full hheld hzero Block.zero
    set fs₁ := fs.called.writeBlock b Block.zero with hfs₁
    set fs₂ : Filesystem F :=
      { fs₁ with superblock := { fs₁.superblock with freeBlocksHead := b } } with hfs₂
    have hset : (setFreeBlocksHead b : Fs F Unit).run fs₁ = .done () fs₂ := rfl
    have hheld₂ : fs₂.disk.Holds 0 := Filesystem.holds_writeBlock Block.zero hheld h.holds_zero
    cases hsync : (fs.host.faults 1).full with
    | false =>
      have hcut : (fs₂.host.faults 0).full = false := hsync
      refine ⟨-1, fs₂.wrote 0 (Block.zero.setSuperblock fs₂.superblock), ?_,
        FreeEnds.torn (Or.inl ⟨hzero, hsync⟩) fun nodes' hc' hpool => ?_⟩
      · rw [Run.run_bind, hwrite, Run.andThen_done, if_neg (by simp), Run.run_bind, hset,
          Run.andThen_done, Run.run_bind, syncSuperblock_of_cut hcut, Run.andThen_done,
          if_pos (by decide), Run.run_pure]
      cases nodes' with
      | nil => exact hb0 hc'.linked
      | cons n ns => exact List.not_mem_nil ((hpool n).mp (mem_poolOf_of_mem List.mem_cons_self))
    | true =>
      refine ⟨0, fs₂.called.synced, ?_, FreeEnds.freed (fun i hi => ?_) rfl
        (poolGets_first h.quiet (h.onHost Host.quiet).chain hb0 (Superblock.lt_of_inRange hb)) ?_⟩
      · rw [Run.run_bind, hwrite, Run.andThen_done, if_neg (by simp), Run.run_bind, hset,
          Run.andThen_done, Run.run_bind, syncSuperblock_of_full hheld₂ hsync,
          Run.andThen_done, if_neg (by decide), Run.run_pure]
      · have hi2 : i < 2 := hi
        obtain rfl | rfl : i = 0 ∨ i = 1 := by omega
        · exact hzero
        · exact hsync
      · have hblock : fs₂.called.synced.disk.block b.toNat = Block.zero := by
          refine (Filesystem.block_writeBlock_of_ne _ ?_ (toNat_ne_of_ne hb0.symm)).trans ?_
          · exact hheld₂
          · exact Filesystem.block_writeBlock _ _ _
        simp [hblock, fillFirst]

/-- **`sfs_fs_free_block`** on any host. -/
theorem sfsFsFreeBlock_ends (h : PoolOk fs nodes) (hb : fs.superblock.inRange b = true)
    (hfree : b ∉ poolOf fs.disk nodes) :
    Run.Ensures (sfsFsFreeBlock b) fs (FreeEnds fs b [] nodes) := by
  rw [sfsFsFreeBlock]
  cases nodes with
  | nil =>
    have h0 : fs.superblock.freeBlocksHead = 0 := h.chain.linked
    refine Run.Ensures.bind (P := fun s t => fs = s ∧ fs = t) ⟨fs, fs, rfl, rfl, rfl⟩ ?_
    rintro _ _ ⟨rfl, rfl⟩
    rw [if_pos h0]
    exact freeBlock_first h hb
  | cons n ns =>
    have hhead : fs.superblock.freeBlocksHead = n := h.chain.linked.1
    have h0 : fs.superblock.freeBlocksHead ≠ 0 := hhead ▸ h.chain.linked.2.1
    have hw : FreeWalk fs [] (n :: ns) (fs.superblock.freeBlocksHead, 0, Block.zero) :=
      ⟨h.chain.linked, fun r m hrm => absurd hrm (by simp)⟩
    obtain ⟨ret, fs', hrun, hends⟩ :=
      freeLoop_ends hb h (List.cons_ne_nil n ns) hfree hw h.chain.length_lt
    refine Run.Ensures.of_eq ?_ hends
    rw [Run.run_bind, Run.run_get, Run.andThen_done, if_neg h0, hrun]

/-- **`sfs_fs_free_block` fails cleanly** unless it tears the pool. -/
theorem freeBlock_failsCleanly_iff (h : FreeLists fs nodes L) (hb : fs.BlockInUse b) :
    FailsCleanly fs nodes L (sfsFsFreeBlock b) (-1) ↔
      ¬ fs.disk.FreeTears b fs.host.faults none nodes := by
  obtain ⟨ret, fs', hrun, hends⟩ := sfsFsFreeBlock_ends h.poolOk hb.1 (hb.2 nodes h.chain)
  rw [failsCleanly_iff hrun]
  cases hends with
  | freed full =>
    refine ⟨fun _ htears => ?_, fun _ hfailed => absurd hfailed (by decide)⟩
    obtain ⟨i, hi, hcut⟩ := htears.exists_cut (Superblock.ne_zero_of_inRange h.poolOk.table hb.1)
    exact Bool.false_ne_true (hcut.symm.trans (full i hi))
  | refused cut untorn superblock inodeCache block =>
    refine ⟨fun _ => untorn, fun _ _ => h.same_of_blocks superblock inodeCache fun m hm => ?_⟩
    refine block m ?_
    rintro rfl
    rcases hm with hm | hm
    · exact hb.2 nodes h.chain (mem_poolOf_of_mem hm)
    · exact Superblock.notInTable_of_inRange h.poolOk.table hb.1 hm
  | torn tears lost =>
    refine ⟨fun hsame => ?_, fun htears => absurd tears htears⟩
    obtain ⟨⟨nodes', hc', hpool⟩, -⟩ := hsame rfl
    exact absurd hpool (lost nodes' hc')

/-- What one block more makes of the pool. -/
theorem PoolOk.of_gets {fs' : Filesystem F} {nodes' : List UInt64} (h : PoolOk fs nodes)
    (hb : fs.superblock.inRange b = true)
    (hgets : PoolGets (fs.onHost Host.quiet) nodes b (fs'.onHost Host.quiet) nodes') :
    PoolOk fs' nodes' where
  covers := by
    have hsize : fs'.disk.size = fs.disk.size := hgets.frame.size
    have hblocks : fs'.superblock.blocks = fs.superblock.blocks := hgets.frame.blocks
    rw [hsize, hblocks]
    exact h.covers
  addressable := by
    have hsize : fs'.disk.size = fs.disk.size := hgets.frame.size
    rw [hsize]
    exact h.addressable
  table := by
    have hblocks : fs'.superblock.blocks = fs.superblock.blocks := hgets.frame.blocks
    have htable : fs'.superblock.inodeTableBlocks = fs.superblock.inodeTableBlocks :=
      hgets.frame.inodeTableBlocks
    rw [hblocks, htable]
    exact h.table
  chain := ⟨hgets.chain.linked, hgets.chain.nodup, hgets.chain.inDisk⟩
  data x hx := by
    have hrange : fs'.superblock.inRange = fs.superblock.inRange :=
      Superblock.inRange_congr hgets.frame.inodeTableBlocks hgets.frame.blocks
    rw [hrange]
    rcases List.mem_cons.mp (hgets.perm.mem_iff.mp hx) with rfl | hx
    · exact hb
    · exact h.data x hx

end Free

/-! ## Freeing several blocks -/

section FreePointers

variable {fs : Filesystem F} {nodes ps : List UInt64}

/-- **The loop over the direct pointers** returns 0 exactly if none of its calls of the host
fails. -/
theorem freePointers_ends (h : PoolOk fs nodes) (hdistinct : (ps.filter (· ≠ 0)).Nodup)
    (hdata : ∀ b ∈ ps.filter (· ≠ 0), fs.superblock.inRange b = true)
    (hused : ∀ b ∈ ps.filter (· ≠ 0), b ∉ poolOf fs.disk nodes) :
    Run.Ensures (freePointers ps) fs fun ret _ =>
      ret = 0 ∧ (∀ i < callsToFree (ps.filter (· ≠ 0)).length (fs.disk.holes nodes),
        (fs.host.faults i).full = true) ∨
      ret = -1 ∧ ∃ i < callsToFree (ps.filter (· ≠ 0)).length (fs.disk.holes nodes),
        (fs.host.faults i).full = false := by
  induction ps generalizing fs nodes with
  | nil => exact Run.ensures_pure (Or.inl ⟨rfl, fun i hi => absurd hi (Nat.not_lt_zero i)⟩)
  | cons p ps ih =>
    rw [freePointers]
    by_cases h0 : p = 0
    · rw [if_pos h0]
      rw [List.filter_cons_of_neg (by simp [h0])] at hdistinct hdata hused ⊢
      exact ih h hdistinct hdata hused
    rw [if_neg h0]
    rw [List.filter_cons_of_pos (by simp [h0])] at hdistinct hdata hused ⊢
    obtain ⟨hnot, hrest⟩ := List.nodup_cons.mp hdistinct
    have hp := hdata p List.mem_cons_self
    rw [List.length_cons, callsToFree]
    refine (sfsFsFreeBlock_ends h hp (hused p List.mem_cons_self)).bind fun ret fs' hends => ?_
    cases hends with
    | @freed _ nodes' full faults gets holes =>
      rw [if_neg (by simp)]
      have hrange : fs'.superblock.inRange = fs.superblock.inRange :=
        Superblock.inRange_congr gets.frame.inodeTableBlocks gets.frame.blocks
      refine (ih (h.of_gets hp gets) hrest (fun b hb => ?_) fun b hb hmem => ?_).mono
        fun ret _ hret => ?_
      · rw [hrange]
        exact hdata b (List.mem_cons_of_mem p hb)
      · rcases List.mem_cons.mp (gets.perm.mem_iff.mp hmem) with rfl | hmem
        · exact hnot hb
        · exact hused b (List.mem_cons_of_mem p hb) hmem
      rw [holes, Disk.holes_nil, List.nil_append, faults] at hret
      rcases hret with ⟨hret, hfull⟩ | ⟨hret, i, hi, hcut⟩
      · refine Or.inl ⟨hret, fun i hi => ?_⟩
        by_cases hlt : i < callsToFill (fs.disk.holes nodes)
        · exact full i hlt
        · have hsum := hfull (i - callsToFill (fs.disk.holes nodes)) (by omega)
          dsimp only at hsum
          rwa [Nat.sub_add_cancel (Nat.not_lt.mp hlt)] at hsum
      · exact Or.inr ⟨hret, _, by omega, hcut⟩
    | refused cut =>
      obtain ⟨i, hi, hcut⟩ := cut
      exact Run.ensures_pure (Or.inr ⟨rfl, i, Nat.lt_add_right _ hi, hcut⟩)
    | torn tears =>
      obtain ⟨i, hi, hcut⟩ := tears.exists_cut (Superblock.ne_zero_of_inRange h.table hp)
      exact Run.ensures_pure (Or.inr ⟨rfl, i, Nat.lt_add_right _ hi, hcut⟩)

/-- Freeing blocks leaves the free inodes alone. -/
theorem keeps_inodeHead_sfsFsFreeBlock (b : UInt64) :
    Run.Keeps (fun fs : Filesystem F => fs.superblock.freeInodeHead) (sfsFsFreeBlock b) := by
  have hread : ∀ n block, Run.Keeps (fun fs : Filesystem F => fs.superblock.freeInodeHead)
      (blockRead n block) := by
    intro n block fs a fs' hrun
    rw [blockRead_run] at hrun
    cases hrun
    rfl
  have hwrite : ∀ n block, Run.Keeps (fun fs : Filesystem F => fs.superblock.freeInodeHead)
      (blockWrite n block) := by
    intro n block fs a fs' hrun
    rw [blockWrite_run] at hrun
    cases hrun
    rfl
  have hsync : Run.Keeps (fun fs : Filesystem F => fs.superblock.freeInodeHead) syncSuperblock :=
    Run.keeps_get.bind fun _ => (hwrite _ _).bind fun _ =>
      (Run.keeps_pure _).ite (Run.keeps_pure _)
  have hstep : ∀ w, Run.Keeps (fun fs : Filesystem F => fs.superblock.freeInodeHead)
      (freeBlockStep b w) := by
    rintro ⟨node, prev, index⟩
    refine Run.Keeps.ite ?_ ?_
    · exact (hwrite _ _).bind fun _ => (Run.keeps_pure _).ite ((hwrite _ _).bind fun _ =>
        (Run.keeps_pure _).ite (Run.keeps_pure _))
    · refine (hread _ _).bind fun r => (Run.keeps_pure _).ite ?_
      split
      · exact (hwrite _ _).bind fun _ => (Run.keeps_pure _).ite (Run.keeps_pure _)
      · exact Run.keeps_pure _
  refine Run.keeps_get.bind fun fs => Run.Keeps.ite ?_ (Run.Keeps.loop hstep _ _)
  refine (hwrite _ _).bind fun _ => (Run.keeps_pure _).ite ?_
  have hset : Run.Keeps (fun fs : Filesystem F => fs.superblock.freeInodeHead)
      (setFreeBlocksHead b) := Run.keeps_modify fun _ => by rfl
  exact hset.bind fun _ => hsync.bind fun _ => (Run.keeps_pure _).ite (Run.keeps_pure _)

theorem keeps_inodeHead_freePointers (ps : List UInt64) :
    Run.Keeps (fun fs : Filesystem F => fs.superblock.freeInodeHead) (freePointers ps) := by
  induction ps with
  | nil => exact Run.keeps_pure _
  | cons p ps ih =>
    refine Run.Keeps.ite ih ((keeps_inodeHead_sfsFsFreeBlock p).bind fun _ => ?_)
    exact (Run.keeps_pure _).ite ih

end FreePointers

end SimpleFileSystem
