import Mathlib.Data.Nat.ModEq
import Mathlib.Tactic.Ring

/-!
# Fixed-width binary codecs

A C program lays a record out in memory by casting a pointer to a byte buffer and
storing the fields one after the other.  This file is that, as a calculus: a
`Codec α` says how many bytes a value of `α` takes, what they are, and how to read
the value back, and it carries the proof that reading back what was written returns
it.  Codecs compose --- `pair` puts one after the other, `array` repeats one, `map`
changes the type --- so the round trip of a record is the round trip of its fields
and is never proved twice.

Bytes are addressed by `ℕ → UInt8`, so a codec never speaks about lengths.  A buffer
of a fixed length is a function on `Fin n`; `get` and `put` place a codec at an
offset of a buffer, and the two laws that the rest of a development uses are

* `get_put`: what was put at an offset is what is read there, and
* `get_put_of_disjoint`: putting at an offset does not disturb a value that is read
  from bytes elsewhere.
-/

namespace ByteCodec

/-! ## Little-endian numbers -/

/-- The number whose little-endian bytes are the first `w` bytes of `m`. -/
def leNat : ℕ → (ℕ → UInt8) → ℕ
  | 0, _ => 0
  | w + 1, m => (m 0).toNat + 256 * leNat w (fun i => m (i + 1))

/-- The byte of weight `256 ^ i` of `n`. -/
def leByte (n i : ℕ) : UInt8 :=
  UInt8.ofNat (n / 256 ^ i)

theorem leNat_congr {w : ℕ} {m m' : ℕ → UInt8} (h : ∀ i < w, m i = m' i) :
    leNat w m = leNat w m' := by
  induction w generalizing m m' with
  | zero => rfl
  | succ w ih =>
    rw [leNat, leNat, h 0 (Nat.succ_pos w), ih fun i hi => h (i + 1) (Nat.succ_lt_succ hi)]

theorem leByte_succ (n i : ℕ) : leByte n (i + 1) = leByte (n / 256) i := by
  rw [leByte, leByte, Nat.pow_succ, Nat.mul_comm, Nat.div_div_eq_div_mul]

/-- **Reading back the bytes of a number** returns it, up to the width read. -/
theorem leNat_leByte (w n : ℕ) : leNat w (leByte n) = n % 256 ^ w := by
  induction w generalizing n with
  | zero => simp [leNat, Nat.mod_one]
  | succ w ih =>
    have hhead : (leByte n 0).toNat = n % 256 := by simp [leByte]
    have htail : (fun i => leByte n (i + 1)) = leByte (n / 256) :=
      funext fun i => leByte_succ n i
    rw [leNat, hhead, htail, ih, Nat.pow_succ, Nat.mul_comm (256 ^ w), Nat.mod_mul]

theorem leNat_lt (w : ℕ) (m : ℕ → UInt8) : leNat w m < 256 ^ w := by
  induction w generalizing m with
  | zero => exact Nat.one_pos
  | succ w ih =>
    have hhead := (m 0).toNat_lt
    have htail := ih fun i => m (i + 1)
    rw [leNat, Nat.pow_succ]
    omega

theorem leNat_eq_zero {w : ℕ} {m : ℕ → UInt8} : leNat w m = 0 ↔ ∀ i < w, m i = 0 := by
  induction w generalizing m with
  | zero => simp [leNat]
  | succ w ih =>
    rw [leNat, Nat.add_eq_zero_iff, Nat.mul_eq_zero, ih]
    constructor
    · rintro ⟨hhead, htail⟩ i hi
      cases i with
      | zero => exact UInt8.toNat_inj.mp hhead
      | succ i => exact htail.resolve_left (by decide) i (Nat.lt_of_succ_lt_succ hi)
    · intro h
      exact ⟨congrArg UInt8.toNat (h 0 (Nat.succ_pos w)),
        Or.inr fun i hi => h (i + 1) (Nat.succ_lt_succ hi)⟩

/-- **A number has one spelling** of each width. -/
theorem leNat_inj {w : ℕ} {m m' : ℕ → UInt8} (h : leNat w m = leNat w m') :
    ∀ i < w, m i = m' i := by
  induction w generalizing m m' with
  | zero => exact fun i hi => absurd hi (Nat.not_lt_zero i)
  | succ w ih =>
    rw [leNat, leNat] at h
    have hm := (m 0).toNat_lt
    have hm' := (m' 0).toNat_lt
    have hhead : (m 0).toNat = (m' 0).toNat := by omega
    have htail : ∀ i < w, m (i + 1) = m' (i + 1) := ih (by omega)
    intro i hi
    cases i with
    | zero => exact UInt8.toNat_inj.mp hhead
    | succ i => exact htail i (Nat.lt_of_succ_lt_succ hi)

/-! ## Codecs -/

/-- A fixed-width binary representation of `α`: `width` bytes, read back exactly. -/
structure Codec (α : Type) where
  /-- How many bytes a value takes. -/
  width : ℕ
  /-- The bytes of a value; only those below `width` matter. -/
  encode : α → ℕ → UInt8
  /-- The value that the bytes at the front of a memory spell. -/
  decode : (ℕ → UInt8) → α
  /-- Only the first `width` bytes are read. -/
  decode_congr : ∀ m m', (∀ i < width, m i = m' i) → decode m = decode m'
  /-- Reading back what was written. -/
  decode_encode : ∀ a, decode (encode a) = a

namespace Codec

variable {α β : Type}

theorem decode_of_eq (c : Codec α) {m : ℕ → UInt8} {a : α}
    (h : ∀ i < c.width, m i = c.encode a i) : c.decode m = a := by
  rw [c.decode_congr m (c.encode a) h, c.decode_encode]

/-- One byte. -/
def byte : Codec UInt8 where
  width := 1
  encode a _ := a
  decode m := m 0
  decode_congr _ _ h := h 0 Nat.one_pos
  decode_encode _ := rfl

/-- A 64-bit word, little endian. -/
def uint64 : Codec UInt64 where
  width := 8
  encode a := leByte a.toNat
  decode m := UInt64.ofNat (leNat 8 m)
  decode_congr m m' h := by rw [leNat_congr h]
  decode_encode a := by
    rw [leNat_leByte, Nat.mod_eq_of_lt (by simpa using a.toNat_lt), UInt64.ofNat_toNat]

theorem uint64_decode_eq_zero {m : ℕ → UInt8} : uint64.decode m = 0 ↔ ∀ i < 8, m i = 0 := by
  have hlt : leNat 8 m < 2 ^ 64 := leNat_lt 8 m
  rw [← leNat_eq_zero, ← UInt64.toNat_inj]
  show (UInt64.ofNat (leNat 8 m)).toNat = 0 ↔ _
  rw [UInt64.toNat_ofNat_of_lt' hlt]

theorem uint64_decode_inj {m m' : ℕ → UInt8} (h : uint64.decode m = uint64.decode m') :
    ∀ i < 8, m i = m' i := by
  have hlt : leNat 8 m < 2 ^ 64 := leNat_lt 8 m
  have hlt' : leNat 8 m' < 2 ^ 64 := leNat_lt 8 m'
  refine leNat_inj ?_
  have hnat : (UInt64.ofNat (leNat 8 m)).toNat = (UInt64.ofNat (leNat 8 m')).toNat :=
    congrArg UInt64.toNat h
  rwa [UInt64.toNat_ofNat_of_lt' hlt, UInt64.toNat_ofNat_of_lt' hlt'] at hnat

/-- A 32-bit word, little endian. -/
def uint32 : Codec UInt32 where
  width := 4
  encode a := leByte a.toNat
  decode m := UInt32.ofNat (leNat 4 m)
  decode_congr m m' h := by rw [leNat_congr h]
  decode_encode a := by
    rw [leNat_leByte, Nat.mod_eq_of_lt (by simpa using a.toNat_lt), UInt32.ofNat_toNat]

/-- One value after another, with no padding. -/
def pair (c : Codec α) (d : Codec β) : Codec (α × β) where
  width := c.width + d.width
  encode p i := if i < c.width then c.encode p.1 i else d.encode p.2 (i - c.width)
  decode m := (c.decode m, d.decode fun i => m (c.width + i))
  decode_congr m m' h := by
    rw [c.decode_congr m m' fun i hi => h i (Nat.lt_add_right _ hi),
      d.decode_congr _ _ fun i hi => h (c.width + i) (Nat.add_lt_add_left hi _)]
  decode_encode p := by
    refine Prod.ext (c.decode_of_eq fun i hi => if_pos hi) (d.decode_of_eq fun i _ => ?_)
    show (if c.width + i < c.width then _ else _) = _
    rw [if_neg (by omega), Nat.add_sub_cancel_left]

/-- `n` values, one after another. -/
def array (n : ℕ) (c : Codec α) : Codec (Fin n → α) where
  width := n * c.width
  encode v i := if h : i / c.width < n then c.encode (v ⟨i / c.width, h⟩) (i % c.width) else 0
  decode m j := c.decode fun i => m (c.width * j + i)
  decode_congr m m' h := by
    funext j
    refine c.decode_congr _ _ fun i hi => h _ ?_
    calc c.width * j + i < c.width * j + c.width := Nat.add_lt_add_left hi _
      _ = (j + 1) * c.width := by ring
      _ ≤ n * c.width := Nat.mul_le_mul_right _ j.isLt
  decode_encode v := by
    funext j
    refine c.decode_of_eq fun i hi => ?_
    have hdiv : (c.width * j + i) / c.width = j := by
      rw [Nat.mul_add_div (Nat.zero_lt_of_lt hi), Nat.div_eq_of_lt hi, Nat.add_zero]
    have hmod : (c.width * j + i) % c.width = i := by
      rw [Nat.mul_add_mod, Nat.mod_eq_of_lt hi]
    simp only [hdiv, hmod, Fin.isLt, dite_true]

/-- The same bytes, read as another type. -/
def map (c : Codec α) (f : α → β) (g : β → α) (h : ∀ b, f (g b) = b) : Codec β where
  width := c.width
  encode b := c.encode (g b)
  decode m := f (c.decode m)
  decode_congr m m' hm := by rw [c.decode_congr m m' hm]
  decode_encode b := by rw [c.decode_encode, h]

end Codec

/-! ## Buffers -/

variable {n : ℕ} {α β : Type}

/-- The bytes of a buffer from an offset on; zero past its end. -/
def view (b : Fin n → UInt8) (off i : ℕ) : UInt8 :=
  if h : off + i < n then b ⟨off + i, h⟩ else 0

/-- Copying the first `len` bytes of `m` into a buffer at an offset: `memcpy`. -/
def splice (b : Fin n → UInt8) (off len : ℕ) (m : ℕ → UInt8) : Fin n → UInt8 :=
  fun i => if off ≤ i ∧ (i : ℕ) < off + len then m (i - off) else b i

@[simp] theorem splice_zero_len (b : Fin n → UInt8) (off : ℕ) (m : ℕ → UInt8) :
    splice b off 0 m = b :=
  funext fun i => if_neg (by omega)

theorem splice_apply_of_mem {b : Fin n → UInt8} {off len : ℕ} {m : ℕ → UInt8} {i : Fin n}
    (h : off ≤ i) (h' : (i : ℕ) < off + len) : splice b off len m i = m (i - off) :=
  if_pos ⟨h, h'⟩

theorem splice_apply_of_notMem {b : Fin n → UInt8} {off len : ℕ} {m : ℕ → UInt8} {i : Fin n}
    (h : (i : ℕ) < off ∨ off + len ≤ i) : splice b off len m i = b i :=
  if_neg (by omega)

theorem view_splice_of_mem {b : Fin n → UInt8} {off len : ℕ} {m : ℕ → UInt8} {i : ℕ}
    (hi : i < len) (hn : off + len ≤ n) : view (splice b off len m) off i = m i := by
  have hlt : off + i < n := by omega
  rw [view, dif_pos hlt, splice_apply_of_mem (Nat.le_add_right _ _) (Nat.add_lt_add_left hi _),
    Nat.add_sub_cancel_left]

theorem view_splice_of_notMem {b : Fin n → UInt8} {off len off' : ℕ} {m : ℕ → UInt8} {i : ℕ}
    (h : off' + i < off ∨ off + len ≤ off' + i) :
    view (splice b off len m) off' i = view b off' i := by
  unfold view
  split
  · exact splice_apply_of_notMem h
  · rfl

/-- The value a codec reads at an offset of a buffer. -/
def Codec.get (c : Codec α) (b : Fin n → UInt8) (off : ℕ) : α :=
  c.decode (view b off)

/-- The buffer with a value written at an offset. -/
def Codec.put (c : Codec α) (b : Fin n → UInt8) (off : ℕ) (a : α) : Fin n → UInt8 :=
  splice b off c.width (c.encode a)

/-- **Reading what was put.** -/
theorem Codec.get_put (c : Codec α) (b : Fin n → UInt8) {off : ℕ} (a : α)
    (h : off + c.width ≤ n) : c.get (c.put b off a) off = a :=
  c.decode_of_eq fun _ hi => view_splice_of_mem hi h

/-- **A put elsewhere is not seen.** -/
theorem Codec.get_put_of_disjoint (c : Codec α) (d : Codec β) (b : Fin n → UInt8)
    {off off' : ℕ} (a : α) (h : off' + d.width ≤ off ∨ off + c.width ≤ off') :
    d.get (c.put b off a) off' = d.get b off' :=
  d.decode_congr _ _ fun i hi => view_splice_of_notMem (by omega)

end ByteCodec
