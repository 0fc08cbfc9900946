import Mathlib.Data.List.Basic
import Mathlib.Tactic.NormNum
import Mathlib.Tactic.IntervalCases
import Mathlib.Tactic.Ring

/-!
# QUIC variable-length integers

The stream codec reads and writes QUIC variable-length integers through the crate's `varint`
module and the `octets` crate, neither of which is among the modelled sources. Both are modelled
here from the contract the codec relies on: a value below `2^62`, written on 1, 2, 4 or 8 bytes in
network byte order, the two high bits of the first byte giving the base-2 logarithm of the length.

The two libraries each compute lengths their own way (`VarInt::size` and `VarInt::parse_size` on
one side, `varint_len` and `varint_parse_len` on the other), and the codec relies on them agreeing,
so both are kept.

## Main definitions

* `WTransport.VarInt` — a value with its bound, as `VarInt` keeps it
* `VarInt.parseSize`, `VarInt.size` — the length a first byte announces, the length of a value
* `varintLen`, `varintParseLen`, `varintBytes`, `varintValue` — the `octets` codec

## Main results

* `VarInt.varintLen_eq_size`, `varintParseLen_eq_parseSize` — the two libraries agree on lengths
* `VarInt.varintParseLen_varintBytes` — an encoding announces its own length
* `VarInt.varintValue_varintBytes` — decoding an encoding gives the value back
* `varintValue_cons` — decoding clears the two length bits of the first byte
* `varintBytes_varintValue` — re-encoding a decoded value on the announced length gives the bytes
  back
-/

namespace WTransport

/-! ### Network byte order -/

/-- The `len` low bytes of `n`, most significant first. -/
def beBytes : Nat → Nat → List UInt8
  | 0, _ => []
  | len + 1, n => UInt8.ofNat (n / 256 ^ len) :: beBytes len n

/-- The number a byte string denotes in network byte order. -/
def beNat : List UInt8 → Nat
  | [] => 0
  | b :: bs => b.toNat * 256 ^ bs.length + beNat bs

private theorem toNat_uint8_ofNat (n : Nat) : (UInt8.ofNat n).toNat = n % 256 := by
  simp [UInt8.ofNat, UInt8.toNat]

@[simp] theorem length_beBytes (len n : Nat) : (beBytes len n).length = len := by
  induction len <;> simp [beBytes, *]

theorem beNat_beBytes (len n : Nat) : beNat (beBytes len n) = n % 256 ^ len := by
  induction len with
  | zero => simp [beBytes, beNat, Nat.mod_one]
  | succ len ih =>
    rw [beBytes, beNat, length_beBytes, ih, toNat_uint8_ofNat, pow_succ, Nat.mod_mul,
      Nat.add_comm, Nat.mul_comm]

/-! ### The `varint` module -/

/-- Modelled from the spec: `VarInt`, an unsigned integer in `[0, 2^62 - 1]`. Its `val` is what
`into_inner` returns. -/
@[ext] structure VarInt where
  val : Nat
  isLt : val < 2 ^ 62
  deriving DecidableEq, Repr

namespace VarInt

/-- Modelled from the spec: `VarInt::MAX`. -/
def max : VarInt := ⟨2 ^ 62 - 1, by norm_num⟩

/-- Modelled from the spec: `VarInt::MAX_SIZE`, the longest encoding in bytes. -/
def maxSize : Nat := 8

/-- Modelled from the spec: `VarInt::from_u32`; every 32-bit value is in range. -/
def fromU32 (v : UInt32) : VarInt := ⟨v.toNat, lt_trans v.toNat_lt_size (by decide)⟩

/-- Modelled from the spec: `VarInt::from_u64_unchecked`, whose caller vouches for the bound. -/
def fromU64Unchecked (v : Nat) (h : v ≤ max.val) : VarInt :=
  ⟨v, Nat.lt_of_le_of_lt h (by norm_num [max])⟩

/-- Modelled from the spec: `VarInt::parse_size`, the encoded length a first byte announces. -/
def parseSize (first : UInt8) : Nat := 1 <<< (first.toNat >>> 6)

/-- Modelled from the spec: `VarInt::size`, the length of the encoding of a value. -/
def size (x : VarInt) : Nat :=
  if x.val < 2 ^ 6 then 1 else if x.val < 2 ^ 14 then 2 else if x.val < 2 ^ 30 then 4 else 8

/-- The four length classes. -/
theorem size_cases (x : VarInt) :
    (x.size = 1 ∧ x.val < 2 ^ 6) ∨ (x.size = 2 ∧ 2 ^ 6 ≤ x.val ∧ x.val < 2 ^ 14) ∨
      (x.size = 4 ∧ 2 ^ 14 ≤ x.val ∧ x.val < 2 ^ 30) ∨ (x.size = 8 ∧ 2 ^ 30 ≤ x.val) := by
  unfold size
  split_ifs <;> omega

theorem size_le_maxSize (x : VarInt) : x.size ≤ maxSize := by
  rcases size_cases x with ⟨h, -⟩ | ⟨h, -⟩ | ⟨h, -⟩ | ⟨h, -⟩ <;> simp [h, maxSize]

theorem size_pos (x : VarInt) : 0 < x.size := by
  rcases size_cases x with ⟨h, -⟩ | ⟨h, -⟩ | ⟨h, -⟩ | ⟨h, -⟩ <;> simp [h]

/-- The length `parseSize` announces is one of 1, 2, 4 and 8. -/
theorem parseSize_cases (first : UInt8) :
    parseSize first = 1 ∨ parseSize first = 2 ∨ parseSize first = 4 ∨ parseSize first = 8 := by
  have hb : first.toNat < 256 := first.toNat_lt_size
  simp only [parseSize, Nat.shiftLeft_eq, Nat.shiftRight_eq_div_pow, one_mul]
  have : first.toNat / 2 ^ 6 < 4 := by omega
  interval_cases first.toNat / 2 ^ 6 <;> simp

theorem parseSize_pos (first : UInt8) : 0 < parseSize first := by
  rcases parseSize_cases first with h | h | h | h <;> simp [h]

theorem parseSize_le_maxSize (first : UInt8) : parseSize first ≤ maxSize := by
  rcases parseSize_cases first with h | h | h | h <;> simp [h, maxSize]

end VarInt

/-! ### The `octets` codec -/

/-- Modelled from the spec: `octets::varint_len`, the length `put_varint` chooses for a value. -/
def varintLen (v : Nat) : Nat :=
  if v ≤ 63 then 1 else if v ≤ 16383 then 2 else if v ≤ 1073741823 then 4 else 8

/-- Modelled from the spec: `octets::varint_parse_len`, the length a first byte announces. -/
def varintParseLen (first : UInt8) : Nat :=
  match first.toNat >>> 6 with
  | 0 => 1
  | 1 => 2
  | 2 => 4
  | _ => 8

/-- Modelled from the spec: the bytes `octets::OctetsMut::put_varint_with_len` writes for `v` on
`len` bytes: the value in network byte order with the two high bits set to `log2 len`. -/
def varintBytes (v len : Nat) : List UInt8 :=
  let tag := match len with
    | 1 => 0
    | 2 => 1
    | 4 => 2
    | _ => 3
  beBytes len (v + tag * 2 ^ (8 * len - 2))

/-- Modelled from the spec: the value `octets::Octets::get_varint` reads from the `len` bytes of an
encoding: the network-order integer with its two length bits masked off. -/
def varintValue (len : Nat) (bytes : List UInt8) : Nat := beNat bytes % 2 ^ (8 * len - 2)

theorem varintParseLen_eq_parseSize (first : UInt8) : varintParseLen first = VarInt.parseSize first := by
  have hb : first.toNat < 256 := first.toNat_lt_size
  simp only [varintParseLen, VarInt.parseSize, Nat.shiftLeft_eq, Nat.shiftRight_eq_div_pow, one_mul]
  have : first.toNat / 2 ^ 6 < 4 := by omega
  interval_cases first.toNat / 2 ^ 6 <;> rfl

/-- The length a first byte announces, by the range the byte lies in. -/
theorem varintParseLen_eq_ite (first : UInt8) : varintParseLen first =
    if first.toNat < 64 then 1 else if first.toNat < 128 then 2 else if first.toNat < 192 then 4
    else 8 := by
  have hb : first.toNat < 256 := first.toNat_lt_size
  simp only [varintParseLen, Nat.shiftRight_eq_div_pow]
  split_ifs
  · rw [show first.toNat / 2 ^ 6 = 0 by omega]
  · rw [show first.toNat / 2 ^ 6 = 1 by omega]
  · rw [show first.toNat / 2 ^ 6 = 2 by omega]
  · rw [show first.toNat / 2 ^ 6 = 3 by omega]

theorem varintValue_lt {len : Nat} (h : len ≤ 8) (bytes : List UInt8) :
    varintValue len bytes < 2 ^ 62 :=
  lt_of_lt_of_le (Nat.mod_lt _ (by positivity)) (Nat.pow_le_pow_right (by norm_num) (by omega))

@[simp] theorem length_varintBytes (v len : Nat) : (varintBytes v len).length = len := by
  simp [varintBytes]

namespace VarInt

theorem varintLen_eq_size (x : VarInt) : varintLen x.val = x.size := by
  unfold varintLen size
  simp only [show x.val ≤ 63 ↔ x.val < 2 ^ 6 by omega, show x.val ≤ 16383 ↔ x.val < 2 ^ 14 by omega,
    show x.val ≤ 1073741823 ↔ x.val < 2 ^ 30 by omega]

/-- The first byte of an encoding announces the encoding's length. -/
theorem varintParseLen_varintBytes (x : VarInt) :
    ∃ first rest, varintBytes x.val x.size = first :: rest ∧ varintParseLen first = x.size := by
  have := x.isLt
  rcases size_cases x with ⟨h, hv⟩ | ⟨h, hv⟩ | ⟨h, hv⟩ | ⟨h, hv⟩ <;>
  · rw [h]
    refine ⟨_, _, rfl, ?_⟩
    rw [varintParseLen_eq_ite, toNat_uint8_ofNat]
    norm_num
    split_ifs <;> omega

/-- Decoding the encoding of a value gives the value back. -/
theorem varintValue_varintBytes (x : VarInt) : varintValue x.size (varintBytes x.val x.size) = x.val := by
  have := x.isLt
  rcases size_cases x with ⟨h, hv⟩ | ⟨h, hv⟩ | ⟨h, hv⟩ | ⟨h, hv⟩ <;>
  · simp only [h, varintValue, varintBytes, beNat_beBytes]
    norm_num
    omega

end VarInt

/-! ### The layout of an encoding -/

theorem beNat_lt (bs : List UInt8) : beNat bs < 256 ^ bs.length := by
  induction bs with
  | nil => simp [beNat]
  | cons b bs ih =>
    have hb : b.toNat < 256 := b.toNat_lt_size
    calc b.toNat * 256 ^ bs.length + beNat bs < (b.toNat + 1) * 256 ^ bs.length := by
          rw [Nat.succ_mul]
          omega
      _ ≤ 256 ^ (bs.length + 1) := by
          rw [pow_succ']
          exact Nat.mul_le_mul_right _ hb

/-- The first byte of a network-order integer is its quotient by the weight of the others. -/
theorem beNat_cons_divMod (b : UInt8) (bs : List UInt8) :
    beNat (b :: bs) / 256 ^ bs.length = b.toNat ∧ beNat (b :: bs) % 256 ^ bs.length = beNat bs :=
  (Nat.div_mod_unique (by positivity)).mpr ⟨by rw [beNat]; ring, beNat_lt bs⟩

/-- Two byte strings of one length denoting the same number are equal. -/
theorem beNat_injective {as bs : List UInt8} (hl : as.length = bs.length)
    (h : beNat as = beNat bs) : as = bs := by
  induction as generalizing bs with
  | nil => exact (List.length_eq_zero.mp hl.symm).symm
  | cons a as ih =>
    obtain ⟨b, bs, rfl⟩ := List.exists_cons_of_length_eq_add_one hl.symm
    simp only [List.length_cons, Nat.add_right_cancel_iff] at hl
    have hd := beNat_cons_divMod a as
    rw [h, hl, (beNat_cons_divMod b bs).1, (beNat_cons_divMod b bs).2] at hd
    rw [UInt8.toNat.inj hd.1.symm, ih hl hd.2.symm]

/-- The bytes of a network-order integer, written back on as many bytes, are the bytes. -/
theorem beBytes_beNat (bs : List UInt8) : beBytes bs.length (beNat bs) = bs :=
  beNat_injective (length_beBytes _ _) (by rw [beNat_beBytes, Nat.mod_eq_of_lt (beNat_lt bs)])

/-- An encoding's first byte splits into its two length bits and the top six bits of the value. -/
theorem beNat_cons_tag (first : UInt8) (rest : List UInt8) :
    beNat (first :: rest) / (64 * 256 ^ rest.length) = first.toNat / 64 ∧
      beNat (first :: rest) % (64 * 256 ^ rest.length) =
        first.toNat % 64 * 256 ^ rest.length + beNat rest := by
  have hm : first.toNat % 64 < 64 := Nat.mod_lt _ (by norm_num)
  have hr := beNat_lt rest
  refine (Nat.div_mod_unique (by positivity)).mpr ⟨?_, ?_⟩
  · conv_rhs => rw [beNat, ← Nat.mod_add_div first.toNat 64]
    ring
  · calc first.toNat % 64 * 256 ^ rest.length + beNat rest
        < (first.toNat % 64 + 1) * 256 ^ rest.length := by rw [Nat.succ_mul]; omega
      _ ≤ 64 * 256 ^ rest.length := Nat.mul_le_mul_right _ hm

private theorem two_pow_varint (len : Nat) : 2 ^ (8 * (len + 1) - 2) = 64 * 256 ^ len := by
  rw [show 8 * (len + 1) - 2 = 6 + 8 * len by omega, pow_add, pow_mul]
  norm_num

/-- `varint_value` clears the two length bits of the first byte. -/
theorem varintValue_cons (first : UInt8) (rest : List UInt8) :
    varintValue (rest.length + 1) (first :: rest) = beNat ((first &&& 0x3f) :: rest) := by
  have hmask : (first &&& 0x3f).toNat = first.toNat % 64 := by
    rw [UInt8.and_toNat]
    exact Nat.and_pow_two_sub_one_eq_mod _ 6
  rw [varintValue, two_pow_varint, (beNat_cons_tag first rest).2, beNat, hmask]

/-- On the length a first byte announces, `varint_bytes` sets the two length bits of that byte. -/
theorem varintBytes_parseSize (v : Nat) (first : UInt8) :
    varintBytes v (VarInt.parseSize first) = beBytes (VarInt.parseSize first)
      (v + first.toNat / 64 * 2 ^ (8 * VarInt.parseSize first - 2)) := by
  have hb : first.toNat < 256 := first.toNat_lt_size
  have : first.toNat / 64 < 4 := by omega
  simp only [VarInt.parseSize, Nat.shiftLeft_eq, Nat.shiftRight_eq_div_pow, one_mul, Nat.reducePow]
  generalize first.toNat / 64 = q at *
  interval_cases q <;> rfl

/-- Writing the value read from an encoding back on the length its first byte announces gives the
encoding back. -/
theorem varintBytes_varintValue {first : UInt8} {rest : List UInt8}
    (h : VarInt.parseSize first = rest.length + 1) :
    varintBytes (varintValue (rest.length + 1) (first :: rest)) (rest.length + 1) = first :: rest := by
  rw [← h, varintBytes_parseSize, h, varintValue, two_pow_varint, ← (beNat_cons_tag first rest).1,
    Nat.mod_add_div']
  exact beBytes_beNat (first :: rest)

end WTransport
