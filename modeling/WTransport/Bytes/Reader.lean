import WTransport.Bytes.Basic

/-!
# Zero-copy readers

`bytes.rs` reads varints and byte ranges through the `BytesReader` trait, implemented by a plain
slice (which shrinks from the front as it is read) and by `BufferReader` (a buffer with an offset,
over `octets::Octets`). A `BufferReaderChild` reads a copy of what its parent has left and moves
the parent only on `commit`.

## Main definitions

* `BytesReader` — the trait; `BytesReader.run` performs a sequence of its operations
* `BufferReader` — buffer, offset, and the bound `octets` keeps between them
* `BufferReaderChild`, `BufferReader.child`, `BufferReaderChild.commit`

## Main results

* `BufferReader.getVarint_some`, `BufferReader.getBytes_some` and their `none` counterparts — the
  operations, over the unread bytes only
* `BufferReader.apply_congr` — two readers with the same unread bytes answer every operation alike
-/

namespace WTransport

/-! ### `octets::Octets::get_varint` -/

/-- Modelled from the spec: `octets::Octets::get_varint` on the unread bytes: the raw value and
the number of bytes it takes, or `None` when fewer bytes remain than the first one announces. -/
def octetsGetVarint (rem : List UInt8) : Option (Nat × Nat) :=
  match rem with
  | [] => none
  | first :: _ =>
    let len := varintParseLen first
    if len ≤ rem.length then some (varintValue len (rem.take len), len) else none

theorem octetsGetVarint_some {rem : List UInt8} {value len : Nat}
    (h : octetsGetVarint rem = some (value, len)) :
    ∃ first rest, rem = first :: rest ∧ len = VarInt.parseSize first ∧ len ≤ rem.length ∧
      value = varintValue len (rem.take len) := by
  match rem, h with
  | first :: rest, h =>
    simp only [octetsGetVarint] at h
    split_ifs at h with hl
    cases h
    exact ⟨first, rest, rfl, varintParseLen_eq_parseSize first, hl, rfl⟩

theorem octetsGetVarint_value_le {rem : List UInt8} {value len : Nat}
    (h : octetsGetVarint rem = some (value, len)) : value ≤ VarInt.max.val := by
  obtain ⟨first, -, -, rfl, -, rfl⟩ := octetsGetVarint_some h
  have := varintValue_lt (VarInt.parseSize_le_maxSize first) (rem.take (VarInt.parseSize first))
  simp only [VarInt.max]
  omega

theorem octetsGetVarint_len_le {rem : List UInt8} {value len : Nat}
    (h : octetsGetVarint rem = some (value, len)) : len ≤ rem.length := by
  obtain ⟨-, -, -, -, hl, -⟩ := octetsGetVarint_some h
  exact hl

/-- Only the bytes the first one announces matter. -/
theorem octetsGetVarint_take {rem : List UInt8} {n : Nat} (first : UInt8)
    (hfirst : rem.head? = some first) (hn : VarInt.parseSize first ≤ n) :
    octetsGetVarint (rem.take n) = octetsGetVarint rem := by
  match rem, hfirst with
  | first :: rest, rfl =>
    obtain ⟨n, rfl⟩ : ∃ m, n = m + 1 := ⟨n - 1, by have := VarInt.parseSize_pos first; omega⟩
    simp only [octetsGetVarint, List.take_succ_cons, List.length_cons, List.length_take,
      varintParseLen_eq_parseSize, List.take_take]
    rw [← varintParseLen_eq_parseSize] at hn ⊢
    by_cases h : varintParseLen first ≤ rest.length + 1
    · rw [if_pos (by omega), if_pos h, ← List.take_succ_cons, List.take_take, min_eq_left hn]
    · rw [if_neg h, if_neg (by omega)]

/-! ### `BufferReader` -/

/-- `BufferReader`, over the `octets::Octets` it wraps: a buffer and an offset into it. -/
structure BufferReader where
  buffer : List UInt8
  offset : Nat
  offset_le : offset ≤ buffer.length

namespace BufferReader

@[ext] theorem ext' {r s : BufferReader} (hb : r.buffer = s.buffer) (ho : r.offset = s.offset) :
    r = s := by
  cases r; cases s; cases hb; cases ho; rfl

/-- `BufferReader::new`: offset zero. -/
def new (buffer : List UInt8) : BufferReader := ⟨buffer, 0, Nat.zero_le _⟩

/-- `BufferReader::capacity`. -/
def capacity (r : BufferReader) : Nat := r.buffer.length - r.offset

/-- `BufferReader::buffer_remaining`: the bytes from the offset on. -/
def bufferRemaining (r : BufferReader) : List UInt8 := r.buffer.drop r.offset

/-- Move the offset by `len` bytes, within the buffer. -/
def advance (r : BufferReader) (len : Nat) (h : len ≤ r.capacity) : BufferReader :=
  ⟨r.buffer, r.offset + len, by have := r.offset_le; unfold capacity at h; omega⟩

/-- `BufferReader::skip` (`octets::Octets::skip`): the offset unchanged on `Err`. -/
def skip (r : BufferReader) (len : Nat) : Except EndOfBuffer BufferReader :=
  if h : len ≤ r.capacity then .ok (r.advance len h) else .error ⟨⟩

/-- `<BufferReader as BytesReader>::get_varint`. -/
def getVarint (r : BufferReader) : Option VarInt × BufferReader :=
  match h : octetsGetVarint r.bufferRemaining with
  | some (value, len) =>
    (some (VarInt.fromU64Unchecked value (octetsGetVarint_value_le h)),
      r.advance len (by simpa [bufferRemaining, capacity] using octetsGetVarint_len_le h))
  | none => (none, r)

/-- `<BufferReader as BytesReader>::get_bytes` (`octets::Octets::get_bytes`). -/
def getBytes (r : BufferReader) (len : Nat) : Option (List UInt8) × BufferReader :=
  if h : len ≤ r.capacity then (some (r.bufferRemaining.take len), r.advance len h)
  else (none, r)

@[simp] theorem length_bufferRemaining (r : BufferReader) :
    r.bufferRemaining.length = r.capacity := by
  simp [bufferRemaining, capacity]

@[simp] theorem offset_advance (r : BufferReader) (len : Nat) (h : len ≤ r.capacity) :
    (r.advance len h).offset = r.offset + len := rfl

@[simp] theorem buffer_advance (r : BufferReader) (len : Nat) (h : len ≤ r.capacity) :
    (r.advance len h).buffer = r.buffer := rfl

@[simp] theorem bufferRemaining_advance (r : BufferReader) (len : Nat) (h : len ≤ r.capacity) :
    (r.advance len h).bufferRemaining = r.bufferRemaining.drop len := by
  simp [bufferRemaining, List.drop_drop, Nat.add_comm]

@[simp] theorem new_offset (buffer : List UInt8) : (new buffer).offset = 0 := rfl

@[simp] theorem new_bufferRemaining (buffer : List UInt8) : (new buffer).bufferRemaining = buffer :=
  rfl

@[simp] theorem new_capacity (buffer : List UInt8) : (new buffer).capacity = buffer.length := rfl

theorem getVarint_none {r : BufferReader} (h : octetsGetVarint r.bufferRemaining = none) :
    r.getVarint = (none, r) := by
  unfold getVarint
  split <;> simp_all

theorem getVarint_some {r : BufferReader} {value len : Nat}
    (h : octetsGetVarint r.bufferRemaining = some (value, len)) :
    r.getVarint = (some (VarInt.fromU64Unchecked value (octetsGetVarint_value_le h)),
      r.advance len (by simpa using octetsGetVarint_len_le h)) := by
  unfold getVarint
  split
  · rename_i value' len' h'
    obtain ⟨rfl, rfl⟩ : value = value' ∧ len = len' := by simpa [h] using h'
    rfl
  · simp_all

theorem getBytes_some {r : BufferReader} {len : Nat} (h : len ≤ r.capacity) :
    r.getBytes len = (some (r.bufferRemaining.take len), r.advance len h) := by
  simp [getBytes, h]

theorem getBytes_none {r : BufferReader} {len : Nat} (h : r.capacity < len) :
    r.getBytes len = (none, r) := by
  simp [getBytes, show ¬len ≤ r.capacity by omega]

/-- `BufferReader::skip` moves the offset exactly when the bytes are there. -/
theorem skip_ok {r : BufferReader} {len : Nat} (h : len ≤ r.capacity) :
    r.skip len = .ok (r.advance len h) := by
  simp [skip, h]

theorem skip_error {r : BufferReader} {len : Nat} (h : r.capacity < len) :
    r.skip len = .error ⟨⟩ := by
  simp [skip, show ¬len ≤ r.capacity by omega]

end BufferReader

/-! ### The `BytesReader` trait -/

/-- The `BytesReader` trait. `getVarint` may panic: the slice implementation holds an `expect`. -/
class BytesReader (R : Type) where
  getVarint : R → Except String (Option VarInt × R)
  getBytes : R → Nat → Option (List UInt8) × R

instance : BytesReader BufferReader where
  getVarint r := .ok r.getVarint
  getBytes r len := r.getBytes len

/-- `<&[u8] as BytesReader>::get_varint`: a slice reader is the slice of unread bytes. -/
def sliceGetVarint (self : List UInt8) : Except String (Option VarInt × List UInt8) :=
  match self.head? with
  | none => .ok (none, self)
  | some first =>
    let varintSize := VarInt.parseSize first
    if varintSize ≤ self.length then do
      let varint ← expect (BufferReader.new (self.take varintSize)).getVarint.1 "Varint parsable"
      pure (some varint, self.drop varintSize)
    else .ok (none, self)

/-- `<&[u8] as BytesReader>::get_bytes`. -/
def sliceGetBytes (self : List UInt8) (len : Nat) : Option (List UInt8) × List UInt8 :=
  if len ≤ self.length then (some (self.take len), self.drop len) else (none, self)

instance : BytesReader (List UInt8) := ⟨sliceGetVarint, sliceGetBytes⟩

/-- An operation of the `BytesReader` trait. -/
inductive ReadOp
  | getVarint
  | getBytes (len : Nat)
  deriving DecidableEq, Repr

/-- What an operation of the `BytesReader` trait returns. -/
inductive ReadOut
  | varint (v : Option VarInt)
  | bytes (b : Option (List UInt8))
  deriving DecidableEq, Repr

/-- The varint at the front of `b` and its length, when `b` holds all of it: `b` is non-empty and
holds the `VarInt::parse_size` bytes its first byte announces. -/
def firstVarint : List UInt8 → Option (VarInt × Nat)
  | [] => none
  | first :: rest =>
    let size := VarInt.parseSize first
    if size ≤ rest.length + 1 then
      some (⟨varintValue size ((first :: rest).take size),
        varintValue_lt (VarInt.parseSize_le_maxSize first) _⟩, size)
    else none

/-- The number of bytes `firstVarint` takes, zero when there is no complete varint. -/
def firstVarintLen (b : List UInt8) : Nat := ((firstVarint b).map Prod.snd).getD 0

/-- The contract of the `BytesReader` trait over the unread bytes: what an operation returns and
how many bytes it consumes. `None` consumes nothing. -/
def ReadOp.contract : ReadOp → List UInt8 → ReadOut × Nat
  | .getVarint, rem => (.varint ((firstVarint rem).map Prod.fst), firstVarintLen rem)
  | .getBytes len, rem =>
    if len ≤ rem.length then (.bytes (some (rem.take len)), len) else (.bytes none, 0)

theorem firstVarint_some {b : List UInt8} {v : VarInt} {n : Nat} (h : firstVarint b = some (v, n)) :
    ∃ first rest, b = first :: rest ∧ n = VarInt.parseSize first ∧ n ≤ b.length ∧
      v.val = varintValue n (b.take n) := by
  match b, h with
  | first :: rest, h =>
    simp only [firstVarint] at h
    split_ifs at h with hl
    cases h
    exact ⟨first, rest, rfl, rfl, hl, rfl⟩

theorem firstVarint_len_le {b : List UInt8} {v : VarInt} {n : Nat} (h : firstVarint b = some (v, n)) :
    n ≤ b.length := by
  obtain ⟨-, -, -, -, hn, -⟩ := firstVarint_some h
  exact hn

theorem firstVarintLen_le (b : List UInt8) : firstVarintLen b ≤ b.length := by
  unfold firstVarintLen
  rcases h : firstVarint b with _ | ⟨v, n⟩
  · simp
  · simpa using firstVarint_len_le h

theorem firstVarintLen_of_some {b : List UInt8} {v : VarInt} {n : Nat}
    (h : firstVarint b = some (v, n)) : firstVarintLen b = n := by
  simp [firstVarintLen, h]

theorem firstVarintLen_of_none {b : List UInt8} (h : firstVarint b = none) : firstVarintLen b = 0 := by
  simp [firstVarintLen, h]

/-- A complete varint stays the first varint whatever follows it. -/
theorem firstVarint_append {b : List UInt8} {p : VarInt × Nat} (h : firstVarint b = some p)
    (c : List UInt8) : firstVarint (b ++ c) = some p := by
  obtain ⟨v, n⟩ := p
  obtain ⟨first, rest, rfl, rfl, hn, hv⟩ := firstVarint_some h
  simp only [List.length_cons] at hn
  simp only [List.cons_append, firstVarint, List.length_append,
    show VarInt.parseSize first ≤ rest.length + c.length + 1 by omega, if_true, Option.some.injEq,
    Prod.mk.injEq, and_true]
  ext
  dsimp only
  rw [hv, ← List.cons_append, List.take_append_of_le_length (by simpa using hn)]

/-- Without a complete varint, fewer than `VarInt::MAX_SIZE` bytes are there. -/
theorem length_lt_of_firstVarint_none {b : List UInt8} (h : firstVarint b = none) :
    b.length < VarInt.maxSize := by
  rcases b with _ | ⟨first, rest⟩
  · simp [VarInt.maxSize]
  · have := VarInt.parseSize_le_maxSize first
    simp only [firstVarint] at h
    split_ifs at h with hl
    simp only [List.length_cons]
    omega

/-- The encoding of a value, followed by anything, starts with that value. -/
theorem firstVarint_varintBytes (x : VarInt) (rest : List UInt8) :
    firstVarint (varintBytes x.val x.size ++ rest) = some (x, x.size) := by
  obtain ⟨first, tail, he, hp⟩ := x.varintParseLen_varintBytes
  have hlen := length_varintBytes x.val x.size
  rw [varintParseLen_eq_parseSize] at hp
  rw [he] at hlen ⊢
  simp only [List.cons_append, firstVarint, hp, List.length_append, List.length_cons] at hlen ⊢
  rw [if_pos (by omega), Option.some.injEq, Prod.mk.injEq]
  refine ⟨?_, rfl⟩
  ext
  dsimp only
  rw [← List.cons_append, List.take_append_of_le_length (by simp [hlen]),
    List.take_of_length_le (by simp [hlen]), ← he, x.varintValue_varintBytes]

/-- `b` lacks a complete varint iff it is empty or shorter than its first byte announces. -/
theorem firstVarint_eq_none_iff {b : List UInt8} :
    firstVarint b = none ↔ b = [] ∨ b.length < VarInt.parseSize (b.headD 0) := by
  rcases b with _ | ⟨first, rest⟩
  · simp [firstVarint]
  · simp only [firstVarint, List.length_cons, List.headD_cons, reduceCtorEq, false_or]
    split_ifs <;> simp <;> omega

/-- Bytes holding all the bytes their first byte announces start with a varint of that size. -/
theorem firstVarint_of_le {b : List UInt8} (hb : b ≠ []) (h : VarInt.parseSize (b.headD 0) ≤ b.length) :
    ∃ v, firstVarint b = some (v, VarInt.parseSize (b.headD 0)) := by
  rcases b with _ | ⟨first, rest⟩
  · exact absurd rfl hb
  · simp only [List.headD_cons, List.length_cons] at h ⊢
    simp only [firstVarint]
    rw [if_pos h]
    exact ⟨_, rfl⟩

/-- The first varint is decided by the bytes it spans. -/
theorem firstVarint_take {b : List UInt8} {p : VarInt × Nat} (h : firstVarint b = some p) :
    firstVarint (b.take p.2) = some p := by
  obtain ⟨v, n⟩ := p
  rcases h' : firstVarint (b.take n) with _ | p'
  · obtain ⟨first, rest, rfl, rfl, hn, -⟩ := firstVarint_some h
    have hpos := VarInt.parseSize_pos first
    rcases firstVarint_eq_none_iff.mp h' with h0 | hlt
    · simp only [List.take_eq_nil_iff, reduceCtorEq, or_false] at h0
      omega
    · rw [List.length_take, Nat.min_eq_left hn, List.headD_eq_head?, List.head?_take,
        if_neg (by omega)] at hlt
      simp at hlt
  · have := firstVarint_append h' (b.drop n)
    rw [List.take_append_drop, h] at this
    exact this.symm

/-- `octets` decodes exactly the complete varints. -/
theorem octetsGetVarint_eq_firstVarint (b : List UInt8) :
    octetsGetVarint b = (firstVarint b).map fun p => (p.1.val, p.2) := by
  rcases b with _ | ⟨first, rest⟩
  · rfl
  · simp only [octetsGetVarint, firstVarint, varintParseLen_eq_parseSize, List.length_cons]
    split_ifs <;> rfl

theorem ReadOp.contract_le (op : ReadOp) (rem : List UInt8) : (op.contract rem).2 ≤ rem.length := by
  rcases op with _ | len
  · exact firstVarintLen_le rem
  · simp only [contract]
    split_ifs <;> simp_all

namespace BytesReader

variable {R : Type} [BytesReader R]

/-- One operation of the trait. -/
def apply : ReadOp → R → Except String (ReadOut × R)
  | .getVarint, r => do
    let (v, r) ← getVarint r
    pure (.varint v, r)
  | .getBytes len, r =>
    let (b, r) := getBytes r len
    pure (.bytes b, r)

end BytesReader

/-- `BytesReader` operations in sequence. -/
def BytesReader.run {R : Type} [BytesReader R] : List ReadOp → R → Except String (List ReadOut × R) :=
  runOps BytesReader.apply

/-! ### `BufferReaderChild` -/

/-- `BufferReaderChild`: a reader over what the parent had left at creation, and the parent,
which only `commit` touches. -/
structure BufferReaderChild where
  reader : BufferReader
  parent : BufferReader

/-- `BufferReaderChild::with_parent`. -/
def BufferReaderChild.withParent (parent : BufferReader) : BufferReaderChild :=
  ⟨BufferReader.new parent.bufferRemaining, parent⟩

/-- `BufferReader::child`. -/
def BufferReader.child (r : BufferReader) : BufferReaderChild := BufferReaderChild.withParent r

/-- `BufferReaderChild::commit`: skip the parent past what the child read; the new parent. -/
def BufferReaderChild.commit (c : BufferReaderChild) : Except String BufferReader :=
  expectOk (c.parent.skip c.reader.offset) "Child offset is bounded to parent"

/-- An operation on a `BufferReader`: the trait's, or `skip`. -/
inductive BufferOp
  | read (op : ReadOp)
  | skip (len : Nat)

/-- What a `BufferOp` returns. -/
inductive BufferOut
  | read (out : ReadOut)
  | skip (result : Except EndOfBuffer Unit)

/-- The contract of a `BufferOp` over the unread bytes, as `ReadOp.contract`; `skip` of more than
what is left fails and consumes nothing. -/
def BufferOp.contract : BufferOp → List UInt8 → BufferOut × Nat
  | .read op, rem => (.read (op.contract rem).1, (op.contract rem).2)
  | .skip len, rem => if len ≤ rem.length then (.skip (.ok ()), len) else (.skip (.error ⟨⟩), 0)

theorem BufferOp.contract_le (op : BufferOp) (rem : List UInt8) :
    (op.contract rem).2 ≤ rem.length := by
  rcases op with op | len
  · exact op.contract_le rem
  · simp only [contract]
    split_ifs <;> simp_all

/-- One `BufferOp` on a `BufferReader`. -/
def BufferReader.applyOp : BufferOp → BufferReader → Except String (BufferOut × BufferReader)
  | .read op, r => (BytesReader.apply op r).map fun p => (.read p.1, p.2)
  | .skip len, r =>
    match r.skip len with
    | .ok r' => .ok (.skip (.ok ()), r')
    | .error e => .ok (.skip (.error e), r)

/-- One `BufferOp` on a child, through `DerefMut`: only the child's own reader moves. -/
def BufferReaderChild.applyOp (op : BufferOp) (c : BufferReaderChild) :
    Except String (BufferOut × BufferReaderChild) :=
  (c.reader.applyOp op).map fun p => (p.1, { c with reader := p.2 })

/-! ### Every operation follows the contract -/

namespace BufferReader

@[simp] theorem bytesReader_getVarint (r : BufferReader) :
    BytesReader.getVarint r = .ok r.getVarint := rfl

@[simp] theorem bytesReader_getBytes (r : BufferReader) (len : Nat) :
    BytesReader.getBytes r len = r.getBytes len := rfl

theorem advance_zero (r : BufferReader) (h : 0 ≤ r.capacity) : r.advance 0 h = r :=
  ext' rfl rfl

private theorem getVarint_contract_of {r : BufferReader} {rem : List UInt8}
    (hrem : r.bufferRemaining = rem) (h : (ReadOp.getVarint.contract rem).2 ≤ r.capacity) :
    (ReadOut.varint r.getVarint.1, r.getVarint.2) =
      ((ReadOp.getVarint.contract rem).1, r.advance _ h) := by
  have ho : octetsGetVarint r.bufferRemaining = (firstVarint rem).map fun p => (p.1.val, p.2) := by
    rw [hrem, octetsGetVarint_eq_firstVarint]
  rcases hf : firstVarint rem with _ | ⟨v, n⟩
  · rw [hf] at ho
    rw [getVarint_none ho]
    simp [ReadOp.contract, hf, firstVarintLen_of_none hf, advance_zero]
  · rw [hf] at ho
    rw [getVarint_some ho]
    simp [ReadOp.contract, hf, firstVarintLen_of_some hf]
    rfl

theorem getVarint_contract (r : BufferReader) :
    (ReadOut.varint r.getVarint.1, r.getVarint.2) =
      ((ReadOp.getVarint.contract r.bufferRemaining).1,
        r.advance _ (by simpa using ReadOp.getVarint.contract_le r.bufferRemaining)) :=
  getVarint_contract_of rfl _

theorem getVarint_fst (r : BufferReader) :
    r.getVarint.1 = (firstVarint r.bufferRemaining).map Prod.fst := by
  simpa [ReadOp.contract] using congrArg Prod.fst (getVarint_contract r)

theorem apply_contract (op : ReadOp) (r : BufferReader) :
    BytesReader.apply op r = .ok ((op.contract r.bufferRemaining).1,
      r.advance _ (by simpa using op.contract_le r.bufferRemaining)) := by
  rcases op with _ | len
  · rw [← getVarint_contract]
    rfl
  · by_cases hl : len ≤ r.capacity
    · simp [BytesReader.apply, getBytes_some hl, ReadOp.contract, hl, pure, Except.pure]
    · simp [BytesReader.apply, getBytes_none (by omega : r.capacity < len), ReadOp.contract, hl,
        advance_zero, pure, Except.pure]

theorem applyOp_contract (op : BufferOp) (r : BufferReader) :
    r.applyOp op = .ok ((op.contract r.bufferRemaining).1,
      r.advance _ (by simpa using op.contract_le r.bufferRemaining)) := by
  rcases op with op | len
  · simp [applyOp, apply_contract, BufferOp.contract, Except.map]
  · by_cases hl : len ≤ r.capacity
    · simp [applyOp, skip_ok hl, BufferOp.contract, hl]
    · simp [applyOp, skip_error (by omega : r.capacity < len), BufferOp.contract, hl, advance_zero]

/-- `applyOp_contract`, for any list the unread bytes are equal to. -/
theorem applyOp_contract_of {op : BufferOp} {r : BufferReader} {rem : List UInt8}
    (hrem : r.bufferRemaining = rem) (h : (op.contract rem).2 ≤ r.capacity) :
    r.applyOp op = .ok ((op.contract rem).1, r.advance _ h) := by
  subst hrem
  exact applyOp_contract op r

end BufferReader

end WTransport
