import WTransport.Bytes.Cursor
import WTransport.Bytes.Sink

/-!
# Varints through every reader and writer

`bytes.rs` encodes varints on a `Vec<u8>`, on a `BufferWriter` and in `PutVarint::new`, and
decodes them from a slice and from a `BufferReader`. Every writer puts the encoding of length
`VarInt::size`, whose first byte announces that length, and both readers read it back, taking
exactly its bytes. `BufferReader::get_varint` builds its varint with the unchecked
`VarInt::from_u64_unchecked`: the raw value `octets` decodes is the network-order integer of the
announced bytes with the two length bits cleared, never above `VarInt::MAX`.

A varint read from bytes need not have been written on its shortest length; it re-encodes to the
bytes it was read from exactly when it was.

## Main results

* `varint_roundtrip` — every writer's encoding, and both readers reading it back
* `getVarint_raw_value` — the raw value behind `BufferReader::get_varint`
* `varintBytes_eq_take_iff` — a decoded varint re-encodes to its bytes iff they were the shortest
-/

namespace WTransport

/-! ### Writing, then reading -/

/-- Every writer encodes a varint `x` on `x.size()` bytes, one of 1, 2, 4 and 8, whose first byte
announces that length: `Vec<u8>::put_varint` appends them, and `PutVarint::new` writes them into
its `VarInt::MAX_SIZE`-byte buffer without its `expect` firing. Both readers read `x` back from
them, whatever follows: the slice is left with what follows, and a `BufferReader` has moved past
`x.size()` bytes. -/
theorem varint_roundtrip (x : VarInt) (rest : List UInt8) :
    ∃ e : List UInt8, (∀ v : List UInt8, BytesWriter.putVarint v x = .ok (.ok (), v ++ e)) ∧
      e.length = x.size ∧ (x.size = 1 ∨ x.size = 2 ∨ x.size = 4 ∨ x.size = 8) ∧
      VarInt.parseSize (e.headD 0) = x.size ∧
      BytesReader.getVarint (e ++ rest) = .ok (some x, rest) ∧
      (BufferReader.new (e ++ rest)).getVarint.1 = some x ∧
      (BufferReader.new (e ++ rest)).getVarint.2.offset = x.size ∧
      ∃ bw, (BufferWriter.new (List.replicate VarInt.maxSize 0)).putVarint x = .ok bw ∧
        bw.bufferWritten = e ∧
        ∀ {W : Type} (w : W), PutVarint.new w x = .ok ⟨w, bw.buffer, 0, bw.offset⟩ := by
  have hfirst := firstVarint_varintBytes x rest
  have hlen := firstVarintLen_of_some hfirst
  obtain ⟨first, tail, he, hp⟩ := x.varintParseLen_varintBytes
  obtain ⟨bw, hput, -, hbytes, -⟩ := PutVarint.new_spec () x
  refine ⟨varintBytes x.val x.size, fun v => vec_apply (.putVarint x) v, length_varintBytes _ _,
    ?_, by rw [he, List.headD_cons, ← varintParseLen_eq_parseSize, hp], ?_, ?_, ?_,
    bw, hput, hbytes, fun w => ?_⟩
  · rcases VarInt.size_cases x with ⟨h, -⟩ | ⟨h, -⟩ | ⟨h, -⟩ | ⟨h, -⟩ <;> simp [h]
  · rw [slice_getVarint_eq, hfirst, hlen, List.drop_left' (length_varintBytes _ _)]
    rfl
  · rw [BufferReader.getVarint_fst, BufferReader.new_bufferRemaining, hfirst]
    rfl
  · simpa [ReadOp.contract, hlen] using congrArg (fun p => p.2.offset)
      (BufferReader.getVarint_contract (BufferReader.new (varintBytes x.val x.size ++ rest)))
  · obtain ⟨bw', hput', -, -, hnew⟩ := PutVarint.new_spec w x
    rw [hput, Except.ok.injEq] at hput'
    rwa [← hput'] at hnew

/-! ### The raw value behind `BufferReader::get_varint` -/

/-- Whenever `BufferReader::get_varint` returns a varint, `octets` decoded it from the
`VarInt::parse_size` bytes its first unread byte announces, as their network-order integer with the
two length bits of the first byte cleared, at most `VarInt::MAX`: `VarInt::from_u64_unchecked` is
called within its precondition, and the varint holds that value. -/
theorem getVarint_raw_value (r : BufferReader) {v : VarInt} (h : r.getVarint.1 = some v) :
    ∃ first rest value, r.bufferRemaining = first :: rest ∧
      octetsGetVarint r.bufferRemaining = some (value, VarInt.parseSize first) ∧
      value ≤ VarInt.max.val ∧
      value = beNat ((first &&& 0x3f) :: rest.take (VarInt.parseSize first - 1)) ∧
      v.val = value := by
  rcases ho : octetsGetVarint r.bufferRemaining with _ | ⟨value, len⟩
  · rw [BufferReader.getVarint_none ho] at h
    cases h
  · rw [BufferReader.getVarint_some ho] at h
    cases h
    obtain ⟨first, rest, hrem, rfl, hle, hval⟩ := octetsGetVarint_some ho
    refine ⟨first, rest, value, hrem, rfl, octetsGetVarint_value_le ho, ?_, rfl⟩
    obtain ⟨L, hL⟩ : ∃ L, VarInt.parseSize first = L + 1 :=
      ⟨_, (Nat.succ_pred_eq_of_pos (VarInt.parseSize_pos first)).symm⟩
    rw [hrem, hL, List.length_cons] at hle
    have hlen : (rest.take L).length = L := List.length_take_of_le (by omega)
    rw [hval, hrem, hL, List.take_succ_cons, Nat.add_sub_cancel, ← varintValue_cons, hlen]

theorem getVarint_raw_value_two_bytes :
    ∃ first rest value, (BufferReader.new [0x7b, 0xbd]).bufferRemaining = first :: rest ∧
      octetsGetVarint (BufferReader.new [0x7b, 0xbd]).bufferRemaining =
        some (value, VarInt.parseSize first) ∧
      value ≤ VarInt.max.val ∧
      value = beNat ((first &&& 0x3f) :: rest.take (VarInt.parseSize first - 1)) ∧
      (⟨15293, by norm_num⟩ : VarInt).val = value :=
  @getVarint_raw_value (BufferReader.new [0x7b, 0xbd]) ⟨15293, by norm_num⟩ rfl

/-! ### Decoded varints and their shortest encoding -/

/-- The bytes a varint is read from are never fewer than its shortest encoding. -/
theorem firstVarint_size_le {b : List UInt8} {v : VarInt} {n : Nat}
    (h : firstVarint b = some (v, n)) : v.size ≤ n := by
  obtain ⟨first, rest, rfl, rfl, -, hv⟩ := firstVarint_some h
  have hlt : v.val < 2 ^ (8 * VarInt.parseSize first - 2) := by
    rw [hv, varintValue]
    exact Nat.mod_lt _ (by positivity)
  rcases VarInt.parseSize_cases first with hp | hp | hp | hp <;> rw [hp] at hlt ⊢ <;>
    norm_num at hlt <;>
    rcases VarInt.size_cases v with ⟨hs, -⟩ | ⟨hs, h1, -⟩ | ⟨hs, h1, -⟩ | ⟨hs, h1⟩ <;> omega

/-- A decoded varint re-encodes to the bytes it was read from exactly when they were its shortest
encoding. -/
theorem varintBytes_eq_take_iff {b : List UInt8} {v : VarInt} {n : Nat}
    (h : firstVarint b = some (v, n)) : varintBytes v.val v.size = b.take n ↔ n = v.size := by
  have hn := firstVarint_len_le h
  constructor
  · intro he
    simpa [hn] using (congrArg List.length he).symm
  · rintro rfl
    obtain ⟨first, rest, rfl, hsize, hle, hv⟩ := firstVarint_some h
    obtain ⟨L, hL⟩ : ∃ L, v.size = L + 1 := ⟨_, (Nat.succ_pred_eq_of_pos v.size_pos).symm⟩
    rw [hL, List.length_cons] at hle
    have hlen : (rest.take L).length = L := List.length_take_of_le (by omega)
    have hre := @varintBytes_varintValue first (rest.take L) (by rw [← hsize, hL, hlen])
    rw [hlen, ← List.take_succ_cons, ← hL, ← hv] at hre
    exact hre

end WTransport
