import WTransport.Bytes.Reader

/-!
# Readers agree, and children are transactions

Both `BytesReader` implementations follow `ReadOp.contract` over their unread bytes, so a slice
and a `BufferReader` over the same bytes answer every sequence of operations alike. A child reads
a copy of its parent's unread bytes: committing it leaves the parent exactly where reading the
parent directly would have, and dropping it leaves the parent as it was.

## Main results

* `slice_apply_contract` — the slice reader follows the contract, and never panics
* `slice_reader_refines_bufferReader` — slice and `BufferReader` agree on every operation sequence
* `child_commit_refines_parent` — reading a child and committing equals reading the parent
-/

namespace WTransport

open BufferReader

@[simp] theorem slice_getVarint (s : List UInt8) : BytesReader.getVarint s = sliceGetVarint s :=
  rfl

@[simp] theorem slice_getBytes (s : List UInt8) (len : Nat) :
    BytesReader.getBytes s len = sliceGetBytes s len := rfl

/-- The slice reader follows the contract; in particular its `expect` never fires. -/
theorem slice_apply_contract (op : ReadOp) (s : List UInt8) :
    BytesReader.apply op s = .ok ((op.contract s).1, s.drop (op.contract s).2) := by
  rcases op with _ | len
  · rcases s with _ | ⟨first, rest⟩
    · rfl
    · by_cases hs : VarInt.parseSize first ≤ rest.length + 1
      · have ho : octetsGetVarint (BufferReader.new ((first :: rest).take
            (VarInt.parseSize first))).bufferRemaining = some (varintValue (VarInt.parseSize first)
              ((first :: rest).take (VarInt.parseSize first)), VarInt.parseSize first) := by
          rw [new_bufferRemaining, @octetsGetVarint_take (first :: rest) _ first rfl le_rfl,
            octetsGetVarint_eq_firstVarint]
          simp [firstVarint, hs]
        simp only [BytesReader.apply, slice_getVarint, sliceGetVarint, List.head?_cons,
          List.length_cons, if_pos hs, getVarint_some ho, expect, ReadOp.contract, firstVarintLen,
          firstVarint]
        rfl
      · simp [BytesReader.apply, sliceGetVarint, hs, ReadOp.contract, firstVarint, firstVarintLen,
          pure, Except.pure, bind, Except.bind]
  · by_cases hl : len ≤ s.length <;>
      simp [BytesReader.apply, sliceGetBytes, hl, ReadOp.contract, pure, Except.pure]

theorem slice_getVarint_eq (s : List UInt8) :
    BytesReader.getVarint s = .ok ((firstVarint s).map Prod.fst, s.drop (firstVarintLen s)) := by
  have h := slice_apply_contract .getVarint s
  simp only [BytesReader.apply, ReadOp.contract] at h
  revert h
  cases BytesReader.getVarint s with
  | error e => simp [bind, Except.bind]
  | ok p =>
    simp only [bind, Except.bind, pure, Except.pure, Except.ok.injEq, Prod.mk.injEq,
      ReadOut.varint.injEq]
    exact fun h => Prod.ext h.1 h.2

theorem bufferReader_getVarint_eq (r : BufferReader) :
    BytesReader.getVarint r = .ok ((firstVarint r.bufferRemaining).map Prod.fst,
      r.advance _ (by simpa using firstVarintLen_le r.bufferRemaining)) := by
  have h := getVarint_contract r
  simp only [ReadOp.contract, Prod.mk.injEq, ReadOut.varint.injEq] at h
  rw [bytesReader_getVarint, ← h.1, ← h.2]

/-- Run a slice and a `BufferReader` over the same unread bytes: same results, and the slice stays
the reader's unread bytes. -/
theorem run_slice_bufferReader (ops : List ReadOp) (r : BufferReader) :
    ∃ outs r', BytesReader.run ops r = .ok (outs, r') ∧
      BytesReader.run ops r.bufferRemaining = .ok (outs, r'.bufferRemaining) := by
  induction ops generalizing r with
  | nil => exact ⟨[], r, rfl, rfl⟩
  | cons op ops ih =>
    obtain ⟨outs, r', h1, h2⟩ :=
      ih (r.advance _ (by simpa using op.contract_le r.bufferRemaining))
    refine ⟨(op.contract r.bufferRemaining).1 :: outs, r', ?_, ?_⟩
    · simp only [BytesReader.run] at h1 ⊢
      rw [runOps_cons (apply_contract op r), h1]
      rfl
    · simp only [BytesReader.run, bufferRemaining_advance] at h2 ⊢
      rw [runOps_cons (slice_apply_contract op _), h2]
      rfl

/-- The slice reader refines `BufferReader`: on every byte sequence and every sequence of
`get_varint` / `get_bytes`, the two give the same results and the slice stays the reader's
`buffer_remaining()`; each operation of either reader follows `ReadOp.contract`, so `None` moves
nothing, a varint advances by `VarInt::parse_size` of its first byte and `get_bytes(len)` by `len`;
and the slice reader never panics. -/
theorem slice_reader_refines_bufferReader :
    (∀ (ops : List ReadOp) (b : List UInt8), ∃ outs r,
      BytesReader.run ops (BufferReader.new b) = .ok (outs, r) ∧
        BytesReader.run ops b = .ok (outs, r.bufferRemaining)) ∧
    (∀ (op : ReadOp) (r : BufferReader), ∃ r',
      BytesReader.apply op r = .ok ((op.contract r.bufferRemaining).1, r') ∧
        r'.buffer = r.buffer ∧ r'.offset = r.offset + (op.contract r.bufferRemaining).2) ∧
    (∀ (op : ReadOp) (s : List UInt8),
      BytesReader.apply op s = .ok ((op.contract s).1, s.drop (op.contract s).2)) :=
  ⟨fun ops b => run_slice_bufferReader ops (BufferReader.new b),
    fun op r => ⟨_, apply_contract op r, rfl, rfl⟩, slice_apply_contract⟩

/-! ### Child readers -/

/-- How a child and the parent read directly stand after the same operations: the child reads the
parent's unread bytes at creation, and the direct parent is as far past its start as the child. -/
structure ChildTracks (parent : BufferReader) (c : BufferReaderChild) (p : BufferReader) : Prop where
  parent_eq : c.parent = parent
  buffer_child : c.reader.buffer = parent.bufferRemaining
  buffer_direct : p.buffer = parent.buffer
  offset_direct : p.offset = parent.offset + c.reader.offset

namespace ChildTracks

variable {parent p : BufferReader} {c : BufferReaderChild}

theorem init (parent : BufferReader) : ChildTracks parent parent.child parent :=
  ⟨rfl, rfl, rfl, rfl⟩

theorem bufferRemaining_eq (h : ChildTracks parent c p) :
    c.reader.bufferRemaining = p.bufferRemaining := by
  simp [BufferReader.bufferRemaining, h.buffer_child, h.buffer_direct, h.offset_direct,
    List.drop_drop, Nat.add_comm]

theorem offset_le (h : ChildTracks parent c p) : c.reader.offset ≤ parent.capacity := by
  have := c.reader.offset_le
  rwa [h.buffer_child, length_bufferRemaining] at this

/-- One operation on both sides: the same result, and the relation kept. -/
theorem step (h : ChildTracks parent c p) (op : BufferOp) :
    ∃ out c' p', c.applyOp op = .ok (out, c') ∧ p.applyOp op = .ok (out, p') ∧
      ChildTracks parent c' p' := by
  have hle : (op.contract p.bufferRemaining).2 ≤ c.reader.capacity := by
    simpa [← h.bufferRemaining_eq] using op.contract_le c.reader.bufferRemaining
  refine ⟨_, { c with reader := c.reader.advance _ hle }, _, ?_, applyOp_contract op p,
    ⟨h.parent_eq, h.buffer_child, h.buffer_direct, ?_⟩⟩
  · rw [BufferReaderChild.applyOp, applyOp_contract_of h.bufferRemaining_eq hle]
    rfl
  · simp [h.offset_direct, Nat.add_assoc]

/-- Committing a child that tracks the direct parent gives the direct parent. -/
theorem commit_eq (h : ChildTracks parent c p) : c.commit = .ok p := by
  rw [BufferReaderChild.commit, h.parent_eq, skip_ok h.offset_le]
  exact congrArg Except.ok (ext' h.buffer_direct.symm h.offset_direct.symm)

theorem run (h : ChildTracks parent c p) (ops : List BufferOp) :
    ∃ outs c' p', runOps BufferReaderChild.applyOp ops c = .ok (outs, c') ∧
      runOps BufferReader.applyOp ops p = .ok (outs, p') ∧ ChildTracks parent c' p' := by
  induction ops generalizing c p with
  | nil => exact ⟨[], c, p, rfl, rfl, h⟩
  | cons op ops ih =>
    obtain ⟨out, c₁, p₁, hc, hp, h₁⟩ := h.step op
    obtain ⟨outs, c', p', hc', hp', h'⟩ := ih h₁
    exact ⟨out :: outs, c', p', by rw [runOps_cons hc, hc']; rfl,
      by rw [runOps_cons hp, hp']; rfl, h'⟩

end ChildTracks

/-- A child is a transaction on its parent: for every parent and every sequence of `get_varint`,
`get_bytes` and `skip`, reading through `parent.child()` gives the same results as reading the
parent; committing then leaves the parent exactly as reading it directly would (so `commit`'s
`expect` never fires); the child never touches the parent, so dropping it leaves the parent as it
was; and the child's offset stays within the parent's capacity at creation. -/
theorem child_commit_refines_parent (parent : BufferReader) (ops : List BufferOp) :
    ∃ outs c p, runOps BufferReaderChild.applyOp ops parent.child = .ok (outs, c) ∧
      runOps BufferReader.applyOp ops parent = .ok (outs, p) ∧
      c.commit = .ok p ∧ c.parent = parent ∧ c.reader.offset ≤ parent.capacity := by
  obtain ⟨outs, c, p, hc, hp, h⟩ := (ChildTracks.init parent).run ops
  exact ⟨outs, c, p, hc, hp, h.commit_eq, h.parent_eq, h.offset_le⟩

end WTransport
