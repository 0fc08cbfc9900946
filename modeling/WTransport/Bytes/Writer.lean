import WTransport.Bytes.Basic

/-!
# Writers

`bytes.rs` writes varints and byte strings through the `BytesWriter` trait, implemented by a
growable `Vec<u8>` (which extends itself and cannot run out of room) and by `BufferWriter` (a fixed
buffer with an offset, over `octets::OctetsMut`, which checks the room before it writes).

## Main definitions

* `BytesWriter` — the trait, with `vecPutVarint` / `vecPutBytes` and the `BufferWriter` instances
* `BufferWriter` — buffer, offset, and `bufferWritten`
* `WriteOp`, `WriteOp.encoding` — an operation, and the bytes it stands for

## Main results

* `vec_apply` — on a `Vec<u8>` every operation appends its encoding
* `BufferWriter.apply_ok`, `BufferWriter.apply_error` — a `BufferWriter` writes the encoding when it
  fits and is left untouched otherwise
* `bufferWriter_refines_vec` — a `BufferWriter` holds what a `Vec<u8>` would after the operations
  that succeeded
-/

namespace WTransport

/-- `BufferWriter`, over the `octets::OctetsMut` it wraps: a buffer and an offset into it. -/
structure BufferWriter where
  buffer : List UInt8
  offset : Nat
  offset_le : offset ≤ buffer.length

namespace BufferWriter

@[ext] theorem ext' {w v : BufferWriter} (hb : w.buffer = v.buffer) (ho : w.offset = v.offset) :
    w = v := by
  cases w; cases v; cases hb; cases ho; rfl

/-- `BufferWriter::new`: offset zero. -/
def new (bytes : List UInt8) : BufferWriter := ⟨bytes, 0, Nat.zero_le _⟩

/-- `BufferWriter::capacity`. -/
def capacity (w : BufferWriter) : Nat := w.buffer.length - w.offset

/-- `BufferWriter::buffer_written`: the buffer up to the offset. -/
def bufferWritten (w : BufferWriter) : List UInt8 := w.buffer.take w.offset

/-- Copy `bytes` in at the offset and move past them; the caller has checked that they fit. -/
def write (w : BufferWriter) (bytes : List UInt8) (_h : bytes.length ≤ w.capacity) : BufferWriter :=
  ⟨w.buffer.take w.offset ++ bytes ++ w.buffer.drop (w.offset + bytes.length),
    w.offset + bytes.length, by
      have := w.offset_le
      simp only [List.length_append, List.length_take, List.length_drop]
      omega⟩

/-- `octets::OctetsMut::put_bytes`: `Err` when the bytes do not fit. -/
def putBytes (w : BufferWriter) (bytes : List UInt8) : Except EndOfBuffer BufferWriter :=
  if h : bytes.length ≤ w.capacity then .ok (w.write bytes h) else .error ⟨⟩

/-- `octets::OctetsMut::put_varint`: `varint_len` bytes, `Err` when they do not fit. -/
def putVarint (w : BufferWriter) (varint : VarInt) : Except EndOfBuffer BufferWriter :=
  let len := varintLen varint.val
  if h : len ≤ w.capacity then .ok (w.write (varintBytes varint.val len) (by simpa using h))
  else .error ⟨⟩

/-- A `Result` of `octets` as a mutation of the writer: on `Err` the writer is untouched. -/
def lift (w : BufferWriter) : Except EndOfBuffer BufferWriter → Except EndOfBuffer Unit × BufferWriter
  | .ok w' => (.ok (), w')
  | .error e => (.error e, w)

@[simp] theorem offset_write (w : BufferWriter) (bytes : List UInt8) (h) :
    (w.write bytes h).offset = w.offset + bytes.length := rfl

@[simp] theorem bufferWritten_write (w : BufferWriter) (bytes : List UInt8) (h) :
    (w.write bytes h).bufferWritten = w.bufferWritten ++ bytes := by
  have := w.offset_le
  simp [bufferWritten, write, List.take_append_eq_append_take, min_eq_left this]

@[simp] theorem capacity_write (w : BufferWriter) (bytes : List UInt8) (h) :
    (w.write bytes h).capacity = w.capacity - bytes.length := by
  have := w.offset_le
  unfold capacity at h
  simp only [capacity, write, List.length_append, List.length_take, List.length_drop]
  omega

/-- Two writes in a row are one write of both. -/
theorem write_append (w : BufferWriter) (a b : List UInt8) (ha : a.length ≤ w.capacity)
    (hb : b.length ≤ (w.write a ha).capacity) :
    (w.write a ha).write b hb =
      w.write (a ++ b) (by rw [capacity_write] at hb; rw [List.length_append]; omega) := by
  have := w.offset_le
  rw [capacity_write] at hb
  unfold capacity at ha hb
  refine ext' ?_ (by simp [Nat.add_assoc])
  have hpre : (w.buffer.take w.offset ++ a).length = w.offset + a.length := by simp; omega
  simp only [write, List.length_append]
  rw [List.take_left' hpre, List.drop_append_eq_append_drop, hpre, List.drop_eq_nil_of_le (by omega),
    List.drop_drop, List.nil_append, Nat.add_sub_cancel_left]
  simp only [List.append_assoc, Nat.add_assoc]

@[simp] theorem new_capacity (bytes : List UInt8) : (new bytes).capacity = bytes.length := rfl

@[simp] theorem new_bufferWritten (bytes : List UInt8) : (new bytes).bufferWritten = [] := rfl

end BufferWriter

/-! ### The `BytesWriter` trait -/

/-- The `BytesWriter` trait. Both operations may panic: the `Vec<u8>` implementation holds an
`expect`. -/
class BytesWriter (W : Type) where
  putVarint : W → VarInt → Except String (Except EndOfBuffer Unit × W)
  putBytes : W → List UInt8 → Except String (Except EndOfBuffer Unit × W)

instance : BytesWriter BufferWriter where
  putVarint w varint := .ok (w.lift (w.putVarint varint))
  putBytes w bytes := .ok (w.lift (w.putBytes bytes))

/-- `<Vec<u8> as BytesWriter>::put_varint`: grow by `size()` zero bytes, then write the varint
there through a `BufferWriter`. -/
def vecPutVarint (self : List UInt8) (varint : VarInt) :
    Except String (Except EndOfBuffer Unit × List UInt8) := do
  let offset := self.length
  let self := self ++ List.replicate varint.size 0
  let writer ← expectOk ((BufferWriter.new (self.drop offset)).putVarint varint)
    "Enough capacity prellocated"
  pure (.ok (), self.take offset ++ writer.buffer)

/-- `<Vec<u8> as BytesWriter>::put_bytes`: `extend_from_slice`. -/
def vecPutBytes (self : List UInt8) (bytes : List UInt8) :
    Except String (Except EndOfBuffer Unit × List UInt8) :=
  .ok (.ok (), self ++ bytes)

instance : BytesWriter (List UInt8) := ⟨vecPutVarint, vecPutBytes⟩

/-- An operation of the `BytesWriter` trait. -/
inductive WriteOp
  | putVarint (varint : VarInt)
  | putBytes (bytes : List UInt8)

/-- The bytes an operation stands for: a varint on `size()` bytes, or the bytes themselves. -/
def WriteOp.encoding : WriteOp → List UInt8
  | .putVarint varint => varintBytes varint.val varint.size
  | .putBytes bytes => bytes

/-- One operation of the trait. -/
def BytesWriter.apply {W : Type} [BytesWriter W] :
    WriteOp → W → Except String (Except EndOfBuffer Unit × W)
  | .putVarint varint, w => putVarint w varint
  | .putBytes bytes, w => putBytes w bytes

/-- The operations that succeeded, by their results. -/
def succeeded : List WriteOp → List (Except EndOfBuffer Unit) → List WriteOp
  | op :: ops, .ok () :: outs => op :: succeeded ops outs
  | _ :: ops, .error _ :: outs => succeeded ops outs
  | _, _ => []

/-! ### Both writers write encodings -/

theorem WriteOp.length_encoding_putVarint (varint : VarInt) :
    (WriteOp.putVarint varint).encoding.length = varint.size := by
  simp [encoding]

/-- On a `Vec<u8>` every operation succeeds and appends its encoding: the varint fills the
`size()` bytes reserved for it, no zero padding remains, and the `expect` never fires. -/
theorem vec_apply (op : WriteOp) (v : List UInt8) :
    BytesWriter.apply op v = .ok (.ok (), v ++ op.encoding) := by
  rcases op with varint | bytes
  · have hlen := varint.varintLen_eq_size
    have hw : (BufferWriter.new (List.replicate varint.size 0)).putVarint varint =
        .ok ((BufferWriter.new (List.replicate varint.size 0)).write
          (varintBytes varint.val varint.size) (by simp)) := by
      simp [BufferWriter.putVarint, hlen]
    simp only [BytesWriter.apply, BytesWriter.putVarint, vecPutVarint, List.drop_left, hw,
      expectOk, bind, Except.bind, pure, Except.pure, WriteOp.encoding]
    simp [BufferWriter.write, BufferWriter.new]
  · rfl

/-- On a `Vec<u8>` any operations succeed, appending their encodings in order. -/
theorem vec_run (ops : List WriteOp) (v : List UInt8) :
    runOps BytesWriter.apply ops v =
      .ok (ops.map fun _ => .ok (), v ++ (ops.map WriteOp.encoding).flatten) := by
  induction ops generalizing v with
  | nil => simp
  | cons op ops ih =>
    rw [runOps_cons (vec_apply op v), ih]
    simp [Except.map]

namespace BufferWriter

theorem apply_eq_lift (op : WriteOp) (w : BufferWriter) :
    BytesWriter.apply op w = .ok (w.lift (match op with
      | .putVarint varint => w.putVarint varint
      | .putBytes bytes => w.putBytes bytes)) := by
  cases op <;> rfl

/-- A `BufferWriter` writes an operation's encoding when it fits. -/
theorem apply_ok {op : WriteOp} {w : BufferWriter} (h : op.encoding.length ≤ w.capacity) :
    BytesWriter.apply op w = .ok (.ok (), w.write op.encoding h) := by
  rw [apply_eq_lift]
  rcases op with varint | bytes
  · have hlen := varint.varintLen_eq_size
    simp only [WriteOp.encoding, length_varintBytes] at h
    simp [putVarint, hlen, h, lift, WriteOp.encoding]
  · simp [putBytes, WriteOp.encoding] at h ⊢
    simp [h, lift]

/-- A `BufferWriter` without room for an operation's encoding is left untouched. -/
theorem apply_error {op : WriteOp} {w : BufferWriter} (h : w.capacity < op.encoding.length) :
    BytesWriter.apply op w = .ok (.error ⟨⟩, w) := by
  rw [apply_eq_lift]
  rcases op with varint | bytes
  · have hlen := varint.varintLen_eq_size
    simp only [WriteOp.encoding, length_varintBytes] at h
    simp [putVarint, hlen, show ¬varint.size ≤ w.capacity by omega, lift]
  · simp only [WriteOp.encoding] at h
    simp [putBytes, show ¬bytes.length ≤ w.capacity by omega, lift]

/-- After any operations, a `BufferWriter` holds what a `Vec<u8>` holding its bytes would after
the operations that succeeded. -/
theorem run_vec_succeeded (ops : List WriteOp) (w : BufferWriter) :
    ∃ outs w', runOps BytesWriter.apply ops w = .ok (outs, w') ∧
      (runOps BytesWriter.apply (succeeded ops outs) w.bufferWritten).map Prod.snd =
        .ok w'.bufferWritten := by
  induction ops generalizing w with
  | nil => exact ⟨[], w, rfl, rfl⟩
  | cons op ops ih =>
    by_cases h : op.encoding.length ≤ w.capacity
    · obtain ⟨outs, w', hrun, hvec⟩ := ih (w.write op.encoding h)
      refine ⟨.ok () :: outs, w', by rw [runOps_cons (apply_ok h), hrun]; rfl, ?_⟩
      rw [succeeded, runOps_cons (vec_apply op _), ← bufferWritten_write w op.encoding h]
      revert hvec
      cases runOps BytesWriter.apply (succeeded ops outs) (w.write op.encoding h).bufferWritten <;>
        simp [Except.map]
    · obtain ⟨outs, w', hrun, hvec⟩ := ih w
      exact ⟨.error ⟨⟩ :: outs, w', by rw [runOps_cons (apply_error (by omega)), hrun]; rfl, hvec⟩

end BufferWriter

/-- A `BufferWriter` refines a `Vec<u8>`: on a `Vec<u8>` every `put_varint(x)` / `put_bytes(bs)`
succeeds and appends exactly its encoding, `x.size()` bytes for a varint; on a `BufferWriter` an
operation succeeds iff its encoding fits the remaining capacity, writing it at the offset, and a
failing one leaves the writer untouched; and after any sequence of operations, `buffer_written()`
is what a `Vec<u8>` holding the writer's initial bytes holds after the operations that succeeded. -/
theorem bufferWriter_refines_vec :
    (∀ (op : WriteOp) (v : List UInt8), BytesWriter.apply op v = .ok (.ok (), v ++ op.encoding)) ∧
    (∀ varint : VarInt, (WriteOp.putVarint varint).encoding.length = varint.size) ∧
    (∀ (op : WriteOp) (w : BufferWriter) (h : op.encoding.length ≤ w.capacity),
      BytesWriter.apply op w = .ok (.ok (), w.write op.encoding h) ∧
        (w.write op.encoding h).offset = w.offset + op.encoding.length ∧
        (w.write op.encoding h).bufferWritten = w.bufferWritten ++ op.encoding) ∧
    (∀ (op : WriteOp) (w : BufferWriter), w.capacity < op.encoding.length →
      BytesWriter.apply op w = .ok (.error ⟨⟩, w)) ∧
    (∀ (ops : List WriteOp) (w : BufferWriter), ∃ outs w',
      runOps BytesWriter.apply ops w = .ok (outs, w') ∧
        (runOps BytesWriter.apply (succeeded ops outs) w.bufferWritten).map Prod.snd =
          .ok w'.bufferWritten) :=
  ⟨vec_apply, WriteOp.length_encoding_putVarint,
    fun _ _ h => ⟨BufferWriter.apply_ok h, rfl, BufferWriter.bufferWritten_write _ _ h⟩,
    fun _ _ h => BufferWriter.apply_error h, BufferWriter.run_vec_succeeded⟩

end WTransport
