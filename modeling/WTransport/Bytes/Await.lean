import WTransport.Bytes.Cursor
import WTransport.Bytes.Sink

/-!
# Awaiting futures in sequence

The futures of `BytesReaderAsync` and `BytesWriterAsync` are awaited one after the other in an
`async fn`, each `?` returning the first error; `StreamHeader::read_async` and `write_async` are
two such programs. `awaitReads` and `awaitWrites` are the general ones: any sequence of
`get_varint` and `get_buffer`, or of `put_varint` and `put_buffer`, each future run by `blockOn`.

Over every well-behaved source, whatever its chunking and its `Pending`s, the reads answer as the
synchronous slice reader does over the bytes the source delivers, `Closed` standing for its first
`None`. Over every well-behaved sink the writes deliver exactly what `Vec<u8>` appends. The
synchronous readers read back every sequence of writes, whatever follows it, and so do the
asynchronous ones, whatever the chunking on either side.

## Main definitions

* `awaitReads`, `awaitWrites` — reads and writes awaited in sequence
* `WriteOp.readBack`, `WriteOp.readOut` — the read that gets a write back, and what it returns

## Main results

* `awaitReads_refines_slice` — asynchronous reads refine the slice reader
* `awaitWrites_refines_vec` — asynchronous writes refine `Vec<u8>`
* `writes_read_back` — both readers read back every sequence of writes
* `awaitWrites_awaitReads_roundtrip` — awaited reads read back awaited writes
-/

namespace WTransport

/-- A read that returned its value. -/
def ReadOut.isSome : ReadOut → Bool
  | .varint v => v.isSome
  | .bytes b => b.isSome

/-! ### Reads -/

section Reads

variable {R : Type} [AsyncRead R]

/-- One read awaited: `get_varint`, or `get_buffer` into a fresh `len`-byte destination, its future
polled at most `fuel` times; `none` when it was not ready within its fuel. -/
def awaitRead (fuel : Nat) : ReadOp → R → Except String (Option (Except IoError ReadOut) × R)
  | .getVarint, r => do
    let (x, g) ← blockOn GetVarint.poll fuel (GetVarint.new r)
    pure (x.map (Except.map fun v => .varint (some v)), g.reader)
  | .getBytes len, r => do
    let (x, g) ← blockOn GetBuffer.poll fuel (GetBuffer.new r (List.replicate len 0))
    pure (x.map (Except.map fun () => .bytes (some g.buffer)), g.reader)

/-- Reads awaited in sequence, the first error returned by `?`. -/
def awaitReads (fuel : Nat) : List ReadOp → R →
    Except String (Option (Except IoError (List ReadOut)) × R)
  | [], r => pure (some (.ok []), r)
  | op :: ops, r => do
    let (x, r) ← awaitRead fuel op r
    match x with
    | none => pure (none, r)
    | some (.error e) => pure (some (.error e), r)
    | some (.ok out) => do
      let (res, r) ← awaitReads fuel ops r
      pure (res.map (Except.map (out :: ·)), r)

theorem awaitReads_cons_ok {fuel : Nat} {op : ReadOp} {ops : List ReadOp} {r r' : R} {out : ReadOut}
    (h : awaitRead fuel op r = .ok (some (.ok out), r')) :
    awaitReads fuel (op :: ops) r =
      (awaitReads fuel ops r').map fun p => (p.1.map (Except.map (out :: ·)), p.2) := by
  simp only [awaitReads, h, bind, Except.bind]
  cases awaitReads fuel ops r' <;> rfl

theorem awaitReads_cons_error {fuel : Nat} {op : ReadOp} {ops : List ReadOp} {r r' : R}
    {e : IoError} (h : awaitRead fuel op r = .ok (some (.error e), r')) :
    awaitReads fuel (op :: ops) r = .ok (some (.error e), r') := by
  simp only [awaitReads, h, bind, Except.bind]
  rfl

variable {serves : R → Supply → Prop} (hsrc : WellBehavedSource serves)
include hsrc

/-- One awaited read over a well-behaved source serving `b` answers as the slice reader over `b`,
`Closed` for its `None`, after taking the same bytes, or all of `b` on `Closed`. -/
theorem awaitRead_spec (op : ReadOp) {b : List UInt8} {n : Nat} {r : R} (hr : serves r ⟨b, n⟩)
    {fuel : Nat} (hfuel : n < fuel) :
    ∃ m x r', m ≤ n ∧ awaitRead fuel op r = .ok (some x, r') ∧
      if (op.contract b).1.isSome then x = .ok (op.contract b).1 ∧
        serves r' ⟨b.drop (op.contract b).2, m⟩
      else x = .error .closed ∧ serves r' ⟨[], m⟩ := by
  rcases op with _ | len
  · obtain ⟨m, x, g, hm, hrun, hx, hs⟩ := GetVarint.run_spec hsrc hr hfuel
    refine ⟨m, _, g.reader, hm, by simp only [awaitRead, hrun, bind, Except.bind]; rfl, ?_⟩
    rcases hf : firstVarint b with _ | ⟨v, k⟩ <;>
      simp [ReadOp.contract, ReadOut.isSome, hf, hx, varintAnswer, firstVarintLen,
        Except.map] at hs ⊢ <;>
      simpa [varintTaken, hf] using hs
  · obtain ⟨m, x, g, hm, hrun, hx⟩ :=
      @GetBuffer.run_spec _ _ _ hsrc _ (List.replicate len 0) _ _ hr _ hfuel
    refine ⟨m, _, g.reader, hm, by simp only [awaitRead, hrun, bind, Except.bind]; rfl, ?_⟩
    simp only [GetBuffer.Done, List.length_replicate] at hx
    split_ifs at hx with hlen
    · obtain ⟨rfl, hbuf, hs⟩ := hx
      simp [ReadOp.contract, hlen, ReadOut.isSome, Except.map, hbuf, hs]
    · obtain ⟨rfl, hs⟩ := hx
      simp [ReadOp.contract, hlen, ReadOut.isSome, Except.map, hs]

/-- Any sequence of `get_varint` and `get_buffer` calls awaited over a well-behaved source that
serves `b`, whatever its chunking, with `n` `Pending`s at most, each future given more than `n`
polls: every future completes, and the sequence returns what the slice reader returns over `b`
when each of its reads found its bytes, the source left with what the slice reader leaves;
otherwise the first `?` returns `Closed`, the source drained. -/
theorem awaitReads_refines_slice (ops : List ReadOp) {b : List UInt8} {n : Nat} {r : R}
    (hr : serves r ⟨b, n⟩) {fuel : Nat} (hfuel : n < fuel) :
    ∃ outs rest, BytesReader.run ops b = .ok (outs, rest) ∧
      ∃ res r' m, m ≤ n ∧ awaitReads fuel ops r = .ok (some res, r') ∧
        if outs.all ReadOut.isSome then res = .ok outs ∧ serves r' ⟨rest, m⟩
        else res = .error .closed ∧ serves r' ⟨[], m⟩ := by
  induction ops generalizing b n r with
  | nil => exact ⟨[], b, rfl, _, r, n, le_rfl, rfl, by simp [hr]⟩
  | cons op ops ih =>
    have hslice : BytesReader.run (op :: ops) b =
        (BytesReader.run ops (b.drop (op.contract b).2)).map
          fun p => ((op.contract b).1 :: p.1, p.2) :=
      runOps_cons (slice_apply_contract op b)
    obtain ⟨m, x, r', hm, hread, hx⟩ := awaitRead_spec hsrc op hr hfuel
    split_ifs at hx with hsome
    · obtain ⟨rfl, hs⟩ := hx
      obtain ⟨outs, rest, hrun, res, r'', m', hm', hreads, hres⟩ := ih hs (by omega)
      refine ⟨_, rest, by rw [hslice, hrun]; rfl, _, r'', m', by omega,
        by rw [awaitReads_cons_ok hread, hreads]; rfl, ?_⟩
      simp only [List.all_cons, hsome, Bool.true_and]
      split_ifs at hres ⊢ <;> exact ⟨by rw [hres.1]; rfl, hres.2⟩
    · obtain ⟨rfl, hs⟩ := hx
      obtain ⟨outs, r₀, -, hrun⟩ := run_slice_bufferReader ops
        (BufferReader.new (b.drop (op.contract b).2))
      rw [BufferReader.new_bufferRemaining] at hrun
      refine ⟨_, _, by rw [hslice, hrun]; rfl, _, r', m, hm, awaitReads_cons_error hread, ?_⟩
      simp [hsome, hs]

end Reads

theorem awaitReads_refines_slice_scheduled :
    ∃ outs rest, BytesReader.run [.getVarint, .getBytes 2] ([0x40, 0x54, 0xAA, 0xBB] : List UInt8) =
        .ok (outs, rest) ∧
      ∃ res r' m, m ≤ 1 ∧ awaitReads 2 [.getVarint, .getBytes 2]
          (⟨[0x40, 0x54, 0xAA, 0xBB], [.pending, .chunk 1]⟩ : Scheduled) = .ok (some res, r') ∧
        if outs.all ReadOut.isSome then res = .ok outs ∧ Scheduled.Serves r' ⟨rest, m⟩
        else res = .error .closed ∧ Scheduled.Serves r' ⟨[], m⟩ :=
  awaitReads_refines_slice Scheduled.wellBehaved _
    (show Scheduled.Serves ⟨[0x40, 0x54, 0xAA, 0xBB], [.pending, .chunk 1]⟩
      ⟨[0x40, 0x54, 0xAA, 0xBB], 1⟩ from ⟨rfl, by decide⟩) (by decide)

/-! ### Writes -/

section Writes

variable {W : Type} [AsyncWrite W]

/-- One write awaited: `put_varint`, its future built by `PutVarint::new` and its `usize`
dropped, or `put_buffer`, polled at most `fuel` times. -/
def awaitWrite (fuel : Nat) : WriteOp → W → Except String (Option (Except IoError Unit) × W)
  | .putVarint varint, w => do
    let (x, p) ← PutVarint.new w varint >>= blockOn PutVarint.poll fuel
    pure (x.map (Except.map fun _ => ()), p.writer)
  | .putBytes bytes, w => do
    let (x, p) ← blockOn PutBuffer.poll fuel (PutBuffer.new w bytes)
    pure (x, p.writer)

/-- Writes awaited in sequence, the first error returned by `?`. -/
def awaitWrites (fuel : Nat) : List WriteOp → W → Except String (Option (Except IoError Unit) × W)
  | [], w => pure (some (.ok ()), w)
  | op :: ops, w => do
    let (x, w) ← awaitWrite fuel op w
    match x with
    | some (.ok ()) => awaitWrites fuel ops w
    | x => pure (x, w)

theorem awaitWrites_cons_ok {fuel : Nat} {op : WriteOp} {ops : List WriteOp} {w w' : W}
    (h : awaitWrite fuel op w = .ok (some (.ok ()), w')) :
    awaitWrites fuel (op :: ops) w = awaitWrites fuel ops w' := by
  simp only [awaitWrites, h, bind, Except.bind]

variable {accepts : W → Intake → Prop} (hsink : WellBehavedSink accepts)
include hsink

/-- One awaited write into a well-behaved sink delivers the operation's encoding. -/
theorem awaitWrite_spec (op : WriteOp) {w : W} {acc : List UInt8} {n : Nat}
    (hw : accepts w ⟨acc, n⟩) {fuel : Nat} (hfuel : n < fuel) :
    ∃ m w', m ≤ n ∧ awaitWrite fuel op w = .ok (some (.ok ()), w') ∧
      accepts w' ⟨acc ++ op.encoding, m⟩ := by
  rcases op with varint | bytes
  · obtain ⟨bw, hput, -, m, p, hm, hrun, hacc⟩ := PutVarint.run_spec hsink hw varint hfuel
    obtain ⟨bw', hput', -, hbytes, -⟩ := PutVarint.new_spec w varint
    rw [hput, Except.ok.injEq] at hput'
    refine ⟨m, p.writer, hm, by rw [awaitWrite, hrun]; rfl, ?_⟩
    rwa [WriteOp.encoding, ← hbytes, ← hput']
  · obtain ⟨m, p, hm, hrun, hacc⟩ := @PutBuffer.run_spec _ _ _ hsink _ _ bytes _ hw _ hfuel
    exact ⟨m, p.writer, hm, by rw [awaitWrite, hrun]; rfl, hacc⟩

/-- Writes awaited in sequence into a well-behaved sink deliver their encodings in order. -/
theorem awaitWrites_spec (ops : List WriteOp) {w : W} {acc : List UInt8} {n : Nat}
    (hw : accepts w ⟨acc, n⟩) {fuel : Nat} (hfuel : n < fuel) :
    ∃ w' m, m ≤ n ∧ awaitWrites fuel ops w = .ok (some (.ok ()), w') ∧
      accepts w' ⟨acc ++ (ops.map WriteOp.encoding).flatten, m⟩ := by
  induction ops generalizing w acc n with
  | nil => exact ⟨w, n, le_rfl, rfl, by simpa using hw⟩
  | cons op ops ih =>
    obtain ⟨m, w₁, hm, hwrite, hacc⟩ := awaitWrite_spec hsink op hw hfuel
    obtain ⟨w', m', hm', hwrites, hacc'⟩ := ih hacc (by omega)
    refine ⟨w', m', by omega, by rw [awaitWrites_cons_ok hwrite, hwrites], ?_⟩
    simpa [List.append_assoc] using hacc'

/-- Any sequence of `put_varint` and `put_buffer` calls awaited over a well-behaved sink that has
received `acc`, whatever its chunking, with `n` `Pending`s at most, each future given more than
`n` polls: every future completes with `Ok`, and the sink has received exactly what the same
operations leave on a `Vec<u8>` holding `acc`, where each of them succeeds. -/
theorem awaitWrites_refines_vec (ops : List WriteOp) {w : W} {acc : List UInt8} {n : Nat}
    (hw : accepts w ⟨acc, n⟩) {fuel : Nat} (hfuel : n < fuel) :
    ∃ v, runOps BytesWriter.apply ops acc = .ok (ops.map fun _ => .ok (), v) ∧
      ∃ w' m, m ≤ n ∧ awaitWrites fuel ops w = .ok (some (.ok ()), w') ∧ accepts w' ⟨v, m⟩ :=
  ⟨_, vec_run ops acc, awaitWrites_spec hsink ops hw hfuel⟩

end Writes

theorem awaitWrites_refines_vec_scheduled :
    ∃ v, runOps BytesWriter.apply [.putVarint (VarInt.fromU32 300), .putBytes [0xAA, 0xBB]]
        ([] : List UInt8) = .ok ([.ok (), .ok ()], v) ∧
      ∃ w' m, m ≤ 1 ∧ awaitWrites 2 [.putVarint (VarInt.fromU32 300), .putBytes [0xAA, 0xBB]]
          (⟨[], [.chunk 1, .pending]⟩ : ScheduledSink) = .ok (some (.ok ()), w') ∧
        ScheduledSink.Accepts w' ⟨v, m⟩ :=
  awaitWrites_refines_vec ScheduledSink.wellBehaved _
    (show ScheduledSink.Accepts ⟨[], [.chunk 1, .pending]⟩ ⟨[], 1⟩ from ⟨rfl, by decide⟩)
    (by decide)

/-! ### Writes read back -/

/-- The read that gets a write back: `get_varint`, or `get_buffer` of the bytes' length. -/
def WriteOp.readBack : WriteOp → ReadOp
  | .putVarint _ => .getVarint
  | .putBytes bytes => .getBytes bytes.length

/-- What that read returns. -/
def WriteOp.readOut : WriteOp → ReadOut
  | .putVarint varint => .varint (some varint)
  | .putBytes bytes => .bytes (some bytes)

/-- The read back of an operation, before any bytes, returns what was written and takes its
encoding. -/
theorem WriteOp.contract_readBack (op : WriteOp) (rest : List UInt8) :
    op.readBack.contract (op.encoding ++ rest) = (op.readOut, op.encoding.length) := by
  rcases op with varint | bytes
  · have h := firstVarint_varintBytes varint rest
    simp [readBack, readOut, encoding, ReadOp.contract, h, firstVarintLen_of_some h]
  · simp [readBack, readOut, encoding, ReadOp.contract]

theorem run_readBack (ops : List WriteOp) (rest : List UInt8) :
    BytesReader.run (ops.map WriteOp.readBack) ((ops.map WriteOp.encoding).flatten ++ rest) =
      .ok (ops.map WriteOp.readOut, rest) := by
  induction ops with
  | nil => rfl
  | cons op ops ih =>
    have h := slice_apply_contract op.readBack
      (op.encoding ++ ((ops.map WriteOp.encoding).flatten ++ rest))
    rw [WriteOp.contract_readBack, List.drop_left] at h
    simp only [BytesReader.run] at ih ⊢
    rw [List.map_cons, List.map_cons, List.flatten_cons, List.append_assoc, runOps_cons h, ih]
    rfl

/-- Whatever sequence of `put_varint` and `put_bytes` calls a `Vec<u8>` holding `acc` takes, each
succeeds and appends some bytes `e`; the matching sequence of `get_varint` and `get_bytes` calls,
over `e` followed by any bytes, returns every value written, in order, and leaves exactly what
followed, from a slice and from a `BufferReader` alike. -/
theorem writes_read_back (ops : List WriteOp) (acc rest : List UInt8) :
    ∃ e, runOps BytesWriter.apply ops acc = .ok (ops.map fun _ => .ok (), acc ++ e) ∧
      BytesReader.run (ops.map WriteOp.readBack) (e ++ rest) = .ok (ops.map WriteOp.readOut, rest) ∧
      ∃ r, BytesReader.run (ops.map WriteOp.readBack) (BufferReader.new (e ++ rest)) =
          .ok (ops.map WriteOp.readOut, r) ∧ r.bufferRemaining = rest := by
  have hslice := run_readBack ops rest
  obtain ⟨outs, r, hbuf, hrem⟩ := run_slice_bufferReader (ops.map WriteOp.readBack)
    (BufferReader.new ((ops.map WriteOp.encoding).flatten ++ rest))
  rw [BufferReader.new_bufferRemaining, hslice, Except.ok.injEq, Prod.mk.injEq] at hrem
  obtain ⟨rfl, hr⟩ := hrem
  exact ⟨_, vec_run ops acc, hslice, r, hbuf, hr.symm⟩

/-- Over a well-behaved source serving the encodings of some writes followed by `rest`, their
read backs, awaited in sequence, return what was written and leave `rest`. -/
theorem awaitReads_readBack {R : Type} [AsyncRead R] {serves : R → Supply → Prop}
    (hsrc : WellBehavedSource serves) (ops : List WriteOp) (rest : List UInt8) {r : R} {n : Nat}
    (hr : serves r ⟨(ops.map WriteOp.encoding).flatten ++ rest, n⟩) {fuel : Nat}
    (hfuel : n < fuel) :
    ∃ r' m, m ≤ n ∧
      awaitReads fuel (ops.map WriteOp.readBack) r =
        .ok (some (.ok (ops.map WriteOp.readOut)), r') ∧
      serves r' ⟨rest, m⟩ := by
  induction ops generalizing r n with
  | nil => exact ⟨r, n, le_rfl, rfl, hr⟩
  | cons op ops ih =>
    rw [List.map_cons, List.flatten_cons, List.append_assoc] at hr
    obtain ⟨m, x, r₁, hm, hread, hx⟩ := awaitRead_spec hsrc op.readBack hr hfuel
    rw [WriteOp.contract_readBack, if_pos (by cases op <;> rfl), List.drop_left] at hx
    obtain ⟨rfl, hs⟩ := hx
    obtain ⟨r', m', hm', hreads, hrest⟩ := ih hs (by omega)
    refine ⟨r', m', by omega, ?_, hrest⟩
    rw [List.map_cons, List.map_cons, awaitReads_cons_ok hread, hreads]
    rfl

/-- The asynchronous writers and readers are inverse, whatever the chunking and the `Pending`s on
either side: any sequence of `put_varint` and `put_buffer` calls awaited into a well-behaved sink
completes, the sink having received some bytes `e`; and over every well-behaved source that serves
`e` followed by any bytes, the matching `get_varint` and `get_buffer` calls, awaited in sequence,
complete with every value written, in order, leaving the source with exactly what followed. -/
theorem awaitWrites_awaitReads_roundtrip {R W : Type} [AsyncRead R] [AsyncWrite W]
    {serves : R → Supply → Prop} {accepts : W → Intake → Prop} (hsrc : WellBehavedSource serves)
    (hsink : WellBehavedSink accepts) (ops : List WriteOp) {w : W} {acc : List UInt8} {n : Nat}
    (hw : accepts w ⟨acc, n⟩) {fuel : Nat} (hfuel : n < fuel) :
    ∃ e w' m, m ≤ n ∧ awaitWrites fuel ops w = .ok (some (.ok ()), w') ∧ accepts w' ⟨acc ++ e, m⟩ ∧
      ∀ (rest : List UInt8) (r : R) (k fuel' : Nat), serves r ⟨e ++ rest, k⟩ → k < fuel' →
        ∃ r' m', m' ≤ k ∧
          awaitReads fuel' (ops.map WriteOp.readBack) r =
            .ok (some (.ok (ops.map WriteOp.readOut)), r') ∧
          serves r' ⟨rest, m'⟩ := by
  obtain ⟨w', m, hm, hwrites, hacc⟩ := awaitWrites_spec hsink ops hw hfuel
  exact ⟨_, w', m, hm, hwrites, hacc,
    fun rest _ _ _ hr hk => awaitReads_readBack hsrc ops rest hr hk⟩

theorem awaitWrites_awaitReads_roundtrip_scheduled :
    ∃ e w' m, m ≤ 1 ∧ awaitWrites 2 [.putVarint (VarInt.fromU32 300), .putBytes [0xAA, 0xBB]]
        (⟨[], [.chunk 1, .pending]⟩ : ScheduledSink) = .ok (some (.ok ()), w') ∧
      ScheduledSink.Accepts w' ⟨[] ++ e, m⟩ ∧
      ∀ (rest : List UInt8) (r : Scheduled) (k fuel' : Nat), Scheduled.Serves r ⟨e ++ rest, k⟩ →
        k < fuel' →
        ∃ r' m', m' ≤ k ∧
          awaitReads fuel' ([.putVarint (VarInt.fromU32 300), .putBytes [0xAA, 0xBB]].map
              WriteOp.readBack) r =
            .ok (some (.ok ([.putVarint (VarInt.fromU32 300), .putBytes [0xAA, 0xBB]].map
              WriteOp.readOut)), r') ∧
          Scheduled.Serves r' ⟨rest, m'⟩ :=
  awaitWrites_awaitReads_roundtrip Scheduled.wellBehaved ScheduledSink.wellBehaved _
    (show ScheduledSink.Accepts ⟨[], [.chunk 1, .pending]⟩ ⟨[], 1⟩ from ⟨rfl, by decide⟩)
    (by decide)

end WTransport
