import WTransport.Stream.Codec
import WTransport.Bytes.VarIntCodec

/-!
# Writing headers into fixed buffers, and writing back what was read

`StreamHeader::write_to_buffer` checks the room `write_size` asks for before writing into a
`BufferWriter`, so its `expect` never fires: it writes exactly what `write` puts on a `Vec<u8>`,
or nothing at all.

A header `read` returns keeps its kind's id, an exercise kind included. Writing it gives the
shortest encodings of its two varints, so no more bytes than were read; the bytes read come back
exactly when they held the shortest encodings, and in every case `read` gets the header back from
what was written.

## Main results

* `StreamHeader.writeToBuffer_eq_write` — `write_to_buffer` against `write` and `write_size`
* `StreamHeader.read_reencode` — re-encoding a header `read` returned
-/

namespace WTransport

namespace StreamHeader

/-- With room for its encoding, a well-formed header is written into a `BufferWriter` as on a
`Vec<u8>`. -/
theorem write_bufferWriter {h : StreamHeader} (hw : h.WellFormed) {w : BufferWriter}
    (hle : h.encoding.length ≤ w.capacity) : h.write w = .ok (.ok (), w.write h.encoding hle) := by
  have h₁ : (WriteOp.putVarint h.kind.id).encoding.length ≤ w.capacity :=
    le_trans (by simp [encoding]) hle
  have hk : w.lift (w.putVarint h.kind.id) = (.ok (), w.write _ h₁) :=
    Except.ok.inj ((BufferWriter.apply_eq_lift _ w).symm.trans (BufferWriter.apply_ok h₁))
  simp only [write, hk, sessionId?_eq hw, bind, Except.bind]
  cases hs : h.sessionId with
  | none => simp [encoding, hs, pure, Except.pure]
  | some s =>
    have h₂ : (WriteOp.putVarint s.varint).encoding.length ≤ (w.write _ h₁).capacity := by
      simp only [encoding, hs, Option.map_some', Option.getD_some, List.length_append] at hle
      simp only [BufferWriter.capacity_write]
      omega
    have hs' := BufferWriter.apply_ok h₂
    simp only [BytesWriter.apply] at hs'
    simp only [hs', BufferWriter.write_append]
    simp [encoding, hs]

/-- `write_size()` is the number of bytes `write` appends to any `Vec<u8>`, at most
`StreamHeader::MAX_SIZE`, and never panics. `write_to_buffer(w)` returns `Err(EndOfBuffer)` with
`w` untouched exactly when `w.capacity() < write_size()`; otherwise it returns `Ok`, having written
those bytes at `w`'s offset and moved the offset past them. -/
theorem writeToBuffer_eq_write (h : StreamHeader) (hw : h.WellFormed) (w : BufferWriter) :
    ∃ e, (∀ v : List UInt8, h.write v = .ok (.ok (), v ++ e)) ∧ h.writeSize = .ok e.length ∧
      e.length ≤ maxSize ∧
      h.writeToBuffer w =
        (if hle : e.length ≤ w.capacity then .ok (.ok (), w.write e hle) else .ok (.error ⟨⟩, w)) ∧
      ∀ hle : e.length ≤ w.capacity, (w.write e hle).offset = w.offset + e.length ∧
        (w.write e hle).bufferWritten = w.bufferWritten ++ e := by
  refine ⟨h.encoding, write_vec hw, writeSize_eq hw, h.length_encoding_le, ?_,
    fun hle => ⟨rfl, BufferWriter.bufferWritten_write _ _ hle⟩⟩
  simp only [writeToBuffer, writeSize_eq hw, bind, Except.bind]
  split_ifs with hlt hle hle
  · omega
  · rfl
  · simp [write_bufferWriter hw hle, expectOk, pure, Except.pure]
  · omega

theorem writeToBuffer_eq_write_webtransport :
    ∃ e, (∀ v : List UInt8,
        (newWebtransport ⟨VarInt.fromU32 4⟩).write v = .ok (.ok (), v ++ e)) ∧
      (newWebtransport ⟨VarInt.fromU32 4⟩).writeSize = .ok e.length ∧ e.length ≤ maxSize ∧
      (newWebtransport ⟨VarInt.fromU32 4⟩).writeToBuffer (BufferWriter.new [0, 0, 0]) =
        (if hle : e.length ≤ (BufferWriter.new [0, 0, 0]).capacity then
          .ok (.ok (), (BufferWriter.new [0, 0, 0]).write e hle)
        else .ok (.error ⟨⟩, BufferWriter.new [0, 0, 0])) ∧
      ∀ hle : e.length ≤ (BufferWriter.new [0, 0, 0]).capacity,
        ((BufferWriter.new [0, 0, 0]).write e hle).offset =
          (BufferWriter.new [0, 0, 0]).offset + e.length ∧
        ((BufferWriter.new [0, 0, 0]).write e hle).bufferWritten =
          (BufferWriter.new [0, 0, 0]).bufferWritten ++ e :=
  writeToBuffer_eq_write _ (by decide) _

/-- A header `read` returns from bytes `b` has the first varint of `b` as its kind's id, and as
its session id, on a WebTransport header, the varint after it; `read` took those `k + m` bytes.
Writing the header gives `write_size()` bytes, no more than `k + m`, and exactly `k + m` iff both
varints were read from their shortest encodings, which is also exactly when the bytes written are
the bytes read. `read` gets the header back from the bytes written. -/
theorem read_reencode (isValid : VarInt → Bool) {b rest : List UInt8} {h : StreamHeader}
    (hr : read isValid b = .ok (some (.ok h), rest)) :
    ∃ k m e, firstVarint b = some (h.kind.id, k) ∧
      (∀ s, h.sessionId = some s → firstVarint (b.drop k) = some (s.varint, m)) ∧
      (h.sessionId = none → m = 0) ∧ rest = b.drop (k + m) ∧
      h.write ([] : List UInt8) = .ok (.ok (), e) ∧ h.writeSize = .ok e.length ∧ e.length ≤ k + m ∧
      (e.length = k + m ↔ k = h.kind.id.size ∧ ∀ s, h.sessionId = some s → m = s.varint.size) ∧
      (e = b.take (k + m) ↔ k = h.kind.id.size ∧ ∀ s, h.sessionId = some s → m = s.varint.size) ∧
      read isValid e = .ok (some (.ok h), []) := by
  have hw := read_wellFormed isValid hr
  obtain ⟨rest', hr', hrest⟩ := read_slice_eq_grammar isValid b
  rw [hr] at hr'
  rcases hg : headerGrammar isValid b with _ | ⟨v, n⟩ <;>
    simp only [hg, Option.map_some', Option.map_none', Except.ok.injEq, Prod.mk.injEq,
      Option.some.injEq, reduceCtorEq, false_and] at hr'
  obtain ⟨rfl, rfl⟩ := hr'
  have hn := headerGrammar_le isValid hg
  obtain ⟨k, hk, hsess⟩ := headerGrammar_eq_ok isValid hg
  have hks := firstVarint_size_le hk
  have hkb := varintBytes_eq_take_iff hk
  rcases hsess with ⟨hnone, rfl⟩ | ⟨s, m, hs, hm, hv, rfl⟩
  · have he : h.encoding = varintBytes h.kind.id.val h.kind.id.size := by
      simp [encoding, hnone, WriteOp.encoding]
    refine ⟨n, 0, h.encoding, hk, by simp [hnone], fun _ => rfl, hrest _ _ hg, write_vec hw [],
      writeSize_eq hw, ?_, ?_, ?_, ?_⟩
    · simpa [he] using hks
    · simp [he, hnone, eq_comm]
    · simp [he, hnone, hkb, eq_comm]
    · simpa using read_encoding hw (by simp [hnone]) []
  · have he : h.encoding = varintBytes h.kind.id.val h.kind.id.size ++
        varintBytes s.varint.val s.varint.size := by
      simp [encoding, hs, WriteOp.encoding]
    have hms := firstVarint_size_le hm
    have hmb := varintBytes_eq_take_iff hm
    have hlen : h.encoding.length = h.kind.id.size + s.varint.size := by simp [he]
    have hiff : h.encoding.length = k + m ↔ k = h.kind.id.size ∧ m = s.varint.size := by omega
    refine ⟨k, m, h.encoding, hk, fun s' hs' => ?_, by simp [hs], hrest _ _ hg, write_vec hw [],
      writeSize_eq hw, by omega, by simpa [hs] using hiff, ?_, ?_⟩
    · rw [hs, Option.some.injEq] at hs'
      exact hs' ▸ hm
    · simp only [hs, Option.some.injEq, forall_eq']
      refine ⟨fun heq => hiff.mp (by rw [heq, List.length_take]; omega), fun ⟨h₁, h₂⟩ => ?_⟩
      rw [he, List.take_add, hkb.mpr h₁, hmb.mpr h₂]
    · simpa using read_encoding hw (fun s' hs' => ⟨s'.varint, by
        rw [hs, Option.some.injEq] at hs'
        subst hs'
        simp [SessionId.tryFromVarint, hv]⟩) []

theorem read_reencode_long_kind :
    ∃ k m e, firstVarint [0x40, 0x54, 0x04] =
        some ((newWebtransport ⟨VarInt.fromU32 4⟩).kind.id, k) ∧
      (∀ s, (newWebtransport ⟨VarInt.fromU32 4⟩).sessionId = some s →
        firstVarint (([0x40, 0x54, 0x04] : List UInt8).drop k) = some (s.varint, m)) ∧
      ((newWebtransport ⟨VarInt.fromU32 4⟩).sessionId = none → m = 0) ∧
      ([] : List UInt8) = ([0x40, 0x54, 0x04] : List UInt8).drop (k + m) ∧
      (newWebtransport ⟨VarInt.fromU32 4⟩).write ([] : List UInt8) = .ok (.ok (), e) ∧
      (newWebtransport ⟨VarInt.fromU32 4⟩).writeSize = .ok e.length ∧ e.length ≤ k + m ∧
      (e.length = k + m ↔ k = (newWebtransport ⟨VarInt.fromU32 4⟩).kind.id.size ∧
        ∀ s, (newWebtransport ⟨VarInt.fromU32 4⟩).sessionId = some s → m = s.varint.size) ∧
      (e = ([0x40, 0x54, 0x04] : List UInt8).take (k + m) ↔
        k = (newWebtransport ⟨VarInt.fromU32 4⟩).kind.id.size ∧
        ∀ s, (newWebtransport ⟨VarInt.fromU32 4⟩).sessionId = some s → m = s.varint.size) ∧
      read (fun v => v.val % 4 == 0) e =
        .ok (some (.ok (newWebtransport ⟨VarInt.fromU32 4⟩)), []) :=
  @read_reencode (fun v => v.val % 4 == 0) [0x40, 0x54, 0x04] [] _ rfl

end StreamHeader

end WTransport
