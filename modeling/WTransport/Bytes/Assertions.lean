import WTransport.Bytes.Sink

/-!
# The assertions of the futures, over any source and any sink

`GetVarint::poll` asserts that nothing of the varint is held before its first byte
(`varint_size == 0`), that a one-byte request is answered with `0` or `1`, and that the size the
first byte announces is not `0`; it slices `buffer[offset..varint_size]` and
`buffer[..varint_size]`, and `expect`s the full buffer to decode ("Varint is parsable").

None of this depends on what the source delivers. Over every `AsyncRead` whose `poll_read`
returns and never reports more bytes read than it was lent, whatever bytes, chunks, `Pending`s and
errors it gives, every state the future reaches by polls, polls after `Ready` included, keeps
`GetVarint.Sane`, and no poll panics.

`PutVarint::poll` and `PutBuffer::poll` assert `written > 0` and add `written` to a `usize`
offset. Over every `AsyncWrite` whose `poll_write` returns, takes something of every non-empty
offer and never reports more than it was offered, their offsets stay within their bytes, so the
additions never overflow, and no poll panics. The offsets of the model are `Nat`s: the bound on
`written` is what makes them faithful to the `usize`s of the code.

## Main definitions

* `ReadsWithin` — the part of the `poll_read` contract that `get_varint` relies on
* `GetVarint.Sane` — the state every poll keeps
* `WritesSome` — the part of the `poll_write` contract that `put_varint` and `put_buffer` rely on
* `PutVarint.Sane` — the state every poll keeps

## Main results

* `readLoop_within` — the read loop over such a source returns, keeping the bytes read
* `getVarint_never_panics` — no reachable state of `get_varint` panics
* `writeLoop_writesSome` — the write loop over such a sink returns, its offset within its bytes
* `putFutures_never_panic` — no reachable state of `put_varint` or `put_buffer` panics
-/

namespace WTransport

/-- `poll_read` returns, and never reports more bytes read than the destination holds. -/
def ReadsWithin (R : Type) [AsyncRead R] : Prop :=
  ∀ (r : R) (buf : List UInt8), ∃ p buf' r', AsyncRead.pollRead r buf = .ok (p, buf', r') ∧
    ∀ k, p = .ready (.ok k) → k ≤ buf.length

/-- A scheduled source hands over at most what it is asked for. -/
theorem Scheduled.readsWithin : ReadsWithin Scheduled := by
  rintro ⟨data, _ | ⟨_ | k, moves⟩⟩ buf
  · exact ⟨_, _, _, rfl, fun k h => by cases h; omega⟩
  · exact ⟨_, _, _, rfl, fun k h => by cases h⟩
  · exact ⟨_, _, _, rfl, fun k h => by cases h; omega⟩

section ReadLoop

variable {R : Type} [AsyncRead R] (hw : ReadsWithin R)
include hw

/-- The read loop over a source that reads within what it is lent returns, keeps the buffer's
length and the bytes before the offset, and stops with the offset between where it started and
`stop`. -/
theorem readLoop_within (reader : R) {buffer : List UInt8} {offset stop : Nat} (hle : offset ≤ stop)
    (hstop : stop ≤ buffer.length) :
    ∃ p reader' buffer' offset',
      readLoop reader buffer offset stop = .ok (p, reader', buffer', offset') ∧
      buffer'.length = buffer.length ∧ buffer'.take offset = buffer.take offset ∧
      offset ≤ offset' ∧ offset' ≤ stop := by
  obtain ⟨d, hd⟩ : ∃ d, stop - offset = d := ⟨_, rfl⟩
  induction d using Nat.strong_induction_on generalizing reader buffer offset with
  | _ d ih =>
  rw [readLoop]
  by_cases hlt : offset < stop
  · rw [if_pos hlt]
    obtain ⟨p, buf, r, hread, hk⟩ := hw reader (window buffer offset stop)
    have hwin := length_window hlt.le hstop
    have hbuf := (AsyncRead.length_pollRead hread).trans hwin
    have hlen := length_writeWindow hlt.le hstop hbuf
    have htake : (writeWindow buffer offset stop buf).take offset = buffer.take offset :=
      take_writeWindow_self (by omega)
    simp only [hread, bind, Except.bind]
    rcases p with (_ | read) | _
    · exact ⟨_, _, _, _, rfl, hlen, htake, le_rfl, hlt.le⟩
    · by_cases hpos : 0 < read
      · have hread_le := hwin ▸ hk read rfl
        simp only [if_pos hpos]
        obtain ⟨p', r', b', o', hrun, hlen', htake', ho, ho'⟩ :=
          ih (stop - (offset + read)) (by omega) r (show offset + read ≤ stop by omega)
            (show stop ≤ (writeWindow buffer offset stop buf).length by omega) rfl
        refine ⟨p', r', b', o', hrun, hlen'.trans hlen, ?_, by omega, ho'⟩
        calc b'.take offset = (b'.take (offset + read)).take offset := by
              rw [List.take_take, Nat.min_eq_left (by omega)]
          _ = buffer.take offset := by
              rw [htake', List.take_take, Nat.min_eq_left (by omega), htake]
      · simp only [if_neg hpos]
        exact ⟨_, _, _, _, rfl, hlen, htake, le_rfl, hlt.le⟩
    · exact ⟨_, _, _, _, rfl, hlen, htake, le_rfl, hlt.le⟩
  · rw [if_neg hlt]
    exact ⟨_, _, _, _, rfl, rfl, rfl, le_rfl, hle⟩

end ReadLoop

namespace GetVarint

variable {R : Type}

/-- The state `GetVarint::poll` keeps over any source: the buffer keeps its `VarInt::MAX_SIZE`
bytes; before the first byte, `varint_size` is `0`, as the `debug_assert_eq!` asks; after it,
`varint_size` is the size the first byte announces and the offset has not passed it, so both
slices are in range. -/
structure Sane (g : GetVarint R) : Prop where
  length_buffer : g.buffer.length = VarInt.maxSize
  unstarted : g.offset = 0 → g.varintSize = 0
  started : 0 < g.offset →
    g.varintSize = VarInt.parseSize (g.buffer.headD 0) ∧ g.offset ≤ g.varintSize

theorem Sane.new (r : R) : Sane (GetVarint.new r) :=
  ⟨by simp [GetVarint.new], fun _ => rfl, fun h => absurd h (Nat.lt_irrefl 0)⟩

/-- The size the first byte announced is never `0`, as the `debug_assert_ne!` asks. -/
theorem Sane.varintSize_pos {g : GetVarint R} (hg : g.Sane) (h : 0 < g.offset) :
    0 < g.varintSize := by
  rw [(hg.started h).1]
  exact VarInt.parseSize_pos _

/-- The first `varint_size` bytes of a buffer whose first byte announces that size decode. -/
theorem expect_getVarint_ok {buffer : List UInt8} {size : Nat}
    (hsize : size = VarInt.parseSize (buffer.headD 0)) (hle : size ≤ buffer.length) :
    ∃ v, expect (BufferReader.new (buffer.take size)).getVarint.1 "Varint is parsable" = .ok v := by
  have hpos : 0 < size := hsize ▸ VarInt.parseSize_pos _
  have hhead : (buffer.take size).headD 0 = buffer.headD 0 :=
    headD_eq_of_take_one (by rw [List.take_take, Nat.min_eq_left hpos])
  have hne : buffer.take size ≠ [] := List.ne_nil_of_length_pos (by simp; omega)
  obtain ⟨v, hv⟩ := firstVarint_of_le hne (by rw [hhead, ← hsize]; simp; omega)
  rw [BufferReader.getVarint_fst, BufferReader.new_bufferRemaining, hv]
  exact ⟨v, rfl⟩

variable [AsyncRead R] (hw : ReadsWithin R)
include hw

theorem pollLoop_sane {g : GetVarint R} (hg : g.Sane) (hpos : 0 < g.offset) :
    ∃ p g', g.pollLoop = .ok (p, g') ∧ g'.Sane := by
  obtain ⟨hsize, hle⟩ := hg.started hpos
  have hstop : g.varintSize ≤ g.buffer.length := by
    rw [hg.length_buffer, hsize]
    exact VarInt.parseSize_le_maxSize _
  obtain ⟨p, reader, buffer, offset, hrun, hlen, htake, ho, ho'⟩ :=
    readLoop_within hw g.reader hle hstop
  have hhead : buffer.headD 0 = g.buffer.headD 0 := headD_eq_of_take_one (by
    rw [← Nat.min_eq_left (Nat.one_le_iff_ne_zero.mpr (by omega) : 1 ≤ g.offset), ← List.take_take,
      htake, List.take_take])
  have hsane : Sane { g with reader, buffer, offset } :=
    ⟨hlen.trans hg.length_buffer, fun h => by simp at h; omega,
      fun _ => ⟨hsize.trans (congrArg _ hhead.symm), ho'⟩⟩
  simp only [pollLoop, hrun, bind, Except.bind]
  rcases p with (_ | _) | _
  · exact ⟨_, _, rfl, hsane⟩
  · obtain ⟨v, hv⟩ := expect_getVarint_ok (hsize.trans (congrArg _ hhead.symm))
      (by rw [hlen]; exact hstop)
    simp only [hv]
    exact ⟨_, _, rfl, hsane⟩
  · exact ⟨_, _, rfl, hsane⟩

/-- One poll of `get_varint` over a source that reads within what it is lent returns, keeping
`Sane`. -/
theorem poll_sane {g : GetVarint R} (hg : g.Sane) : ∃ p g', g.poll = .ok (p, g') ∧ g'.Sane := by
  by_cases h0 : g.offset = 0
  · have hsize := hg.unstarted h0
    have hstop : 1 ≤ g.buffer.length := by rw [hg.length_buffer]; decide
    obtain ⟨p, buf, r, hread, hk⟩ := hw g.reader (window g.buffer 0 1)
    have hbuf := (AsyncRead.length_pollRead hread).trans (length_window (Nat.zero_le 1) hstop)
    have hlen := length_writeWindow (Nat.zero_le 1) hstop hbuf
    have hsane : Sane { g with reader := r, buffer := writeWindow g.buffer 0 1 buf } :=
      ⟨hlen.trans hg.length_buffer, fun _ => hsize, fun h => absurd h (by simp [h0])⟩
    simp only [poll, if_pos h0, hread, bind, Except.bind]
    rcases p with (_ | read) | _
    · exact ⟨_, _, rfl, hsane⟩
    · have hread_le : read ≤ 1 := (hk read rfl).trans_eq (length_window (Nat.zero_le 1) hstop)
      by_cases h1 : read = 1
      · simp only [if_pos h1]
        exact pollLoop_sane hw ⟨hlen.trans hg.length_buffer, fun h => absurd h one_ne_zero,
          fun _ => ⟨rfl, VarInt.parseSize_pos _⟩⟩ Nat.one_pos
      · simp only [if_neg h1, if_pos (show read = 0 by omega)]
        exact ⟨_, _, rfl, hsane⟩
    · exact ⟨_, _, rfl, hsane⟩
  · simp only [poll, if_neg h0]
    exact pollLoop_sane hw hg (Nat.pos_of_ne_zero h0)

end GetVarint

/-- Over every source whose `poll_read` returns and never reports more bytes read than it was
lent, whatever bytes, chunks, `Pending`s and errors it gives, every state `get_varint` reaches by
polls, polls after `Ready` included, is `Sane`: the `debug_assert`s on `varint_size` hold and both
slices are in range. No poll of such a state panics: neither the `read == 0 || read == 1`
assertion nor the `expect("Varint is parsable")` fires. So the executor never panics on it,
whatever its fuel. -/
theorem getVarint_never_panics {R : Type} [AsyncRead R] (hw : ReadsWithin R) (r : R) :
    (∀ g, PollReach GetVarint.poll (GetVarint.new r) g →
      g.Sane ∧ (0 < g.offset → 0 < g.varintSize) ∧ ∃ res, g.poll = .ok res) ∧
    ∀ fuel, ∃ x g, blockOn GetVarint.poll fuel (GetVarint.new r) = .ok (x, g) := by
  have hreach : ∀ g, PollReach GetVarint.poll (GetVarint.new r) g → g.Sane := fun g hg =>
    hg.inv (fun _ _ _ hf hp => by
      obtain ⟨p, f', hpoll, hsane⟩ := GetVarint.poll_sane hw hf
      rw [hpoll, Except.ok.injEq, Prod.mk.injEq] at hp
      exact hp.2 ▸ hsane) (GetVarint.Sane.new r)
  have hpolls : ∀ g, PollReach GetVarint.poll (GetVarint.new r) g → ∃ res, g.poll = .ok res :=
    fun g hg => by
      obtain ⟨p, g', hpoll, -⟩ := GetVarint.poll_sane hw (hreach g hg)
      exact ⟨_, hpoll⟩
  exact ⟨fun g hg => ⟨hreach g hg, (hreach g hg).varintSize_pos, hpolls g hg⟩,
    blockOn_ok_of_reach hpolls⟩

theorem getVarint_never_panics_scheduled :
    (∀ g, PollReach GetVarint.poll (GetVarint.new (⟨[0x40], [.pending]⟩ : Scheduled)) g →
      g.Sane ∧ (0 < g.offset → 0 < g.varintSize) ∧ ∃ res, g.poll = .ok res) ∧
    ∀ fuel, ∃ x g, blockOn GetVarint.poll fuel (GetVarint.new (⟨[0x40], [.pending]⟩ : Scheduled)) =
      .ok (x, g) :=
  getVarint_never_panics Scheduled.readsWithin _

/-! ### `written > 0` and `offset += written` -/

/-- `poll_write` returns, takes at least one byte of every non-empty offer it does not answer
`Pending` or an error, and never reports more bytes written than it was offered. -/
def WritesSome (W : Type) [AsyncWrite W] : Prop :=
  ∀ (w : W) (buf : List UInt8), ∃ p w', AsyncWrite.pollWrite w buf = .ok (p, w') ∧
    ∀ k, p = .ready (.ok k) → (buf ≠ [] → 0 < k) ∧ k ≤ buf.length

/-- A scheduled sink takes at least one byte of every non-empty offer it does not answer
`Pending`, and at most the offer. -/
theorem ScheduledSink.writesSome : WritesSome ScheduledSink := by
  rintro ⟨received, _ | ⟨_ | k, moves⟩⟩ buf
  · exact ⟨_, _, rfl, fun _ h => by cases h; exact ⟨List.length_pos.mpr, le_rfl⟩⟩
  · exact ⟨_, _, rfl, fun _ h => by cases h⟩
  · refine ⟨_, _, rfl, fun _ h => ?_⟩
    cases h
    exact ⟨fun hne => by have := List.length_pos.mpr hne; omega, Nat.min_le_right _ _⟩

/-- The state `PutVarint::poll` keeps over a sink that writes within what it is offered: the
offset has not passed `varint_size`, which the buffer holds, so `buffer[offset..varint_size]` is
in range and no `offset += written` passes the buffer's length. -/
structure PutVarint.Sane {W : Type} (p : PutVarint W) : Prop where
  offset_le : p.offset ≤ p.varintSize
  varintSize_le : p.varintSize ≤ p.buffer.length

/-- `PutVarint::new` builds a future whose varint fits its buffer, nothing of it written yet. -/
theorem PutVarint.new_sane {W : Type} [AsyncWrite W] (w : W) (x : VarInt) :
    ∃ p, PutVarint.new w x = .ok p ∧ p.Sane := by
  obtain ⟨bw, -, -, -, hnew⟩ := PutVarint.new_spec w x
  exact ⟨_, hnew, Nat.zero_le _, bw.offset_le⟩

section WriteLoop

variable {W : Type} [AsyncWrite W] (hw : WritesSome W)
include hw

/-- The write loop over a sink that writes within what it is offered never reaches the
`debug_assert!(written > 0)` and returns, its offset between where it started and `stop`: every
`offset += written` stays within the buffer. -/
theorem writeLoop_writesSome (writer : W) {buffer : List UInt8} {offset stop : Nat}
    (hle : offset ≤ stop) (hstop : stop ≤ buffer.length) :
    ∃ p writer' offset', writeLoop writer buffer offset stop = .ok (p, writer', offset') ∧
      offset ≤ offset' ∧ offset' ≤ stop := by
  obtain ⟨d, hd⟩ : ∃ d, stop - offset = d := ⟨_, rfl⟩
  induction d using Nat.strong_induction_on generalizing writer offset with
  | _ d ih =>
  rw [writeLoop]
  by_cases hlt : offset < stop
  · rw [if_pos hlt]
    have hwin := length_window hlt.le hstop
    obtain ⟨p, w, hwrite, hk⟩ := hw writer (window buffer offset stop)
    simp only [hwrite, bind, Except.bind]
    rcases p with (_ | written) | _
    · exact ⟨_, _, _, rfl, le_rfl, hlt.le⟩
    · obtain ⟨hsome, hwithin⟩ := hk written rfl
      have hpos := hsome (List.ne_nil_of_length_pos (by omega))
      simp only [if_pos hpos]
      obtain ⟨p', w', o', hrun, ho, ho'⟩ :=
        ih (stop - (offset + written)) (by omega) w (show offset + written ≤ stop by omega) rfl
      exact ⟨p', w', o', hrun, by omega, ho'⟩
    · exact ⟨_, _, _, rfl, le_rfl, hlt.le⟩
  · rw [if_neg hlt]
    exact ⟨_, _, _, rfl, le_rfl, hle⟩

/-- One poll of `put_buffer` of `bs` from an offset within them returns, keeping `bs` and leaving
the offset within them. -/
theorem PutBuffer.poll_writesSome {bs : List UInt8} {p : PutBuffer W}
    (hp : p.buffer = bs ∧ p.offset ≤ bs.length) :
    ∃ res, p.poll = .ok res ∧ res.2.buffer = bs ∧ res.2.offset ≤ bs.length := by
  obtain ⟨rfl, hle⟩ := hp
  obtain ⟨q, w, o, h, -, ho⟩ := writeLoop_writesSome hw p.writer hle le_rfl
  simp only [PutBuffer.poll, h, bind, Except.bind]
  exact ⟨_, rfl, rfl, ho⟩

/-- One poll of `put_varint` from a `Sane` state returns, keeping `Sane`. -/
theorem PutVarint.poll_writesSome {p : PutVarint W} (hp : p.Sane) :
    ∃ res, p.poll = .ok res ∧ res.2.Sane := by
  obtain ⟨q, w, o, h, -, ho⟩ := writeLoop_writesSome hw p.writer hp.offset_le hp.varintSize_le
  simp only [PutVarint.poll, h, bind, Except.bind]
  rcases q with (_ | _) | _ <;> exact ⟨_, rfl, ho, hp.varintSize_le⟩

end WriteLoop

/-- Over every sink whose `poll_write` returns, takes at least one byte of every non-empty offer it
does not answer `Pending` or an error, and never reports more than it was offered,
`put_varint` and `put_buffer` never panic. `PutVarint::new`'s `expect` does not fire; every state
either future reaches by polls, polls after `Ready` included, keeps its offset within its bytes
(`offset ≤ varint_size ≤ buffer.len()`, and `offset ≤ buffer.len()` for `put_buffer`), so no
`offset += written` overflows its `usize`; no such state panics when polled; and so neither does
the executor, whatever its fuel. The `debug_assert!(written > 0)` fires only when a sink answers
`Ok(0)`. -/
theorem putFutures_never_panic {W : Type} [AsyncWrite W] (hw : WritesSome W) (w : W) (x : VarInt)
    (bs : List UInt8) :
    (∃ p₀, PutVarint.new w x = .ok p₀ ∧
      (∀ p, PollReach PutVarint.poll p₀ p → p.Sane ∧ ∃ res, p.poll = .ok res) ∧
      ∀ fuel, ∃ y p, blockOn PutVarint.poll fuel p₀ = .ok (y, p)) ∧
    (∀ p, PollReach PutBuffer.poll (PutBuffer.new w bs) p →
      p.buffer = bs ∧ p.offset ≤ bs.length ∧ ∃ res, p.poll = .ok res) ∧
    ∀ fuel, ∃ y p, blockOn PutBuffer.poll fuel (PutBuffer.new w bs) = .ok (y, p) := by
  obtain ⟨p₀, hnew, h₀⟩ := PutVarint.new_sane w x
  obtain ⟨hvarint, hvarintRun⟩ := never_panics_of_inv (fun _ => PutVarint.poll_writesSome hw) h₀
  obtain ⟨hbuffer, hbufferRun⟩ := @never_panics_of_inv _ _ PutBuffer.poll
    (fun p => p.buffer = bs ∧ p.offset ≤ bs.length) (fun _ => PutBuffer.poll_writesSome hw)
    (PutBuffer.new w bs) ⟨rfl, Nat.zero_le _⟩
  exact ⟨⟨p₀, hnew, hvarint, hvarintRun⟩, fun p hp => and_assoc.mp (hbuffer p hp), hbufferRun⟩

theorem putFutures_never_panic_scheduled :
    (∃ p₀, PutVarint.new (⟨[], [.pending, .chunk 1]⟩ : ScheduledSink) (VarInt.fromU32 300) =
        .ok p₀ ∧
      (∀ p, PollReach PutVarint.poll p₀ p → p.Sane ∧ ∃ res, p.poll = .ok res) ∧
      ∀ fuel, ∃ y p, blockOn PutVarint.poll fuel p₀ = .ok (y, p)) ∧
    (∀ p, PollReach PutBuffer.poll
        (PutBuffer.new (⟨[], [.pending, .chunk 1]⟩ : ScheduledSink) [0xAA, 0xBB]) p →
      p.buffer = [0xAA, 0xBB] ∧ p.offset ≤ ([0xAA, 0xBB] : List UInt8).length ∧
        ∃ res, p.poll = .ok res) ∧
    ∀ fuel, ∃ y p, blockOn PutBuffer.poll fuel
      (PutBuffer.new (⟨[], [.pending, .chunk 1]⟩ : ScheduledSink) [0xAA, 0xBB]) = .ok (y, p) :=
  putFutures_never_panic ScheduledSink.writesSome _ _ _

end WTransport
