import WTransport.Bytes.Source

/-!
# Well-behaved sinks

A well-behaved `AsyncWrite` sink takes the bytes offered to it in order: every `poll_write` on a
non-empty offer answers `Pending`, or accepts its first `k` bytes with `1 ≤ k ≤` the offer; and it
answers `Pending` only finitely often. `Intake` is what such a sink has received, `Intake.Answers`
the answers it may give, and `WellBehavedSink accepts` says that a sink simulates it through the
relation `accepts`.

Over any well-behaved sink `put_varint` is ready within one poll more than the sink's `Pending`s,
having delivered exactly the bytes `BufferWriter::put_varint` writes, and yields their number,
`VarInt::size`; `put_buffer` delivers its bytes. `Vec<u8>` is such a sink, and so is
`ScheduledSink` for every schedule.

## Main results

* `writeLoop_spec` — the loop of the writing futures over a well-behaved sink
* `PutVarint.run_spec` — `put_varint` over a well-behaved sink
* `PutBuffer.run_spec` — `put_buffer` over a well-behaved sink
* `writeLoopWithin_eq` — the write loop makes at most `stop - offset` iterations
* `getBuffer_putBuffer_complete` — `get_buffer` and `put_buffer` polled until ready
* `vec_wellBehaved`, `ScheduledSink.wellBehaved`
-/

namespace WTransport

/-- What a well-behaved sink has received, and how many more times at most it answers
`Pending`. -/
structure Intake where
  received : List UInt8
  pendings : Nat

/-- The answers a well-behaved sink with intake `s` may give to `poll_write` on a non-empty offer
`buf`, and its intake afterwards: `Pending`, using one up, or the first `k` bytes of the offer
accepted, `1 ≤ k ≤ buf.len()`. -/
inductive Intake.Answers (s : Intake) (buf : List UInt8) :
    Poll (Except IoErrorKind Nat) → Intake → Prop
  | pending {m : Nat} (h : s.pendings = m + 1) : Answers s buf .pending ⟨s.received, m⟩
  | chunk {k : Nat} (pos : 0 < k) (le_buf : k ≤ buf.length) :
      Answers s buf (.ready (.ok k)) ⟨s.received ++ buf.take k, s.pendings⟩

/-- The sink `w` has the intake `s` while `accepts w s` holds: `poll_write` on a non-empty offer
answers as `s` allows, and the sink then has the intake that follows. -/
def WellBehavedSink {W : Type} [AsyncWrite W] (accepts : W → Intake → Prop) : Prop :=
  ∀ {w : W} {s : Intake} {buf : List UInt8}, accepts w s → buf ≠ [] →
    ∃ p w' s', AsyncWrite.pollWrite w buf = .ok (p, w') ∧ s.Answers buf p s' ∧ accepts w' s'

/-! ### The write loop -/

section WriteLoop

variable {W : Type} (accepts : W → Intake → Prop)

/-- A write loop partway through delivering `buffer[..stop]` after `acc`, with at most `n`
`Pending`s left: the sink has received `acc` and the bytes before the offset. -/
structure Draining (acc : List UInt8) (stop n : Nat) (writer : W) (buffer : List UInt8)
    (offset : Nat) : Prop where
  accepts : accepts writer ⟨acc ++ buffer.take offset, n⟩
  offset_le : offset ≤ stop
  stop_le : stop ≤ buffer.length

/-- Where one run of the write loop over a well-behaved sink ends: `Pending`, one `Pending` used
up, or all of `buffer[..stop]` delivered. A well-behaved sink gives no error. -/
def Drained (acc : List UInt8) (stop n : Nat) (buffer : List UInt8) :
    Poll (Except IoError Unit) × W × Nat → Prop
  | (.pending, writer, offset) => ∃ m, n = m + 1 ∧ Draining accepts acc stop m writer buffer offset
  | (.ready (.ok ()), writer, offset) => offset = stop ∧ accepts writer ⟨acc ++ buffer.take stop, n⟩
  | (.ready (.error _), _, _) => False

variable {accepts} [AsyncWrite W] (hsink : WellBehavedSink accepts)
include hsink

/-- One run of the write loop over a well-behaved sink. -/
theorem writeLoop_spec {acc : List UInt8} {stop n : Nat} {writer : W} {buffer : List UInt8}
    {offset : Nat} (hd : Draining accepts acc stop n writer buffer offset) :
    ∃ res, writeLoop writer buffer offset stop = .ok res ∧ Drained accepts acc stop n buffer res := by
  obtain ⟨d, hdist⟩ : ∃ d, stop - offset = d := ⟨_, rfl⟩
  induction d using Nat.strong_induction_on generalizing writer offset with
  | _ d ih =>
  have := hd.offset_le
  rw [writeLoop]
  by_cases hlt : offset < stop
  · rw [if_pos hlt]
    have hwin := length_window hlt.le hd.stop_le
    have hne : window buffer offset stop ≠ [] := List.ne_nil_of_length_pos (by omega)
    obtain ⟨p, w', s', hwrite, hans, hs'⟩ := hsink hd.accepts hne
    cases hans with
    | pending h =>
      simp only [hwrite, bind, Except.bind]
      exact ⟨_, rfl, _, h, hs', hd.offset_le, hd.stop_le⟩
    | @chunk k pos le_buf =>
      simp only [hwrite, bind, Except.bind, if_pos pos]
      have htake : buffer.take offset ++ (window buffer offset stop).take k =
          buffer.take (offset + k) := by
        rw [window, List.take_take, Nat.min_eq_left (by omega), List.take_add]
      refine ih (stop - (offset + k)) (by omega) ⟨?_, by omega, hd.stop_le⟩ rfl
      simpa only [List.append_assoc, htake] using hs'
  · rw [if_neg hlt]
    obtain rfl : offset = stop := by omega
    exact ⟨_, rfl, rfl, hd.accepts⟩

end WriteLoop

/-! ### Iterations of the write loop -/

section Iterations

variable {W : Type} [AsyncWrite W]

/-- The loop of `writeLoop` allowed at most `k` iterations, each one call of `poll_write`: `none`
when it would need another. -/
def writeLoopWithin (writer : W) (buffer : List UInt8) (offset stop : Nat) :
    Nat → Except String (Option (Poll (Except IoError Unit) × W × Nat))
  | 0 => if offset < stop then pure none else pure (some (.ready (.ok ()), writer, offset))
  | k + 1 =>
    if offset < stop then do
      let (res, writer) ← AsyncWrite.pollWrite writer (window buffer offset stop)
      match res with
      | .pending => pure (some (.pending, writer, offset))
      | .ready (.error e) => pure (some (.ready (.error (IoError.ofKind e)), writer, offset))
      | .ready (.ok written) =>
        if 0 < written then writeLoopWithin writer buffer (offset + written) stop k
        else throw "assertion failed: written > 0"
    else pure (some (.ready (.ok ()), writer, offset))

/-- The write loop makes at most `stop - offset` iterations: allowed that many, it answers as
itself. -/
theorem writeLoopWithin_eq (writer : W) (buffer : List UInt8) (offset stop : Nat) {k : Nat}
    (hk : stop - offset ≤ k) :
    writeLoopWithin writer buffer offset stop k = (writeLoop writer buffer offset stop).map some := by
  induction k generalizing writer offset with
  | zero =>
    rw [writeLoopWithin, writeLoop, if_neg (by omega), if_neg (by omega)]
    rfl
  | succ k ih =>
    rw [writeLoopWithin, writeLoop]
    split_ifs with hlt
    · rcases AsyncWrite.pollWrite writer (window buffer offset stop) with
        msg | ⟨⟨e | written⟩ | _, writer'⟩
      · rfl
      · rfl
      · simp only [bind, Except.bind]
        split_ifs with hpos
        · exact ih writer' (offset + written) (by omega)
        · rfl
      · rfl
    · rfl

end Iterations

/-! ### `put_varint` -/

namespace PutVarint

variable {W : Type} (accepts : W → Intake → Prop)

/-- A `PutVarint` future partway through delivering the encoding `e` after `acc`. -/
structure Writing (acc e : List UInt8) (n : Nat) (p : PutVarint W) : Prop where
  draining : Draining accepts acc p.varintSize n p.writer p.buffer p.offset
  take_buffer : p.buffer.take p.varintSize = e

/-- A finished `put_varint`: it yields the length of the encoding `e`, which the sink has received
after `acc`. -/
def Done (acc e : List UInt8) (n : Nat) (x : Except IoError Nat) (p : PutVarint W) : Prop :=
  x = .ok e.length ∧ accepts p.writer ⟨acc ++ e, n⟩

/-- `PutVarint::new` encodes the varint with `BufferWriter::put_varint`, whose `expect` never
fires: `VarInt::MAX_SIZE` bytes hold every varint. -/
theorem new_spec (w : W) (x : VarInt) :
    ∃ bw, (BufferWriter.new (List.replicate VarInt.maxSize 0)).putVarint x = .ok bw ∧
      bw.offset = x.size ∧ bw.bufferWritten = varintBytes x.val x.size ∧
      PutVarint.new w x = .ok ⟨w, bw.buffer, 0, bw.offset⟩ := by
  have hlen := x.varintLen_eq_size
  have hle := x.size_le_maxSize
  have hfit : (varintBytes x.val (varintLen x.val)).length ≤
      (BufferWriter.new (List.replicate VarInt.maxSize 0)).capacity := by
    simp [hlen, hle]
  have hput : (BufferWriter.new (List.replicate VarInt.maxSize 0)).putVarint x =
      .ok ((BufferWriter.new (List.replicate VarInt.maxSize 0)).write _ hfit) := by
    simp only [BufferWriter.putVarint]
    rw [dif_pos (by simpa using hfit)]
  refine ⟨_, hput, by simp [hlen, BufferWriter.new], by simp [hlen], ?_⟩
  simp only [PutVarint.new, hput, expectOk, bind, Except.bind, pure, Except.pure]

/-- A fresh `PutVarint` is about to deliver the encoding of its varint. -/
theorem new_writing {w : W} {acc : List UInt8} {n : Nat} (hw : accepts w ⟨acc, n⟩) (x : VarInt) :
    ∃ fut, PutVarint.new w x = .ok fut ∧
      Writing accepts acc (WriteOp.putVarint x).encoding n fut := by
  obtain ⟨bw, -, -, hbytes, hnew⟩ := new_spec w x
  exact ⟨_, hnew, ⟨by simpa using hw, Nat.zero_le _, bw.offset_le⟩, hbytes⟩

variable {accepts} [AsyncWrite W] (hsink : WellBehavedSink accepts)
include hsink

/-- One poll of `PutVarint` over a well-behaved sink. -/
theorem poll_spec {acc e : List UInt8} {n : Nat} {p : PutVarint W} (hp : Writing accepts acc e n p) :
    ∃ res, p.poll = .ok res ∧ PollStep (Writing accepts acc e) (Done accepts acc e) n res := by
  obtain ⟨⟨res, writer, offset⟩, hloop, hdrained⟩ := writeLoop_spec hsink hp.draining
  simp only [poll, hloop, bind, Except.bind]
  rcases res with ⟨_ | ⟨⟩⟩ | _
  · exact hdrained.elim
  · obtain ⟨rfl, hacc⟩ := hdrained
    have hsz : e.length = p.varintSize := by
      rw [← hp.take_buffer, List.length_take, Nat.min_eq_left hp.draining.stop_le]
    exact ⟨_, rfl, by rw [hsz], hp.take_buffer ▸ hacc⟩
  · obtain ⟨m, rfl, hd⟩ := hdrained
    exact ⟨_, rfl, m, rfl, hd, hp.take_buffer⟩

/-- `put_varint(x)` over a well-behaved sink that has received `acc`, with at most `n` `Pending`s,
is ready within `n + 1` polls: the sink then has received exactly the bytes
`BufferWriter::put_varint` writes for `x`, and the future yields their number, `x.size()`. -/
theorem run_spec {w : W} {acc : List UInt8} {n : Nat} (hw : accepts w ⟨acc, n⟩) (x : VarInt)
    {fuel : Nat} (hfuel : n < fuel) :
    ∃ bw, (BufferWriter.new (List.replicate VarInt.maxSize 0)).putVarint x = .ok bw ∧
      bw.offset = x.size ∧ ∃ m p, m ≤ n ∧
        (PutVarint.new w x >>= blockOn poll fuel) = .ok (some (.ok x.size), p) ∧
        accepts p.writer ⟨acc ++ bw.bufferWritten, m⟩ := by
  obtain ⟨bw, hput, hoff, -, hnew⟩ := new_spec w x
  have hwriting : Writing accepts acc bw.bufferWritten n ⟨w, bw.buffer, 0, bw.offset⟩ :=
    ⟨⟨by simpa using hw, Nat.zero_le _, bw.offset_le⟩, rfl⟩
  obtain ⟨m, y, p, hm, hrun, hy, hacc⟩ :=
    blockOn_spec (fun _ _ hp => poll_spec hsink hp) hwriting hfuel
  have hlen : bw.bufferWritten.length = x.size := by
    rw [BufferWriter.bufferWritten, List.length_take, Nat.min_eq_left bw.offset_le, hoff]
  rw [hy, hlen] at hrun
  refine ⟨bw, hput, hoff, m, p, hm, ?_, hacc⟩
  rw [hnew]
  exact hrun

end PutVarint

/-! ### `put_buffer` -/

namespace PutBuffer

variable {W : Type} [AsyncWrite W] {accepts : W → Intake → Prop} (hsink : WellBehavedSink accepts)
include hsink

/-- `put_buffer(bs)` over a well-behaved sink that has received `acc`, with at most `n`
`Pending`s, is ready within `n + 1` polls, the sink having received `acc ++ bs`. -/
theorem run_spec {w : W} {acc bs : List UInt8} {n : Nat} (hw : accepts w ⟨acc, n⟩) {fuel : Nat}
    (hfuel : n < fuel) :
    ∃ m p, m ≤ n ∧ blockOn poll fuel (PutBuffer.new w bs) = .ok (some (.ok ()), p) ∧
      accepts p.writer ⟨acc ++ bs, m⟩ := by
  let inv (n : Nat) (p : PutBuffer W) : Prop :=
    p.buffer = bs ∧ Draining accepts acc bs.length n p.writer p.buffer p.offset
  let done (n : Nat) (x : Except IoError Unit) (p : PutBuffer W) : Prop :=
    x = .ok () ∧ accepts p.writer ⟨acc ++ bs, n⟩
  have hpoll : ∀ n p, inv n p → ∃ res, p.poll = .ok res ∧ PollStep inv done n res := by
    rintro n ⟨writer, buffer, offset⟩ ⟨rfl, hd⟩
    obtain ⟨⟨res, writer', offset'⟩, hloop, hdrained⟩ := writeLoop_spec hsink hd
    simp only [poll, hloop, bind, Except.bind, pure, Except.pure]
    refine ⟨_, rfl, ?_⟩
    rcases res with ⟨_ | ⟨⟩⟩ | _
    · exact hdrained.elim
    · exact ⟨rfl, by simpa using hdrained.2⟩
    · obtain ⟨m, rfl, hd'⟩ := hdrained
      exact ⟨m, rfl, rfl, hd'⟩
  obtain ⟨m, x, p, hm, hrun, rfl, hacc⟩ :=
    blockOn_spec hpoll
      (⟨rfl, by simpa [PutBuffer.new] using hw, Nat.zero_le _, le_rfl⟩ : inv n (PutBuffer.new w bs))
      hfuel
  exact ⟨m, p, hm, hrun, hacc⟩

end PutBuffer

/-! ### Sinks -/

/-- `Vec<u8>` is a well-behaved sink that never answers `Pending`: it takes every offer whole. -/
theorem vec_wellBehaved : WellBehavedSink fun (v : List UInt8) (s : Intake) => v = s.received := by
  intro v s buf hv hbuf
  have h := Intake.Answers.chunk (s := s) (List.length_pos.mpr hbuf) (le_refl buf.length)
  rw [List.take_length, ← hv] at h
  exact ⟨_, _, _, rfl, h, rfl⟩

/-- A sink receiving on a schedule of moves; once the moves run out it takes every offer whole. -/
structure ScheduledSink where
  received : List UInt8
  moves : List Move
  deriving DecidableEq, Repr

namespace ScheduledSink

/-- `poll_write` of a scheduled sink. -/
def pollWrite : ScheduledSink → List UInt8 →
    Except String (Poll (Except IoErrorKind Nat) × ScheduledSink)
  | ⟨received, []⟩, buf => .ok (.ready (.ok buf.length), ⟨received ++ buf, []⟩)
  | ⟨received, .pending :: moves⟩, _ => .ok (.pending, ⟨received, moves⟩)
  | ⟨received, .chunk k :: moves⟩, buf =>
    .ok (.ready (.ok (min (max k 1) buf.length)), ⟨received ++ buf.take (min (max k 1) buf.length),
      moves⟩)

instance : AsyncWrite ScheduledSink := ⟨pollWrite⟩

/-- A scheduled sink has received its bytes, with at most as many `Pending`s to come as its moves
hold. -/
def Accepts (w : ScheduledSink) (s : Intake) : Prop :=
  w.received = s.received ∧ w.moves.count .pending ≤ s.pendings

/-- Every schedule gives a well-behaved sink. -/
theorem wellBehaved : WellBehavedSink Accepts := by
  intro w s buf hw hbuf
  obtain ⟨received, moves⟩ := w
  obtain ⟨rfl, hcount⟩ := hw
  have hpos : 0 < buf.length := List.length_pos.mpr hbuf
  rcases moves with _ | ⟨_ | c, moves⟩
  · have h := Intake.Answers.chunk (s := s) hpos (le_refl buf.length)
    rw [List.take_length] at h
    exact ⟨_, _, _, rfl, h, rfl, hcount⟩
  · simp only [List.count_cons_self] at hcount
    exact ⟨_, _, _, rfl, .pending (m := s.pendings - 1) (by omega), rfl, by simpa using by omega⟩
  · simp only [List.count_cons, reduceCtorEq, beq_iff_eq, if_false, Nat.add_zero] at hcount
    exact ⟨_, _, _, rfl, .chunk (by omega) (Nat.min_le_right _ _), rfl, hcount⟩

end ScheduledSink

/-! ### `get_buffer` and `put_buffer` polled to the end -/

/-- `get_buffer` into a destination of length `n` over a well-behaved source serving `b`, polled
until ready, fills the destination with `b[..n]` having taken exactly those bytes when `b` has
`n` bytes, and otherwise returns `Closed` with the source drained. `put_buffer(bs)` over a sink
that answers `Pending` finitely often and otherwise takes `1 ≤ k ≤` the offer returns `Ok(())`,
the sink having received exactly `bs`; whatever the sink, each poll's loop makes at most `|bs|`
calls of `poll_write`. -/
theorem getBuffer_putBuffer_complete {R W : Type} [AsyncRead R] [AsyncWrite W]
    {serves : R → Supply → Prop} (hsrc : WellBehavedSource serves) {b dst : List UInt8} {n : Nat}
    {r : R} (hr : serves r ⟨b, n⟩) {fuel : Nat} (hfuel : n < fuel)
    {accepts : W → Intake → Prop} (hsink : WellBehavedSink accepts) {w : W} {acc bs : List UInt8}
    {n' : Nat} (hw : accepts w ⟨acc, n'⟩) {fuel' : Nat} (hfuel' : n' < fuel') :
    (∃ m x g, m ≤ n ∧ blockOn GetBuffer.poll fuel (GetBuffer.new r dst) = .ok (some x, g) ∧
      if dst.length ≤ b.length then
        x = .ok () ∧ g.buffer = b.take dst.length ∧ serves g.reader ⟨b.drop dst.length, m⟩
      else x = .error .closed ∧ serves g.reader ⟨[], m⟩) ∧
    (∃ m p, m ≤ n' ∧ blockOn PutBuffer.poll fuel' (PutBuffer.new w bs) = .ok (some (.ok ()), p) ∧
      accepts p.writer ⟨acc ++ bs, m⟩) ∧
    ∀ (writer : W) (offset : Nat),
      writeLoopWithin writer bs offset bs.length bs.length =
        (writeLoop writer bs offset bs.length).map some :=
  ⟨GetBuffer.run_spec hsrc hr hfuel, PutBuffer.run_spec hsink hw hfuel',
    fun writer offset => writeLoopWithin_eq writer bs offset bs.length (Nat.sub_le _ _)⟩

theorem getBuffer_putBuffer_complete_scheduled :
    (∃ m x g, m ≤ 1 ∧ blockOn GetBuffer.poll 2
        (GetBuffer.new (⟨[1, 2, 3], [.pending, .chunk 1]⟩ : Scheduled) [0, 0]) = .ok (some x, g) ∧
      if ([0, 0] : List UInt8).length ≤ ([1, 2, 3] : List UInt8).length then
        x = .ok () ∧ g.buffer = ([1, 2, 3] : List UInt8).take 2 ∧
          Scheduled.Serves g.reader ⟨([1, 2, 3] : List UInt8).drop 2, m⟩
      else x = .error .closed ∧ Scheduled.Serves g.reader ⟨[], m⟩) ∧
    (∃ m p, m ≤ 1 ∧ blockOn PutBuffer.poll 2
        (PutBuffer.new (⟨[], [.chunk 1, .pending]⟩ : ScheduledSink) [7, 8]) =
        .ok (some (.ok ()), p) ∧
      ScheduledSink.Accepts p.writer ⟨[] ++ [7, 8], m⟩) ∧
    ∀ (writer : ScheduledSink) (offset : Nat),
      writeLoopWithin writer [7, 8] offset 2 2 = (writeLoop writer [7, 8] offset 2).map some :=
  getBuffer_putBuffer_complete Scheduled.wellBehaved
    (show Scheduled.Serves ⟨[1, 2, 3], [.pending, .chunk 1]⟩ ⟨[1, 2, 3], 1⟩ from ⟨rfl, by decide⟩)
    (by decide) ScheduledSink.wellBehaved
    (show ScheduledSink.Accepts ⟨[], [.chunk 1, .pending]⟩ ⟨[], 1⟩ from ⟨rfl, by decide⟩)
    (by decide)

end WTransport
