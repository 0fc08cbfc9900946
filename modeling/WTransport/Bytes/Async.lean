import WTransport.Bytes.Reader
import WTransport.Bytes.Writer

/-!
# Asynchronous reads and writes

The `async` module of `bytes.rs`: the traits `AsyncRead` and `AsyncWrite`, the futures
`GetVarint`, `GetBuffer`, `PutVarint` and `PutBuffer` that `BytesReaderAsync` and
`BytesWriterAsync` return, and the implementations for `&[u8]` and `Vec<u8>`.

A future is a state record holding the reader or writer it borrows; its `poll` returns `Poll` and
the state afterwards, running the future's loop until it is ready or its source answers
`Pending`. A sub-slice lent to `poll_read` is `window`, and what the callee leaves in it is copied
back by `writeWindow`. A panic (`expect`, `copy_from_slice`, a failed `debug_assert!`) is the
`Except.error` holding its message, as in a debug build. `blockOn` is an executor: it polls a
future until it is ready.

## Main definitions

* `AsyncRead`, `AsyncWrite` — `poll_read` and `poll_write`, without the task context
* `readLoop`, `writeLoop` — the loops the futures share
* `GetVarint.poll`, `GetBuffer.poll`, `PutVarint.poll`, `PutBuffer.poll`
* `slicePollRead`, `vecPollWrite` — the implementations for `&[u8]` and `Vec<u8>`
* `blockOn` — poll a future at most `fuel` times

## Main results

* `blockOn_spec` — a future whose polls use up a budget of `Pending`s is ready within it
* `blockOn_inv` — what every poll keeps holds of the answer the executor returns
* `blockOn_none_inv` — and of the state a run of `Pending`s leaves
-/

namespace WTransport

/-- `std::task::Poll`. -/
inductive Poll (α : Type)
  | ready (a : α)
  | pending
  deriving DecidableEq, Repr

/-- `std::io::ErrorKind`, as far as `IoError::from` tells kinds apart. -/
inductive IoErrorKind
  | notConnected
  | other
  deriving DecidableEq, Repr

/-- `IoError`. -/
inductive IoError
  | notConnected
  | closed
  deriving DecidableEq, Repr

/-- `<IoError as From<std::io::Error>>::from`. -/
def IoError.ofKind : IoErrorKind → IoError
  | .notConnected => .notConnected
  | .other => .closed

/-- `AsyncRead`. `pollRead r buf` is `poll_read` on a destination holding `buf`: the answer, what
the destination holds afterwards, and the source afterwards. The destination is a `&mut [u8]`, so
the callee cannot change its length. -/
class AsyncRead (R : Type) where
  pollRead : R → List UInt8 → Except String (Poll (Except IoErrorKind Nat) × List UInt8 × R)
  length_pollRead {r : R} {buf : List UInt8} {p : Poll (Except IoErrorKind Nat)}
    {buf' : List UInt8} {r' : R} : pollRead r buf = .ok (p, buf', r') → buf'.length = buf.length

/-- `AsyncWrite`: `poll_write` on the bytes `buf`; the answer and the sink afterwards. -/
class AsyncWrite (W : Type) where
  pollWrite : W → List UInt8 → Except String (Poll (Except IoErrorKind Nat) × W)

/-! ### Sub-slices -/

/-- The bytes of `buffer[lo..hi]`. -/
def window (buffer : List UInt8) (lo hi : Nat) : List UInt8 := (buffer.drop lo).take (hi - lo)

/-- `buffer` once the callee has left `buf` in the sub-slice `buffer[lo..hi]`. -/
def writeWindow (buffer : List UInt8) (lo hi : Nat) (buf : List UInt8) : List UInt8 :=
  buffer.take lo ++ buf ++ buffer.drop hi

section Window

variable {buffer buf : List UInt8} {lo hi : Nat}

theorem length_window (hlo : lo ≤ hi) (hhi : hi ≤ buffer.length) :
    (window buffer lo hi).length = hi - lo := by
  simp only [window, List.length_take, List.length_drop]
  omega

theorem length_writeWindow (hlo : lo ≤ hi) (hhi : hi ≤ buffer.length)
    (hbuf : buf.length = hi - lo) : (writeWindow buffer lo hi buf).length = buffer.length := by
  simp only [writeWindow, List.length_append, List.length_take, List.length_drop, hbuf]
  omega

/-- Before the window, the buffer is untouched. -/
theorem take_writeWindow_self (hlo : lo ≤ buffer.length) :
    (writeWindow buffer lo hi buf).take lo = buffer.take lo := by
  rw [writeWindow, List.append_assoc, List.take_append_of_le_length (by simp [hlo]),
    List.take_of_length_le (by simp)]

/-- Copying a window back unchanged leaves the buffer as it was. -/
theorem writeWindow_window (hlo : lo ≤ hi) : writeWindow buffer lo hi (window buffer lo hi) = buffer := by
  have hdrop : buffer.drop hi = (buffer.drop lo).drop (hi - lo) := by
    rw [List.drop_drop, Nat.add_sub_cancel' hlo]
  rw [writeWindow, window, List.append_assoc, hdrop, List.take_append_drop, List.take_append_drop]

/-- Past the window's start, the buffer holds what the callee left there. -/
theorem take_writeWindow (hlo : lo ≤ buffer.length) {k : Nat} (hk : k ≤ buf.length) :
    (writeWindow buffer lo hi buf).take (lo + k) = buffer.take lo ++ buf.take k := by
  have hl : (buffer.take lo).length = lo := by simp [hlo]
  rw [writeWindow, List.append_assoc, List.take_append_eq_append_take, hl, Nat.add_sub_cancel_left,
    List.take_of_length_le (by omega), List.take_append_of_le_length hk]

end Window

/-! ### The executor -/

/-- An executor: poll the future until it is ready, at most `fuel` times; `none` when the fuel runs
out first. The waker is not modelled: a future that answered `Pending` is polled again. -/
def blockOn {F α : Type} (poll : F → Except String (Poll α × F)) :
    Nat → F → Except String (Option α × F)
  | 0, f => .ok (none, f)
  | fuel + 1, f => do
    let (p, f) ← poll f
    match p with
    | .ready a => pure (some a, f)
    | .pending => blockOn poll fuel f

section Executor

variable {F α : Type} {poll : F → Except String (Poll α × F)}

/-- One poll of a future with at most `n` `Pending`s left: `Pending` uses one up and keeps `inv`;
a ready answer satisfies `Q`. -/
def PollStep (inv : Nat → F → Prop) (Q : Nat → α → F → Prop) (n : Nat) : Poll α × F → Prop
  | (.pending, f) => ∃ m, n = m + 1 ∧ inv m f
  | (.ready a, f) => Q n a f

theorem blockOn_ready {fuel : Nat} {f f' : F} {a : α} (h : poll f = .ok (.ready a, f')) :
    blockOn poll (fuel + 1) f = .ok (some a, f') := by
  simp only [blockOn, h, bind, Except.bind]
  rfl

theorem blockOn_pending {fuel : Nat} {f f' : F} (h : poll f = .ok (.pending, f')) :
    blockOn poll (fuel + 1) f = blockOn poll fuel f' := by
  simp only [blockOn, h, bind, Except.bind]

/-- A future each of whose polls is a `PollStep` is ready within `n + 1` polls, `n` bounding its
`Pending`s. -/
theorem blockOn_spec {inv : Nat → F → Prop} {Q : Nat → α → F → Prop}
    (hpoll : ∀ n f, inv n f → ∃ res, poll f = .ok res ∧ PollStep inv Q n res)
    {fuel n : Nat} {f : F} (hf : inv n f) (hfuel : n < fuel) :
    ∃ m a f', m ≤ n ∧ blockOn poll fuel f = .ok (some a, f') ∧ Q m a f' := by
  induction fuel generalizing n f with
  | zero => omega
  | succ fuel ih =>
    obtain ⟨⟨p, f'⟩, hres, hstep⟩ := hpoll n f hf
    cases p with
    | ready a => exact ⟨n, a, f', le_rfl, blockOn_ready hres, hstep⟩
    | pending =>
      rw [blockOn_pending hres]
      obtain ⟨m, rfl, hm⟩ := hstep
      obtain ⟨k, a, f'', hk, hrun, hq⟩ := ih hm (by omega)
      exact ⟨k, a, f'', by omega, hrun, hq⟩

/-- A future whose polls were all `Pending` until the fuel ran out is in a state its polls keep. -/
theorem blockOn_none_inv {inv : Nat → F → Prop} {Q : Nat → α → F → Prop}
    (hpoll : ∀ n f, inv n f → ∃ res, poll f = .ok res ∧ PollStep inv Q n res)
    {fuel n : Nat} {f f' : F} (hf : inv n f) (h : blockOn poll fuel f = .ok (none, f')) :
    ∃ m, inv m f' := by
  induction fuel generalizing n f with
  | zero =>
    cases h
    exact ⟨n, hf⟩
  | succ fuel ih =>
    obtain ⟨⟨p, f₁⟩, hres, hstep⟩ := hpoll n f hf
    cases p with
    | ready a =>
      rw [blockOn_ready hres] at h
      cases h
    | pending =>
      obtain ⟨m, rfl, hm⟩ := hstep
      exact ih hm (by rwa [blockOn_pending hres] at h)

/-- What every poll keeps, and what every ready answer satisfies, holds of the answer the executor
returns, however many polls it took. -/
theorem blockOn_inv {inv : F → Prop} {Q : α → Prop}
    (hpoll : ∀ f p f', inv f → poll f = .ok (p, f') → inv f' ∧ ∀ a, p = .ready a → Q a)
    {fuel : Nat} {f f' : F} {a : α} (hf : inv f) (h : blockOn poll fuel f = .ok (some a, f')) :
    Q a := by
  induction fuel generalizing f with
  | zero => cases h
  | succ fuel ih =>
    rcases hres : poll f with msg | ⟨p, f₁⟩
    · simp [blockOn, hres, bind, Except.bind] at h
    · obtain ⟨hf₁, hq⟩ := hpoll f p f₁ hf hres
      cases p with
      | ready b =>
        rw [blockOn_ready hres] at h
        cases h
        exact hq _ rfl
      | pending => exact ih hf₁ (by rwa [blockOn_pending hres] at h)

/-- The states a future reaches from `f₀` by polls that return, polls after `Ready` included. -/
inductive PollReach (poll : F → Except String (Poll α × F)) (f₀ : F) : F → Prop
  | init : PollReach poll f₀ f₀
  | step {f f' : F} {p : Poll α} : PollReach poll f₀ f → poll f = .ok (p, f') → PollReach poll f₀ f'

/-- What holds of the start and every poll keeps holds of every reachable state. -/
theorem PollReach.inv {inv : F → Prop} (hpoll : ∀ f p f', inv f → poll f = .ok (p, f') → inv f')
    {f₀ f : F} (h₀ : inv f₀) (h : PollReach poll f₀ f) : inv f := by
  induction h with
  | init => exact h₀
  | step _ hp ih => exact hpoll _ _ _ ih hp

/-- A future whose polls return from every state of an invariant that `Pending` keeps never makes
the executor panic, whatever its fuel. -/
theorem blockOn_ok {inv : F → Prop}
    (hpoll : ∀ f, inv f → ∃ p f', poll f = .ok (p, f') ∧ (p = .pending → inv f'))
    (fuel : Nat) {f : F} (hf : inv f) : ∃ x f', blockOn poll fuel f = .ok (x, f') := by
  induction fuel generalizing f with
  | zero => exact ⟨none, f, rfl⟩
  | succ fuel ih =>
    obtain ⟨p, f₁, hres, hinv⟩ := hpoll f hf
    cases p with
    | ready a => exact ⟨_, _, blockOn_ready hres⟩
    | pending =>
      rw [blockOn_pending hres]
      exact ih (hinv rfl)

/-- A future no reachable state of which panics when polled never makes the executor panic. -/
theorem blockOn_ok_of_reach {f₀ : F} (hpoll : ∀ f, PollReach poll f₀ f → ∃ res, poll f = .ok res)
    (fuel : Nat) : ∃ x f, blockOn poll fuel f₀ = .ok (x, f) :=
  blockOn_ok (fun f hf => let ⟨⟨p, f'⟩, h⟩ := hpoll f hf; ⟨p, f', h, fun _ => hf.step h⟩) fuel .init

/-- A future polled from a suspended state returns, suspended again after `Pending` and suspended
or finished afterwards, and panics when polled once finished: every state it reaches is suspended
and polls without panicking, or has finished, and the executor never panics on it. -/
theorem never_panics_of_suspended {susp done : F → Prop}
    (hpoll : ∀ f, susp f → ∃ p f', poll f = .ok (p, f') ∧ (p = .pending → susp f') ∧
      (susp f' ∨ done f'))
    (hdone : ∀ f, done f → ∀ res, poll f ≠ .ok res) {f₀ : F} (h₀ : susp f₀) :
    (∀ f, PollReach poll f₀ f → (susp f ∧ ∃ res, poll f = .ok res) ∨ done f) ∧
    ∀ fuel, ∃ x f, blockOn poll fuel f₀ = .ok (x, f) := by
  refine ⟨fun f hf => ?_, fun fuel => blockOn_ok (fun f hs => ?_) fuel h₀⟩
  · have hinv : susp f ∨ done f := @PollReach.inv _ _ _ (fun f => susp f ∨ done f)
      (fun f p f' hf' hp => by
        rcases hf' with hs | hd
        · obtain ⟨p₁, f₁, hres, -, hnext⟩ := hpoll f hs
          rw [hres, Except.ok.injEq, Prod.mk.injEq] at hp
          exact hp.2 ▸ hnext
        · exact absurd hp (hdone f hd _)) _ _ (.inl h₀) hf
    exact hinv.imp_left fun hs => let ⟨_, _, hres, _⟩ := hpoll f hs; ⟨hs, _, hres⟩
  · obtain ⟨p, f', hres, hpend, -⟩ := hpoll f hs
    exact ⟨p, f', hres, hpend⟩

/-- A future whose polls return from every state of an invariant and keep it, polls after `Ready`
included, keeps it in every state it reaches, none of which panics when polled, and never makes
the executor panic. -/
theorem never_panics_of_inv {inv : F → Prop}
    (hpoll : ∀ f, inv f → ∃ res, poll f = .ok res ∧ inv res.2) {f₀ : F} (h₀ : inv f₀) :
    (∀ f, PollReach poll f₀ f → inv f ∧ ∃ res, poll f = .ok res) ∧
    ∀ fuel, ∃ x f, blockOn poll fuel f₀ = .ok (x, f) :=
  let ⟨hreach, hrun⟩ := @never_panics_of_suspended _ _ poll inv (fun _ => False)
    (fun f hf => let ⟨_, hres, hnext⟩ := hpoll f hf; ⟨_, _, hres, fun _ => hnext, .inl hnext⟩)
    (fun _ h => h.elim) f₀ h₀
  ⟨fun f hf => (hreach f hf).resolve_right id, hrun⟩

end Executor

/-! ### The loops -/

section Loops

variable {R W : Type} [AsyncRead R] [AsyncWrite W]

/-- The loop of `GetVarint::poll` and `GetBuffer::poll`: while `offset < stop`, lend
`buffer[offset..stop]` to `poll_read` and move past what it read, `Closed` on a read of `0`. It
returns the answer, and the reader, buffer and offset afterwards. -/
def readLoop (reader : R) (buffer : List UInt8) (offset stop : Nat) :
    Except String (Poll (Except IoError Unit) × R × List UInt8 × Nat) :=
  if offset < stop then do
    let (p, buf, reader) ← AsyncRead.pollRead reader (window buffer offset stop)
    let buffer := writeWindow buffer offset stop buf
    match p with
    | .pending => pure (.pending, reader, buffer, offset)
    | .ready (.error e) => pure (.ready (.error (IoError.ofKind e)), reader, buffer, offset)
    | .ready (.ok read) =>
      if 0 < read then readLoop reader buffer (offset + read) stop
      else pure (.ready (.error .closed), reader, buffer, offset)
  else pure (.ready (.ok ()), reader, buffer, offset)
termination_by stop - offset

/-- The loop of `PutVarint::poll` and `PutBuffer::poll`: while `offset < stop`, offer
`buffer[offset..stop]` to `poll_write` and move past what it took; the `debug_assert!` that it
took something. It returns the answer, and the writer and offset afterwards. The offset is a `Nat`:
the `usize` addition `offset += written` cannot overflow over a sink that never reports more than
it was offered (`writeLoop_writesSome`), and that is the only sink the results about panics assume. -/
def writeLoop (writer : W) (buffer : List UInt8) (offset stop : Nat) :
    Except String (Poll (Except IoError Unit) × W × Nat) :=
  if offset < stop then do
    let (res, writer) ← AsyncWrite.pollWrite writer (window buffer offset stop)
    match res with
    | .pending => pure (.pending, writer, offset)
    | .ready (.error e) => pure (.ready (.error (IoError.ofKind e)), writer, offset)
    | .ready (.ok written) =>
      if 0 < written then writeLoop writer buffer (offset + written) stop
      else throw "assertion failed: written > 0"
  else pure (.ready (.ok ()), writer, offset)
termination_by stop - offset

end Loops

/-! ### Reading futures -/

/-- `GetVarint`: the reader it borrows, a `VarInt::MAX_SIZE`-byte buffer, how many bytes of the
varint it holds, and the varint's size once the first byte is in. -/
structure GetVarint (R : Type) where
  reader : R
  buffer : List UInt8
  offset : Nat
  varintSize : Nat

namespace GetVarint

variable {R : Type} [AsyncRead R]

/-- `GetVarint::new`. -/
def new (reader : R) : GetVarint R := ⟨reader, List.replicate VarInt.maxSize 0, 0, 0⟩

/-- The `while` loop of `GetVarint::poll` over `buffer[offset..varint_size]`, then the decoding
of the full buffer. -/
def pollLoop (g : GetVarint R) : Except String (Poll (Except IoError VarInt) × GetVarint R) := do
  let (p, reader, buffer, offset) ← readLoop g.reader g.buffer g.offset g.varintSize
  let g := { g with reader, buffer, offset }
  match p with
  | .pending => pure (.pending, g)
  | .ready (.error e) => pure (.ready (.error e), g)
  | .ready (.ok ()) => do
    let varint ← expect (BufferReader.new (g.buffer.take g.varintSize)).getVarint.1
      "Varint is parsable"
    pure (.ready (.ok varint), g)

/-- `GetVarint::poll`: the first byte, which gives the varint's size, then the loop. -/
def poll (g : GetVarint R) : Except String (Poll (Except IoError VarInt) × GetVarint R) :=
  if g.offset = 0 then do
    let (p, buf, reader) ← AsyncRead.pollRead g.reader (window g.buffer 0 1)
    let g := { g with reader, buffer := writeWindow g.buffer 0 1 buf }
    match p with
    | .pending => pure (.pending, g)
    | .ready (.error e) => pure (.ready (.error (IoError.ofKind e)), g)
    | .ready (.ok read) =>
      if read = 1 then
        pollLoop { g with offset := 1, varintSize := VarInt.parseSize (g.buffer.headD 0) }
      else if read = 0 then pure (.ready (.error .closed), g)
      else throw "assertion failed: read == 0 || read == 1"
  else pollLoop g

end GetVarint

/-- `GetBuffer`: the reader it borrows, the destination it fills, and how much of it is filled. -/
structure GetBuffer (R : Type) where
  reader : R
  buffer : List UInt8
  offset : Nat

namespace GetBuffer

variable {R : Type} [AsyncRead R]

/-- `GetBuffer::new`. -/
def new (reader : R) (buffer : List UInt8) : GetBuffer R := ⟨reader, buffer, 0⟩

/-- `GetBuffer::poll`: the loop over `buffer[offset..]`. -/
def poll (g : GetBuffer R) : Except String (Poll (Except IoError Unit) × GetBuffer R) := do
  let (p, reader, buffer, offset) ← readLoop g.reader g.buffer g.offset g.buffer.length
  pure (p, { g with reader, buffer, offset })

end GetBuffer

/-! ### Writing futures -/

/-- `PutVarint`: the writer it borrows, the encoded varint, and how much of it was written. -/
structure PutVarint (W : Type) where
  writer : W
  buffer : List UInt8
  offset : Nat
  varintSize : Nat

namespace PutVarint

variable {W : Type} [AsyncWrite W]

/-- `PutVarint::new`: the varint is encoded at once into the buffer, by a `BufferWriter`. -/
def new (writer : W) (varint : VarInt) : Except String (PutVarint W) := do
  let bufferWriter ← expectOk
    ((BufferWriter.new (List.replicate VarInt.maxSize 0)).putVarint varint)
    "Inner buffer is enough for max varint"
  pure ⟨writer, bufferWriter.buffer, 0, bufferWriter.offset⟩

/-- `PutVarint::poll`: the loop over `buffer[offset..varint_size]`, then the size. -/
def poll (p : PutVarint W) : Except String (Poll (Except IoError Nat) × PutVarint W) := do
  let (res, writer, offset) ← writeLoop p.writer p.buffer p.offset p.varintSize
  let p := { p with writer, offset }
  match res with
  | .pending => pure (.pending, p)
  | .ready (.error e) => pure (.ready (.error e), p)
  | .ready (.ok ()) => pure (.ready (.ok p.varintSize), p)

end PutVarint

/-- `PutBuffer`: the writer it borrows, the bytes to write, and how many were written. -/
structure PutBuffer (W : Type) where
  writer : W
  buffer : List UInt8
  offset : Nat

namespace PutBuffer

variable {W : Type} [AsyncWrite W]

/-- `PutBuffer::new`. -/
def new (writer : W) (buffer : List UInt8) : PutBuffer W := ⟨writer, buffer, 0⟩

/-- `PutBuffer::poll`: the loop over `buffer[offset..]`. -/
def poll (p : PutBuffer W) : Except String (Poll (Except IoError Unit) × PutBuffer W) := do
  let (res, writer, offset) ← writeLoop p.writer p.buffer p.offset p.buffer.length
  pure (res, { p with writer, offset })

end PutBuffer

/-! ### `&[u8]` and `Vec<u8>` -/

/-- `<[u8]>::copy_from_slice`: it panics unless both slices have the same length. The message is
the one std gives up to Rust 1.86, before `copy_from_slice` became a `const fn`; from Rust 1.87 on,
std prefixes the same text with `copy_from_slice: `. -/
def copyFromSlice (dst src : List UInt8) : Except String (List UInt8) :=
  if dst.length = src.length then .ok src
  else .error ("source slice length (" ++ toString src.length ++
    ") does not match destination slice length (" ++ toString dst.length ++ ")")

/-- `<&[u8] as AsyncRead>::poll_read`: split off `min(len, buf.len())` bytes, copy them into the
whole of `buf` if there are any, and keep the rest. -/
def slicePollRead (self buf : List UInt8) :
    Except String (Poll (Except IoErrorKind Nat) × List UInt8 × List UInt8) :=
  let amt := min self.length buf.length
  let a := self.take amt
  let b := self.drop amt
  if a.isEmpty then .ok (.ready (.ok amt), buf, b)
  else (copyFromSlice buf a).map fun buf => (.ready (.ok amt), buf, b)

theorem length_slicePollRead {self buf : List UInt8} {p : Poll (Except IoErrorKind Nat)}
    {buf' self' : List UInt8} (h : slicePollRead self buf = .ok (p, buf', self')) :
    buf'.length = buf.length := by
  simp only [slicePollRead, copyFromSlice] at h
  split_ifs at h with ha hl
  · cases h
    rfl
  · simp only [Except.map, Except.ok.injEq, Prod.mk.injEq] at h
    rw [← h.2.1, hl]
    simp
  · cases h

instance : AsyncRead (List UInt8) := ⟨slicePollRead, length_slicePollRead⟩

/-- `<Vec<u8> as AsyncWrite>::poll_write`: `extend_from_slice`, all of `buf` accepted. -/
def vecPollWrite (self buf : List UInt8) : Except String (Poll (Except IoErrorKind Nat) × List UInt8) :=
  .ok (.ready (.ok buf.length), self ++ buf)

instance : AsyncWrite (List UInt8) := ⟨vecPollWrite⟩

end WTransport
