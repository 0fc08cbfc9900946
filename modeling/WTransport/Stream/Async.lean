import WTransport.Stream.Codec
import WTransport.Bytes.Sink

/-!
# Stream headers over asynchronous readers and writers

`StreamHeader::read_async` and `StreamHeader::write_async` are `async fn`s: each compiles to a
state machine suspended at one of its `await`s, holding the future it awaits. `ReadAsync` and
`WriteAsync` are those state machines; their `poll` runs the body from where it was suspended to
the next `await` that is not ready, or to its end.

Over every well-behaved source, whatever its chunking and its `Pending`s, `read_async` answers as
`read` on the slice of the same bytes and takes exactly the bytes `read` takes. The crate's own
`&[u8]` source is not well behaved: asked for more bytes than it has, it panics. Over every
well-behaved sink, `write_async` delivers exactly what `write` puts on a `Vec<u8>`. Every header an
entry point builds, from any bytes and any source, is well formed.

## Main results

* `readAsync_eq_read_slice` — `read_async` over a well-behaved source
* `readAsync_slice_panics` — `read_async` and `get_buffer` over `&[u8]`
* `readAsync_slice` — `read_async` over `&[u8]`, for every slice
* `writeAsync_eq_write` — `write_async` over a well-behaved sink
* `writeAsync_vec` — `write_async` into a `Vec<u8>` is ready at its first poll
* `header_wellFormed` — the header invariant at every entry point
-/

namespace WTransport

/-- `StreamHeaderReadAsyncError`. -/
inductive StreamHeaderReadAsyncError
  | streamHeader (e : StreamHeaderReadError)
  | io (e : IoError)
  deriving DecidableEq, Repr

/-! ### `read_async` -/

/-- The states of the future `StreamHeader::read_async` returns: suspended at the `await` of the
kind's id or of the session id, holding the `GetVarint` it awaits, or returned. -/
inductive ReadAsync (R : Type)
  | awaitKind (fut : GetVarint R)
  | awaitSession (kind : StreamKind) (fut : GetVarint R)
  | returned (reader : R)

namespace ReadAsync

variable {R : Type} [AsyncRead R] (isValid : VarInt → Bool)

/-- `read_async(reader)`: the body starts with the `await` of a fresh `GetVarint`. -/
def start (reader : R) : ReadAsync R := .awaitKind (GetVarint.new reader)

/-- The reader the future borrows. -/
def reader : ReadAsync R → R
  | .awaitKind fut => fut.reader
  | .awaitSession _ fut => fut.reader
  | .returned reader => reader

/-- Polling the `await` of the session id, then the end of the body. -/
def pollSessionId (kind : StreamKind) (fut : GetVarint R) :
    Except String (Poll (Except StreamHeaderReadAsyncError StreamHeader) × ReadAsync R) := do
  let (p, fut) ← fut.poll
  match p with
  | .pending => pure (.pending, .awaitSession kind fut)
  | .ready (.error e) => pure (.ready (.error (.io e)), .returned fut.reader)
  | .ready (.ok sessionId) =>
    match SessionId.tryFromVarint isValid sessionId with
    | .ok sessionId =>
      pure (.ready (.ok (StreamHeader.new kind (some sessionId))), .returned fut.reader)
    | .error _ => pure (.ready (.error (.streamHeader .invalidSessionId)), .returned fut.reader)

/-- Polling the `await` of the kind's id, then the body up to its next `await`. -/
def pollKindId (fut : GetVarint R) :
    Except String (Poll (Except StreamHeaderReadAsyncError StreamHeader) × ReadAsync R) := do
  let (p, fut) ← fut.poll
  match p with
  | .pending => pure (.pending, .awaitKind fut)
  | .ready (.error e) => pure (.ready (.error (.io e)), .returned fut.reader)
  | .ready (.ok kindId) =>
    match StreamKind.parse kindId with
    | none => pure (.ready (.error (.streamHeader .unknownStream)), .returned fut.reader)
    | some kind =>
      if kind = .webTransport then pollSessionId isValid kind (GetVarint.new fut.reader)
      else pure (.ready (.ok (StreamHeader.new kind none)), .returned fut.reader)

/-- `Future::poll` of the future `StreamHeader::read_async` returns. -/
def poll : ReadAsync R →
    Except String (Poll (Except StreamHeaderReadAsyncError StreamHeader) × ReadAsync R)
  | .awaitKind fut => pollKindId isValid fut
  | .awaitSession kind fut => pollSessionId isValid kind fut
  | .returned _ => throw "`async fn` resumed after completion"

end ReadAsync

/-! ### `write_async` -/

/-- The states of the future `StreamHeader::write_async` returns: not yet polled, suspended at the
`await` of the kind's id or of the session id, holding the `PutVarint` it awaits, or returned. -/
inductive WriteAsync (W : Type)
  | unresumed (header : StreamHeader) (writer : W)
  | awaitKind (header : StreamHeader) (fut : PutVarint W)
  | awaitSession (fut : PutVarint W)
  | returned (writer : W)

namespace WriteAsync

variable {W : Type} [AsyncWrite W]

/-- `header.write_async(writer)`, not yet polled. -/
def start (header : StreamHeader) (writer : W) : WriteAsync W := .unresumed header writer

/-- The writer the future borrows. -/
def writer : WriteAsync W → W
  | .unresumed _ writer => writer
  | .awaitKind _ fut => fut.writer
  | .awaitSession fut => fut.writer
  | .returned writer => writer

/-- Polling the `await` of the session id, then the end of the body. -/
def pollSessionId (fut : PutVarint W) : Except String (Poll (Except IoError Unit) × WriteAsync W) := do
  let (p, fut) ← fut.poll
  match p with
  | .pending => pure (.pending, .awaitSession fut)
  | .ready (.error e) => pure (.ready (.error e), .returned fut.writer)
  | .ready (.ok _) => pure (.ready (.ok ()), .returned fut.writer)

/-- Polling the `await` of the kind's id, then the body up to its next `await`. -/
def pollKindId (header : StreamHeader) (fut : PutVarint W) :
    Except String (Poll (Except IoError Unit) × WriteAsync W) := do
  let (p, fut) ← fut.poll
  match p with
  | .pending => pure (.pending, .awaitKind header fut)
  | .ready (.error e) => pure (.ready (.error e), .returned fut.writer)
  | .ready (.ok _) =>
    match ← header.sessionId? with
    | some sessionId => pollSessionId (← PutVarint.new fut.writer sessionId.varint)
    | none => pure (.ready (.ok ()), .returned fut.writer)

/-- `Future::poll` of the future `StreamHeader::write_async` returns. -/
def poll : WriteAsync W → Except String (Poll (Except IoError Unit) × WriteAsync W)
  | .unresumed header writer => do pollKindId header (← PutVarint.new writer header.kind.id)
  | .awaitKind header fut => pollKindId header fut
  | .awaitSession fut => pollSessionId fut
  | .returned _ => throw "`async fn` resumed after completion"

end WriteAsync

/-! ### `read_async` decides the header grammar -/

/-- What `read_async` answers, from what `read` answers on the slice of the same bytes. -/
def readAsyncAnswer :
    Option (Except StreamHeaderReadError StreamHeader) →
      Except StreamHeaderReadAsyncError StreamHeader
  | some (.ok h) => .ok h
  | some (.error e) => .error (.streamHeader e)
  | none => .error (.io .closed)

/-- How many bytes `read_async` takes from a well-behaved source serving `b`: the grammar's, or
all of `b` when the grammar runs out of bytes. -/
def headerTaken (isValid : VarInt → Bool) (b : List UInt8) : Nat :=
  ((headerGrammar isValid b).map Prod.snd).getD b.length

namespace ReadAsync

variable {R : Type} (serves : R → Supply → Prop) (isValid : VarInt → Bool)

/-- Where `read_async` stands in reading a header from a well-behaved source serving `b`, with at
most `n` `Pending`s left: reading the first varint, or the session id after the WebTransport
kind's id. -/
def Reading (b : List UInt8) (n : Nat) : ReadAsync R → Prop
  | .awaitKind fut => GetVarint.Reading serves b n fut
  | .awaitSession kind fut => ∃ d len, firstVarint b = some (d, len) ∧
      StreamKind.parse d = some .webTransport ∧ kind = .webTransport ∧
      GetVarint.Reading serves (b.drop len) n fut
  | .returned _ => False

/-- A finished `read_async` over a source that served `b`: the grammar's verdict as `read_async`
reports it, and the source serving what follows the bytes it took. -/
def Done (b : List UInt8) (n : Nat) (x : Except StreamHeaderReadAsyncError StreamHeader)
    (f : ReadAsync R) : Prop :=
  x = readAsyncAnswer ((headerGrammar isValid b).map Prod.fst) ∧
    serves f.reader ⟨b.drop (headerTaken isValid b), n⟩

variable {serves} [AsyncRead R] (hsrc : WellBehavedSource serves)
include hsrc

theorem pollSessionId_spec {b : List UInt8} {n : Nat} {d : VarInt} {len : Nat}
    (hf : firstVarint b = some (d, len)) (hd : StreamKind.parse d = some .webTransport)
    {fut : GetVarint R} (hfut : GetVarint.Reading serves (b.drop len) n fut) :
    ∃ res, pollSessionId isValid .webTransport fut = .ok res ∧
      PollStep (Reading serves b) (Done serves isValid b) n res := by
  have hg := headerGrammar_of_firstVarint isValid hf
  simp only [hd, if_true] at hg
  have hlen := firstVarint_len_le hf
  obtain ⟨⟨p, fut'⟩, hpoll, hstep⟩ := GetVarint.poll_spec hsrc hfut
  simp only [pollSessionId, hpoll, bind, Except.bind]
  rcases p with ⟨e | v⟩ | _
  · obtain ⟨he, hs⟩ := hstep
    obtain ⟨rfl, hf2⟩ := varintAnswer_eq_error he.symm
    rw [hf2, Option.map_none'] at hg
    have hall : len + (b.length - len) = b.length := by omega
    refine ⟨_, rfl, by rw [hg]; rfl, ?_⟩
    simpa [varintTaken, headerTaken, hf2, hg, hall] using hs
  · obtain ⟨hv, hs⟩ := hstep
    obtain ⟨m, hf2⟩ := varintAnswer_eq_ok hv.symm
    rw [hf2, Option.map_some'] at hg
    have hs' : serves fut'.reader ⟨b.drop (headerTaken isValid b), n⟩ := by
      simpa [varintTaken, headerTaken, hg, hf2, List.drop_drop, Nat.add_comm] using hs
    cases hvalid : isValid v <;> simp only [SessionId.tryFromVarint, hvalid] <;>
      exact ⟨_, rfl, by simp [hg, hvalid, readAsyncAnswer, StreamHeader.new], hs'⟩
  · obtain ⟨m, rfl, hfut'⟩ := hstep
    exact ⟨_, rfl, m, rfl, d, len, hf, hd, rfl, hfut'⟩

theorem pollKindId_spec {b : List UInt8} {n : Nat} {fut : GetVarint R}
    (hfut : GetVarint.Reading serves b n fut) :
    ∃ res, pollKindId isValid fut = .ok res ∧
      PollStep (Reading serves b) (Done serves isValid b) n res := by
  obtain ⟨⟨p, fut'⟩, hpoll, hstep⟩ := GetVarint.poll_spec hsrc hfut
  simp only [pollKindId, hpoll, bind, Except.bind]
  rcases p with ⟨e | d⟩ | _
  · obtain ⟨he, hs⟩ := hstep
    obtain ⟨rfl, hf⟩ := varintAnswer_eq_error he.symm
    have hg : headerGrammar isValid b = none := by simp [headerGrammar, hf]
    exact ⟨_, rfl, by rw [hg]; rfl, by simpa [varintTaken, headerTaken, hf, hg] using hs⟩
  · obtain ⟨hd, hs⟩ := hstep
    obtain ⟨len, hf⟩ := varintAnswer_eq_ok hd.symm
    have hg := headerGrammar_of_firstVarint isValid hf
    simp only [varintTaken, hf, Option.map_some', Option.getD_some] at hs
    rcases hk : StreamKind.parse d with _ | kind
    · simp only [hk] at hg ⊢
      exact ⟨_, rfl, by rw [hg]; rfl, by simpa [headerTaken, hg] using hs⟩
    · simp only [hk] at hg ⊢
      by_cases hw : kind = .webTransport
      · subst hw
        simp only [if_true]
        exact pollSessionId_spec isValid hsrc hf hk (GetVarint.Reading.new hs)
      · simp only [hw, if_false] at hg ⊢
        exact ⟨_, rfl, by rw [hg]; rfl, by simpa [headerTaken, hg] using hs⟩
  · obtain ⟨m, rfl, hfut'⟩ := hstep
    exact ⟨_, rfl, m, rfl, hfut'⟩

/-- One poll of `read_async` over a well-behaved source. -/
theorem poll_spec {b : List UInt8} {n : Nat} {f : ReadAsync R} (hf : Reading serves b n f) :
    ∃ res, f.poll isValid = .ok res ∧ PollStep (Reading serves b) (Done serves isValid b) n res := by
  cases f with
  | awaitKind fut => exact pollKindId_spec isValid hsrc hf
  | awaitSession kind fut =>
    obtain ⟨d, len, hfv, hd, rfl, hfut⟩ := hf
    exact pollSessionId_spec isValid hsrc hfv hd hfut
  | returned _ => exact hf.elim

end ReadAsync

/-- `read_async` over a well-behaved source: for every byte sequence `b` and every source serving
it, whatever its chunking, with at most `n` `Pending`s, `read_async` is ready within `n + 1` polls
and answers what `read` on the slice `b` determines: `Ok(h)` for `Some(Ok(h))`,
`Err(StreamHeader(e))` for `Some(Err(e))`, `Err(IO(Closed))` for `None`. When `read` answers
`Some`, the source has delivered exactly the bytes the slice reader consumed and serves the rest;
on `None` it has delivered all of `b`. -/
theorem readAsync_eq_read_slice (isValid : VarInt → Bool) {R : Type} [AsyncRead R]
    {serves : R → Supply → Prop} (hsrc : WellBehavedSource serves) {b : List UInt8} {n : Nat}
    {r : R} (hr : serves r ⟨b, n⟩) {fuel : Nat} (hfuel : n < fuel) :
    ∃ result rest m f, StreamHeader.read isValid b = .ok (result, rest) ∧
      blockOn (ReadAsync.poll isValid) fuel (ReadAsync.start r) =
        .ok (some (readAsyncAnswer result), f) ∧
      serves f.reader ⟨if result.isSome then rest else [], m⟩ := by
  obtain ⟨rest, hread, hrest⟩ := read_slice_eq_grammar isValid b
  obtain ⟨m, x, f, -, hrun, hx, hs⟩ := blockOn_spec
    (fun _ _ hf => ReadAsync.poll_spec isValid hsrc hf)
    (show ReadAsync.Reading serves b n (ReadAsync.start r) from GetVarint.Reading.new hr) hfuel
  refine ⟨_, rest, m, f, hread, hx ▸ hrun, ?_⟩
  rcases hg : headerGrammar isValid b with _ | ⟨v, k⟩
  · simpa [headerTaken, hg] using hs
  · simpa [headerTaken, hg, hrest v k hg] using hs

theorem readAsync_eq_read_slice_scheduled :
    ∃ result rest m f,
      StreamHeader.read (fun v => v.val % 4 == 0) [0x40, 0x54, 0x04, 0x07] = .ok (result, rest) ∧
      blockOn (ReadAsync.poll (fun v => v.val % 4 == 0)) 3
          (ReadAsync.start (⟨[0x40, 0x54, 0x04, 0x07], [.pending, .chunk 1, .pending]⟩ : Scheduled)) =
        .ok (some (readAsyncAnswer result), f) ∧
      Scheduled.Serves f.reader ⟨if result.isSome then rest else [], m⟩ :=
  readAsync_eq_read_slice _ Scheduled.wellBehaved
    (show Scheduled.Serves ⟨[0x40, 0x54, 0x04, 0x07], [.pending, .chunk 1, .pending]⟩
      ⟨[0x40, 0x54, 0x04, 0x07], 2⟩ from ⟨rfl, by decide⟩) (by decide)

/-! ### `&[u8]` is not a well-behaved source -/

/-- The crate's `AsyncRead` for `&[u8]` panics when asked for more bytes than it has left, but not
none: `copy_from_slice` needs the whole destination covered. So on the slice `[0x80, 0x01]`, a
four-byte varint cut after two bytes, `read_async` panics on its first poll where `read` on the
same slice answers `None`; and `get_buffer` of three bytes from `[0x01]` panics as well. -/
theorem readAsync_slice_panics (isValid : VarInt → Bool) :
    AsyncRead.pollRead ([0x01] : List UInt8) [0, 0, 0] =
      .error "source slice length (1) does not match destination slice length (3)" ∧
    StreamHeader.read isValid ([0x80, 0x01] : List UInt8) = .ok (none, [0x80, 0x01]) ∧
    blockOn (ReadAsync.poll isValid) 1 (ReadAsync.start ([0x80, 0x01] : List UInt8)) =
      .error "source slice length (1) does not match destination slice length (3)" ∧
    blockOn GetBuffer.poll 1 (GetBuffer.new ([0x01] : List UInt8) [0, 0, 0]) =
      .error "source slice length (1) does not match destination slice length (3)" := by
  have hfirst : AsyncRead.pollRead ([0x80, 0x01] : List UInt8)
      (window (List.replicate VarInt.maxSize 0) 0 1) = .ok (.ready (.ok 1), [0x80], [0x01]) := rfl
  refine ⟨rfl, rfl, ?_, ?_⟩
  · simp only [blockOn, ReadAsync.start, ReadAsync.poll, ReadAsync.pollKindId, GetVarint.new,
      GetVarint.poll, GetVarint.pollLoop, hfirst, bind, Except.bind, if_true]
    rw [readLoop]
    rfl
  · simp only [blockOn, GetBuffer.new, GetBuffer.poll, bind, Except.bind]
    rw [readLoop]
    rfl

/-- `read_async` over the `&[u8]` `b`, which never answers `Pending`, at its first poll: when `b`
starts with the bytes of a verdict of `read`, it gives that verdict and leaves the slice past them;
when `b` ends inside the header, `Closed` if at most one byte of the varint being read is left, and
otherwise the panic of `copy_from_slice` on the rest of that varint. -/
theorem readAsync_slice (isValid : VarInt → Bool) (b : List UInt8) :
    match headerGrammar isValid b with
    | some (v, n) => ∃ f, blockOn (ReadAsync.poll isValid) 1 (ReadAsync.start b) =
        .ok (some (readAsyncAnswer (some v)), f) ∧ f.reader = b.drop n
    | none =>
      let rem := b.drop (firstVarintLen b)
      if rem.length < 2 then ∃ f, blockOn (ReadAsync.poll isValid) 1 (ReadAsync.start b) =
        .ok (some (.error (.io .closed)), f) ∧ f.reader = []
      else blockOn (ReadAsync.poll isValid) 1 (ReadAsync.start b) =
        .error ("source slice length (" ++ toString (rem.length - 1) ++
          ") does not match destination slice length (" ++
          toString (VarInt.parseSize (rem.headD 0) - 1) ++ ")") := by
  have hkind := GetVarint.poll_new_slice b
  simp only [blockOn, ReadAsync.start, ReadAsync.poll, ReadAsync.pollKindId]
  rcases hb : firstVarint b with _ | ⟨d, len⟩
  · simp only [hb] at hkind
    simp only [headerGrammar, hb, firstVarintLen_of_none hb, List.drop_zero]
    split_ifs at hkind ⊢
    · obtain ⟨g, hP, hr⟩ := hkind
      simp only [hP, bind, Except.bind, pure, Except.pure]
      exact ⟨_, rfl, hr⟩
    · simp only [hkind, bind, Except.bind]
  · simp only [hb] at hkind
    obtain ⟨g, hP, hr⟩ := hkind
    rw [headerGrammar_of_firstVarint isValid hb]
    simp only [hP, bind, Except.bind, hr]
    rcases StreamKind.parse d with _ | kind
    · exact ⟨_, rfl, rfl⟩
    by_cases hw : kind = .webTransport
    · subst hw
      have hsess := GetVarint.poll_new_slice (b.drop len)
      simp only [if_true, ReadAsync.pollSessionId]
      rcases hs : firstVarint (b.drop len) with _ | ⟨s, m⟩
      · simp only [hs] at hsess
        simp only [Option.map_none', firstVarintLen_of_some hb]
        split_ifs at hsess ⊢
        · obtain ⟨g', hP', hr'⟩ := hsess
          simp only [hP', bind, Except.bind, pure, Except.pure]
          exact ⟨_, rfl, hr'⟩
        · simp only [hsess, bind, Except.bind]
      · simp only [hs] at hsess
        obtain ⟨g', hP', hr'⟩ := hsess
        simp only [hP', Option.map_some', SessionId.tryFromVarint, bind, Except.bind, pure,
          Except.pure, hr', List.drop_drop, Nat.add_comm m]
        cases isValid s <;> exact ⟨_, rfl, rfl⟩
    · simp only [if_neg hw]
      exact ⟨_, rfl, rfl⟩

/-! ### `write_async` writes what `write` writes -/

namespace WriteAsync

variable {W : Type} (accepts : W → Intake → Prop)

/-- Where `write_async` of the header `h` stands, over a sink that had received `acc`, with at
most `n` `Pending`s left: not yet polled, delivering the kind's id, or delivering the session id
after it. -/
def Writing (h : StreamHeader) (acc : List UInt8) (n : Nat) : WriteAsync W → Prop
  | .unresumed h' w => h' = h ∧ accepts w ⟨acc, n⟩
  | .awaitKind h' fut => h' = h ∧
      PutVarint.Writing accepts acc (WriteOp.putVarint h.kind.id).encoding n fut
  | .awaitSession fut => ∃ s, h.sessionId = some s ∧
      PutVarint.Writing accepts (acc ++ (WriteOp.putVarint h.kind.id).encoding)
        (WriteOp.putVarint s.varint).encoding n fut
  | .returned _ => False

/-- A finished `write_async` of `h`: `Ok(())`, the sink having received `h`'s encoding after
`acc`. -/
def Done (h : StreamHeader) (acc : List UInt8) (n : Nat) (x : Except IoError Unit)
    (f : WriteAsync W) : Prop :=
  x = .ok () ∧ accepts f.writer ⟨acc ++ h.encoding, n⟩

variable {accepts} [AsyncWrite W] (hsink : WellBehavedSink accepts)
include hsink

theorem pollSessionId_spec {h : StreamHeader} {acc : List UInt8} {n : Nat} {s : SessionId}
    (hs : h.sessionId = some s) {fut : PutVarint W}
    (hfut : PutVarint.Writing accepts (acc ++ (WriteOp.putVarint h.kind.id).encoding)
      (WriteOp.putVarint s.varint).encoding n fut) :
    ∃ res, pollSessionId fut = .ok res ∧ PollStep (Writing accepts h acc) (Done accepts h acc) n res := by
  obtain ⟨⟨p, fut'⟩, hpoll, hstep⟩ := PutVarint.poll_spec hsink hfut
  simp only [pollSessionId, hpoll, bind, Except.bind]
  rcases p with ⟨e | _⟩ | _
  · exact absurd hstep.1 (by simp)
  · refine ⟨_, rfl, rfl, ?_⟩
    simpa [StreamHeader.encoding, hs, List.append_assoc] using hstep.2
  · obtain ⟨m, rfl, hfut'⟩ := hstep
    exact ⟨_, rfl, m, rfl, s, hs, hfut'⟩

theorem pollKindId_spec {h : StreamHeader} (hw : h.WellFormed) {acc : List UInt8} {n : Nat}
    {fut : PutVarint W}
    (hfut : PutVarint.Writing accepts acc (WriteOp.putVarint h.kind.id).encoding n fut) :
    ∃ res, pollKindId h fut = .ok res ∧ PollStep (Writing accepts h acc) (Done accepts h acc) n res := by
  obtain ⟨⟨p, fut'⟩, hpoll, hstep⟩ := PutVarint.poll_spec hsink hfut
  simp only [pollKindId, hpoll, StreamHeader.sessionId?_eq hw, bind, Except.bind]
  rcases p with ⟨e | _⟩ | _
  · exact absurd hstep.1 (by simp)
  · obtain ⟨-, hacc⟩ := hstep
    cases hs : h.sessionId with
    | none =>
      refine ⟨_, rfl, rfl, ?_⟩
      simpa [StreamHeader.encoding, hs] using hacc
    | some s =>
      obtain ⟨fut₂, hnew, hfut₂⟩ := PutVarint.new_writing accepts hacc s.varint
      simp only [hnew]
      exact pollSessionId_spec hsink hs hfut₂
  · obtain ⟨m, rfl, hfut'⟩ := hstep
    exact ⟨_, rfl, m, rfl, rfl, hfut'⟩

/-- One poll of `write_async` of a well-formed header over a well-behaved sink. -/
theorem poll_spec {h : StreamHeader} (hw : h.WellFormed) {acc : List UInt8} {n : Nat}
    {f : WriteAsync W} (hf : Writing accepts h acc n f) :
    ∃ res, f.poll = .ok res ∧ PollStep (Writing accepts h acc) (Done accepts h acc) n res := by
  cases f with
  | unresumed h' w =>
    obtain ⟨rfl, hacc⟩ := hf
    obtain ⟨fut, hnew, hfut⟩ := PutVarint.new_writing accepts hacc h'.kind.id
    simp only [poll, hnew, bind, Except.bind]
    exact pollKindId_spec hsink hw hfut
  | awaitKind h' fut =>
    obtain ⟨rfl, hfut⟩ := hf
    exact pollKindId_spec hsink hw hfut
  | awaitSession fut =>
    obtain ⟨s, hs, hfut⟩ := hf
    exact pollSessionId_spec hsink hs hfut
  | returned _ => exact hf.elim

end WriteAsync

/-- `write_async` over a well-behaved sink: for every header the public API builds (well formed,
see `header_wellFormed`) and every sink that has received `acc`, whatever its chunking, with at
most `n` `Pending`s, `write_async` is ready within `n + 1` polls with `Ok(())`, the sink having
received exactly the bytes `write` appends to an empty `Vec<u8>`. More generally, for every
varint `x`, the `PutVarint` future delivers exactly the bytes `BufferWriter::put_varint` writes for
`x` and yields `x.size()`. -/
theorem writeAsync_eq_write (h : StreamHeader) (hw : h.WellFormed) {W : Type} [AsyncWrite W]
    {accepts : W → Intake → Prop} (hsink : WellBehavedSink accepts) {w : W} {acc : List UInt8}
    {n : Nat} (hacc : accepts w ⟨acc, n⟩) {fuel : Nat} (hfuel : n < fuel) :
    (∃ e m f, h.write ([] : List UInt8) = .ok (.ok (), e) ∧
      blockOn WriteAsync.poll fuel (WriteAsync.start h w) = .ok (some (.ok ()), f) ∧
      accepts f.writer ⟨acc ++ e, m⟩) ∧
    ∀ x : VarInt, ∃ bw, (BufferWriter.new (List.replicate VarInt.maxSize 0)).putVarint x = .ok bw ∧
      bw.offset = x.size ∧ ∃ m p, m ≤ n ∧
        (PutVarint.new w x >>= blockOn PutVarint.poll fuel) = .ok (some (.ok x.size), p) ∧
        accepts p.writer ⟨acc ++ bw.bufferWritten, m⟩ := by
  refine ⟨?_, fun x => PutVarint.run_spec hsink hacc x hfuel⟩
  obtain ⟨m, x, f, -, hrun, rfl, hf⟩ := blockOn_spec
    (fun _ _ hf => WriteAsync.poll_spec hsink hw hf)
    (show WriteAsync.Writing accepts h acc n (WriteAsync.start h w) from ⟨rfl, hacc⟩) hfuel
  exact ⟨h.encoding, m, f, by simpa using StreamHeader.write_vec hw [], hrun, hf⟩

theorem writeAsync_eq_write_scheduled :
    (∃ e m f, (StreamHeader.newWebtransport ⟨VarInt.fromU32 4⟩).write ([] : List UInt8) =
        .ok (.ok (), e) ∧
      blockOn WriteAsync.poll 2 (WriteAsync.start (StreamHeader.newWebtransport ⟨VarInt.fromU32 4⟩)
        (⟨[], [.chunk 1, .pending]⟩ : ScheduledSink)) = .ok (some (.ok ()), f) ∧
      ScheduledSink.Accepts f.writer ⟨[] ++ e, m⟩) ∧
    ∀ x : VarInt, ∃ bw, (BufferWriter.new (List.replicate VarInt.maxSize 0)).putVarint x = .ok bw ∧
      bw.offset = x.size ∧ ∃ m p, m ≤ 1 ∧
        (PutVarint.new (⟨[], [.chunk 1, .pending]⟩ : ScheduledSink) x >>= blockOn PutVarint.poll 2) =
          .ok (some (.ok x.size), p) ∧
        ScheduledSink.Accepts p.writer ⟨[] ++ bw.bufferWritten, m⟩ :=
  writeAsync_eq_write _ (by decide) ScheduledSink.wellBehaved
    (show ScheduledSink.Accepts ⟨[], [.chunk 1, .pending]⟩ ⟨[], 1⟩ from ⟨rfl, by decide⟩) (by decide)

/-- Into a `Vec<u8>`, which takes every offer whole and never answers `Pending`, `write_async` of
a well-formed header is ready at its first poll with `Ok(())`, leaving the vector exactly as
`write` leaves it. -/
theorem writeAsync_vec (h : StreamHeader) (hw : h.WellFormed) (v : List UInt8) :
    ∃ f, blockOn WriteAsync.poll 1 (WriteAsync.start h v) = .ok (some (.ok ()), f) ∧
      h.write v = .ok (.ok (), f.writer) := by
  obtain ⟨m, x, f, -, hrun, rfl, hf⟩ := blockOn_spec
    (fun _ _ hf => WriteAsync.poll_spec vec_wellBehaved hw hf)
    (show WriteAsync.Writing _ h v 0 (WriteAsync.start h v) from ⟨rfl, rfl⟩) Nat.zero_lt_one
  exact ⟨f, hrun, by rw [StreamHeader.write_vec hw, hf]⟩

theorem writeAsync_vec_webtransport :
    ∃ f, blockOn WriteAsync.poll 1
        (WriteAsync.start (StreamHeader.newWebtransport ⟨VarInt.fromU32 4⟩) ([0xAA] : List UInt8)) =
        .ok (some (.ok ()), f) ∧
      (StreamHeader.newWebtransport ⟨VarInt.fromU32 4⟩).write [0xAA] = .ok (.ok (), f.writer) :=
  writeAsync_vec _ (by decide) [0xAA]

/-! ### The header invariant -/

namespace ReadAsync

variable {R : Type} [AsyncRead R] (isValid : VarInt → Bool)

/-- The states `read_async` reaches: it awaits a session id only after the WebTransport kind. -/
def Valid : ReadAsync R → Prop
  | .awaitSession kind _ => kind = .webTransport
  | _ => True

/-- What a poll of `read_async` keeps, over any source: its states stay valid, and a header it
returns is well formed. -/
def PollKeeps (p : Poll (Except StreamHeaderReadAsyncError StreamHeader)) (f : ReadAsync R) : Prop :=
  Valid f ∧ ∀ h, p = .ready (.ok h) → h.WellFormed

theorem pollSessionId_keeps {fut : GetVarint R} {p} {f : ReadAsync R}
    (h : pollSessionId isValid .webTransport fut = .ok (p, f)) : PollKeeps p f := by
  rcases hp : fut.poll with msg | ⟨⟨e | v⟩ | _, fut'⟩ <;>
    simp only [pollSessionId, hp, bind, Except.bind, pure, Except.pure] at h
  · cases h
  · cases h
    exact ⟨trivial, by simp⟩
  · unfold SessionId.tryFromVarint at h
    split_ifs at h <;> cases h
    · exact ⟨trivial, by rintro _ ⟨⟩; exact ⟨by simp [StreamHeader.new], rfl⟩⟩
    · exact ⟨trivial, by simp⟩
  · cases h
    exact ⟨rfl, by simp⟩

theorem poll_keeps {f f' : ReadAsync R} {p} (hf : Valid f) (h : f.poll isValid = .ok (p, f')) :
    PollKeeps p f' := by
  cases f with
  | awaitKind fut =>
    rcases hp : fut.poll with msg | ⟨⟨e | d⟩ | _, fut'⟩ <;>
      simp only [poll, pollKindId, hp, bind, Except.bind, pure, Except.pure] at h
    · cases h
    · cases h
      exact ⟨trivial, by simp⟩
    · rcases hk : StreamKind.parse d with _ | kind <;> simp only [hk] at h
      · cases h
        exact ⟨trivial, by simp⟩
      split_ifs at h with hw
      · subst hw
        exact pollSessionId_keeps isValid h
      · cases h
        refine ⟨trivial, ?_⟩
        rintro _ ⟨⟩
        exact ⟨by simp [StreamHeader.new, hw], StreamKind.isParsable_of_parse hk⟩
    · cases h
      exact ⟨trivial, by simp⟩
  | awaitSession kind fut =>
    obtain rfl : kind = .webTransport := hf
    exact pollSessionId_keeps isValid h
  | returned _ => cases h

end ReadAsync

/-- The header invariant holds at every public entry point, from any input: `new_control`,
`new_webtransport`, `read` over any `BytesReader`, `read_from_buffer`, and `read_async` over any
`AsyncRead` source whatever it answers, however many polls it takes, build only headers with a
session id exactly on WebTransport and a greasing id on exercise kinds. On such headers the
`debug_assert!`s of `StreamHeader::new` hold and the `expect` of `session_id()` never fires. -/
theorem header_wellFormed (isValid : VarInt → Bool) :
    StreamHeader.newControl.WellFormed ∧
    (∀ s, (StreamHeader.newWebtransport s).WellFormed) ∧
    (∀ (R : Type) [BytesReader R] (r r' : R) (h : StreamHeader),
      StreamHeader.read isValid r = .ok (some (.ok h), r') → h.WellFormed) ∧
    (∀ (r r' : BufferReader) (h : StreamHeader),
      StreamHeader.readFromBuffer isValid r = .ok (some (.ok h), r') → h.WellFormed) ∧
    (∀ (R : Type) [AsyncRead R] (r : R) (fuel : Nat) (h : StreamHeader) (f : ReadAsync R),
      blockOn (ReadAsync.poll isValid) fuel (ReadAsync.start r) = .ok (some (.ok h), f) →
        h.WellFormed) ∧
    (∀ h : StreamHeader, h.WellFormed →
      StreamHeader.newDebugAsserts h.kind h.sessionId = true ∧ h.sessionId? = .ok h.sessionId) := by
  refine ⟨by decide, fun _ => ⟨⟨fun _ => rfl, fun _ => rfl⟩, rfl⟩,
    fun R _ r r' h hr => read_wellFormed isValid hr,
    fun r r' h hr => readFromBuffer_wellFormed hr, fun R _ r fuel h f hrun => ?_,
    fun h hw => ⟨StreamHeader.newDebugAsserts_of_wellFormed hw, StreamHeader.sessionId?_eq hw⟩⟩
  have hkeep : ∀ (f : ReadAsync R) p f', ReadAsync.Valid f → f.poll isValid = .ok (p, f') →
      ReadAsync.Valid f' ∧ ∀ x, p = .ready x → ∀ h, x = .ok h → h.WellFormed :=
    fun _ _ _ hf hp => ⟨(ReadAsync.poll_keeps isValid hf hp).1,
      fun _ hx h hh => (ReadAsync.poll_keeps isValid hf hp).2 h (by rw [hx, hh])⟩
  exact blockOn_inv hkeep (show ReadAsync.Valid (ReadAsync.start r) from trivial) hrun h rfl

end WTransport
