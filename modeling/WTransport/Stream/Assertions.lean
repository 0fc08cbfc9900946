import WTransport.Stream.Async
import WTransport.Bytes.Assertions

/-!
# Stream headers over any source and any sink: where they can panic

`read_async` runs on bytes a peer sends, over whatever `AsyncRead` the caller supplies. Over every
source whose `poll_read` returns and never reports more bytes read than it was lent, whatever
bytes, chunks, `Pending`s and errors it gives, `read_async` never panics: every state it reaches
by polls is suspended at one of its `await`s, its `GetVarint` `Sane`, and polls without panicking,
or has returned, and only resuming it after completion panics. The crate's own `&[u8]` source
breaks the first half of that contract, which is why `read_async` over it can panic.

Likewise `write_async` of a well-formed header, over every sink whose `poll_write` returns, takes
at least one byte of every non-empty offer and never reports more than it was offered, never
panics: neither `PutVarint::new`'s `expect`, nor `session_id()`'s, nor the
`debug_assert!(written > 0)` fires, and the `PutVarint` it awaits keeps its offset within its
bytes, so no `offset += written` overflows.

## Main definitions

* `ReadAsync.Suspended`, `WriteAsync.Suspended` — a future suspended at one of its `await`s

## Main results

* `readAsync_never_panics` — `read_async` over any source that reads within what it is lent
* `writeAsync_never_panics` — `write_async` over any sink that writes within what it is offered
-/

namespace WTransport

/-! ### `read_async` -/

namespace ReadAsync

variable {R : Type}

/-- `read_async` suspended at one of its `await`s, the `GetVarint` it awaits `Sane`. -/
def Suspended : ReadAsync R → Prop
  | .awaitKind fut => fut.Sane
  | .awaitSession _ fut => fut.Sane
  | .returned _ => False

/-- What a poll of a suspended `read_async` leaves: after `Pending`, a suspended future; after
`Ready`, a returned one. -/
def Polled : Poll (Except StreamHeaderReadAsyncError StreamHeader) × ReadAsync R → Prop
  | (.pending, f) => Suspended f
  | (.ready _, f) => ∃ reader, f = .returned reader

theorem Polled.spec {res : Poll (Except StreamHeaderReadAsyncError StreamHeader) × ReadAsync R}
    (h : Polled res) :
    (res.1 = .pending → Suspended res.2) ∧
      (Suspended res.2 ∨ ∃ reader, res.2 = .returned reader) := by
  rcases res with ⟨_ | _, f⟩
  · exact ⟨(fun h => nomatch h), .inr h⟩
  · exact ⟨fun _ => h, .inl h⟩

variable [AsyncRead R] {isValid : VarInt → Bool} (hw : ReadsWithin R)
include hw

theorem pollSessionId_polled (kind : StreamKind) {fut : GetVarint R} (hfut : fut.Sane) :
    ∃ res, pollSessionId isValid kind fut = .ok res ∧ Polled res := by
  obtain ⟨p, fut', hpoll, hsane⟩ := GetVarint.poll_sane hw hfut
  simp only [pollSessionId, hpoll, bind, Except.bind]
  rcases p with (_ | sessionId) | _
  · exact ⟨_, rfl, _, rfl⟩
  · cases hs : SessionId.tryFromVarint isValid sessionId <;> simp only [hs] <;>
      exact ⟨_, rfl, _, rfl⟩
  · exact ⟨_, rfl, hsane⟩

theorem pollKindId_polled {fut : GetVarint R} (hfut : fut.Sane) :
    ∃ res, pollKindId isValid fut = .ok res ∧ Polled res := by
  obtain ⟨p, fut', hpoll, hsane⟩ := GetVarint.poll_sane hw hfut
  simp only [pollKindId, hpoll, bind, Except.bind]
  rcases p with (_ | kindId) | _
  · exact ⟨_, rfl, _, rfl⟩
  · cases hk : StreamKind.parse kindId with
    | none =>
      simp only [hk]
      exact ⟨_, rfl, _, rfl⟩
    | some kind =>
      simp only [hk]
      split_ifs
      · exact pollSessionId_polled hw kind (GetVarint.Sane.new _)
      · exact ⟨_, rfl, _, rfl⟩
  · exact ⟨_, rfl, hsane⟩

/-- One poll of a suspended `read_async` returns, leaving it suspended or returned. -/
theorem poll_polled {f : ReadAsync R} (hf : Suspended f) :
    ∃ res, f.poll isValid = .ok res ∧ Polled res := by
  cases f with
  | awaitKind fut => exact pollKindId_polled hw hf
  | awaitSession kind fut => exact pollSessionId_polled hw kind hf
  | returned _ => exact hf.elim

end ReadAsync

/-- Over every source whose `poll_read` returns and never reports more bytes read than it was lent,
whatever bytes, chunks, `Pending`s and errors it gives, and for every session-id check, every
state `read_async` reaches by polls either polls without panicking or has returned: only resuming
it after completion panics. So the executor never panics on `read_async`, whatever its fuel. -/
theorem readAsync_never_panics {R : Type} [AsyncRead R] (hw : ReadsWithin R)
    (isValid : VarInt → Bool) (r : R) :
    (∀ f, PollReach (ReadAsync.poll isValid) (ReadAsync.start r) f →
      (∃ res, f.poll isValid = .ok res) ∨ ∃ reader, f = .returned reader) ∧
    ∀ fuel, ∃ x f, blockOn (ReadAsync.poll isValid) fuel (ReadAsync.start r) = .ok (x, f) :=
  let ⟨hreach, hrun⟩ := @never_panics_of_suspended _ _ (ReadAsync.poll isValid) ReadAsync.Suspended
    (fun f => ∃ reader, f = .returned reader)
    (fun _ hf => let ⟨⟨p, f'⟩, hres, hpolled⟩ := ReadAsync.poll_polled hw hf
      ⟨p, f', hres, hpolled.spec⟩)
    (fun _ ⟨_, hf⟩ _ hp => by subst hf; cases hp) (ReadAsync.start r) (GetVarint.Sane.new r)
  ⟨fun f hf => (hreach f hf).imp_left And.right, hrun⟩

theorem readAsync_never_panics_scheduled :
    (∀ f, PollReach (ReadAsync.poll fun v => v.val % 4 == 0)
        (ReadAsync.start (⟨[0x40, 0x54, 0x04], [.pending, .chunk 1]⟩ : Scheduled)) f →
      (∃ res, f.poll (fun v => v.val % 4 == 0) = .ok res) ∨ ∃ reader, f = .returned reader) ∧
    ∀ fuel, ∃ x f, blockOn (ReadAsync.poll fun v => v.val % 4 == 0) fuel
      (ReadAsync.start (⟨[0x40, 0x54, 0x04], [.pending, .chunk 1]⟩ : Scheduled)) = .ok (x, f) :=
  readAsync_never_panics Scheduled.readsWithin _ _

/-! ### `write_async` -/

namespace WriteAsync

variable {W : Type} (h : StreamHeader)

/-- `write_async` of `h` not yet returned, the `PutVarint` it awaits `Sane`. -/
def Suspended : WriteAsync W → Prop
  | .unresumed h' _ => h' = h
  | .awaitKind h' fut => h' = h ∧ fut.Sane
  | .awaitSession fut => fut.Sane
  | .returned _ => False

/-- What a poll of a suspended `write_async` of `h` leaves: after `Pending`, a suspended future;
after `Ready`, a returned one. -/
def Polled : Poll (Except IoError Unit) × WriteAsync W → Prop
  | (.pending, f) => Suspended h f
  | (.ready _, f) => ∃ writer, f = .returned writer

theorem Polled.spec {res : Poll (Except IoError Unit) × WriteAsync W} (hp : Polled h res) :
    (res.1 = .pending → Suspended h res.2) ∧
      (Suspended h res.2 ∨ ∃ writer, res.2 = .returned writer) := by
  rcases res with ⟨_ | _, f⟩
  · exact ⟨(fun h => nomatch h), .inr hp⟩
  · exact ⟨fun _ => hp, .inl hp⟩

variable [AsyncWrite W] {h} (hw : WritesSome W)
include hw

theorem pollSessionId_polled {fut : PutVarint W} (hfut : fut.Sane) :
    ∃ res, pollSessionId fut = .ok res ∧ Polled h res := by
  obtain ⟨⟨p, fut'⟩, hpoll, hsane⟩ := PutVarint.poll_writesSome hw hfut
  simp only [pollSessionId, hpoll, bind, Except.bind]
  rcases p with (_ | _) | _
  · exact ⟨_, rfl, _, rfl⟩
  · exact ⟨_, rfl, _, rfl⟩
  · exact ⟨_, rfl, hsane⟩

theorem pollKindId_polled (hwf : h.WellFormed) {fut : PutVarint W} (hfut : fut.Sane) :
    ∃ res, pollKindId h fut = .ok res ∧ Polled h res := by
  obtain ⟨⟨p, fut'⟩, hpoll, hsane⟩ := PutVarint.poll_writesSome hw hfut
  simp only [pollKindId, hpoll, StreamHeader.sessionId?_eq hwf, bind, Except.bind]
  rcases p with (_ | _) | _
  · exact ⟨_, rfl, _, rfl⟩
  · cases h.sessionId with
    | none => exact ⟨_, rfl, _, rfl⟩
    | some s =>
      obtain ⟨fut₂, hnew, hsane₂⟩ := PutVarint.new_sane fut'.writer s.varint
      simp only [hnew]
      exact pollSessionId_polled hw hsane₂
  · exact ⟨_, rfl, show h = h ∧ fut'.Sane from ⟨rfl, hsane⟩⟩

/-- One poll of a suspended `write_async` of a well-formed header returns, leaving it suspended
or returned. -/
theorem poll_polled (hwf : h.WellFormed) {f : WriteAsync W} (hf : Suspended h f) :
    ∃ res, f.poll = .ok res ∧ Polled h res := by
  cases f with
  | unresumed h' writer =>
    obtain rfl : h' = h := hf
    obtain ⟨fut, hnew, hsane⟩ := PutVarint.new_sane writer h'.kind.id
    simp only [poll, hnew, bind, Except.bind]
    exact pollKindId_polled hw hwf hsane
  | awaitKind h' fut =>
    obtain ⟨rfl, hsane⟩ := hf
    exact pollKindId_polled hw hwf hsane
  | awaitSession fut => exact pollSessionId_polled hw hf
  | returned _ => exact hf.elim

end WriteAsync

/-- Over every sink whose `poll_write` returns, takes at least one byte of every non-empty offer it
does not answer `Pending` or an error, and never reports more bytes written than it was offered,
`write_async` of every well-formed header (every header the public API builds) never panics: every
state it reaches by polls is suspended, the `PutVarint` it awaits keeping its offset within its
bytes (so `offset += written` never overflows), and polls without panicking, or has returned, and
only resuming it after completion panics. So the executor never panics on `write_async`, whatever
its fuel. -/
theorem writeAsync_never_panics {W : Type} [AsyncWrite W] (hw : WritesSome W) (h : StreamHeader)
    (hwf : h.WellFormed) (w : W) :
    (∀ f, PollReach WriteAsync.poll (WriteAsync.start h w) f →
      (WriteAsync.Suspended h f ∧ ∃ res, f.poll = .ok res) ∨ ∃ writer, f = .returned writer) ∧
    ∀ fuel, ∃ x f, blockOn WriteAsync.poll fuel (WriteAsync.start h w) = .ok (x, f) :=
  @never_panics_of_suspended _ _ _ (WriteAsync.Suspended h)
    (fun f => ∃ writer, f = .returned writer)
    (fun _ hf => let ⟨⟨p, f'⟩, hres, hpolled⟩ := WriteAsync.poll_polled hw hwf hf
      ⟨p, f', hres, hpolled.spec⟩)
    (fun _ ⟨_, hf⟩ _ hp => by subst hf; cases hp) _ rfl

theorem writeAsync_never_panics_scheduled :
    (∀ f, PollReach WriteAsync.poll
        (WriteAsync.start (StreamHeader.newWebtransport ⟨VarInt.fromU32 4⟩)
          (⟨[], [.chunk 1, .pending]⟩ : ScheduledSink)) f →
      (WriteAsync.Suspended (StreamHeader.newWebtransport ⟨VarInt.fromU32 4⟩) f ∧
        ∃ res, f.poll = .ok res) ∨ ∃ writer, f = .returned writer) ∧
    ∀ fuel, ∃ x f, blockOn WriteAsync.poll fuel
      (WriteAsync.start (StreamHeader.newWebtransport ⟨VarInt.fromU32 4⟩)
        (⟨[], [.chunk 1, .pending]⟩ : ScheduledSink)) = .ok (x, f) :=
  writeAsync_never_panics ScheduledSink.writesSome _ (by decide) _

end WTransport
