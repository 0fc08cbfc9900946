import WTransport.Bytes.Reader
import WTransport.Bytes.Writer

/-!
# Stream headers

Every unidirectional HTTP/3 stream starts with a varint naming its type, followed, for a
WebTransport stream, by a second varint naming the session. `stream.rs` reads such a header from
any `BytesReader` (`StreamHeader::read`), atomically from a `BufferReader` through a child
(`read_from_buffer`), and writes it to any `BytesWriter`.

The rule deciding which varints are session ids lives in `ids.rs`, which is not among the modelled
sources: it is the parameter `isValid` of `SessionId.tryFromVarint`, and every result holds for
every such rule.

## Main definitions

* `StreamKind`, `StreamKind.parse`, `StreamKind.id`, `StreamKind.isIdExercise`
* `StreamHeader`, `StreamHeader.read`, `StreamHeader.readFromBuffer`, `StreamHeader.write`,
  `StreamHeader.writeToBuffer`, `StreamHeader.writeSize`
* `StreamHeader.WellFormed` — the invariant `StreamHeader::new` asserts
-/

namespace WTransport

/-- `StreamHeaderReadError`. -/
inductive StreamHeaderReadError
  | unknownStream
  | invalidSessionId
  deriving DecidableEq, Repr

/-- `StreamKind`. -/
inductive StreamKind
  | control
  | qPackEncoder
  | qPackDecoder
  | webTransport
  | exercise (id : VarInt)
  deriving DecidableEq, Repr

/-! ### `stream_type_ids` and `StreamKind` -/

namespace StreamTypeIds

def controlStream : VarInt := VarInt.fromU32 0x0
def qpackEncoderStream : VarInt := VarInt.fromU32 0x02
def qpackDecoderStream : VarInt := VarInt.fromU32 0x03
def webtransportStream : VarInt := VarInt.fromU32 0x54

end StreamTypeIds

namespace StreamKind

open StreamTypeIds

/-- `StreamKind::is_id_exercise`: the HTTP/3 reserved (greasing) stream types `0x1f * N + 0x21`. -/
def isIdExercise (id : VarInt) : Bool := id.val ≥ 0x21 && (id.val - 0x21) % 0x1f == 0

/-- `StreamKind::parse`. -/
def parse (id : VarInt) : Option StreamKind :=
  if id = controlStream then some .control
  else if id = qpackEncoderStream then some .qPackEncoder
  else if id = qpackDecoderStream then some .qPackDecoder
  else if id = webtransportStream then some .webTransport
  else if isIdExercise id then some (.exercise id)
  else none

/-- The kinds `parse` can return: an exercise kind carries a greasing id. -/
def isParsable : StreamKind → Bool
  | .exercise id => isIdExercise id
  | _ => true

/-- `StreamKind::id`. -/
def id : StreamKind → VarInt
  | .control => controlStream
  | .qPackEncoder => qpackEncoderStream
  | .qPackDecoder => qpackDecoderStream
  | .webTransport => webtransportStream
  | .exercise id => id

end StreamKind

/-- Modelled from the spec: `InvalidSessionId` of `ids.rs`. -/
structure InvalidSessionId where
  deriving DecidableEq, Repr

/-- Modelled from the spec: `SessionId` of `ids.rs`, a wrapped varint; `varint` is what
`into_varint` returns. -/
structure SessionId where
  varint : VarInt
  deriving DecidableEq, Repr

/-- Modelled from the spec: `SessionId::try_from_varint` of `ids.rs`, for its validity rule, the
parameter `isValid`. -/
def SessionId.tryFromVarint (isValid : VarInt → Bool) (varint : VarInt) :
    Except InvalidSessionId SessionId :=
  if isValid varint then .ok ⟨varint⟩ else .error ⟨⟩

/-- `StreamHeader`: its two private fields. -/
structure StreamHeader where
  kind : StreamKind
  sessionId : Option SessionId
  deriving DecidableEq, Repr

namespace StreamHeader

/-- `StreamHeader::MAX_SIZE`. -/
def maxSize : Nat := 16

/-- `StreamHeader::new`; its `debug_assert!`s are `newDebugAsserts`. -/
def new (kind : StreamKind) (sessionId : Option SessionId) : StreamHeader := ⟨kind, sessionId⟩

/-- What the `debug_assert!`s of `StreamHeader::new` check. -/
def newDebugAsserts : StreamKind → Option SessionId → Bool
  | .exercise id, _ => StreamKind.isIdExercise id
  | .webTransport, sessionId => sessionId.isSome
  | _, _ => true

/-- `StreamHeader::new_control`. -/
def newControl : StreamHeader := new .control none

/-- `StreamHeader::new_webtransport`. -/
def newWebtransport (sessionId : SessionId) : StreamHeader := new .webTransport (some sessionId)

/-- `StreamHeader::session_id`: the session id of a WebTransport header, whose absence panics. -/
def sessionId? (self : StreamHeader) : Except String (Option SessionId) :=
  if self.kind = .webTransport then
    (expect self.sessionId "WebTransport stream header contains session id").map some
  else .ok none

section Read

variable (isValid : VarInt → Bool)

/-- `StreamHeader::read`: `None` when the reader runs out, partway through or not. -/
def read {R : Type} [BytesReader R] (r : R) :
    Except String (Option (Except StreamHeaderReadError StreamHeader) × R) := do
  let (kindId, r) ← BytesReader.getVarint r
  let some kindId := kindId | pure (none, r)
  let some kind := StreamKind.parse kindId | pure (some (.error .unknownStream), r)
  if kind = .webTransport then
    let (sessionId, r) ← BytesReader.getVarint r
    let some sessionId := sessionId | pure (none, r)
    match SessionId.tryFromVarint isValid sessionId with
    | .ok sessionId => pure (some (.ok (new kind (some sessionId))), r)
    | .error _ => pure (some (.error .invalidSessionId), r)
  else pure (some (.ok (new kind none)), r)

/-- `StreamHeader::read_from_buffer`: read through a child, committed only on success; the new
parent. -/
def readFromBuffer (r : BufferReader) :
    Except String (Option (Except StreamHeaderReadError StreamHeader) × BufferReader) := do
  let child := r.child
  let (result, reader) ← read isValid child.reader
  let child := { child with reader }
  match result with
  | none => pure (none, child.parent)
  | some (.ok header) => do
    let parent ← child.commit
    pure (some (.ok header), parent)
  | some (.error error) => pure (some (.error error), child.parent)

end Read

/-- `StreamHeader::write`: the kind's id, then the session id if there is one. -/
def write {W : Type} [BytesWriter W] (self : StreamHeader) (w : W) :
    Except String (Except EndOfBuffer Unit × W) := do
  let (result, w) ← BytesWriter.putVarint w self.kind.id
  match result with
  | .error e => pure (.error e, w)
  | .ok () =>
    match ← self.sessionId? with
    | some sessionId => BytesWriter.putVarint w sessionId.varint
    | none => pure (.ok (), w)

/-- `StreamHeader::write_size`. -/
def writeSize (self : StreamHeader) : Except String Nat := do
  match ← self.sessionId? with
  | some sessionId => pure (self.kind.id.size + sessionId.varint.size)
  | none => pure self.kind.id.size

/-- `StreamHeader::write_to_buffer`: check the room first, then write. -/
def writeToBuffer (self : StreamHeader) (w : BufferWriter) :
    Except String (Except EndOfBuffer Unit × BufferWriter) := do
  if w.capacity < (← self.writeSize) then
    pure (.error ⟨⟩, w)
  else
    let (result, w) ← self.write w
    expectOk result "Enough capacity for header"
    pure (.ok (), w)

/-! ### The header invariant -/

/-- The invariant `StreamHeader::new` asserts: a session id exactly on WebTransport headers, and a
greasing id on exercise headers. -/
def WellFormed (h : StreamHeader) : Prop :=
  (h.sessionId.isSome ↔ h.kind = .webTransport) ∧ h.kind.isParsable = true

instance (h : StreamHeader) : Decidable h.WellFormed := inferInstanceAs (Decidable (_ ∧ _))

end StreamHeader

end WTransport
