import WTransport.Stream.Header
import WTransport.Bytes.Cursor

/-!
# What `StreamHeader::read` decides

Over its unread bytes, `StreamHeader::read` decides the grammar `discriminant-varint
[session-varint]`: `headerGrammar` states it in the spec's words, and `read_eq_grammar` shows every
reader whose `get_varint` takes the first complete varint of its unread bytes (the slice reader,
`BufferReader` and its children) follows it. Writing then reading a header gives it back, and the
atomic entry point `read_from_buffer` agrees with the slice reader.

## Main results

* `read_eq_grammar` — `read` follows `headerGrammar` over any such reader
* `read_slice_decides_grammar` — the slice reader's verdicts, prefix-stable, and `None` only short
* `write_read_roundtrip` — a header the public API builds survives `write` then `read`
* `readFromBuffer_eq_read_slice` — `read_from_buffer` answers as the slice reader, atomically
-/

namespace WTransport

open BufferReader

/-! ### Kinds by value -/

@[simp] theorem VarInt.fromU32_val (v : UInt32) : (VarInt.fromU32 v).val = v.toNat := rfl

namespace StreamKind

open StreamTypeIds

/-- `StreamKind::parse` by the value of the id: the four fixed ids, then the greasing ids. -/
theorem parse_eq (d : VarInt) : parse d =
    if d.val = 0x54 then some .webTransport
    else if d.val = 0x00 then some .control
    else if d.val = 0x02 then some .qPackEncoder
    else if d.val = 0x03 then some .qPackDecoder
    else if d.val ≥ 0x21 ∧ (d.val - 0x21) % 0x1f = 0 then some (.exercise d)
    else none := by
  have hc : d = controlStream ↔ d.val = 0 := VarInt.ext_iff
  have he : d = qpackEncoderStream ↔ d.val = 2 := VarInt.ext_iff
  have hd : d = qpackDecoderStream ↔ d.val = 3 := VarInt.ext_iff
  have hw : d = webtransportStream ↔ d.val = 0x54 := VarInt.ext_iff
  simp only [parse, isIdExercise, hc, he, hd, hw, Bool.and_eq_true, decide_eq_true_eq, beq_iff_eq,
    ge_iff_le]
  by_cases h54 : d.val = 0x54
  · simp only [h54, if_true]
    rfl
  · simp only [if_neg h54]

/-- `parse` returns only parsable kinds. -/
theorem isParsable_of_parse {d : VarInt} {kind : StreamKind} (h : parse d = some kind) :
    kind.isParsable = true := by
  cases kind with
  | exercise id =>
    simp only [parse] at h
    split_ifs at h with _ _ _ _ hx <;> cases h
    exact hx
  | _ => rfl

/-- Parsing a kind's id gives the kind back, for every kind `parse` can return. -/
theorem parse_id {kind : StreamKind} (h : kind.isParsable = true) : parse kind.id = some kind := by
  rw [parse_eq]
  rcases kind with _ | _ | _ | _ | id
  all_goals simp only [StreamKind.id, controlStream, qpackEncoderStream, qpackDecoderStream,
    webtransportStream, VarInt.fromU32_val]
  · rfl
  · rfl
  · rfl
  · rfl
  · simp only [isParsable, isIdExercise, Bool.and_eq_true, decide_eq_true_eq, beq_iff_eq] at h
    rw [if_neg (by omega), if_neg (by omega), if_neg (by omega), if_neg (by omega), if_pos h]

/-- A kind `parse` returns has the parsed varint as its id: an exercise kind keeps its id. -/
theorem id_of_parse {d : VarInt} {kind : StreamKind} (h : parse d = some kind) : kind.id = d := by
  simp only [parse] at h
  split_ifs at h with h₁ h₂ h₃ h₄ <;> cases h
  exacts [h₁.symm, h₂.symm, h₃.symm, h₄.symm, rfl]

end StreamKind

/-! ### The grammar -/

/-- The header grammar `discriminant-varint [session-varint]` in the words of the spec: the verdict
and the bytes it takes, or `none` when the bytes run out first. -/
def headerGrammar (isValid : VarInt → Bool) (b : List UInt8) :
    Option (Except StreamHeaderReadError StreamHeader × Nat) :=
  match firstVarint b with
  | none => none
  | some (d, n) =>
    if d.val = 0x54 then
      match firstVarint (b.drop n) with
      | none => none
      | some (s, m) =>
        if isValid s then some (.ok ⟨.webTransport, some ⟨s⟩⟩, n + m)
        else some (.error .invalidSessionId, n + m)
    else if d.val = 0x00 then some (.ok ⟨.control, none⟩, n)
    else if d.val = 0x02 then some (.ok ⟨.qPackEncoder, none⟩, n)
    else if d.val = 0x03 then some (.ok ⟨.qPackDecoder, none⟩, n)
    else if d.val ≥ 0x21 ∧ (d.val - 0x21) % 0x1f = 0 then some (.ok ⟨.exercise d, none⟩, n)
    else some (.error .unknownStream, n)

section Grammar

variable (isValid : VarInt → Bool)

/-- The grammar reads only the first varint and, after the WebTransport id, the second. -/
theorem headerGrammar_congr {b b' : List UInt8} (h1 : firstVarint b' = firstVarint b)
    (h2 : ∀ d k, firstVarint b = some (d, k) → d.val = 0x54 →
      firstVarint (b'.drop k) = firstVarint (b.drop k)) :
    headerGrammar isValid b' = headerGrammar isValid b := by
  unfold headerGrammar
  rw [h1]
  rcases hf : firstVarint b with _ | ⟨d, k⟩
  · rfl
  · by_cases h54 : d.val = 0x54
    · simp only [if_pos h54, h2 d k hf h54]
    · simp only [if_neg h54]

/-- How many bytes the grammar takes: the first varint's, and the second's after the WebTransport
id; whatever the verdict. -/
theorem headerGrammar_map_snd (b : List UInt8) :
    (headerGrammar isValid b).map Prod.snd = (firstVarint b).bind fun (d, k) =>
      if d.val = 0x54 then (firstVarint (b.drop k)).map fun p => k + p.2 else some k := by
  unfold headerGrammar
  rcases firstVarint b with _ | ⟨d, k⟩
  · rfl
  · by_cases h54 : d.val = 0x54
    · simp only [if_pos h54, Option.some_bind]
      rcases firstVarint (b.drop k) with _ | ⟨s, m⟩
      · rfl
      · by_cases hs : isValid s <;> simp [hs]
    · simp only [if_neg h54, Option.some_bind, apply_ite (Option.map Prod.snd), Option.map_some',
        ite_self]

/-- A verdict takes no more bytes than there are. -/
theorem headerGrammar_le {b : List UInt8} {v : Except StreamHeaderReadError StreamHeader} {n : Nat}
    (h : headerGrammar isValid b = some (v, n)) : n ≤ b.length := by
  have hs := headerGrammar_map_snd isValid b
  rw [h, Option.map_some'] at hs
  rcases hf : firstVarint b with _ | ⟨d, k⟩ <;> rw [hf] at hs
  · cases hs
  have hk := firstVarint_len_le hf
  simp only [Option.some_bind] at hs
  split_ifs at hs
  · rcases hf2 : firstVarint (b.drop k) with _ | ⟨s, m⟩ <;> rw [hf2] at hs
    · cases hs
    have hm := firstVarint_len_le hf2
    simp only [List.length_drop, Option.map_some', Option.some.injEq] at hm hs
    omega
  · cases hs
    exact hk

/-- A verdict stands whatever follows the bytes it took. -/
theorem headerGrammar_append {b : List UInt8} {p : Except StreamHeaderReadError StreamHeader × Nat}
    (h : headerGrammar isValid b = some p) (c : List UInt8) :
    headerGrammar isValid (b ++ c) = some p := by
  rcases hf : firstVarint b with _ | ⟨d, k⟩
  · simp [headerGrammar, hf] at h
  refine (headerGrammar_congr isValid ((firstVarint_append hf c).trans hf.symm)
    fun d' k' hdk h54 => ?_).trans h
  rw [hf, Option.some.injEq, Prod.mk.injEq] at hdk
  obtain ⟨rfl, rfl⟩ := hdk
  rcases hf2 : firstVarint (b.drop k) with _ | q
  · simp [headerGrammar, hf, h54, hf2] at h
  · rw [List.drop_append_of_le_length (firstVarint_len_le hf), firstVarint_append hf2]

/-- Running out of bytes means fewer than `StreamHeader::MAX_SIZE` bytes: two varints of at most
`VarInt::MAX_SIZE` bytes each. -/
theorem length_lt_of_headerGrammar_none {b : List UInt8} (h : headerGrammar isValid b = none) :
    b.length < StreamHeader.maxSize := by
  have hs := headerGrammar_map_snd isValid b
  rw [h, Option.map_none'] at hs
  rcases hf : firstVarint b with _ | ⟨d, k⟩ <;> rw [hf] at hs
  · have := length_lt_of_firstVarint_none hf
    simp only [VarInt.maxSize, StreamHeader.maxSize] at this ⊢
    omega
  · have hk : k ≤ VarInt.maxSize := by
      obtain ⟨first, -, -, rfl, -, -⟩ := firstVarint_some hf
      exact VarInt.parseSize_le_maxSize first
    simp only [Option.some_bind] at hs
    split_ifs at hs
    rcases hf2 : firstVarint (b.drop k) with _ | ⟨s, m⟩ <;> rw [hf2] at hs
    · have := length_lt_of_firstVarint_none hf2
      simp only [List.length_drop, VarInt.maxSize, StreamHeader.maxSize] at this hk ⊢
      omega
    · cases hs

/-- The grammar's verdict after a complete first varint `d`, by what `StreamKind::parse` makes of
it. -/
theorem headerGrammar_of_firstVarint {b : List UInt8} {d : VarInt} {len : Nat}
    (hf : firstVarint b = some (d, len)) :
    headerGrammar isValid b = match StreamKind.parse d with
      | none => some (.error .unknownStream, len)
      | some kind =>
        if kind = .webTransport then
          (firstVarint (b.drop len)).map fun p =>
            (if isValid p.1 then .ok ⟨.webTransport, some ⟨p.1⟩⟩ else .error .invalidSessionId,
              len + p.2)
        else some (.ok ⟨kind, none⟩, len) := by
  simp only [headerGrammar, hf, StreamKind.parse_eq]
  by_cases h54 : d.val = 0x54
  · simp only [if_pos h54, if_true]
    rcases firstVarint (b.drop len) with _ | ⟨s, m⟩
    · rfl
    · by_cases hs : isValid s <;> simp [hs]
  · simp only [if_neg h54]
    split_ifs <;> rfl

/-- A header the grammar accepts: its kind's id is the first varint, and its session id, exactly
on a WebTransport header, the varint after it, which `isValid` accepts. -/
theorem headerGrammar_eq_ok {b : List UInt8} {h : StreamHeader} {n : Nat}
    (hg : headerGrammar isValid b = some (.ok h, n)) :
    ∃ k, firstVarint b = some (h.kind.id, k) ∧
      (h.sessionId = none ∧ n = k ∨
        ∃ s m, h.sessionId = some s ∧ firstVarint (b.drop k) = some (s.varint, m) ∧
          isValid s.varint = true ∧ n = k + m) := by
  rcases hf : firstVarint b with _ | ⟨d, k⟩
  · simp [headerGrammar, hf] at hg
  rw [headerGrammar_of_firstVarint isValid hf] at hg
  rcases hp : StreamKind.parse d with _ | kind <;> simp only [hp] at hg
  · cases hg
  have hid := StreamKind.id_of_parse hp
  split_ifs at hg with hwt
  · subst hwt
    rcases hs : firstVarint (b.drop k) with _ | ⟨s, m⟩ <;> simp only [hs] at hg
    · cases hg
    by_cases hv : isValid s <;> simp [hv] at hg
    obtain ⟨rfl, rfl⟩ := hg
    exact ⟨k, by rw [hid], .inr ⟨⟨s⟩, m, rfl, hs, hv, rfl⟩⟩
  · simp only [Option.some.injEq, Prod.mk.injEq, Except.ok.injEq] at hg
    obtain ⟨rfl, rfl⟩ := hg
    exact ⟨k, by rw [hid], .inl ⟨rfl, rfl⟩⟩

/-! ### `read` follows the grammar -/

variable {R : Type} [BytesReader R]

/-- Over any reader whose `get_varint` takes the first complete varint of its unread bytes `rem`
(keeping an invariant `inv` of the reader), `StreamHeader::read` returns the grammar's verdict,
after taking exactly the bytes the grammar took when there is a verdict. -/
theorem read_eq_grammar (rem : R → List UInt8) (inv : R → Prop)
    (hget : ∀ r, inv r → ∃ r', BytesReader.getVarint r =
      .ok ((firstVarint (rem r)).map Prod.fst, r') ∧
      rem r' = (rem r).drop (firstVarintLen (rem r)) ∧ inv r')
    {r : R} (hr : inv r) : ∃ r', StreamHeader.read isValid r =
      .ok ((headerGrammar isValid (rem r)).map Prod.fst, r') ∧ inv r' ∧
      ∀ v n, headerGrammar isValid (rem r) = some (v, n) → rem r' = (rem r).drop n := by
  obtain ⟨r₁, h₁, hr₁, hi₁⟩ := hget r hr
  rcases hf : firstVarint (rem r) with _ | ⟨d, k⟩ <;> rw [hf] at h₁
  · have hg : headerGrammar isValid (rem r) = none := by simp [headerGrammar, hf]
    exact ⟨r₁, by simp [StreamHeader.read, h₁, hg, bind, Except.bind, pure, Except.pure], hi₁,
      fun _ _ h => by rw [hg] at h; cases h⟩
  rw [firstVarintLen_of_some hf] at hr₁
  rw [headerGrammar_of_firstVarint isValid hf]
  simp only [StreamHeader.read, h₁, bind, Except.bind, Option.map_some']
  rcases StreamKind.parse d with _ | kind
  · exact ⟨r₁, rfl, hi₁, fun v n h => by cases h; exact hr₁⟩
  by_cases hw : kind = .webTransport
  · subst hw
    obtain ⟨r₂, h₂, hr₂, hi₂⟩ := hget r₁ hi₁
    rw [hr₁] at h₂ hr₂
    simp only [if_true]
    rcases hf2 : firstVarint ((rem r).drop k) with _ | ⟨s, m⟩ <;> rw [hf2] at h₂
    · exact ⟨r₂, by simp [h₂, pure, Except.pure], hi₂, fun _ _ h => by cases h⟩
    · rw [firstVarintLen_of_some hf2, List.drop_drop] at hr₂
      refine ⟨r₂, ?_, hi₂, fun v n h => ?_⟩
      · by_cases hv : isValid s <;>
          simp [h₂, hv, SessionId.tryFromVarint, StreamHeader.new, pure, Except.pure]
      · cases h
        simpa only [Nat.add_comm] using hr₂
  · simp only [if_neg hw]
    exact ⟨r₁, rfl, hi₁, fun v n h => by cases h; exact hr₁⟩

/-- A header `read` returns, from any reader, is `new kind sessionId` for a kind `parse`
returned, with a session id exactly on WebTransport. -/
theorem read_ok_shape {r r' : R} {h : StreamHeader}
    (hr : StreamHeader.read isValid r = .ok (some (.ok h), r')) :
    ∃ k, StreamKind.parse k = some h.kind ∧ (h.sessionId.isSome ↔ h.kind = .webTransport) := by
  simp only [StreamHeader.read, bind, Except.bind, pure, Except.pure] at hr
  repeat' split at hr
  all_goals simp only [reduceCtorEq, Except.ok.injEq, Prod.mk.injEq, Option.some.injEq, false_and,
    Except.error.injEq] at hr
  all_goals obtain ⟨hh, -⟩ := hr; subst hh
  all_goals exact ⟨_, ‹_›, by simp_all [StreamHeader.new]⟩

/-- Every header `read` returns, from any reader whatever its behaviour, is well formed. -/
theorem read_wellFormed {r r' : R} {h : StreamHeader}
    (hr : StreamHeader.read isValid r = .ok (some (.ok h), r')) : h.WellFormed := by
  obtain ⟨k, hk, hs⟩ := read_ok_shape isValid hr
  exact ⟨hs, StreamKind.isParsable_of_parse hk⟩

end Grammar

/-! ### The slice reader -/

/-- `StreamHeader::read` on a slice. -/
theorem read_slice_eq_grammar (isValid : VarInt → Bool) (b : List UInt8) :
    ∃ rest, StreamHeader.read isValid b = .ok ((headerGrammar isValid b).map Prod.fst, rest) ∧
      ∀ v n, headerGrammar isValid b = some (v, n) → rest = b.drop n :=
  have ⟨rest, hr, _, hrest⟩ := @read_eq_grammar isValid (List UInt8) _ id (fun _ => True)
    (fun s _ => ⟨_, slice_getVarint_eq s, rfl, trivial⟩) b trivial
  ⟨rest, hr, hrest⟩

/-- `StreamHeader::read` on a slice decides the header grammar: it returns `None` exactly where the
grammar runs out of bytes, and otherwise the grammar's verdict (unknown kind, invalid session id,
or the header), having taken exactly the grammar's bytes. A verdict stands, with the same bytes
taken, whatever follows; and `None` happens only on fewer than `StreamHeader::MAX_SIZE` bytes. -/
theorem read_slice_decides_grammar (isValid : VarInt → Bool) :
    (∀ b : List UInt8, headerGrammar isValid b = none →
      ∃ rest, StreamHeader.read isValid b = .ok (none, rest)) ∧
    (∀ (b : List UInt8) v n, headerGrammar isValid b = some (v, n) →
      StreamHeader.read isValid b = .ok (some v, b.drop n)) ∧
    (∀ (b c : List UInt8) v rest, StreamHeader.read isValid b = .ok (some v, rest) →
      StreamHeader.read isValid (b ++ c) = .ok (some v, rest ++ c)) ∧
    (∀ (b rest : List UInt8), StreamHeader.read isValid b = .ok (none, rest) →
      b.length < StreamHeader.maxSize) := by
  refine ⟨fun b hg => ?_, fun b v n hg => ?_, fun b c v rest hr => ?_, fun b rest hr => ?_⟩
  · obtain ⟨rest, hr, -⟩ := read_slice_eq_grammar isValid b
    exact ⟨rest, by rw [hr, hg]; rfl⟩
  · obtain ⟨rest, hr, hrest⟩ := read_slice_eq_grammar isValid b
    rw [hr, hg, hrest v n hg]
    rfl
  · obtain ⟨rest', hr', hrest⟩ := read_slice_eq_grammar isValid b
    rw [hr'] at hr
    rcases hg : headerGrammar isValid b with _ | ⟨v', n⟩ <;> rw [hg] at hr
    · cases hr
    · simp only [Option.map_some', Except.ok.injEq, Prod.mk.injEq, Option.some.injEq] at hr
      obtain ⟨rfl, rfl⟩ := hr
      obtain ⟨rest'', hr'', hrest''⟩ := read_slice_eq_grammar isValid (b ++ c)
      have hgc := headerGrammar_append isValid hg c
      rw [hr'', hgc, hrest'' _ _ hgc, hrest _ _ hg,
        List.drop_append_of_le_length (headerGrammar_le isValid hg)]
      rfl
  · obtain ⟨rest', hr', -⟩ := read_slice_eq_grammar isValid b
    rw [hr'] at hr
    rcases hg : headerGrammar isValid b with _ | ⟨v', n⟩ <;> rw [hg] at hr
    · exact length_lt_of_headerGrammar_none isValid hg
    · cases hr

/-! ### Writing, then reading -/

namespace StreamHeader

/-- On a well-formed header, `session_id()` returns the session id and never panics. -/
theorem sessionId?_eq {h : StreamHeader} (hw : h.WellFormed) : h.sessionId? = .ok h.sessionId := by
  obtain ⟨kind, sessionId⟩ := h
  obtain ⟨hs, -⟩ := hw
  by_cases hk : kind = .webTransport
  · obtain ⟨s, rfl⟩ := Option.isSome_iff_exists.mp (hs.mpr hk)
    simp [sessionId?, hk, expect, Except.map]
  · simp only at hs hk
    simp [sessionId?, hk, Option.not_isSome_iff_eq_none.mp (mt hs.mp hk)]

/-- On a well-formed header the `debug_assert!`s of `StreamHeader::new` hold. -/
theorem newDebugAsserts_of_wellFormed {h : StreamHeader} (hw : h.WellFormed) :
    newDebugAsserts h.kind h.sessionId = true := by
  obtain ⟨kind, sessionId⟩ := h
  obtain ⟨hs, hp⟩ := hw
  cases kind with
  | exercise id => exact hp
  | webTransport => simpa [newDebugAsserts] using hs
  | _ => rfl

/-- The bytes `write` puts on a `Vec<u8>`: the kind's id, then the session id if there is one. -/
def encoding (h : StreamHeader) : List UInt8 :=
  (WriteOp.putVarint h.kind.id).encoding ++
    (h.sessionId.map fun s => (WriteOp.putVarint s.varint).encoding).getD []

theorem write_vec {h : StreamHeader} (hw : h.WellFormed) (v : List UInt8) :
    h.write v = .ok (.ok (), v ++ h.encoding) := by
  have hk := vec_apply (.putVarint h.kind.id) v
  simp only [BytesWriter.apply] at hk
  simp only [write, hk, sessionId?_eq hw, bind, Except.bind, encoding]
  cases h.sessionId with
  | none => simp [pure, Except.pure]
  | some s =>
    have hs := vec_apply (.putVarint s.varint) (v ++ (WriteOp.putVarint h.kind.id).encoding)
    simpa [BytesWriter.apply] using hs

theorem writeSize_eq {h : StreamHeader} (hw : h.WellFormed) :
    h.writeSize = .ok h.encoding.length := by
  simp only [writeSize, sessionId?_eq hw, bind, Except.bind, encoding]
  cases h.sessionId <;> simp [WriteOp.encoding, pure, Except.pure]

theorem length_encoding_le (h : StreamHeader) : h.encoding.length ≤ maxSize := by
  have h₁ := h.kind.id.size_le_maxSize
  simp only [VarInt.maxSize] at h₁
  cases hs : h.sessionId with
  | none => simp [encoding, hs, WriteOp.length_encoding_putVarint, maxSize]; omega
  | some s =>
    have h₂ := s.varint.size_le_maxSize
    simp only [VarInt.maxSize] at h₂
    simp [encoding, hs, WriteOp.length_encoding_putVarint, maxSize]
    omega

end StreamHeader

theorem tryFromVarint_varint {isValid : VarInt → Bool} {v : VarInt} {s : SessionId}
    (h : SessionId.tryFromVarint isValid v = .ok s) :
    SessionId.tryFromVarint isValid s.varint = .ok s := by
  unfold SessionId.tryFromVarint at h ⊢
  split_ifs at h with hv
  cases h
  simp [hv]

/-- A well-formed header whose session id `try_from_varint` accepts is read back from its
encoding, whatever follows, leaving exactly what follows. -/
theorem StreamHeader.read_encoding {isValid : VarInt → Bool} {h : StreamHeader} (hw : h.WellFormed)
    (hs : ∀ s, h.sessionId = some s → ∃ v, SessionId.tryFromVarint isValid v = .ok s)
    (rest : List UInt8) :
    StreamHeader.read isValid (h.encoding ++ rest) = .ok (some (.ok h), rest) := by
  obtain ⟨kind, sessionId⟩ := h
  obtain ⟨hsome, hparse⟩ := hw
  have hk := StreamKind.parse_id hparse
  simp only [StreamHeader.encoding, WriteOp.encoding, List.append_assoc]
  simp only [StreamHeader.read, slice_getVarint_eq, firstVarint_varintBytes, bind, Except.bind,
    Option.map_some', firstVarintLen_of_some (firstVarint_varintBytes _ _),
    List.drop_left' (length_varintBytes _ _), hk]
  by_cases hwt : kind = .webTransport
  · obtain ⟨s, rfl⟩ := Option.isSome_iff_exists.mp (hsome.mpr hwt)
    obtain ⟨v, hv⟩ := hs s rfl
    simp [hwt, slice_getVarint_eq, firstVarint_varintBytes,
      firstVarintLen_of_some (firstVarint_varintBytes _ _), tryFromVarint_varint hv,
      StreamHeader.new, pure, Except.pure]
  · have hnone : sessionId = none := Option.not_isSome_iff_eq_none.mp (mt hsome.mp hwt)
    subst hnone
    simp [hwt, StreamHeader.new, pure, Except.pure]

/-- Round trip: every header the public API can build (a kind `parse` returns, with a session id
from `SessionId::try_from_varint` exactly on WebTransport) is written to an empty `Vec<u8>` as
`write_size()` bytes, at most `StreamHeader::MAX_SIZE`, from which `read` gets the header back,
whatever follows, leaving exactly what follows. -/
theorem write_read_roundtrip (isValid : VarInt → Bool) (h : StreamHeader) (hw : h.WellFormed)
    (hs : ∀ s, h.sessionId = some s → ∃ v, SessionId.tryFromVarint isValid v = .ok s)
    (rest : List UInt8) :
    ∃ e, h.write ([] : List UInt8) = .ok (.ok (), e) ∧ h.writeSize = .ok e.length ∧
      e.length ≤ StreamHeader.maxSize ∧
      StreamHeader.read isValid (e ++ rest) = .ok (some (.ok h), rest) :=
  ⟨h.encoding, StreamHeader.write_vec hw [], StreamHeader.writeSize_eq hw, h.length_encoding_le,
    StreamHeader.read_encoding hw hs rest⟩

theorem write_read_roundtrip_webtransport :
    ∃ e, (StreamHeader.newWebtransport ⟨VarInt.fromU32 4⟩).write ([] : List UInt8) =
        .ok (.ok (), e) ∧
      (StreamHeader.newWebtransport ⟨VarInt.fromU32 4⟩).writeSize = .ok e.length ∧
      e.length ≤ StreamHeader.maxSize ∧
      StreamHeader.read (fun v => v.val % 4 == 0) (e ++ [0x07]) =
        .ok (some (.ok (StreamHeader.newWebtransport ⟨VarInt.fromU32 4⟩)), [0x07]) :=
  write_read_roundtrip (fun v => v.val % 4 == 0) _ (by decide)
    (fun _ hs => ⟨VarInt.fromU32 4, by cases hs; rfl⟩) [0x07]

/-! ### The atomic entry point -/

/-- `StreamHeader::read_from_buffer` answers as `StreamHeader::read` on the slice of the reader's
unread bytes. On a header it moves the reader past exactly the bytes the slice reader took, within
the buffer (so `commit`'s `expect` never fires); on `None` or an error the reader is untouched. -/
theorem readFromBuffer_eq_read_slice (isValid : VarInt → Bool) (r : BufferReader) :
    ∃ result rest, StreamHeader.read isValid r.bufferRemaining = .ok (result, rest) ∧
      ((∃ h, result = some (.ok h)) → ∃ n r', rest = r.bufferRemaining.drop n ∧
        StreamHeader.readFromBuffer isValid r = .ok (result, r') ∧ r'.buffer = r.buffer ∧
        r'.offset = r.offset + n ∧ r'.offset ≤ r.buffer.length) ∧
      ((¬∃ h, result = some (.ok h)) → StreamHeader.readFromBuffer isValid r = .ok (result, r)) := by
  obtain ⟨rest, hslice, hrest⟩ := read_slice_eq_grammar isValid r.bufferRemaining
  obtain ⟨c, hchild, hbuf, hcrest⟩ := @read_eq_grammar isValid BufferReader _
    BufferReader.bufferRemaining (fun c => c.buffer = r.bufferRemaining)
    (fun c hc => ⟨_, bufferReader_getVarint_eq c, bufferRemaining_advance _ _ _, hc⟩)
    (BufferReader.new r.bufferRemaining) rfl
  simp only [new_bufferRemaining] at hchild hcrest
  have hread : StreamHeader.readFromBuffer isValid r =
      (match (headerGrammar isValid r.bufferRemaining).map Prod.fst with
        | none => pure (none, r)
        | some (.ok header) => do
          let parent ← ({ reader := c, parent := r } : BufferReaderChild).commit
          pure (some (.ok header), parent)
        | some (.error error) => pure (some (.error error), r)) := by
    show (StreamHeader.read isValid (BufferReader.new r.bufferRemaining) >>= _) = _
    rw [hchild]
    rfl
  refine ⟨_, rest, hslice, fun ⟨h, hres⟩ => ?_, fun hne => ?_⟩
  · rcases hg : headerGrammar isValid r.bufferRemaining with _ | ⟨v, n⟩ <;> rw [hg] at hres
    · cases hres
    · simp only [Option.map_some', Option.some.injEq] at hres
      subst hres
      have hn := headerGrammar_le isValid hg
      have hoff : c.offset = n := by
        have h₁ := congrArg List.length (hcrest _ _ hg)
        have h₂ := c.offset_le
        simp only [length_bufferRemaining, capacity, List.length_drop, hbuf] at h₁ h₂ hn
        omega
      have hle : n ≤ r.capacity := by simpa using hn
      refine ⟨n, r.advance n hle, hrest _ _ hg, ?_, rfl, rfl, (r.advance n hle).offset_le⟩
      rw [hread, hg]
      simp [BufferReaderChild.commit, hoff, skip_ok hle, expectOk, pure, Except.pure, bind,
        Except.bind]
  · rw [hread]
    rcases hg : headerGrammar isValid r.bufferRemaining with _ | ⟨_ | h, n⟩
    · rfl
    · rfl
    · exact absurd ⟨h, by simp [hg]⟩ hne

theorem readFromBuffer_wellFormed {isValid : VarInt → Bool} {r r' : BufferReader}
    {h : StreamHeader} (hr : StreamHeader.readFromBuffer isValid r = .ok (some (.ok h), r')) :
    h.WellFormed := by
  simp only [StreamHeader.readFromBuffer, bind, Except.bind] at hr
  split at hr
  · cases hr
  · rename_i p hp
    obtain ⟨result, c⟩ := p
    rcases result with _ | (e | h')
    · cases hr
    · cases hr
    · simp only [pure, Except.pure] at hr
      split at hr
      · cases hr
      · simp only [Except.ok.injEq, Prod.mk.injEq, Option.some.injEq] at hr
        obtain ⟨rfl, -⟩ := hr
        exact read_wellFormed isValid hp

end WTransport
