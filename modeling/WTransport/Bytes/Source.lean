import WTransport.Bytes.Async

/-!
# Well-behaved sources

A well-behaved `AsyncRead` source delivers a fixed byte sequence: every `poll_read` answers
`Pending`, or copies the next bytes (at least one, at most the request) to the front of the
destination, or answers `0` once every byte is delivered; and it answers `Pending` only finitely
often. `Supply` is what such a source has left, `Supply.Answers` the answers it may give, and
`WellBehavedSource serves` says that a source simulates it through the relation `serves`.

Over any well-behaved source `get_varint` is ready within one poll more than the source's
`Pending`s: it returns the first varint of the bytes after taking exactly its bytes, or `Closed`
once the source is drained. `Scheduled` is such a source for every schedule of chunk sizes and
`Pending`s; `&[u8]` is one only while it is never asked for more bytes than it has left.

## Main results

* `GetVarint.poll_spec` — one poll of `GetVarint` over a well-behaved source
* `readLoop_spec` — the loop of the reading futures over a well-behaved source
* `GetVarint.run_spec` — `get_varint` over a well-behaved source
* `GetBuffer.run_spec` — `get_buffer` over a well-behaved source
* `Scheduled.wellBehaved` — every schedule gives a well-behaved source
* `getVarint_completes` — `get_varint` decodes as `BufferReader::get_varint`, resumably
* `slicePollRead_eq` — `&[u8]` answers as a well-behaved source unless asked for more bytes than
  it has, and then panics
* `GetVarint.poll_new_slice` — `get_varint` over `&[u8]`, for every slice
-/

namespace WTransport

/-- What a well-behaved source still has for its reader: the bytes it will deliver, and how many
more times at most it answers `Pending`. -/
structure Supply where
  rem : List UInt8
  pendings : Nat

/-- The answers a well-behaved source with supply `s` may give to `poll_read` on a non-empty
destination holding `buf`, with what the destination holds afterwards and the supply left:
`Pending`, using one up; the next `k` bytes, `1 ≤ k ≤ buf.len()`, copied to the front of the
destination; or `0`, once every byte is delivered. What lies past the copied bytes is free. -/
inductive Supply.Answers (s : Supply) (buf : List UInt8) :
    Poll (Except IoErrorKind Nat) → List UInt8 → Supply → Prop
  | pending {buf' : List UInt8} {m : Nat} (h : s.pendings = m + 1) :
      Answers s buf .pending buf' ⟨s.rem, m⟩
  | chunk {buf' : List UInt8} {k : Nat} (pos : 0 < k) (le_buf : k ≤ buf.length)
      (le_rem : k ≤ s.rem.length) (copied : buf'.take k = s.rem.take k) :
      Answers s buf (.ready (.ok k)) buf' ⟨s.rem.drop k, s.pendings⟩
  | eof {buf' : List UInt8} (h : s.rem = []) : Answers s buf (.ready (.ok 0)) buf' s

/-- Handing over `k` bytes, at least one unless none are left, is a well-behaved answer. -/
theorem Supply.answers_deliver {s : Supply} {buf : List UInt8} {k : Nat} (hk : k ≤ buf.length)
    (hks : k ≤ s.rem.length) (hpos : 0 < k ∨ s.rem = []) :
    s.Answers buf (.ready (.ok k)) (s.rem.take k ++ buf.drop k) ⟨s.rem.drop k, s.pendings⟩ := by
  rcases hpos with hpos | hnil
  · exact .chunk hpos hk hks (List.take_left' (by simp [hks]))
  · obtain ⟨rem, n⟩ := s
    simp only at hnil hks
    subst hnil
    obtain rfl : k = 0 := by simpa using hks
    exact .eof rfl

/-- The source `r` serves the supply `s` while `serves r s` holds: `poll_read` on a non-empty
destination answers as `s` allows, and the source then serves what is left. -/
def WellBehavedSource {R : Type} [AsyncRead R] (serves : R → Supply → Prop) : Prop :=
  ∀ {r : R} {s : Supply} {buf : List UInt8}, serves r s → buf ≠ [] →
    ∃ p buf' r' s', AsyncRead.pollRead r buf = .ok (p, buf', r') ∧ s.Answers buf p buf' s' ∧
      serves r' s'

/-! ### `get_varint` -/

/-- What `get_varint` answers over a well-behaved source serving `b`: the first varint of `b`, or
`Closed` when the source runs dry first. -/
def varintAnswer (b : List UInt8) : Except IoError VarInt :=
  match firstVarint b with
  | some (v, _) => .ok v
  | none => .error .closed

/-- How many bytes `get_varint` takes from a well-behaved source serving `b`: the varint's, or all
of `b` when it holds no complete varint. -/
def varintTaken (b : List UInt8) : Nat := ((firstVarint b).map Prod.snd).getD b.length

theorem varintAnswer_eq_error {b : List UInt8} {e : IoError} (h : varintAnswer b = .error e) :
    e = .closed ∧ firstVarint b = none := by
  unfold varintAnswer at h
  split at h
  · cases h
  · cases h
    exact ⟨rfl, ‹_›⟩

theorem varintAnswer_eq_ok {b : List UInt8} {v : VarInt} (h : varintAnswer b = .ok v) :
    ∃ len, firstVarint b = some (v, len) := by
  unfold varintAnswer at h
  split at h
  · cases h
    exact ⟨_, ‹_›⟩
  · cases h

/-- A buffer holding the bytes of the first varint of `b` decodes to it: the `expect` of
`GetVarint::poll` never fires. -/
theorem expect_getVarint_take {b buffer : List UInt8} {v : VarInt} {len : Nat}
    (hb : firstVarint b = some (v, len)) (htake : buffer.take len = b.take len) :
    expect (BufferReader.new (buffer.take len)).getVarint.1 "Varint is parsable" = .ok v := by
  rw [BufferReader.getVarint_fst, BufferReader.new_bufferRemaining, htake, firstVarint_take hb]
  rfl

theorem headD_eq_of_take_one {l l' : List UInt8} (h : l.take 1 = l'.take 1) :
    l.headD 0 = l'.headD 0 := by
  cases l <;> cases l' <;> simp_all

/-! ### The read loop -/

section ReadLoop

variable {R : Type} (serves : R → Supply → Prop)

/-- A read loop partway through filling `buffer[..stop]`, of length `len`, with the front of `b`,
with at most `n` `Pending`s left: it holds the bytes of `b` it has read, and its source serves the
others. -/
structure Filling (b : List UInt8) (stop len n : Nat) (reader : R) (buffer : List UInt8)
    (offset : Nat) : Prop where
  serves : serves reader ⟨b.drop offset, n⟩
  length_buffer : buffer.length = len
  take_buffer : buffer.take offset = b.take offset
  offset_le : offset ≤ stop
  stop_le : stop ≤ len
  offset_le_length : offset ≤ b.length

/-- Where one run of the read loop over a well-behaved source ends: `Pending`, one `Pending` used
up and the bytes read kept; `buffer[..stop]` full; or `Closed`, the source drained first. -/
def Filled (b : List UInt8) (stop len n : Nat) :
    Poll (Except IoError Unit) × R × List UInt8 × Nat → Prop
  | (.pending, reader, buffer, offset) =>
    ∃ m, n = m + 1 ∧ Filling serves b stop len m reader buffer offset
  | (.ready (.ok ()), reader, buffer, offset) =>
    offset = stop ∧ Filling serves b stop len n reader buffer offset
  | (.ready (.error e), reader, _, _) => e = .closed ∧ b.length < stop ∧ serves reader ⟨[], n⟩

variable {serves} {b : List UInt8} {stop len n : Nat} {reader : R} {buffer : List UInt8}
  {offset : Nat}

/-- Whatever the callee leaves in a window from the offset on, the bytes read stay read. -/
theorem Filling.write (hf : Filling serves b stop len n reader buffer offset) {hi : Nat}
    (hlo : offset ≤ hi) (hhi : hi ≤ len) {buf : List UInt8} (hbuf : buf.length = hi - offset)
    {r : R} {m : Nat} (hr : serves r ⟨b.drop offset, m⟩) :
    Filling serves b stop len m r (writeWindow buffer offset hi buf) offset where
  serves := hr
  length_buffer := (length_writeWindow hlo (hf.length_buffer ▸ hhi) hbuf).trans hf.length_buffer
  take_buffer := by
    have := hf.offset_le
    have := hf.stop_le
    rw [take_writeWindow_self (by rw [hf.length_buffer]; omega), hf.take_buffer]
  offset_le := hf.offset_le
  stop_le := hf.stop_le
  offset_le_length := hf.offset_le_length

/-- The next `k` bytes of `b` read into the window. -/
theorem Filling.chunk (hf : Filling serves b stop len n reader buffer offset) {buf : List UInt8}
    (hbuf : buf.length = stop - offset) {k : Nat} (hk : k ≤ buf.length)
    (hkb : k ≤ (b.drop offset).length) (copied : buf.take k = (b.drop offset).take k) {r : R}
    (hr : serves r ⟨(b.drop offset).drop k, n⟩) :
    Filling serves b stop len n r (writeWindow buffer offset stop buf) (offset + k) := by
  have hlen := hf.length_buffer
  have := hf.offset_le_length
  have := hf.offset_le
  have := hf.stop_le
  rw [List.length_drop] at hkb
  refine ⟨?_, (length_writeWindow hf.offset_le (hlen ▸ hf.stop_le) hbuf).trans hlen, ?_, by omega,
    hf.stop_le, by omega⟩
  · simpa [List.drop_drop, Nat.add_comm] using hr
  · rw [take_writeWindow (by omega) hk, hf.take_buffer, copied, List.take_add]

variable [AsyncRead R] (hsrc : WellBehavedSource serves)
include hsrc

/-- One run of the read loop over a well-behaved source. -/
theorem readLoop_spec (hf : Filling serves b stop len n reader buffer offset) :
    ∃ res, readLoop reader buffer offset stop = .ok res ∧ Filled serves b stop len n res := by
  obtain ⟨d, hd⟩ : ∃ d, stop - offset = d := ⟨_, rfl⟩
  induction d using Nat.strong_induction_on generalizing reader buffer offset with
  | _ d ih =>
  rw [readLoop]
  by_cases hlt : offset < stop
  · rw [if_pos hlt]
    have hwin := length_window hlt.le (hf.length_buffer ▸ hf.stop_le)
    have hne : window buffer offset stop ≠ [] := List.ne_nil_of_length_pos (by omega)
    obtain ⟨p, buf, r, s', hread, hans, hs'⟩ := hsrc hf.serves hne
    have hbuf := (AsyncRead.length_pollRead hread).trans hwin
    cases hans with
    | pending h =>
      simp only [hread, bind, Except.bind]
      exact ⟨_, rfl, _, h, hf.write hlt.le hf.stop_le hbuf hs'⟩
    | @chunk _ k pos le_buf le_rem copied =>
      simp only [hread, bind, Except.bind, if_pos pos]
      exact ih (stop - (offset + k)) (by omega) (hf.chunk hbuf (by omega) le_rem copied hs') rfl
    | eof h =>
      have h' : b.drop offset = [] := h
      have hlen : b.length ≤ offset := by simpa using h'
      simp only [hread, bind, Except.bind, Nat.lt_irrefl, if_false]
      exact ⟨_, rfl, rfl, by omega, h' ▸ hs'⟩
  · rw [if_neg hlt]
    exact ⟨_, rfl, by have := hf.offset_le; omega, hf⟩

end ReadLoop

/-! ### `get_varint` -/

namespace GetVarint

variable {R : Type} (serves : R → Supply → Prop)

/-- A `GetVarint` future partway through the varint at the front of `b`, with at most `n`
`Pending`s left: a read loop filling its buffer up to the varint's size, which it knows once it
has the first byte. -/
structure Reading (b : List UInt8) (n : Nat) (g : GetVarint R) : Prop where
  filling : Filling serves b g.varintSize VarInt.maxSize n g.reader g.buffer g.offset
  sized : g.offset = 0 ∨ g.varintSize = VarInt.parseSize (b.headD 0)

/-- A finished `get_varint` over a source that served `b`: its answer, and the source serving what
follows the bytes it took. -/
def Done (b : List UInt8) (n : Nat) (x : Except IoError VarInt) (g : GetVarint R) : Prop :=
  x = varintAnswer b ∧ serves g.reader ⟨b.drop (varintTaken b), n⟩

variable {serves} {b : List UInt8} {n : Nat} {g : GetVarint R}

theorem Reading.new {r : R} (hr : serves r ⟨b, n⟩) : Reading serves b n (GetVarint.new r) :=
  ⟨⟨hr, by simp [GetVarint.new], rfl, le_rfl, Nat.zero_le _, Nat.zero_le _⟩, .inl rfl⟩

/-- The first read received the varint's first byte: the loop goes on up to its size. -/
theorem Reading.first (hg : Reading serves b n g) {buf : List UInt8} (hbuf : buf.length = 1)
    (hb : 1 ≤ b.length) (copied : buf.take 1 = b.take 1) {r : R} (hr : serves r ⟨b.drop 1, n⟩) :
    Reading serves b n ⟨r, writeWindow g.buffer 0 1 buf, 1,
      VarInt.parseSize ((writeWindow g.buffer 0 1 buf).headD 0)⟩ := by
  have hlen := hg.filling.length_buffer
  have hone : (writeWindow g.buffer 0 1 buf).take (0 + 1) = g.buffer.take 0 ++ buf.take 1 :=
    take_writeWindow (Nat.zero_le _) (by omega)
  simp only [Nat.zero_add, List.take_zero, List.nil_append] at hone
  refine ⟨⟨hr, (length_writeWindow (by omega) (by rw [hlen]; decide) (by omega)).trans hlen,
    hone.trans copied, VarInt.parseSize_pos _, VarInt.parseSize_le_maxSize _, hb⟩, .inr ?_⟩
  rw [headD_eq_of_take_one (hone.trans copied)]

/-- A `GetVarint` future partway through, in the terms of its own fields: the offset is within the
varint's size, the size within `VarInt::MAX_SIZE` and announced by the first byte held once there
is one, and the buffer holds the bytes received so far. -/
theorem Reading.resumable (hg : Reading serves b n g) :
    g.offset ≤ g.varintSize ∧ g.varintSize ≤ VarInt.maxSize ∧
      (0 < g.offset → g.varintSize = VarInt.parseSize (g.buffer.headD 0)) ∧
      g.buffer.take g.offset = b.take g.offset := by
  have hf := hg.filling
  refine ⟨hf.offset_le, hf.stop_le, fun hpos => ?_, hf.take_buffer⟩
  have hone := congrArg (List.take 1) hf.take_buffer
  simp only [List.take_take, Nat.min_eq_left hpos] at hone
  rw [hg.sized.resolve_left (by omega), headD_eq_of_take_one hone.symm]

variable [AsyncRead R] (hsrc : WellBehavedSource serves)
include hsrc

/-- One run of the loop of `GetVarint::poll` over a well-behaved source: `Pending` with the bytes
read so far kept, or the answer `get_varint` gives on `b`. -/
theorem pollLoop_spec (hg : Reading serves b n g) (hpos : 0 < g.offset) :
    ∃ res, g.pollLoop = .ok res ∧ PollStep (Reading serves b) (Done serves b) n res := by
  have hsize := hg.sized.resolve_left (by omega)
  obtain ⟨⟨p, reader, buffer, offset⟩, hloop, hfilled⟩ := readLoop_spec hsrc hg.filling
  simp only [pollLoop, hloop, bind, Except.bind]
  rcases p with ⟨e | ⟨⟩⟩ | _
  · obtain ⟨rfl, hlt, hs⟩ := hfilled
    have hnone : firstVarint b = none := firstVarint_eq_none_iff.mpr (.inr (hsize ▸ hlt))
    exact ⟨_, rfl, by simp [varintAnswer, hnone], by simpa [varintTaken, hnone] using hs⟩
  · obtain ⟨rfl, hf⟩ := hfilled
    have hb : b ≠ [] := List.ne_nil_of_length_pos (by
      have := hf.offset_le_length
      have := VarInt.parseSize_pos (b.headD 0)
      omega)
    obtain ⟨v, hf'⟩ := firstVarint_of_le hb (hsize ▸ hf.offset_le_length)
    rw [← hsize] at hf'
    simp only [expect_getVarint_take hf' hf.take_buffer, bind, Except.bind, pure, Except.pure]
    exact ⟨_, rfl, by simp [varintAnswer, hf'], by simpa [varintTaken, hf'] using hf.serves⟩
  · obtain ⟨m, rfl, hf⟩ := hfilled
    exact ⟨_, rfl, m, rfl, hf, .inr hsize⟩

/-- One poll of `GetVarint` over a well-behaved source: `Pending` with the bytes read so far kept,
or the answer `get_varint` gives on `b`. -/
theorem poll_spec (hg : Reading serves b n g) :
    ∃ res, g.poll = .ok res ∧ PollStep (Reading serves b) (Done serves b) n res := by
  rw [poll]
  by_cases h0 : g.offset = 0
  · rw [if_pos h0]
    obtain ⟨reader, buffer, offset, varintSize⟩ := g
    simp only at h0
    subst h0
    have hf := hg.filling
    have hwin : (window buffer 0 1).length = 1 :=
      length_window (Nat.zero_le _) (by rw [hf.length_buffer]; decide)
    have hne : window buffer 0 1 ≠ [] := List.ne_nil_of_length_pos (by omega)
    obtain ⟨p, buf, r, s', hread, hans, hs'⟩ := hsrc hf.serves hne
    have hbuf := (AsyncRead.length_pollRead hread).trans hwin
    cases hans with
    | pending h =>
      simp only [hread, bind, Except.bind]
      exact ⟨_, rfl, _, h, hf.write (Nat.zero_le 1) (by decide) hbuf hs', .inl rfl⟩
    | @chunk _ k pos le_buf le_rem copied =>
      obtain rfl : k = 1 := by omega
      simp only [hread, bind, Except.bind, if_pos]
      exact pollLoop_spec hsrc (hg.first hbuf le_rem copied hs') one_pos
    | eof h =>
      simp only [List.drop_zero] at h
      subst h
      simp only [hread, bind, Except.bind, ite_true]
      exact ⟨_, rfl, rfl, hs'⟩
  · rw [if_neg h0]
    exact pollLoop_spec hsrc hg (Nat.pos_of_ne_zero h0)

/-- `get_varint` over a well-behaved source serving `b` with at most `n` `Pending`s is ready within
`n + 1` polls: it answers the first varint of `b` after taking exactly its bytes, or `Closed` after
taking all of `b`. -/
theorem run_spec {r : R} (hr : serves r ⟨b, n⟩) {fuel : Nat} (hfuel : n < fuel) :
    ∃ m x g, m ≤ n ∧ blockOn poll fuel (GetVarint.new r) = .ok (some x, g) ∧
      Done serves b m x g :=
  blockOn_spec (fun _ _ hg => poll_spec hsrc hg) (Reading.new hr) hfuel

end GetVarint

/-! ### `get_buffer` -/

namespace GetBuffer

variable {R : Type} (serves : R → Supply → Prop)

/-- A finished `get_buffer` into a destination of length `len` over a source that served `b`: the
destination holds the first `len` bytes of `b` and the source serves the rest, or `b` was shorter
and the answer is `Closed` with the source drained. -/
def Done (b : List UInt8) (len n : Nat) (x : Except IoError Unit) (g : GetBuffer R) : Prop :=
  if len ≤ b.length then x = .ok () ∧ g.buffer = b.take len ∧ serves g.reader ⟨b.drop len, n⟩
  else x = .error .closed ∧ serves g.reader ⟨[], n⟩

/-- A `GetBuffer` future partway through filling its destination of length `len`. -/
def Reading (b : List UInt8) (len n : Nat) (g : GetBuffer R) : Prop :=
  Filling serves b len len n g.reader g.buffer g.offset

variable {serves} [AsyncRead R] (hsrc : WellBehavedSource serves)
include hsrc

/-- One poll of `GetBuffer` over a well-behaved source. -/
theorem poll_spec {b : List UInt8} {len n : Nat} {g : GetBuffer R} (hg : Reading serves b len n g) :
    ∃ res, g.poll = .ok res ∧ PollStep (Reading serves b len) (Done serves b len) n res := by
  obtain ⟨⟨p, reader, buffer, offset⟩, hloop, hfilled⟩ := readLoop_spec hsrc hg
  simp only [poll, hg.length_buffer, hloop, bind, Except.bind, pure, Except.pure]
  refine ⟨_, rfl, ?_⟩
  rcases p with ⟨e | ⟨⟩⟩ | _
  · obtain ⟨rfl, hlt, hs⟩ := hfilled
    exact (if_neg (by omega)).mpr ⟨rfl, hs⟩
  · obtain ⟨rfl, hf⟩ := hfilled
    refine (if_pos hf.offset_le_length).mpr ⟨rfl, ?_, hf.serves⟩
    rw [← hf.take_buffer, List.take_of_length_le hf.length_buffer.le]
  · obtain ⟨m, rfl, hf⟩ := hfilled
    exact ⟨m, rfl, hf⟩

/-- `get_buffer` into a destination of length `len` over a well-behaved source serving `b`, with at
most `n` `Pending`s, is ready within `n + 1` polls: the destination gets the first `len` bytes of
`b` when there are that many, and otherwise the answer is `Closed` once `b` is drained. -/
theorem run_spec {b dst : List UInt8} {n : Nat} {r : R} (hr : serves r ⟨b, n⟩) {fuel : Nat}
    (hfuel : n < fuel) :
    ∃ m x g, m ≤ n ∧ blockOn poll fuel (GetBuffer.new r dst) = .ok (some x, g) ∧
      Done serves b dst.length m x g :=
  blockOn_spec (fun _ _ hg => poll_spec hsrc hg)
    (⟨hr, rfl, rfl, Nat.zero_le _, le_rfl, Nat.zero_le _⟩ : Reading serves b dst.length n _) hfuel

end GetBuffer

/-! ### Scheduled sources -/

/-- A move of a scheduled source or sink: answer `Pending`, or hand over up to `k` bytes, at least
one and at most what is asked for and what there is. -/
inductive Move
  | pending
  | chunk (k : Nat)
  deriving DecidableEq, Repr

/-- A source serving `data` on a schedule of moves; once the moves run out it delivers all it
can. -/
structure Scheduled where
  data : List UInt8
  moves : List Move
  deriving DecidableEq, Repr

namespace Scheduled

/-- Hand `k` bytes of `data` over at the front of `buf`, then follow `moves`. -/
def deliver (data buf : List UInt8) (moves : List Move) (k : Nat) :
    Poll (Except IoErrorKind Nat) × List UInt8 × Scheduled :=
  (.ready (.ok k), data.take k ++ buf.drop k, ⟨data.drop k, moves⟩)

/-- `poll_read` of a scheduled source. -/
def pollRead : Scheduled → List UInt8 →
    Except String (Poll (Except IoErrorKind Nat) × List UInt8 × Scheduled)
  | ⟨data, []⟩, buf => .ok (deliver data buf [] (min data.length buf.length))
  | ⟨data, .pending :: moves⟩, buf => .ok (.pending, buf, ⟨data, moves⟩)
  | ⟨data, .chunk k :: moves⟩, buf =>
    .ok (deliver data buf moves (min (max k 1) (min data.length buf.length)))

/-- Handing over at most what there is and what is asked for keeps the destination's length. -/
theorem length_of_deliver {data buf buf' : List UInt8} {moves : List Move} {k : Nat}
    {p : Poll (Except IoErrorKind Nat)} {r' : Scheduled} (hd : k ≤ data.length)
    (hb : k ≤ buf.length) (h : deliver data buf moves k = (p, buf', r')) :
    buf'.length = buf.length := by
  simp only [deliver, Prod.mk.injEq] at h
  obtain ⟨-, rfl, -⟩ := h
  simp only [List.length_append, List.length_take, List.length_drop]
  omega

theorem length_pollRead {r : Scheduled} {buf : List UInt8} {p : Poll (Except IoErrorKind Nat)}
    {buf' : List UInt8} {r' : Scheduled} (h : pollRead r buf = .ok (p, buf', r')) :
    buf'.length = buf.length := by
  obtain ⟨data, _ | ⟨_ | k, moves⟩⟩ := r <;>
    simp only [pollRead, Except.ok.injEq, Prod.mk.injEq] at h
  · exact length_of_deliver (Nat.min_le_left _ _) (Nat.min_le_right _ _) h
  · rw [← h.2.1]
  · exact length_of_deliver ((Nat.min_le_right _ _).trans (Nat.min_le_left _ _))
      ((Nat.min_le_right _ _).trans (Nat.min_le_right _ _)) h

instance : AsyncRead Scheduled := ⟨pollRead, length_pollRead⟩

/-- A scheduled source serves its data, with at most as many `Pending`s as its moves hold. -/
def Serves (r : Scheduled) (s : Supply) : Prop :=
  r.data = s.rem ∧ r.moves.count .pending ≤ s.pendings

/-- Every schedule gives a well-behaved source. -/
theorem wellBehaved : WellBehavedSource Serves := by
  intro r s buf hr hbuf
  obtain ⟨data, moves⟩ := r
  obtain ⟨rfl, hcount⟩ := hr
  have hpos : 0 < buf.length := List.length_pos.mpr hbuf
  have hstart : ∀ k, 0 < k → 0 < min k (min s.rem.length buf.length) ∨ s.rem = [] := fun k hk =>
    or_iff_not_imp_right.mpr fun h => by have := List.length_pos.mpr h; omega
  rcases moves with _ | ⟨_ | c, moves⟩
  · exact ⟨_, _, _, _, rfl, Supply.answers_deliver (Nat.min_le_right _ _) (Nat.min_le_left _ _)
      (or_iff_not_imp_right.mpr fun h => by have := List.length_pos.mpr h; omega), rfl, hcount⟩
  · simp only [List.count_cons_self] at hcount
    exact ⟨_, _, _, _, rfl, .pending (m := s.pendings - 1) (by omega), rfl, by simpa using by omega⟩
  · simp only [List.count_cons, reduceCtorEq, beq_iff_eq, if_false, Nat.add_zero] at hcount
    exact ⟨_, _, _, _, rfl, Supply.answers_deliver (by omega) (by omega)
      (hstart _ (by omega)), rfl, hcount⟩

end Scheduled

/-! ### `get_varint` polled to the end -/

/-- `get_varint` over a well-behaved source serving `b`, with at most `n` `Pending`s, polled until
ready: when `b` holds the `VarInt::parse_size(b[0])` bytes its first byte announces, it returns
the varint `BufferReader::get_varint` decodes from `b`, having taken exactly those bytes from the
source, and otherwise `Closed`, the source drained; no `expect` fires. After every run of
`Pending`s the future is resumable: its offset within the varint's size, the size within
`VarInt::MAX_SIZE` and announced by the first byte it holds once it holds one, and its buffer up to
the offset holding the bytes received so far. -/
theorem getVarint_completes {R : Type} [AsyncRead R] {serves : R → Supply → Prop}
    (hsrc : WellBehavedSource serves) {b : List UInt8} {n : Nat} {r : R} (hr : serves r ⟨b, n⟩)
    {fuel : Nat} (hfuel : n < fuel) :
    (∃ m x g, m ≤ n ∧ blockOn GetVarint.poll fuel (GetVarint.new r) = .ok (some x, g) ∧
      if b ≠ [] ∧ VarInt.parseSize (b.headD 0) ≤ b.length then
        ∃ v, (BufferReader.new b).getVarint.1 = some v ∧ x = .ok v ∧
          serves g.reader ⟨b.drop (VarInt.parseSize (b.headD 0)), m⟩
      else x = .error .closed ∧ serves g.reader ⟨[], m⟩) ∧
    ∀ k g, blockOn GetVarint.poll k (GetVarint.new r) = .ok (none, g) →
      g.offset ≤ g.varintSize ∧ g.varintSize ≤ VarInt.maxSize ∧
        (0 < g.offset → g.varintSize = VarInt.parseSize (g.buffer.headD 0)) ∧
        g.buffer.take g.offset = b.take g.offset := by
  refine ⟨?_, fun k g hrun => ?_⟩
  · obtain ⟨m, x, g, hm, hrun, hx, hs⟩ := GetVarint.run_spec hsrc hr hfuel
    refine ⟨m, x, g, hm, hrun, ?_⟩
    split_ifs with hb
    · obtain ⟨v, hv⟩ := firstVarint_of_le hb.1 hb.2
      refine ⟨v, by rw [BufferReader.getVarint_fst, BufferReader.new_bufferRemaining, hv]; rfl,
        by simp [hx, varintAnswer, hv], by simpa [varintTaken, hv] using hs⟩
    · have hv : firstVarint b = none := firstVarint_eq_none_iff.mpr (by
        by_cases hnil : b = [] <;> simp_all)
      exact ⟨by simp [hx, varintAnswer, hv], by simpa [varintTaken, hv] using hs⟩
  · obtain ⟨m, hg⟩ := blockOn_none_inv (fun _ _ hg => GetVarint.poll_spec hsrc hg)
      (GetVarint.Reading.new hr) hrun
    exact hg.resumable

theorem getVarint_completes_scheduled :
    (∃ m x g, m ≤ 2 ∧ blockOn GetVarint.poll 3
        (GetVarint.new (⟨[0x40, 0x54, 0x07], [.pending, .chunk 1, .pending]⟩ : Scheduled)) =
        .ok (some x, g) ∧
      if ([0x40, 0x54, 0x07] : List UInt8) ≠ [] ∧
          VarInt.parseSize (([0x40, 0x54, 0x07] : List UInt8).headD 0) ≤ 3 then
        ∃ v, (BufferReader.new [0x40, 0x54, 0x07]).getVarint.1 = some v ∧ x = .ok v ∧
          Scheduled.Serves g.reader
            ⟨([0x40, 0x54, 0x07] : List UInt8).drop
              (VarInt.parseSize (([0x40, 0x54, 0x07] : List UInt8).headD 0)), m⟩
      else x = .error .closed ∧ Scheduled.Serves g.reader ⟨[], m⟩) ∧
    ∀ k g, blockOn GetVarint.poll k
        (GetVarint.new (⟨[0x40, 0x54, 0x07], [.pending, .chunk 1, .pending]⟩ : Scheduled)) =
        .ok (none, g) →
      g.offset ≤ g.varintSize ∧ g.varintSize ≤ VarInt.maxSize ∧
        (0 < g.offset → g.varintSize = VarInt.parseSize (g.buffer.headD 0)) ∧
        g.buffer.take g.offset = ([0x40, 0x54, 0x07] : List UInt8).take g.offset :=
  getVarint_completes Scheduled.wellBehaved
    (show Scheduled.Serves ⟨[0x40, 0x54, 0x07], [.pending, .chunk 1, .pending]⟩
      ⟨[0x40, 0x54, 0x07], 2⟩ from ⟨rfl, by decide⟩) (by decide)

/-! ### The `&[u8]` source -/

/-- `<&[u8] as AsyncRead>::poll_read` hands over `min(len, buf.len())` bytes at the front of the
destination when it has no bytes left or at least as many as asked; otherwise `copy_from_slice`
panics. -/
theorem slicePollRead_eq (self buf : List UInt8) :
    slicePollRead self buf =
      if self = [] ∨ buf.length ≤ self.length then
        let k := min self.length buf.length
        .ok (.ready (.ok k), self.take k ++ buf.drop k, self.drop k)
      else .error ("source slice length (" ++ toString self.length ++
        ") does not match destination slice length (" ++ toString buf.length ++ ")") := by
  by_cases hs : self = []
  · subst hs
    simp [slicePollRead]
  · have hpos : 0 < self.length := List.length_pos.mpr hs
    by_cases hl : buf.length ≤ self.length
    · simp [slicePollRead, copyFromSlice, hs, hl, Nat.min_eq_right hl, Except.map]
      rintro rfl
      rfl
    · have hlt : self.length < buf.length := by omega
      have hne : buf.length ≠ self.length := by omega
      simp [slicePollRead, copyFromSlice, hs, hl, Nat.min_eq_left hlt.le, Except.map, hne]

/-- The read loop over the `&[u8]` `self`: the whole window at once when it has enough bytes,
`Closed` when it is empty, and otherwise the panic of `copy_from_slice`. -/
theorem readLoop_slice {self buffer : List UInt8} {offset stop : Nat} (hle : offset ≤ stop)
    (hstop : stop ≤ buffer.length) :
    readLoop self buffer offset stop =
      if stop - offset ≤ self.length then
        .ok (.ready (.ok ()), self.drop (stop - offset),
          writeWindow buffer offset stop (self.take (stop - offset)), stop)
      else if self = [] then .ok (.ready (.error .closed), [], buffer, offset)
      else .error ("source slice length (" ++ toString self.length ++
        ") does not match destination slice length (" ++ toString (stop - offset) ++ ")") := by
  rcases Nat.eq_or_lt_of_le hle with rfl | hlt
  · rw [readLoop, if_neg (Nat.lt_irrefl _), Nat.sub_self, if_pos (Nat.zero_le _)]
    simp [writeWindow, pure, Except.pure]
  have hlen : (window buffer offset stop).length = stop - offset := length_window hle hstop
  rw [readLoop, if_pos hlt]
  show (slicePollRead self (window buffer offset stop) >>= _) = _
  rw [slicePollRead_eq, hlen]
  by_cases hk : stop - offset ≤ self.length
  · have hpos : 0 < stop - offset := by omega
    rw [if_pos (.inr hk), if_pos hk]
    simp only [bind, Except.bind, Nat.min_eq_right hk, if_pos hpos]
    rw [readLoop, if_neg (by omega), show offset + (stop - offset) = stop by omega,
      ← hlen, List.drop_length, List.append_nil]
    rfl
  · by_cases hs : self = []
    · subst hs
      rw [if_neg hk, if_pos rfl]
      simp [bind, Except.bind, writeWindow_window hle, pure, Except.pure]
    · rw [if_neg (by tauto), if_neg hk, if_neg hs]
      rfl

/-- A one-byte request to a non-empty slice gets its first byte. -/
theorem slicePollRead_cons_one (x y : UInt8) (t : List UInt8) :
    slicePollRead (x :: t) [y] = .ok (.ready (.ok 1), [x], t) := by
  simp [slicePollRead, copyFromSlice, Except.map]

/-- `get_varint` over the `&[u8]` `b`, at its first poll: the first varint of `b`, the slice left
past it; `Closed` when `b` holds at most one byte and no whole varint; and otherwise the panic of
`copy_from_slice`, lent the rest of the varint while fewer bytes are left. -/
theorem GetVarint.poll_new_slice (b : List UInt8) :
    match firstVarint b with
    | some (v, len) =>
      ∃ g, (GetVarint.new b).poll = .ok (.ready (.ok v), g) ∧ g.reader = b.drop len
    | none =>
      if b.length < 2 then
        ∃ g, (GetVarint.new b).poll = .ok (.ready (.error .closed), g) ∧ g.reader = []
      else (GetVarint.new b).poll = .error ("source slice length (" ++ toString (b.length - 1) ++
          ") does not match destination slice length (" ++
          toString (VarInt.parseSize (b.headD 0) - 1) ++ ")") := by
  rcases b with _ | ⟨x, t⟩
  · exact ⟨_, rfl, rfl⟩
  have hfirst : GetVarint.poll (GetVarint.new (x :: t)) =
      GetVarint.pollLoop ⟨t, x :: List.replicate 7 0, 1, VarInt.parseSize x⟩ := by
    simp only [GetVarint.poll, GetVarint.new, if_true]
    show (slicePollRead (x :: t) [0] >>= _) = _
    rw [slicePollRead_cons_one]
    rfl
  obtain ⟨n, hn⟩ : ∃ n, VarInt.parseSize x = n + 1 :=
    ⟨_, (Nat.sub_add_cancel (VarInt.parseSize_pos x)).symm⟩
  have hps := VarInt.parseSize_le_maxSize x
  rw [hfirst, GetVarint.pollLoop, readLoop_slice (VarInt.parseSize_pos x) (by simpa using hps)]
  by_cases hk : VarInt.parseSize x - 1 ≤ t.length
  · obtain ⟨v, hv⟩ := firstVarint_of_le (List.cons_ne_nil x t) (by simp; omega)
    simp only [List.headD_cons] at hv
    have htake : (writeWindow (x :: List.replicate 7 0) 1 (VarInt.parseSize x)
        (t.take (VarInt.parseSize x - 1))).take (VarInt.parseSize x) =
        (x :: t).take (VarInt.parseSize x) := by
      have := @take_writeWindow (x :: List.replicate 7 0) (t.take (VarInt.parseSize x - 1)) 1
        (VarInt.parseSize x) (by simp) (VarInt.parseSize x - 1) (by rw [List.length_take]; omega)
      rw [Nat.add_sub_cancel' (VarInt.parseSize_pos x)] at this
      rw [this, List.take_take, Nat.min_self, hn]
      simp
    simp only [if_pos hk, bind, Except.bind, expect_getVarint_take hv htake, hv]
    exact ⟨_, rfl, by simp [hn]⟩
  have hnone : firstVarint (x :: t) = none :=
    firstVarint_eq_none_iff.mpr (.inr (by simp only [List.length_cons, List.headD_cons]; omega))
  by_cases ht : t = []
  · subst ht
    simp only [if_neg hk, if_pos, hnone, bind, Except.bind]
    exact ⟨_, rfl, rfl⟩
  · have hlen : 0 < t.length := List.length_pos.mpr ht
    simp only [if_neg ht, if_neg hk, hnone, bind, Except.bind, List.length_cons,
      Nat.add_sub_cancel, List.headD_cons, if_neg (show ¬t.length + 1 < 2 by omega)]

/-- `get_buffer` over the `&[u8]` `s` into `dst` is ready at its first poll: it fills `dst` with
the first `dst.len()` bytes of `s` and leaves the slice past them when `s` holds that many, and
answers `Closed` when `s` is empty; otherwise, with some but too few bytes left, `copy_from_slice`
panics, where the slice reader's `get_bytes` would return `None`. -/
theorem getBuffer_slice (s dst : List UInt8) (fuel : Nat) :
    blockOn GetBuffer.poll (fuel + 1) (GetBuffer.new s dst) =
      if dst.length ≤ s.length then
        .ok (some (.ok ()), ⟨s.drop dst.length, s.take dst.length, dst.length⟩)
      else if s = [] then .ok (some (.error .closed), ⟨[], dst, 0⟩)
      else .error ("source slice length (" ++ toString s.length ++
        ") does not match destination slice length (" ++ toString dst.length ++ ")") := by
  have hloop := @readLoop_slice s dst 0 dst.length (Nat.zero_le _) le_rfl
  rw [Nat.sub_zero] at hloop
  simp only [blockOn, GetBuffer.poll, GetBuffer.new, hloop]
  split_ifs with hle hs
  · simp [writeWindow, bind, Except.bind, pure, Except.pure]
  · rfl
  · rfl

end WTransport
