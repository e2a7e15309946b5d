import Blip.Wire
import Blip.Compression
import Blip.Payload

/-!
# The outgoing message

`MessageOut`: its flags, contents and three `uint32_t` counters, and the
operations the multiplexer calls on it. `nextFrameToSend` fills one frame,
`receivedAck` takes a cumulative acknowledgement, and `disconnected` tells the
progress callback that the connection is gone. Counter updates are the C++
ones: a cast to `uint32_t` and arithmetic modulo `2 ^ 32`.
-/

set_option autoImplicit false

namespace Blip.Sender
open Blip.Wire Blip.Compression Blip.Payload

/-- `a += (uint32_t)n` on a `uint32_t`. -/
def addU32 (a n : Nat) : Nat := (a + n % 2 ^ 32) % 2 ^ 32

def subU32 (a n : Nat) : Nat := (a + 2 ^ 32 - n % 2 ^ 32) % 2 ^ 32

/-- `MessageOut`. The connection it belongs to and its progress callback are not modelled: the
progress it reports is returned with each frame. -/
structure MessageOut where
  flags : FrameFlags
  number : Nat
  contents : Contents
  bytesSent : Nat
  unackedBytes : Nat
  uncompressedBytesSent : Nat

/-- Modelled from the spec: the member initialisers of `MessageOut.hh` (not in src/) start the
three counters at zero. -/
def MessageOut.new (flags : FrameFlags) (number : Nat) (payload : List UInt8)
    (dataSource : Option DataSource) : MessageOut :=
  ⟨flags, number, Contents.new payload dataSource, 0, 0, 0⟩

/-- One frame as `nextFrameToSend` leaves it in `dst`: the bytes before the checksum, the
checksum (none on an ack), the flags it returns and the progress it reports. -/
structure SentFrame where
  body : List UInt8
  checksum : List UInt8
  flags : FrameFlags
  progress : Option MessageProgress

def SentFrame.bytes (f : SentFrame) : List UInt8 := f.body ++ f.checksum

/-- What the frame loop reads and writes: the contents, the codec, the room left in `dst`, the
bytes written into it so far, and `_uncompressedBytesSent`. -/
structure LoopState (σ : Type) where
  contents : Contents
  codec : σ
  room : Nat
  written : List UInt8
  sent : Nat

/-- One pass of the frame loop's body: take the slice `dataToSend` returns, count it into
`_uncompressedBytesSent`, let the codec consume from it, and count back what is left of it. -/
def frameStep {σ : Type} (codec : Codec σ) (mode : Mode) (st : LoopState σ) : LoopState σ :=
  let d := st.contents.dataToSend
  let data := d.2.slice d.1
  let w := codec.write st.codec data st.room mode
  let c := d.2.advance d.1 w.consumed
  ⟨c, w.state, st.room - w.output.length, st.written ++ w.output,
    subU32 (addU32 st.sent data.length) (c.slice d.1).length⟩

/-- The `do { ... } while (dst.size >= 1024)` loop of `nextFrameToSend`, which breaks on an empty
slice. -/
def frameLoop {σ : Type} (codec : Codec σ) (mode : Mode) (st : LoopState σ) : LoopState σ :=
  if st.contents.dataToSend.2.slice st.contents.dataToSend.1 = [] then
    { st with contents := st.contents.dataToSend.2 }
  else if 1024 ≤ (frameStep codec mode st).room then frameLoop codec mode (frameStep codec mode st)
  else frameStep codec mode st
termination_by st.room
decreasing_by
  have hpos := List.length_pos.mpr (codec.output_ne_nil st.codec _ st.room mode ‹_›
    (by simp only [frameStep] at *; omega))
  simp only [frameStep] at *
  omega

@[simp] theorem addU32_eq (a n : Nat) : addU32 a n = (a + n) % 2 ^ 32 := by
  unfold addU32; omega

theorem subU32_addU32 (a n j : Nat) (h : j ≤ n) :
    subU32 (addU32 a n) (n - j) = (a + j) % 2 ^ 32 := by
  unfold subU32 addU32; omega

theorem frameLoop_nil {σ : Type} (codec : Codec σ) (mode : Mode) (st : LoopState σ)
    (h : st.contents.dataToSend.2.slice st.contents.dataToSend.1 = []) :
    frameLoop codec mode st = { st with contents := st.contents.dataToSend.2 } := by
  rw [frameLoop, if_pos h]

theorem frameLoop_more {σ : Type} (codec : Codec σ) (mode : Mode) (st : LoopState σ)
    (h : st.contents.dataToSend.2.slice st.contents.dataToSend.1 ≠ [])
    (hr : 1024 ≤ (frameStep codec mode st).room) :
    frameLoop codec mode st = frameLoop codec mode (frameStep codec mode st) := by
  rw [frameLoop, if_neg h, if_pos hr]

theorem frameLoop_last {σ : Type} (codec : Codec σ) (mode : Mode) (st : LoopState σ)
    (h : st.contents.dataToSend.2.slice st.contents.dataToSend.1 ≠ [])
    (hr : ¬ 1024 ≤ (frameStep codec mode st).room) :
    frameLoop codec mode st = frameStep codec mode st := by
  rw [frameLoop, if_neg h, if_neg hr]

structure Took {σ : Type} (codec : Codec σ) (mode : Mode) (st st' : LoopState σ)
    (taken : List UInt8) : Prop where
  drop : Drop st.contents taken st'.contents
  sent : st'.sent = (st.sent + taken.length) % 2 ^ 32
  copied : codec.RawCopies → mode = .raw → st'.written = st.written ++ taken

theorem Took.trans {σ : Type} {codec : Codec σ} {mode : Mode} {st₁ st₂ st₃ : LoopState σ}
    {t₁ t₂ : List UInt8} (h₁ : Took codec mode st₁ st₂ t₁) (h₂ : Took codec mode st₂ st₃ t₂) :
    Took codec mode st₁ st₃ (t₁ ++ t₂) where
  drop := .trans h₁.drop h₂.drop
  sent := by rw [h₂.sent, h₁.sent, List.length_append]; omega
  copied hr hm := by rw [h₂.copied hr hm, h₁.copied hr hm, List.append_assoc]

theorem frameStep_took {σ : Type} (codec : Codec σ) (mode : Mode) (st : LoopState σ) :
    ∃ taken, Took codec mode st (frameStep codec mode st) taken := by
  set d := st.contents.dataToSend
  set data := d.2.slice d.1
  set w := codec.write st.codec data st.room mode
  have hn : w.consumed ≤ data.length := codec.consumed_le _ _ _ _
  refine ⟨data.take w.consumed, .trans (dataToSend_drop st.contents)
    (.advance _ _ _ (dataToSend_front st.contents)), ?_, fun hraw hm => ?_⟩
  · show subU32 (addU32 st.sent data.length) ((d.2.advance d.1 w.consumed).slice d.1).length = _
    rw [slice_advance, List.length_drop, subU32_addU32 _ _ _ hn, List.length_take,
      Nat.min_eq_left hn]
  · subst hm
    obtain ⟨hc, ho⟩ := hraw.1 st.codec data st.room
    show st.written ++ w.output = _
    rw [ho, hc]
    exact congrArg (st.written ++ ·) (List.take_eq_take.mpr (by omega))

theorem frameLoop_took {σ : Type} (codec : Codec σ) (mode : Mode) (st : LoopState σ)
    (hs : st.sent < 2 ^ 32) : ∃ taken, Took codec mode st (frameLoop codec mode st) taken := by
  induction st using frameLoop.induct codec mode with
  | case1 st h =>
    rw [frameLoop_nil codec mode st h]
    exact ⟨[], dataToSend_drop st.contents,
      by simp only [List.length_nil, Nat.add_zero]; exact (Nat.mod_eq_of_lt hs).symm,
      fun _ _ => by simp⟩
  | case2 st h hr ih =>
    obtain ⟨t₁, h₁⟩ := frameStep_took codec mode st
    obtain ⟨t₂, h₂⟩ := ih (by rw [h₁.sent]; omega)
    rw [frameLoop_more codec mode st h hr]
    exact ⟨t₁ ++ t₂, h₁.trans h₂⟩
  | case3 st h hr =>
    rw [frameLoop_last codec mode st h hr]
    exact frameStep_took codec mode st

def syncFlushTrailer : List UInt8 := [0x00, 0x00, 0xFF, 0xFF]

/-- After a `SyncFlush` frame with output, `dst.moveStart(-4)` drops the trailer; `none` when the
`Assert` that it is there fails. -/
def stripTrailer (mode : Mode) (out : List UInt8) : Option (List UInt8) :=
  match mode with
  | .raw => some out
  | .syncFlush =>
    if out.length = 0 then some out
    else if 4 ≤ out.length ∧ out.drop (out.length - 4) = syncFlushTrailer then
      some (out.take (out.length - 4))
    else none

def frameMode (flags : FrameFlags) : Mode := if flags.compressed then .syncFlush else .raw

def frameProgress (flags : FrameFlags) (more : Bool) : ProgressState :=
  if more then .sending else if flags.noReply then .complete else .awaitingReply

/-- The part of `nextFrameToSend` after the frame loop: the flush check, the `SyncFlush`
trailer, the checksum, the running totals, the flags and the progress report. -/
def MessageOut.finishFrame {σ : Type} (m : MessageOut) (codec : Codec σ) (r : LoopState σ) :
    Except String (SentFrame × MessageOut × σ) :=
  if 0 < codec.unflushedBytes r.codec then .error "Compression buffer overflow"
  else
    match stripTrailer (frameMode m.flags) r.written with
    | none => .error "Assertion failed: SyncFlush trailer"
    | some body =>
      let checksum := codec.checksum r.codec
      let size := body.length + checksum.length
      let more := r.contents.hasMoreDataToSend
      .ok (⟨body, checksum, if more then m.flags.withMoreComing else m.flags,
          some ⟨frameProgress m.flags more, r.sent⟩⟩,
        { m with contents := r.contents, uncompressedBytesSent := r.sent,
                 bytesSent := addU32 m.bytesSent size,
                 unackedBytes := addU32 m.unackedBytes size }, r.codec)

/-- `MessageOut::nextFrameToSend`, writing into a frame buffer of `frameSize` bytes. The throw
and the failed `Assert` end it with `error`. On an ack, `dst.writeFrom` (fleece's, not in src/)
copies nothing when the slice does not fit, and `_bytesSent` counts the slice all the same. -/
def MessageOut.nextFrameToSend {σ : Type} (m : MessageOut) (codec : Codec σ) (cs : σ)
    (frameSize : Nat) : Except String (SentFrame × MessageOut × σ) :=
  if m.flags.isAck then
    -- Acks have no checksum and don't go through the codec
    let d := m.contents.dataToSend
    let data := d.2.slice d.1
    .ok (⟨if data.length ≤ frameSize then data else [], [], m.flags, none⟩,
      { m with contents := d.2, bytesSent := addU32 m.bytesSent data.length }, cs)
  else
    m.finishFrame codec (frameLoop codec (frameMode m.flags)
      ⟨m.contents, cs, frameSize - kChecksumSize, [], m.uncompressedBytesSent⟩)

/-- `MessageOut::receivedAck`. The subtraction cannot wrap under its guard. -/
def MessageOut.receivedAck (m : MessageOut) (byteCount : Nat) : MessageOut :=
  if byteCount ≤ m.bytesSent then
    { m with unackedBytes := min m.unackedBytes (m.bytesSent - byteCount) }
  else m

/-- Modelled from the spec: `Message::disconnected` (`Message.cc` is not in src/) invokes the
progress callback with the state `kDisconnected`. The spec gives it no byte count; it is
reported as zero. -/
def disconnectedProgress : MessageProgress := ⟨.disconnected, 0⟩

/-- `MessageOut::disconnected`: the progress it reports, if it reports one. -/
def MessageOut.disconnected (m : MessageOut) : Option MessageProgress :=
  if m.flags.type != .request || m.flags.noReply then none else some disconnectedProgress

/-- The `MessageIn` that `MessageOut::createResponse` makes for the reply: its flags, its number
and its `outgoingSize`. The connection and the progress callback it is also handed are not
modelled. -/
structure ResponseIn where
  flags : FrameFlags
  number : Nat
  outgoingSize : Nat
  deriving DecidableEq, Repr

def responseFlags : FrameFlags := ⟨.response, false, false, false, false⟩

def MessageOut.createResponse (m : MessageOut) : Option ResponseIn :=
  if m.flags.type != .request || m.flags.noReply then none
  else some ⟨responseFlags, m.number, m.uncompressedBytesSent⟩

/-- `MessageOut::findProperty`. `Message::findProperty` is declared `PURE` in `Message.hh` and
its body is not in src/; it is given as `find`, a function of the property bytes and the
name. -/
def MessageOut.findProperty {α : Type} (find : List UInt8 → String → α) (m : MessageOut)
    (propertyName : String) : Option α :=
  m.contents.getPropsAndBody.map fun pb => find pb.1 propertyName

theorem createResponse_isSome (m : MessageOut) :
    m.createResponse.isSome = m.disconnected.isSome := by
  unfold MessageOut.createResponse MessageOut.disconnected
  split <;> rfl

@[simp] theorem receivedAck_flags (m : MessageOut) (c : Nat) : (m.receivedAck c).flags = m.flags := by
  unfold MessageOut.receivedAck; split <;> rfl

@[simp] theorem receivedAck_contents (m : MessageOut) (c : Nat) :
    (m.receivedAck c).contents = m.contents := by
  unfold MessageOut.receivedAck; split <;> rfl

@[simp] theorem receivedAck_bytesSent (m : MessageOut) (c : Nat) :
    (m.receivedAck c).bytesSent = m.bytesSent := by
  unfold MessageOut.receivedAck; split <;> rfl

@[simp] theorem receivedAck_uncompressedBytesSent (m : MessageOut) (c : Nat) :
    (m.receivedAck c).uncompressedBytesSent = m.uncompressedBytesSent := by
  unfold MessageOut.receivedAck; split <;> rfl

theorem receivedAck_unackedBytes (m : MessageOut) (c : Nat) :
    (m.receivedAck c).unackedBytes =
      if c ≤ m.bytesSent then min m.unackedBytes (m.bytesSent - c) else m.unackedBytes := by
  unfold MessageOut.receivedAck; split <;> rfl

theorem frameLoop_written {σ : Type} (codec : Codec σ) (mode : Mode) (st : LoopState σ) :
    ∃ out, (frameLoop codec mode st).written = st.written ++ out ∧
      (frameLoop codec mode st).room + out.length = st.room := by
  induction st using frameLoop.induct codec mode with
  | case1 st h => exact ⟨[], by simp [frameLoop_nil codec mode st h]⟩
  | case2 st h hr ih =>
    obtain ⟨out, hw, hr'⟩ := ih
    have hle := codec.output_le st.codec (st.contents.dataToSend.2.slice st.contents.dataToSend.1)
      st.room mode
    rw [frameLoop_more codec mode st h hr]
    refine ⟨(codec.write st.codec (st.contents.dataToSend.2.slice st.contents.dataToSend.1)
      st.room mode).output ++ out, by rw [hw]; simp [frameStep], ?_⟩
    simp only [frameStep, List.length_append] at hr' ⊢
    omega
  | case3 st h hr =>
    have hle := codec.output_le st.codec (st.contents.dataToSend.2.slice st.contents.dataToSend.1)
      st.room mode
    rw [frameLoop_last codec mode st h hr]
    exact ⟨_, rfl, by simp only [frameStep]; omega⟩

theorem frameLoop_idle {σ : Type} (codec : Codec σ) (hraw : codec.RawCopies) (st : LoopState σ)
    (hroom : 0 < st.room) (hw : (frameLoop codec .raw st).written = st.written) :
    (frameLoop codec .raw st).contents.hasMoreDataToSend = false := by
  by_cases h : st.contents.dataToSend.2.slice st.contents.dataToSend.1 = []
  · rw [frameLoop_nil codec .raw st h]
    exact dataToSend_empty _ h
  · exfalso
    have hout : (frameStep codec .raw st).written.length > st.written.length := by
      simp only [frameStep, (hraw.1 _ _ _).2, List.length_append, List.length_take]
      have := List.length_pos.mpr h
      omega
    obtain ⟨out, hw', -⟩ := frameLoop_written codec .raw (frameStep codec .raw st)
    have hlen := congrArg List.length hw
    by_cases hr : 1024 ≤ (frameStep codec .raw st).room
    · rw [frameLoop_more codec .raw st h hr, hw', List.length_append] at hlen
      omega
    · rw [frameLoop_last codec .raw st h hr] at hlen
      omega

theorem nextFrameToSend_inv {σ : Type} {codec : Codec σ} {cs cs' : σ} {frameSize : Nat}
    {m m' : MessageOut} {f : SentFrame} (hack : m.flags.isAck = false)
    (h : m.nextFrameToSend codec cs frameSize = .ok (f, m', cs')) :
    let r := frameLoop codec (frameMode m.flags)
      ⟨m.contents, cs, frameSize - kChecksumSize, [], m.uncompressedBytesSent⟩
    codec.unflushedBytes r.codec = 0 ∧ stripTrailer (frameMode m.flags) r.written = some f.body ∧
      f.checksum = codec.checksum r.codec ∧ cs' = r.codec ∧
      f.flags = (if r.contents.hasMoreDataToSend then m.flags.withMoreComing else m.flags) ∧
      f.progress = some ⟨frameProgress m.flags r.contents.hasMoreDataToSend, r.sent⟩ ∧
      m' = { m with contents := r.contents, uncompressedBytesSent := r.sent,
                    bytesSent := addU32 m.bytesSent f.bytes.length,
                    unackedBytes := addU32 m.unackedBytes f.bytes.length } := by
  intro r
  simp only [MessageOut.nextFrameToSend, MessageOut.finishFrame, hack, Bool.false_eq_true,
    if_false] at h
  split at h
  · cases h
  · next hu =>
    split at h
    · cases h
    · next body hb =>
      simp only [Except.ok.injEq, Prod.mk.injEq] at h
      obtain ⟨rfl, rfl, rfl⟩ := h
      exact ⟨Nat.eq_zero_of_not_pos hu, hb, rfl, rfl, rfl, rfl, by simp [SentFrame.bytes]⟩

@[simp] theorem receivedAck_number (m : MessageOut) (c : Nat) :
    (m.receivedAck c).number = m.number := by
  unfold MessageOut.receivedAck; split <;> rfl

theorem nextFrameToSend_keeps {σ : Type} {codec : Codec σ} {cs cs' : σ} {frameSize : Nat}
    {m m' : MessageOut} {f : SentFrame}
    (h : m.nextFrameToSend codec cs frameSize = .ok (f, m', cs')) :
    m'.flags = m.flags ∧ m'.number = m.number := by
  cases hack : m.flags.isAck
  · obtain ⟨-, -, -, -, -, -, rfl⟩ := nextFrameToSend_inv hack h
    exact ⟨rfl, rfl⟩
  · simp only [MessageOut.nextFrameToSend, hack, if_true, Except.ok.injEq, Prod.mk.injEq] at h
    obtain ⟨-, rfl, -⟩ := h
    exact ⟨rfl, rfl⟩

theorem nextFrameToSend_ok {σ : Type} (codec : Codec σ) (hraw : codec.RawCopies) (cs : σ)
    (frameSize : Nat) (m : MessageOut) (hack : m.flags.isAck = false)
    (hc : m.flags.compressed = false) :
    ∃ f m' cs', m.nextFrameToSend codec cs frameSize = .ok (f, m', cs') := by
  simp only [MessageOut.nextFrameToSend, MessageOut.finishFrame, hack, frameMode, hc, hraw.2,
    stripTrailer, Bool.false_eq_true, if_false, Nat.lt_irrefl]
  exact ⟨_, _, _, rfl⟩

theorem stripTrailer_length (mode : Mode) (out body : List UInt8)
    (h : stripTrailer mode out = some body) : body.length ≤ out.length := by
  cases mode with
  | raw => cases h; rfl
  | syncFlush =>
    simp only [stripTrailer] at h
    split at h
    · cases h; rfl
    · split at h
      · cases h; exact List.length_take_le' _ _
      · cases h

theorem nextFrameToSend_frame {σ : Type} {codec : Codec σ} {cs cs' : σ} {frameSize : Nat}
    {m m' : MessageOut} {f : SentFrame} (hack : m.flags.isAck = false)
    (h : m.nextFrameToSend codec cs frameSize = .ok (f, m', cs')) :
    f.checksum.length = 4 ∧ m'.flags = m.flags ∧
      m'.bytesSent = (m.bytesSent + f.bytes.length) % 2 ^ 32 ∧
      m'.unackedBytes = (m.unackedBytes + f.bytes.length) % 2 ^ 32 ∧
      f.flags = (if m'.contents.hasMoreDataToSend then m.flags.withMoreComing else m.flags) ∧
      f.progress =
        some ⟨frameProgress m.flags m'.contents.hasMoreDataToSend, m'.uncompressedBytesSent⟩ := by
  obtain ⟨-, -, hsum, -, hfl, hpr, rfl⟩ := nextFrameToSend_inv hack h
  exact ⟨hsum ▸ codec.checksum_length _, rfl, addU32_eq _ _, addU32_eq _ _, hfl, hpr⟩

theorem nextFrameToSend_took {σ : Type} {codec : Codec σ} {cs cs' : σ} {frameSize : Nat}
    {m m' : MessageOut} {f : SentFrame} (hack : m.flags.isAck = false)
    (hs : m.uncompressedBytesSent < 2 ^ 32)
    (h : m.nextFrameToSend codec cs frameSize = .ok (f, m', cs')) :
    ∃ taken, Drop m.contents taken m'.contents ∧
      m'.uncompressedBytesSent = (m.uncompressedBytesSent + taken.length) % 2 ^ 32 ∧
      (codec.RawCopies → m.flags.compressed = false → f.body = taken) ∧
      f.body.length ≤ frameSize - kChecksumSize := by
  obtain ⟨-, hb, -, -, -, -, rfl⟩ := nextFrameToSend_inv hack h
  obtain ⟨taken, ht⟩ := frameLoop_took codec (frameMode m.flags)
    ⟨m.contents, cs, frameSize - kChecksumSize, [], m.uncompressedBytesSent⟩ hs
  obtain ⟨out, hw, hr⟩ := frameLoop_written codec (frameMode m.flags)
    ⟨m.contents, cs, frameSize - kChecksumSize, [], m.uncompressedBytesSent⟩
  refine ⟨taken, ht.drop, ht.sent, fun hraw hc => ?_, ?_⟩
  · have hm : frameMode m.flags = .raw := by simp [frameMode, hc]
    rw [hm] at hb ht
    simpa [stripTrailer, ht.copied hraw rfl] using hb.symm
  · have := stripTrailer_length _ _ _ hb
    simp only [hw, List.nil_append] at this hr
    omega

theorem nextFrameToSend_idle {σ : Type} {codec : Codec σ} (hraw : codec.RawCopies)
    {cs cs' : σ} {frameSize : Nat} {m m' : MessageOut} {f : SentFrame}
    (hack : m.flags.isAck = false) (hc : m.flags.compressed = false) (hF : kChecksumSize < frameSize)
    (h : m.nextFrameToSend codec cs frameSize = .ok (f, m', cs')) (hb : f.body = []) :
    m'.contents.hasMoreDataToSend = false := by
  obtain ⟨-, hs, -, -, -, -, rfl⟩ := nextFrameToSend_inv hack h
  have hm : frameMode m.flags = .raw := by simp [frameMode, hc]
  rw [hm] at hs ⊢
  simp only [stripTrailer, hb, Option.some.injEq] at hs
  exact frameLoop_idle codec hraw _ (by simp only; omega) hs

theorem nextFrameToSend_ack {σ : Type} (codec : Codec σ) (cs : σ) (frameSize : Nat)
    (m : MessageOut) (hack : m.flags.isAck = true) :
    m.nextFrameToSend codec cs frameSize =
      .ok (⟨if (m.contents.dataToSend.2.slice m.contents.dataToSend.1).length ≤ frameSize then
          m.contents.dataToSend.2.slice m.contents.dataToSend.1 else [], [], m.flags, none⟩,
        { m with contents := m.contents.dataToSend.2,
                 bytesSent := addU32 m.bytesSent
                   (m.contents.dataToSend.2.slice m.contents.dataToSend.1).length }, cs) := by
  simp only [MessageOut.nextFrameToSend, hack, if_true]

theorem frameStep_fill {σ : Type} (codec : Codec σ) (hraw : codec.RawCopies) (st : LoopState σ)
    (hroom : st.room ≤ (st.contents.dataToSend.2.slice st.contents.dataToSend.1).length) :
    (frameStep codec .raw st).room = 0 ∧
      (frameStep codec .raw st).written =
        st.written ++ (st.contents.dataToSend.2.slice st.contents.dataToSend.1).take st.room ∧
      (frameStep codec .raw st).contents =
        st.contents.dataToSend.2.advance st.contents.dataToSend.1 st.room := by
  obtain ⟨hc, ho⟩ :=
    hraw.1 st.codec (st.contents.dataToSend.2.slice st.contents.dataToSend.1) st.room
  simp only [frameStep, hc, ho, List.length_take, Nat.min_eq_left hroom, Nat.min_eq_right hroom,
    Nat.sub_self, and_self]

theorem frameLoop_fill {σ : Type} (codec : Codec σ) (hraw : codec.RawCopies) (st : LoopState σ)
    (h0 : 0 < st.room)
    (hroom : st.room ≤ (st.contents.dataToSend.2.slice st.contents.dataToSend.1).length) :
    frameLoop codec .raw st = frameStep codec .raw st :=
  frameLoop_last codec .raw st (List.ne_nil_of_length_pos (by omega))
    (by rw [(frameStep_fill codec hraw st hroom).1]; omega)

theorem nextFrameToSend_fill {σ : Type} (codec : Codec σ) (hraw : codec.RawCopies) (cs : σ)
    (frameSize : Nat) (m : MessageOut) (hack : m.flags.isAck = false)
    (hc : m.flags.compressed = false) (hF : kChecksumSize < frameSize)
    (hroom : frameSize - kChecksumSize ≤
      (m.contents.dataToSend.2.slice m.contents.dataToSend.1).length) :
    ∃ f m' cs', m.nextFrameToSend codec cs frameSize = .ok (f, m', cs') ∧
      f.body = (m.contents.dataToSend.2.slice m.contents.dataToSend.1).take
        (frameSize - kChecksumSize) ∧
      m'.contents = m.contents.dataToSend.2.advance m.contents.dataToSend.1
        (frameSize - kChecksumSize) := by
  obtain ⟨f, m', cs', h⟩ := nextFrameToSend_ok codec hraw cs frameSize m hack hc
  obtain ⟨-, hb, -, -, -, -, rfl⟩ := nextFrameToSend_inv hack h
  have hm : frameMode m.flags = .raw := by simp [frameMode, hc]
  have hfill := frameStep_fill codec hraw
    ⟨m.contents, cs, frameSize - kChecksumSize, [], m.uncompressedBytesSent⟩ hroom
  have hloop := frameLoop_fill codec hraw
    ⟨m.contents, cs, frameSize - kChecksumSize, [], m.uncompressedBytesSent⟩ (by simp only; omega)
    hroom
  rw [hm, hloop, hfill.2.1] at hb
  refine ⟨f, _, cs', h, by simpa [stripTrailer] using hb.symm, ?_⟩
  show (frameLoop codec (frameMode m.flags) _).contents = _
  rw [hm, hloop, hfill.2.2]

end Blip.Sender
