import Blip.FrameRun

/-!
# Streaming a payload and a data source

A fresh message sends its payload and then what its source writes, call after call, until a call
returns fewer than `kDataBufferSize` bytes; a source that always fills the buffer is never
dropped. A negative return meets the buffer size as a `size_t`: it is not taken for the end of
the source, and the slice the code keeps runs far past the buffer.
-/

set_option autoImplicit false

namespace Blip.Streaming
open Blip.Wire Blip.Compression Blip.Payload Blip.Sender Blip.FrameRun

theorem new_pending (p : List UInt8) (src : DataSource) (k : Nat) :
    (Contents.new p (some src)).pending k = p ++ src.chunks k := by
  simp [Contents.new, Contents.pending]

theorem new_endsAt (p : List UInt8) (src : DataSource) (k : Nat) (hk : src.EndsAt k) :
    (Contents.new p (some src)).EndsAt k := by
  intro s hs
  cases hs
  exact hk

/-- A fresh message whose source's first short call is call `k`, sent through a copying codec:
the run ends; every frame but the last carries body bytes and `kMoreComing`, and the last carries
the message's own `kMoreComing` bit; every frame fits in `frameSize` and ends with a four-byte
checksum; and the bodies, in order, are the payload and then the chunks of calls `0` to `k`,
each byte once. -/
theorem sendFrames_payload_then_chunks {σ : Type} (codec : Codec σ) (hraw : codec.RawCopies)
    (cs : σ) (flags : FrameFlags) (number : Nat) (hack : flags.isAck = false)
    (hc : flags.compressed = false) (p : List UInt8) (src : DataSource) (k : Nat)
    (hk : src.EndsAt k) (frameSize : Nat) (hF : kChecksumSize < frameSize) :
    ∃ n frames m' cs',
      sendFrames codec frameSize n (MessageOut.new flags number p (some src)) cs =
        .ok (frames, m', cs') ∧
      m'.contents.hasMoreDataToSend = false ∧
      (∀ f ∈ frames.dropLast, f.body ≠ [] ∧ f.flags.moreComing = true) ∧
      (∀ f ∈ frames.getLast?, f.flags.moreComing = flags.moreComing) ∧
      (∀ f ∈ frames, f.bytes.length ≤ frameSize ∧ f.checksum.length = 4) ∧
      (frames.map SentFrame.body).flatten = p ++ src.chunks k := by
  obtain ⟨frames, m', cs', hrun, hdone, hjoin, hfit, hmid, hlast⟩ :=
    sendFrames_raw codec hraw frameSize hF _ (MessageOut.new flags number p (some src)) cs k
      hack hc (by simp [MessageOut.new]) (new_endsAt p src k hk) (Nat.lt_succ_self _)
  exact ⟨_, frames, m', cs', hrun, hdone, hmid, hlast, hfit, by
    rw [hjoin]; exact new_pending p src k⟩

theorem sendFrames_payload_then_chunks_ex :
    (DataSource.ofChunks [[4, 5]]).EndsAt 0 ∧
      ∃ n frames m' cs',
        sendFrames copyCodec 16 n (MessageOut.new requestFlags 1 [1, 2, 3]
          (some (DataSource.ofChunks [[4, 5]]))) 0 = .ok (frames, m', cs') ∧
        m'.contents.hasMoreDataToSend = false ∧
        (∀ f ∈ frames.dropLast, f.body ≠ [] ∧ f.flags.moreComing = true) ∧
        (∀ f ∈ frames.getLast?, f.flags.moreComing = requestFlags.moreComing) ∧
        (∀ f ∈ frames, f.bytes.length ≤ 16 ∧ f.checksum.length = 4) ∧
        (frames.map SentFrame.body).flatten =
          [1, 2, 3] ++ (DataSource.ofChunks [[4, 5]]).chunks 0 := by
  have hk : (DataSource.ofChunks [[4, 5]]).EndsAt 0 :=
    ⟨fun _ h => absurd h (Nat.not_lt_zero _), by decide, by decide⟩
  exact ⟨hk, sendFrames_payload_then_chunks copyCodec copyCodec_rawCopies 0 requestFlags 1
    rfl rfl [1, 2, 3] _ 0 hk 16 (by decide)⟩

/-- A source whose every call fills the buffer is never dropped. -/
def FullSource (c : Contents) : Prop :=
  ∃ s, c.dataSource = some s ∧ ∀ i, (s.call i).result = kDataBufferSize

theorem drop_fullSource {c c' : Contents} {t : List UInt8} (h : Drop c t c')
    (hf : FullSource c) : FullSource c' := by
  induction h with
  | refl c => exact hf
  | reset c _ => exact hf
  | read c s _ hs =>
    obtain ⟨s', hs', hfull⟩ := hf
    cases hs.symm.trans hs'
    have hnot : ¬ sizeT (s.call 0).result < kDataBufferSize := by
      rw [sizeT_full (hfull 0)]; exact Nat.lt_irrefl _
    exact ⟨s.next, by simp [Contents.readFromDataSource, hnot], fun i => hfull (i + 1)⟩
  | advance c slot n _ =>
    obtain ⟨s, hs, hfull⟩ := hf
    exact ⟨s, by simpa using hs, hfull⟩
  | trans _ _ ih₁ ih₂ => exact ih₂ (ih₁ hf)

theorem sendFrames_endless {σ : Type} (codec : Codec σ) (frameSize : Nat) (n : Nat) :
    ∀ (m : MessageOut) (cs : σ) (frames : List SentFrame) (m' : MessageOut) (cs' : σ),
      m.flags.isAck = false → m.uncompressedBytesSent < 2 ^ 32 → FullSource m.contents →
      sendFrames codec frameSize n m cs = .ok (frames, m', cs') →
      m'.contents.hasMoreDataToSend = true := by
  have hmore : ∀ c, FullSource c → c.hasMoreDataToSend = true := by
    rintro c ⟨s, hs, -⟩; simp [Contents.hasMoreDataToSend, hs]
  induction n with
  | zero => intro m cs frames m' cs' _ _ hf h; cases h; exact hmore _ hf
  | succ n ih =>
    intro m cs frames m' cs' hack hs hf h
    obtain ⟨f, m₁, cs₁, fs, hf₁, hrun, -⟩ := sendFrames_inv codec frameSize n m m' cs cs' frames
      (hmore _ hf) h
    obtain ⟨t, hd, hsent, -, -⟩ := nextFrameToSend_took hack hs hf₁
    obtain ⟨-, hfl, -⟩ := nextFrameToSend_frame hack hf₁
    exact ih m₁ cs₁ fs m' cs' (hfl ▸ hack) (by rw [hsent]; omega) (drop_fullSource hd hf) hrun

def fullSource : DataSource := ⟨fun _ => ⟨kDataBufferSize, fun _ => 0⟩⟩

/-- A request with an empty payload and `fullSource`, in 16-byte frames through the copying
codec: no number of frames ends the run. -/
theorem full_source_never_ends :
    ¬ ∃ n frames m' cs', sendFrames copyCodec 16 n
        (MessageOut.new requestFlags 1 [] (some fullSource)) 0 = .ok (frames, m', cs') ∧
      m'.contents.hasMoreDataToSend = false := by
  rintro ⟨n, frames, m', cs', h, hdone⟩
  exact Bool.noConfusion (hdone.symm.trans (sendFrames_endless copyCodec 16 n
    (MessageOut.new requestFlags 1 [] (some fullSource)) 0 frames m' cs' rfl (by decide)
    ⟨fullSource, rfl, fun _ => rfl⟩ h))

theorem sizeT_negative {r : Int} (h0 : -2 ^ 63 ≤ r) (h : r < 0) :
    sizeT r = (r + 2 ^ 64).toNat := by
  unfold sizeT; omega

/-- A call that returns a negative `int` is not taken for the end of the source: against
`_dataBuffer.size` it counts as `2 ^ 64 + r`. The message keeps its source and `2 ^ 64 + r`
bytes of slice over the buffer, feeds the codec a full frame of memory the call did not report
writing, and still has data to send. -/
theorem nextFrameToSend_source_error {σ : Type} (codec : Codec σ) (hraw : codec.RawCopies)
    (cs : σ) (m : MessageOut) (s : DataSource) (hack : m.flags.isAck = false)
    (hc : m.flags.compressed = false) (hp : m.contents.unsentPayload = [])
    (hb : m.contents.unsentDataBuffer = []) (hs : m.contents.dataSource = some s)
    (hneg : (s.call 0).result < 0) (hint : -2 ^ 31 ≤ (s.call 0).result)
    (frameSize : Nat) (hF : kChecksumSize < frameSize) (hF' : frameSize ≤ 2 ^ 32) :
    ∃ f m' cs', m.nextFrameToSend codec cs frameSize = .ok (f, m', cs') ∧
      f.body = upTo (s.call 0).buffer (frameSize - kChecksumSize) ∧
      m'.contents.dataSource = some s.next ∧
      m'.contents.unsentDataBuffer.length + (frameSize - kChecksumSize) =
        sizeT (s.call 0).result ∧
      kDataBufferSize < m'.contents.unsentDataBuffer.length ∧
      m'.contents.hasMoreDataToSend = true ∧ f.flags.moreComing = true := by
  have hL := sizeT_negative (by omega) hneg
  have hbig : frameSize - kChecksumSize + kDataBufferSize < sizeT (s.call 0).result := by
    unfold kChecksumSize kDataBufferSize; omega
  have hkeep : ¬ sizeT (s.call 0).result < kDataBufferSize := by omega
  have hd : m.contents.dataToSend =
      (.unsentDataBuffer, { m.contents with payload := none }.readFromDataSource s) := by
    simp [Contents.dataToSend, hp, hb, hs]
  have hslice : m.contents.dataToSend.2.slice m.contents.dataToSend.1 = (s.call 0).bytes := by
    simp [hd, Contents.slice, Contents.readFromDataSource]
  obtain ⟨f, m', cs', h, hbody, hcont⟩ := nextFrameToSend_fill codec hraw cs frameSize m hack hc
    hF (by rw [hslice, bytes_length]; omega)
  obtain ⟨-, -, -, -, hff, -⟩ := nextFrameToSend_frame hack h
  rw [hd] at hcont
  have hsrc : m'.contents.dataSource = some s.next := by
    simp [hcont, Contents.readFromDataSource, hkeep]
  have hmore : m'.contents.hasMoreDataToSend = true := by
    simp [Contents.hasMoreDataToSend, hsrc]
  have hlen : m'.contents.unsentDataBuffer.length =
      sizeT (s.call 0).result - (frameSize - kChecksumSize) := by
    simp [hcont, Contents.advance, Contents.readFromDataSource]
  refine ⟨f, m', cs', h, ?_, hsrc, by omega, by omega, hmore, by simp [hff, hmore]⟩
  rw [hbody, hslice, Reply.bytes, upTo_take, Nat.min_eq_left (by omega)]

def failingSource : DataSource := ⟨fun _ => ⟨-1, fun _ => 0⟩⟩

theorem nextFrameToSend_source_error_ex :
    (failingSource.call 0).result = -1 ∧
      ∃ f m' cs', (MessageOut.new requestFlags 1 [] (some failingSource)).nextFrameToSend
          copyCodec 0 16384 = .ok (f, m', cs') ∧
        f.body = upTo (failingSource.call 0).buffer (16384 - kChecksumSize) ∧
        m'.contents.dataSource = some failingSource.next ∧
        m'.contents.unsentDataBuffer.length + (16384 - kChecksumSize) =
          sizeT (failingSource.call 0).result ∧
        kDataBufferSize < m'.contents.unsentDataBuffer.length ∧
        m'.contents.hasMoreDataToSend = true ∧ f.flags.moreComing = true :=
  ⟨rfl, nextFrameToSend_source_error copyCodec copyCodec_rawCopies 0
    (MessageOut.new requestFlags 1 [] (some failingSource)) failingSource rfl rfl rfl
    rfl rfl (by decide) (by decide) 16384 (by decide) (by decide)⟩

/-- Two contents that differ at most in what their sources return after call `k`. -/
structure SameUpTo (k : Nat) (c c' : Contents) : Prop where
  payload : c.payload = c'.payload
  unsentPayload : c.unsentPayload = c'.unsentPayload
  unsentDataBuffer : c.unsentDataBuffer = c'.unsentDataBuffer
  none_iff : c.dataSource = none ↔ c'.dataSource = none
  calls : ∀ s s', c.dataSource = some s → c'.dataSource = some s' → ∀ i ≤ k, s.call i = s'.call i

theorem SameUpTo.hasMore {k : Nat} {c c' : Contents} (h : SameUpTo k c c') :
    c.hasMoreDataToSend = c'.hasMoreDataToSend := by
  have hn : c.dataSource.isSome = c'.dataSource.isSome := by
    cases hs : c.dataSource <;> cases hs' : c'.dataSource
    · rfl
    · exact absurd (h.none_iff.mp hs) (by simp [hs'])
    · exact absurd (h.none_iff.mpr hs') (by simp [hs])
    · rfl
  simp [Contents.hasMoreDataToSend, h.unsentPayload, h.unsentDataBuffer, hn]

theorem SameUpTo.slice {k : Nat} {c c' : Contents} (h : SameUpTo k c c') (slot : Slot) :
    c.slice slot = c'.slice slot := by
  cases slot
  · exact h.unsentPayload
  · exact h.unsentDataBuffer

theorem SameUpTo.advance {k : Nat} {c c' : Contents} (h : SameUpTo k c c') (slot : Slot)
    (n : Nat) : SameUpTo k (c.advance slot n) (c'.advance slot n) := by
  cases slot
  · exact ⟨h.payload, by simp [Contents.advance, h.unsentPayload], h.unsentDataBuffer,
      h.none_iff, h.calls⟩
  · exact ⟨h.payload, h.unsentPayload, by simp [Contents.advance, h.unsentDataBuffer],
      h.none_iff, h.calls⟩

theorem SameUpTo.reset {k : Nat} {c c' : Contents} (h : SameUpTo k c c') :
    SameUpTo k { c with payload := none } { c' with payload := none } :=
  ⟨rfl, h.unsentPayload, h.unsentDataBuffer, h.none_iff, h.calls⟩

theorem SameUpTo.read {k : Nat} {c c' : Contents} {s s' : DataSource} (h : SameUpTo k c c')
    (hs : c.dataSource = some s) (hs' : c'.dataSource = some s') (hk : s.EndsAt k) :
    SameUpTo (k - 1) (c.readFromDataSource s) (c'.readFromDataSource s') ∧
      (c.readFromDataSource s).EndsAt (k - 1) := by
  have h0 : s.call 0 = s'.call 0 := h.calls s s' hs hs' 0 (Nat.zero_le _)
  have hend : (c.readFromDataSource s).EndsAt (k - 1) := by
    cases k with
    | zero =>
      intro s₁ h₁
      simp [Contents.readFromDataSource, sizeT_short hk.2.1 hk.2.2] at h₁
    | succ k =>
      intro s₁ h₁
      simp only [Contents.readFromDataSource, sizeT_full (hk.1 0 (by omega)), Nat.lt_irrefl,
        if_false, Option.some.injEq] at h₁
      exact h₁ ▸ EndsAt.next hk
  refine ⟨⟨h.payload, h.unsentPayload, by simp [Contents.readFromDataSource, h0], ?_, ?_⟩, hend⟩
  · simp [Contents.readFromDataSource, h0]
  · intro s₁ s₁' h₁ h₁' i hi
    by_cases hshort : sizeT (s.call 0).result < kDataBufferSize
    · simp [Contents.readFromDataSource, hshort] at h₁
    · have hk1 : 1 ≤ k := by
        by_contra hk0
        obtain rfl : k = 0 := by omega
        exact hshort (sizeT_short hk.2.1 hk.2.2)
      have hshort' : ¬ sizeT (s'.call 0).result < kDataBufferSize := h0 ▸ hshort
      simp only [Contents.readFromDataSource, h0, hshort', if_false, Option.some.injEq] at h₁ h₁'
      subst h₁ h₁'
      exact h.calls s s' hs hs' (i + 1) (by omega)

theorem SameUpTo.dataToSend {k : Nat} {c c' : Contents} (h : SameUpTo k c c')
    (hk : c.EndsAt k) : c.dataToSend.1 = c'.dataToSend.1 ∧
      ∃ k', SameUpTo k' c.dataToSend.2 c'.dataToSend.2 ∧ c.dataToSend.2.EndsAt k' := by
  rcases dataToSend_cases c with ⟨hp, he⟩ | ⟨hp, s, hb, hs, he⟩ | ⟨hp, hor, he⟩
  · have he' : c'.dataToSend = (.unsentPayload, c') := by
      simp [Contents.dataToSend, ← h.unsentPayload, hp]
    rw [he, he']
    exact ⟨rfl, k, h, hk⟩
  · obtain ⟨s', hs'⟩ : ∃ s', c'.dataSource = some s' := by
      cases hs' : c'.dataSource with
      | none => exact absurd (h.none_iff.mpr hs') (by simp [hs])
      | some s' => exact ⟨s', rfl⟩
    have he' : c'.dataToSend =
        (.unsentDataBuffer, { c' with payload := none }.readFromDataSource s') := by
      simp [Contents.dataToSend, ← h.unsentPayload, hp, ← h.unsentDataBuffer, hb, hs']
    rw [he, he']
    exact ⟨rfl, k - 1, h.reset.read hs hs' (hk s hs)⟩
  · have he' : c'.dataToSend = (.unsentDataBuffer, { c' with payload := none }) := by
      rcases hor with hb | hs
      · obtain ⟨b, bs, hbs⟩ := List.exists_cons_of_ne_nil hb
        simp [Contents.dataToSend, ← h.unsentPayload, hp, ← h.unsentDataBuffer, hbs]
      · simp [Contents.dataToSend, ← h.unsentPayload, hp, h.none_iff.mp hs]
    rw [he, he']
    exact ⟨rfl, k, h.reset, fun s hs => hk s hs⟩

structure LoopSame {σ : Type} (k : Nat) (st st' : LoopState σ) : Prop where
  contents : SameUpTo k st.contents st'.contents
  endsAt : st.contents.EndsAt k
  codec : st.codec = st'.codec
  room : st.room = st'.room
  written : st.written = st'.written
  sent : st.sent = st'.sent

theorem LoopSame.slice {σ : Type} {k : Nat} {st st' : LoopState σ} (h : LoopSame k st st') :
    st.contents.dataToSend.2.slice st.contents.dataToSend.1 =
      st'.contents.dataToSend.2.slice st'.contents.dataToSend.1 := by
  obtain ⟨hslot, k', hs, -⟩ := h.contents.dataToSend h.endsAt
  rw [← hslot, hs.slice]

theorem frameStep_same {σ : Type} (codec : Codec σ) (mode : Mode) {k : Nat}
    {st st' : LoopState σ} (h : LoopSame k st st') :
    ∃ k', LoopSame k' (frameStep codec mode st) (frameStep codec mode st') := by
  obtain ⟨hslot, k', hs, he⟩ := h.contents.dataToSend h.endsAt
  have hw : codec.write st'.codec (st'.contents.dataToSend.2.slice st'.contents.dataToSend.1)
      st'.room mode =
      codec.write st.codec (st.contents.dataToSend.2.slice st.contents.dataToSend.1) st.room mode := by
    rw [h.slice, h.codec, h.room]
  refine ⟨k', ⟨?_, advance_endsAt _ _ _ _ he, ?_, ?_, ?_, ?_⟩⟩ <;> simp only [frameStep] <;>
    rw [hw]
  · rw [← hslot]; exact hs.advance _ _
  · rw [h.room]
  · rw [h.written]
  · rw [slice_advance, slice_advance, h.sent, h.slice]

theorem frameLoop_same {σ : Type} (codec : Codec σ) (mode : Mode) (st : LoopState σ) :
    ∀ {k : Nat} {st' : LoopState σ}, LoopSame k st st' →
      ∃ k', LoopSame k' (frameLoop codec mode st) (frameLoop codec mode st') := by
  induction st using frameLoop.induct codec mode with
  | case1 st hd =>
    intro k st' h
    rw [frameLoop_nil codec mode st hd, frameLoop_nil codec mode st' (h.slice ▸ hd)]
    obtain ⟨-, k', hs, he⟩ := h.contents.dataToSend h.endsAt
    exact ⟨k', hs, he, h.codec, h.room, h.written, h.sent⟩
  | case2 st hd hr ih =>
    intro k st' h
    obtain ⟨k', h'⟩ := frameStep_same codec mode h
    rw [frameLoop_more codec mode st hd hr, frameLoop_more codec mode st'
      (by simp [← h.slice, hd]) (h'.room ▸ hr)]
    exact ih h'
  | case3 st hd hr =>
    intro k st' h
    obtain ⟨k', h'⟩ := frameStep_same codec mode h
    rw [frameLoop_last codec mode st hd hr, frameLoop_last codec mode st'
      (by simp [← h.slice, hd]) (h'.room ▸ hr)]
    exact ⟨k', h'⟩

structure MsgSame (k : Nat) (m m' : MessageOut) : Prop where
  contents : SameUpTo k m.contents m'.contents
  endsAt : m.contents.EndsAt k
  others : m' = { m with contents := m'.contents }

theorem finishFrame_same {σ : Type} (codec : Codec σ) {k : Nat} (m : MessageOut) (c' : Contents)
    {r r' : LoopState σ} (hr : LoopSame k r r') {f : SentFrame} {m₁ : MessageOut} {cs₁ : σ}
    (h : m.finishFrame codec r = .ok (f, m₁, cs₁)) :
    ∃ m₁', ({ m with contents := c' } : MessageOut).finishFrame codec r' = .ok (f, m₁', cs₁) ∧
      MsgSame k m₁ m₁' := by
  unfold MessageOut.finishFrame at h ⊢
  rw [← hr.codec, ← hr.written, ← hr.sent, ← hr.contents.hasMore]
  split at h
  · cases h
  · next hu =>
    rw [if_neg hu]
    split at h
    · cases h
    · next body hb =>
      rw [hb]
      simp only [Except.ok.injEq, Prod.mk.injEq] at h
      obtain ⟨rfl, rfl, rfl⟩ := h
      exact ⟨_, rfl, hr.contents, hr.endsAt, rfl⟩

theorem nextFrameToSend_same {σ : Type} (codec : Codec σ) (cs : σ) (frameSize : Nat) {k : Nat}
    {m m' : MessageOut} (hm : MsgSame k m m') (hack : m.flags.isAck = false) {f : SentFrame}
    {m₁ : MessageOut} {cs₁ : σ} (h : m.nextFrameToSend codec cs frameSize = .ok (f, m₁, cs₁)) :
    ∃ k' m₁', m'.nextFrameToSend codec cs frameSize = .ok (f, m₁', cs₁) ∧ MsgSame k' m₁ m₁' := by
  rw [hm.others]
  simp only [MessageOut.nextFrameToSend, hack, Bool.false_eq_true, if_false] at h ⊢
  have hl₀ : LoopSame k
      (⟨m.contents, cs, frameSize - kChecksumSize, [], m.uncompressedBytesSent⟩ : LoopState σ)
      ⟨m'.contents, cs, frameSize - kChecksumSize, [], m.uncompressedBytesSent⟩ :=
    ⟨hm.contents, hm.endsAt, rfl, rfl, rfl, rfl⟩
  obtain ⟨k', hl⟩ := frameLoop_same codec (frameMode m.flags) _ hl₀
  exact ⟨k', finishFrame_same codec m m'.contents hl h⟩

theorem sendFrames_same {σ : Type} (codec : Codec σ) (frameSize : Nat) (n : Nat) :
    ∀ {k : Nat} {m m' : MessageOut} (cs : σ) {frames : List SentFrame} {m₁ : MessageOut}
      {cs₁ : σ}, MsgSame k m m' → m.flags.isAck = false →
      sendFrames codec frameSize n m cs = .ok (frames, m₁, cs₁) →
      ∃ k' m₁', sendFrames codec frameSize n m' cs = .ok (frames, m₁', cs₁) ∧
        MsgSame k' m₁ m₁' := by
  induction n with
  | zero =>
    intro k m m' cs frames m₁ cs₁ hm _ h
    simp only [sendFrames, Except.ok.injEq, Prod.mk.injEq] at h
    obtain ⟨rfl, rfl, rfl⟩ := h
    exact ⟨k, m', rfl, hm⟩
  | succ n ih =>
    intro k m m' cs frames m₁ cs₁ hm hack h
    cases hmore : m.contents.hasMoreDataToSend with
    | false =>
      rw [sendFrames_done codec frameSize _ m cs hmore] at h
      simp only [Except.ok.injEq, Prod.mk.injEq] at h
      obtain ⟨rfl, rfl, rfl⟩ := h
      exact ⟨k, m', sendFrames_done codec frameSize _ m' cs (hm.contents.hasMore ▸ hmore), hm⟩
    | true =>
      obtain ⟨f, m₂, cs₂, fs, hf, hrun, rfl⟩ :=
        sendFrames_inv codec frameSize n m m₁ cs cs₁ frames hmore h
      obtain ⟨k₂, m₂', hf', hm₂⟩ := nextFrameToSend_same codec cs frameSize hm hack hf
      obtain ⟨-, hfl, -⟩ := nextFrameToSend_frame hack hf
      obtain ⟨k', m₁', hrun', hm₁⟩ := ih cs₂ hm₂ (hfl ▸ hack) hrun
      refine ⟨k', m₁', ?_, hm₁⟩
      rw [sendFrames_step codec frameSize n m' m₂' cs cs₂ f (hm.contents.hasMore ▸ hmore) hf',
        hrun']

theorem new_same (flags : FrameFlags) (number : Nat) (p : List UInt8) (src src' : DataSource)
    (k : Nat) (hk : src.EndsAt k) (hsame : ∀ i ≤ k, src.call i = src'.call i) :
    MsgSame k (MessageOut.new flags number p (some src))
      (MessageOut.new flags number p (some src')) :=
  ⟨⟨rfl, rfl, rfl, by simp [MessageOut.new, Contents.new], fun s s' hs hs' => by
    cases hs; cases hs'; exact hsame⟩, new_endsAt p src k hk, rfl⟩

/-- Any call that returns fewer than `kDataBufferSize` bytes ends the source ("End of data
source"), a short positive read included. Through any codec, every run of a fresh message sends
the same frames whatever the source would return after call `k`, and the bytes the codec takes
are the front of the payload and the chunks of calls `0` to `k`, all of them once the run is
over. Through a copying codec the run ends, its bodies are those bytes, and its last frame keeps
the message's own `kMoreComing`. -/
theorem sendFrames_short_read_ends {σ : Type} (codec : Codec σ) (cs : σ) (flags : FrameFlags)
    (number : Nat) (hack : flags.isAck = false) (p : List UInt8) (src src' : DataSource) (k : Nat)
    (hk : src.EndsAt k) (hsame : ∀ i ≤ k, src.call i = src'.call i) (frameSize : Nat) :
    (∀ n frames m₁ cs₁,
      sendFrames codec frameSize n (MessageOut.new flags number p (some src)) cs =
        .ok (frames, m₁, cs₁) →
      (∃ m₁', sendFrames codec frameSize n (MessageOut.new flags number p (some src')) cs =
          .ok (frames, m₁', cs₁) ∧
        m₁'.contents.hasMoreDataToSend = m₁.contents.hasMoreDataToSend) ∧
      ∃ taken, taken <+: p ++ src.chunks k ∧ m₁.uncompressedBytesSent = taken.length % 2 ^ 32 ∧
        (m₁.contents.hasMoreDataToSend = false → taken = p ++ src.chunks k)) ∧
    (codec.RawCopies → flags.compressed = false → kChecksumSize < frameSize →
      ∃ n frames m₁ m₁' cs₁,
        sendFrames codec frameSize n (MessageOut.new flags number p (some src)) cs =
          .ok (frames, m₁, cs₁) ∧
        sendFrames codec frameSize n (MessageOut.new flags number p (some src')) cs =
          .ok (frames, m₁', cs₁) ∧
        m₁'.contents.hasMoreDataToSend = false ∧
        (frames.map SentFrame.body).flatten = p ++ src.chunks k ∧
        (∀ f ∈ frames.getLast?, f.flags.moreComing = flags.moreComing)) := by
  have hs₀ : (MessageOut.new flags number p (some src)).uncompressedBytesSent < 2 ^ 32 := by
    simp [MessageOut.new]
  refine ⟨fun n frames m₁ cs₁ hrun => ⟨?_, ?_⟩, fun hraw hc hF => ?_⟩
  · obtain ⟨k', m₁', hrun', hm⟩ :=
      sendFrames_same codec frameSize _ cs (new_same flags number p src src' k hk hsame) hack hrun
    exact ⟨m₁', hrun', hm.contents.hasMore.symm⟩
  · obtain ⟨taken, hd, hsent⟩ := sendFrames_took codec frameSize n _ cs hack hs₀ hrun
    obtain ⟨k', -, hp⟩ := hd.pending k (new_endsAt p src k hk)
    rw [MessageOut.new, new_pending] at hp
    refine ⟨taken, ⟨_, hp⟩, by rw [hsent]; simp [MessageOut.new], fun hdone => ?_⟩
    rw [← hp, pending_of_done _ k' hdone, List.append_nil]
  · obtain ⟨frames, m₁, cs₁, hrun, hdone, hjoin, -, -, hlast⟩ :=
      sendFrames_raw codec hraw frameSize hF _ (MessageOut.new flags number p (some src)) cs k
        hack hc hs₀ (new_endsAt p src k hk) (Nat.lt_succ_self _)
    obtain ⟨k', m₁', hrun', hm⟩ :=
      sendFrames_same codec frameSize _ cs (new_same flags number p src src' k hk hsame) hack hrun
    exact ⟨_, frames, m₁, m₁', cs₁, hrun, hrun', hm.contents.hasMore ▸ hdone,
      hjoin.trans (new_pending p src k), hlast⟩

theorem sendFrames_short_read_ends_ex :
    (DataSource.ofChunks [[0x61], [0x62]]).EndsAt 0 ∧
      (∀ i ≤ 0, (DataSource.ofChunks [[0x61], [0x62]]).call i =
        (DataSource.ofChunks [[0x61]]).call i) ∧
      (∃ n frames m₁ cs₁,
        sendFrames copyCodec 16 n
          (MessageOut.new requestFlags 1 [] (some (DataSource.ofChunks [[0x61], [0x62]]))) 0 =
          .ok (frames, m₁, cs₁) ∧
        (∃ m₁', sendFrames copyCodec 16 n
            (MessageOut.new requestFlags 1 [] (some (DataSource.ofChunks [[0x61]]))) 0 =
            .ok (frames, m₁', cs₁) ∧
          m₁'.contents.hasMoreDataToSend = m₁.contents.hasMoreDataToSend) ∧
        ∃ taken, taken <+: [] ++ (DataSource.ofChunks [[0x61], [0x62]]).chunks 0 ∧
          m₁.uncompressedBytesSent = taken.length % 2 ^ 32 ∧
          (m₁.contents.hasMoreDataToSend = false →
            taken = [] ++ (DataSource.ofChunks [[0x61], [0x62]]).chunks 0)) ∧
      ∃ n frames m₁ m₁' cs₁,
        sendFrames copyCodec 16 n
          (MessageOut.new requestFlags 1 [] (some (DataSource.ofChunks [[0x61], [0x62]]))) 0 =
          .ok (frames, m₁, cs₁) ∧
        sendFrames copyCodec 16 n
          (MessageOut.new requestFlags 1 [] (some (DataSource.ofChunks [[0x61]]))) 0 =
          .ok (frames, m₁', cs₁) ∧
        m₁'.contents.hasMoreDataToSend = false ∧
        (frames.map SentFrame.body).flatten =
          [] ++ (DataSource.ofChunks [[0x61], [0x62]]).chunks 0 ∧
        (∀ f ∈ frames.getLast?, f.flags.moreComing = requestFlags.moreComing) := by
  have hk : (DataSource.ofChunks [[0x61], [0x62]]).EndsAt 0 :=
    ⟨fun _ h => absurd h (Nat.not_lt_zero _), by decide, by decide⟩
  have hsame : ∀ i ≤ 0, (DataSource.ofChunks [[0x61], [0x62]]).call i =
      (DataSource.ofChunks [[0x61]]).call i := by
    intro i hi; cases Nat.le_zero.mp hi; rfl
  obtain ⟨hany, hcopy⟩ := sendFrames_short_read_ends copyCodec 0 requestFlags 1 rfl [] _ _ 0 hk
    hsame 16
  have hrun := hcopy copyCodec_rawCopies rfl (by decide)
  obtain ⟨n, frames, m₁, -, cs₁, h₁, -⟩ := id hrun
  exact ⟨hk, hsame, ⟨n, frames, m₁, cs₁, h₁, hany n frames m₁ cs₁ h₁⟩, hrun⟩

/-- A source that returns one byte, then one more, then `0`: the second byte is never sent. -/
theorem short_read_drops_rest :
    ∃ n frames m' cs', sendFrames copyCodec 16 n
        (MessageOut.new requestFlags 1 [] (some (DataSource.ofChunks [[0x61], [0x62]]))) 0 =
        .ok (frames, m', cs') ∧
      m'.contents.hasMoreDataToSend = false ∧ (frames.map SentFrame.body).flatten = [0x61] := by
  have hk : (DataSource.ofChunks [[0x61], [0x62]]).EndsAt 0 :=
    ⟨fun _ h => absurd h (Nat.not_lt_zero _), by decide, by decide⟩
  obtain ⟨frames, m', cs', hrun, hdone, hjoin, -⟩ :=
    sendFrames_raw copyCodec copyCodec_rawCopies 16 (by decide) 2
      (MessageOut.new requestFlags 1 [] (some (DataSource.ofChunks [[0x61], [0x62]]))) 0 0
      rfl rfl (by decide) (new_endsAt _ _ 0 hk) (by rw [MessageOut.new, new_pending]; decide)
  exact ⟨2, frames, m', cs', hrun, hdone, by rw [hjoin, MessageOut.new, new_pending]; decide⟩

end Blip.Streaming