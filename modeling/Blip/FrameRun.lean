import Blip.Sender

/-!
# Sending a whole message

The multiplexer sends a message by calling `nextFrameToSend` for as long as
`hasMoreDataToSend()` holds. Through a copying codec, every frame but the last
carries body bytes, and the bodies of the frames, in order, are the message's
stream: its payload, then the source's chunks up to its first short call.
-/

set_option autoImplicit false

namespace Blip.FrameRun
open Blip.Wire Blip.Compression Blip.Payload Blip.Sender

/-- Frames of one message, sent while it has more data, at most `n` of them. -/
def sendFrames {σ : Type} (codec : Codec σ) (frameSize : Nat) :
    Nat → MessageOut → σ → Except String (List SentFrame × MessageOut × σ)
  | 0, m, cs => .ok ([], m, cs)
  | n + 1, m, cs =>
    if m.contents.hasMoreDataToSend then
      match m.nextFrameToSend codec cs frameSize with
      | .ok (f, m', cs') =>
        match sendFrames codec frameSize n m' cs' with
        | .ok (fs, m'', cs'') => .ok (f :: fs, m'', cs'')
        | .error e => .error e
      | .error e => .error e
    else .ok ([], m, cs)

section
variable {σ : Type} (codec : Codec σ) (frameSize : Nat)

theorem sendFrames_done (n : Nat) (m : MessageOut) (cs : σ)
    (h : m.contents.hasMoreDataToSend = false) : sendFrames codec frameSize n m cs = .ok ([], m, cs) := by
  cases n <;> simp [sendFrames, h]

theorem sendFrames_step (n : Nat) (m m' : MessageOut) (cs cs' : σ) (f : SentFrame)
    (h : m.contents.hasMoreDataToSend = true)
    (hf : m.nextFrameToSend codec cs frameSize = .ok (f, m', cs')) :
    sendFrames codec frameSize (n + 1) m cs =
      match sendFrames codec frameSize n m' cs' with
      | .ok (fs, m'', cs'') => .ok (f :: fs, m'', cs'')
      | .error e => .error e := by
  simp [sendFrames, h, hf]

theorem sendFrames_inv (n : Nat) (m m' : MessageOut) (cs cs' : σ) (frames : List SentFrame)
    (hmore : m.contents.hasMoreDataToSend = true)
    (h : sendFrames codec frameSize (n + 1) m cs = .ok (frames, m', cs')) :
    ∃ f m₁ cs₁ fs, m.nextFrameToSend codec cs frameSize = .ok (f, m₁, cs₁) ∧
      sendFrames codec frameSize n m₁ cs₁ = .ok (fs, m', cs') ∧ frames = f :: fs := by
  simp only [sendFrames, hmore, if_true] at h
  split at h
  · next f m₁ cs₁ hf =>
    split at h
    · next fs m₂ cs₂ hrun =>
      simp only [Except.ok.injEq, Prod.mk.injEq] at h
      obtain ⟨rfl, rfl, rfl⟩ := h
      exact ⟨f, m₁, cs₁, fs, hf, hrun, rfl⟩
    · cases h
  · cases h

theorem sendFrames_nil (n : Nat) (m m' : MessageOut) (cs cs' : σ)
    (h : sendFrames codec frameSize n m cs = .ok ([], m', cs')) : m' = m ∧ cs' = cs := by
  cases n with
  | zero => simp [sendFrames] at h; exact ⟨h.1.symm, h.2.symm⟩
  | succ n =>
    simp only [sendFrames] at h
    split at h
    · split at h
      · split at h <;> cases h
      · cases h
    · cases h; exact ⟨rfl, rfl⟩

theorem sendFrames_cons_more {n : Nat} {m m' : MessageOut} {cs cs' : σ} {f : SentFrame}
    {fs : List SentFrame} (h : sendFrames codec frameSize n m cs = .ok (f :: fs, m', cs')) :
    m.contents.hasMoreDataToSend = true := by
  by_contra hne
  rw [sendFrames_done codec frameSize n m cs (by simpa using hne)] at h
  cases h

end

theorem sendFrames_took {σ : Type} (codec : Codec σ) (frameSize n : Nat) :
    ∀ (m : MessageOut) (cs : σ) {frames : List SentFrame} {m₁ : MessageOut} {cs₁ : σ},
      m.flags.isAck = false → m.uncompressedBytesSent < 2 ^ 32 →
      sendFrames codec frameSize n m cs = .ok (frames, m₁, cs₁) →
      ∃ taken, Drop m.contents taken m₁.contents ∧
        m₁.uncompressedBytesSent = (m.uncompressedBytesSent + taken.length) % 2 ^ 32 := by
  have hnone : ∀ m : MessageOut, m.uncompressedBytesSent < 2 ^ 32 →
      ∃ taken, Drop m.contents taken m.contents ∧
        m.uncompressedBytesSent = (m.uncompressedBytesSent + taken.length) % 2 ^ 32 :=
    fun m hs => ⟨[], .refl _, (Nat.mod_eq_of_lt hs).symm⟩
  induction n with
  | zero => intro m cs frames m₁ cs₁ _ hs h; cases h; exact hnone m hs
  | succ n ih =>
    intro m cs frames m₁ cs₁ hack hs h
    cases hmore : m.contents.hasMoreDataToSend with
    | false => rw [sendFrames_done codec frameSize _ m cs hmore] at h; cases h; exact hnone m hs
    | true =>
      obtain ⟨f, m₂, cs₂, fs, hf, hrun, -⟩ := sendFrames_inv codec frameSize n m m₁ cs cs₁ frames hmore h
      obtain ⟨t₁, hd₁, hs₁, -, -⟩ := nextFrameToSend_took hack hs hf
      obtain ⟨hfl, -⟩ := nextFrameToSend_keeps hf
      obtain ⟨t₂, hd₂, hs₂⟩ := ih m₂ cs₂ (hfl ▸ hack) (by rw [hs₁]; omega) hrun
      exact ⟨t₁ ++ t₂, hd₁.trans hd₂, by rw [hs₂, hs₁, List.length_append]; omega⟩

theorem frame_raw {σ : Type} {codec : Codec σ} (hraw : codec.RawCopies) {cs cs' : σ}
    {frameSize : Nat} (hF : kChecksumSize < frameSize) {m m' : MessageOut} {f : SentFrame}
    (hack : m.flags.isAck = false) (hc : m.flags.compressed = false)
    (hs : m.uncompressedBytesSent < 2 ^ 32) (k : Nat) (hk : m.contents.EndsAt k)
    (h : m.nextFrameToSend codec cs frameSize = .ok (f, m', cs')) :
    ∃ k', m'.contents.EndsAt k' ∧ f.body ++ m'.contents.pending k' = m.contents.pending k ∧
      f.bytes.length ≤ frameSize ∧ f.checksum.length = 4 ∧ m'.flags = m.flags ∧
      m'.uncompressedBytesSent < 2 ^ 32 ∧ (f.body = [] → m'.contents.hasMoreDataToSend = false) ∧
      f.flags.moreComing = (m'.contents.hasMoreDataToSend || m.flags.moreComing) := by
  obtain ⟨taken, hd, hsent, hbody, hlen⟩ := nextFrameToSend_took hack hs h
  obtain ⟨hsum, hfl, -, -, hff, -⟩ := nextFrameToSend_frame hack h
  obtain ⟨k', hk', hp⟩ := hd.pending k hk
  refine ⟨k', hk', by rw [hbody hraw hc, hp], ?_, hsum, hfl, by rw [hsent]; omega,
    nextFrameToSend_idle hraw hack hc hF h, ?_⟩
  · simp only [SentFrame.bytes, List.length_append, hsum]
    unfold kChecksumSize at hF hlen; omega
  · rw [hff]; cases m'.contents.hasMoreDataToSend <;> simp

theorem sendFrames_raw {σ : Type} (codec : Codec σ) (hraw : codec.RawCopies) (frameSize : Nat)
    (hF : kChecksumSize < frameSize) (n : Nat) :
    ∀ (m : MessageOut) (cs : σ) (k : Nat), m.flags.isAck = false → m.flags.compressed = false →
      m.uncompressedBytesSent < 2 ^ 32 → m.contents.EndsAt k → (m.contents.pending k).length < n →
      ∃ frames m' cs', sendFrames codec frameSize n m cs = .ok (frames, m', cs') ∧
        m'.contents.hasMoreDataToSend = false ∧
        (frames.map SentFrame.body).flatten = m.contents.pending k ∧
        (∀ f ∈ frames, f.bytes.length ≤ frameSize ∧ f.checksum.length = 4) ∧
        (∀ f ∈ frames.dropLast, f.body ≠ [] ∧ f.flags.moreComing = true) ∧
        (∀ f ∈ frames.getLast?, f.flags.moreComing = m.flags.moreComing) := by
  induction n with
  | zero => intro m cs k _ _ _ _ hn; exact absurd hn (Nat.not_lt_zero _)
  | succ n ih =>
    intro m cs k hack hc hs hk hn
    cases hmore : m.contents.hasMoreDataToSend with
    | false =>
      refine ⟨[], m, cs, sendFrames_done codec frameSize _ m cs hmore, hmore, ?_, by simp,
        by simp, by simp⟩
      simp [pending_of_done _ k hmore]
    | true =>
      obtain ⟨f, m', cs', hf⟩ := nextFrameToSend_ok codec hraw cs frameSize m hack hc
      obtain ⟨k', hk', hp, hbytes, hsum, hfl, hs', hidle, hmc⟩ :=
        frame_raw hraw hF hack hc hs k hk hf
      rw [sendFrames_step codec frameSize n m m' cs cs' f hmore hf]
      by_cases hb : f.body = []
      · have hdone := hidle hb
        rw [sendFrames_done codec frameSize n m' cs' hdone]
        refine ⟨[f], m', cs', rfl, hdone, ?_, by simp [hbytes, hsum], by simp, ?_⟩
        · simp [← hp, hb, pending_of_done _ k' hdone]
        · simp [hmc, hdone]
      · have hlt : (m'.contents.pending k').length < n := by
          have := congrArg List.length hp
          simp only [List.length_append] at this
          have := List.length_pos.mpr hb
          omega
        obtain ⟨fs, m'', cs'', hrun, hdone, hjoin, hfit, hmid, hlast⟩ :=
          ih m' cs' k' (hfl ▸ hack) (hfl ▸ hc) hs' hk' hlt
        rw [hrun]
        refine ⟨f :: fs, m'', cs'', rfl, hdone, by simp [hjoin, hp], ?_, ?_, ?_⟩
        · exact List.forall_mem_cons.mpr ⟨⟨hbytes, hsum⟩, hfit⟩
        · cases fs with
          | nil => simp
          | cons g gs =>
            simp only [List.dropLast_cons₂, List.mem_cons, forall_eq_or_imp]
            exact ⟨⟨hb, by simp [hmc, sendFrames_cons_more codec frameSize hrun]⟩, hmid⟩
        · cases fs with
          | nil =>
            obtain ⟨rfl, -⟩ := sendFrames_nil codec frameSize n m' m'' cs' cs'' hrun
            simp [hmc, hdone]
          | cons g gs => rw [List.getLast?_cons_cons, ← hfl]; exact hlast

/-- An ack's frame carries its whole payload but never advances it: each call sends the same
frame again, with the message's own flags, and `hasMoreDataToSend()` stays true. -/
theorem sendFrames_ack_repeats {σ : Type} (codec : Codec σ) (frameSize : Nat) (cs : σ)
    (n : Nat) : ∀ (m : MessageOut), m.flags.isAck = true → m.contents.unsentPayload ≠ [] →
      m.contents.unsentPayload.length ≤ frameSize →
      ∃ m', sendFrames codec frameSize n m cs =
          .ok (List.replicate n ⟨m.contents.unsentPayload, [], m.flags, none⟩, m', cs) ∧
        m'.contents = m.contents ∧ m'.contents.hasMoreDataToSend = true := by
  induction n with
  | zero =>
    intro m _ hp _
    exact ⟨m, rfl, rfl, by simp [Contents.hasMoreDataToSend, List.length_pos.mpr hp]⟩
  | succ n ih =>
    intro m hack hp hfit
    have hd : m.contents.dataToSend = (.unsentPayload, m.contents) := by
      simp [Contents.dataToSend, List.length_pos.mpr hp]
    have hmore : m.contents.hasMoreDataToSend = true := by
      simp [Contents.hasMoreDataToSend, List.length_pos.mpr hp]
    have hf := nextFrameToSend_ack codec cs frameSize m hack
    simp only [hd, Contents.slice, hfit, if_true] at hf
    obtain ⟨m', hrun, hc, hm'⟩ :=
      ih { m with bytesSent := addU32 m.bytesSent m.contents.unsentPayload.length } hack hp hfit
    exact ⟨m', by rw [sendFrames_step codec frameSize n _ _ cs cs _ hmore hf, hrun]; rfl, hc, hm'⟩

theorem sendFrames_ack_repeats_ex :
    ackRequestFlags.isAck = true ∧ [0xD0, 0x86, 0x03] ≠ ([] : List UInt8) ∧
      ∃ m', sendFrames copyCodec 16384 3
          (MessageOut.new ackRequestFlags 7 [0xD0, 0x86, 0x03] none) 0 =
          .ok (List.replicate 3 ⟨[0xD0, 0x86, 0x03], [], ackRequestFlags, none⟩, m', 0) ∧
        m'.contents = Contents.new [0xD0, 0x86, 0x03] none ∧
        m'.contents.hasMoreDataToSend = true :=
  ⟨rfl, by simp, sendFrames_ack_repeats copyCodec 16384 0 3 _ rfl
    (by simp [MessageOut.new, Contents.new]) (by decide)⟩

end Blip.FrameRun
