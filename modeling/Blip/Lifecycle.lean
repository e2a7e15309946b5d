import Blip.Sender

/-!
# The life of an outgoing message

A run asks a message for frames of any size and passes it acks that come late, duplicated or
past what was sent. Each of the three `uint32_t` counters is its true total modulo `2 ^ 32`,
and `unackedBytes` is what lies past the largest ack in range.
-/

set_option autoImplicit false

namespace Blip.Lifecycle
open Blip.Wire Blip.Compression Blip.Payload Blip.Sender

inductive Event where
  | frame (f : SentFrame)
  | ack (count : Nat)

/-- The runs of a message that starts as `m₀`, with the codec in state `cs₀`, each with its
log, newest first. A call that throws ends the run. -/
inductive Reach {σ : Type} (codec : Codec σ) (m₀ : MessageOut) (cs₀ : σ) :
    MessageOut → σ → List Event → Prop where
  | start : Reach codec m₀ cs₀ m₀ cs₀ []
  | frame {m m' : MessageOut} {cs cs' : σ} {log : List Event} {f : SentFrame} (frameSize : Nat) :
      Reach codec m₀ cs₀ m cs log → m.nextFrameToSend codec cs frameSize = .ok (f, m', cs') →
      Reach codec m₀ cs₀ m' cs' (.frame f :: log)
  | ack {m : MessageOut} {cs : σ} {log : List Event} (count : Nat) :
      Reach codec m₀ cs₀ m cs log →
      Reach codec m₀ cs₀ (m.receivedAck count) cs (.ack count :: log)

def sentTotal : List Event → Nat
  | [] => 0
  | .frame f :: log => f.bytes.length + sentTotal log
  | .ack _ :: log => sentTotal log

/-- The largest count among the acks that, when they arrived, were within the bytes sent. -/
def ackedMax : List Event → Nat
  | [] => 0
  | .frame _ :: log => ackedMax log
  | .ack c :: log => if c ≤ sentTotal log then max (ackedMax log) c else ackedMax log

structure Inv (flags : FrameFlags) (p : List UInt8) (src : Option DataSource) (m : MessageOut)
    (log : List Event) : Prop where
  flags : m.flags = flags
  bytesSent : m.bytesSent = sentTotal log % 2 ^ 32
  unacked_lt : m.unackedBytes < 2 ^ 32
  consumed : ∃ taken, Drop (Contents.new p src) taken m.contents ∧
    m.uncompressedBytesSent = taken.length % 2 ^ 32
  window : sentTotal log < 2 ^ 32 →
    ackedMax log ≤ sentTotal log ∧ m.unackedBytes = sentTotal log - ackedMax log

section
variable {flags : FrameFlags} {p : List UInt8} {src : Option DataSource} {m : MessageOut}
  {log : List Event}

theorem inv_start (number : Nat) : Inv flags p src (MessageOut.new flags number p src) [] :=
  ⟨rfl, rfl, by simp [MessageOut.new], ⟨[], .refl _, rfl⟩, fun _ => ⟨le_refl _, rfl⟩⟩

theorem window_frame {S A U len : Nat} (hlt : len + S < 2 ^ 32) (hA : A ≤ S) (hU : U = S - A) :
    A ≤ len + S ∧ (U + len) % 2 ^ 32 = len + S - A := by
  subst hU
  have hsum : S - A + len = len + S - A := by rw [Nat.add_comm len S, Nat.sub_add_comm hA]
  refine ⟨Nat.le_trans hA (Nat.le_add_left S len), ?_⟩
  rw [hsum, Nat.mod_eq_of_lt (Nat.lt_of_le_of_lt (Nat.sub_le _ _) hlt)]

theorem inv_frame {σ : Type} {codec : Codec σ} {cs cs' : σ} {frameSize : Nat} {m' : MessageOut}
    {f : SentFrame} (hack : flags.isAck = false) (hi : Inv flags p src m log)
    (h : m.nextFrameToSend codec cs frameSize = .ok (f, m', cs')) :
    Inv flags p src m' (.frame f :: log) := by
  have hack' : m.flags.isAck = false := hi.flags ▸ hack
  obtain ⟨-, hfl, hb, hu, -, -⟩ := nextFrameToSend_frame hack' h
  obtain ⟨taken, hc, hunc⟩ := hi.consumed
  obtain ⟨t, hd, hs, -, -⟩ :=
    nextFrameToSend_took hack' (by rw [hunc]; exact Nat.mod_lt _ (Nat.two_pow_pos 32)) h
  refine ⟨hfl.trans hi.flags, ?_, by rw [hu]; exact Nat.mod_lt _ (Nat.two_pow_pos 32),
    ⟨taken ++ t, hc.trans hd, ?_⟩, fun hlt => ?_⟩
  · rw [hb, hi.bytesSent, Nat.mod_add_mod, Nat.add_comm]; rfl
  · rw [hs, hunc, List.length_append, Nat.mod_add_mod]
  · obtain ⟨hle, hw⟩ := hi.window (Nat.lt_of_le_of_lt (Nat.le_add_left _ _) hlt)
    rw [hu]
    exact window_frame hlt hle hw

theorem window_ack {S A U c : Nat} (hA : A ≤ S) (hU : U = S - A) :
    (if c ≤ S then max A c else A) ≤ S ∧
      (if c ≤ S then min U (S - c) else U) = S - (if c ≤ S then max A c else A) := by
  subst hU
  by_cases hc : c ≤ S
  · rw [if_pos hc, if_pos hc]
    exact ⟨Nat.max_le.mpr ⟨hA, hc⟩, Nat.sub_min_sub_left S A c⟩
  · rw [if_neg hc, if_neg hc]
    exact ⟨hA, rfl⟩

theorem inv_ack (c : Nat) (hi : Inv flags p src m log) :
    Inv flags p src (m.receivedAck c) (.ack c :: log) := by
  refine ⟨by rw [receivedAck_flags]; exact hi.flags, by rw [receivedAck_bytesSent]; exact hi.bytesSent,
    ?_, by rw [receivedAck_contents, receivedAck_uncompressedBytesSent]; exact hi.consumed,
    fun hlt => ?_⟩
  · rw [receivedAck_unackedBytes]
    split
    · exact Nat.lt_of_le_of_lt (Nat.min_le_left _ _) hi.unacked_lt
    · exact hi.unacked_lt
  · obtain ⟨hle, hw⟩ := hi.window hlt
    have hb : m.bytesSent = sentTotal log := hi.bytesSent.trans (Nat.mod_eq_of_lt hlt)
    rw [receivedAck_unackedBytes, hb]
    exact window_ack hle hw

theorem reach_inv {σ : Type} {codec : Codec σ} {cs₀ cs : σ} {number : Nat}
    (hack : flags.isAck = false)
    (h : Reach codec (MessageOut.new flags number p src) cs₀ m cs log) : Inv flags p src m log := by
  induction h with
  | start => exact inv_start number
  | frame _ _ hf ih => exact inv_frame hack ih hf
  | ack c _ ih => exact inv_ack c ih

end

/-- Over any interleaving of frames and acks, the acks late, duplicated or past what was sent,
while fewer than `2 ^ 32` frame bytes have gone out: `bytesSent` is the bytes of the frames
sent, `unackedBytes` is that less the largest ack count that was in range when it arrived, an
ack never raises `unackedBytes`, and an ack past `bytesSent` leaves the message as it was. -/
theorem reach_ackWindow {σ : Type} (codec : Codec σ) (cs₀ : σ) (flags : FrameFlags)
    (number : Nat) (p : List UInt8) (src : Option DataSource) (hack : flags.isAck = false)
    {m : MessageOut} {cs : σ} {log : List Event}
    (h : Reach codec (MessageOut.new flags number p src) cs₀ m cs log)
    (hlt : sentTotal log < 2 ^ 32) :
    m.bytesSent = sentTotal log ∧ m.unackedBytes = m.bytesSent - ackedMax log ∧
      m.unackedBytes ≤ m.bytesSent ∧
      ∀ c, (m.receivedAck c).unackedBytes ≤ m.unackedBytes ∧
        (m.bytesSent < c → m.receivedAck c = m) := by
  have hi := reach_inv hack h
  have hb : m.bytesSent = sentTotal log := by rw [hi.bytesSent, Nat.mod_eq_of_lt hlt]
  obtain ⟨hle, hw⟩ := hi.window hlt
  refine ⟨hb, by rw [hw, hb], by omega, fun c => ⟨?_, fun hc => ?_⟩⟩
  · rw [receivedAck_unackedBytes]; split <;> omega
  · unfold MessageOut.receivedAck; rw [if_neg (by omega)]

theorem twelve_byte_frame :
    ∃ f m cs, (MessageOut.new requestFlags 1 (List.replicate 12 7) none).nextFrameToSend copyCodec
        0 16 = .ok (f, m, cs) ∧ f.bytes.length = 16 ∧ m.contents.hasMoreDataToSend = false := by
  have hd : (MessageOut.new requestFlags 1 (List.replicate 12 7) none).contents.dataToSend =
      (.unsentPayload, Contents.new (List.replicate 12 7) none) := rfl
  have hack : (MessageOut.new requestFlags 1 (List.replicate 12 7) none).flags.isAck = false := rfl
  obtain ⟨f, m, cs, h, hbody, hcont⟩ := nextFrameToSend_fill copyCodec copyCodec_rawCopies 0 16 _
    hack rfl (by decide) (by rw [hd]; decide)
  obtain ⟨hsum, -⟩ := nextFrameToSend_frame hack h
  rw [hd] at hbody hcont
  refine ⟨f, m, cs, h, ?_, by rw [hcont]; decide⟩
  rw [SentFrame.bytes, List.length_append, hsum, hbody]
  rfl

theorem reach_ackWindow_ex :
    ∃ (m : MessageOut) (cs : UInt32) (f : SentFrame),
      Reach copyCodec (MessageOut.new requestFlags 1 (List.replicate 12 7) none) 0 m cs
        [.ack 7, .ack 3, .ack 9, .ack 5, .frame f] ∧
      sentTotal [.ack 7, .ack 3, .ack 9, .ack 5, .frame f] = 16 ∧
      ackedMax [.ack 7, .ack 3, .ack 9, .ack 5, .frame f] = 9 ∧
      m.bytesSent = sentTotal [.ack 7, .ack 3, .ack 9, .ack 5, .frame f] ∧
      m.unackedBytes = m.bytesSent - ackedMax [.ack 7, .ack 3, .ack 9, .ack 5, .frame f] ∧
      m.unackedBytes ≤ m.bytesSent ∧
      ∀ c, (m.receivedAck c).unackedBytes ≤ m.unackedBytes ∧
        (m.bytesSent < c → m.receivedAck c = m) := by
  obtain ⟨f, m, cs, h, hlen, -⟩ := twelve_byte_frame
  have hR := Reach.ack 7 (.ack 3 (.ack 9 (.ack 5 (.frame 16 .start h))))
  have hS : sentTotal [.ack 7, .ack 3, .ack 9, .ack 5, .frame f] = 16 := by
    simp only [sentTotal, hlen]
  have hA : ackedMax [.ack 7, .ack 3, .ack 9, .ack 5, .frame f] = 9 := by
    simp only [ackedMax, sentTotal, hlen]; decide
  exact ⟨_, cs, f, hR, hS, hA,
    reach_ackWindow copyCodec 0 requestFlags 1 _ none rfl hR (by rw [hS]; decide)⟩

/-- Over any run, each counter is its true total modulo `2 ^ 32`: `bytesSent` counts the bytes
of the frames sent and `uncompressedBytesSent` the bytes taken, in order, from the front of the
message's stream. `unackedBytes ≤ bytesSent` holds while the frames sent stay under `2 ^ 32`
bytes. -/
theorem reach_counters_mod {σ : Type} (codec : Codec σ) (cs₀ : σ) (flags : FrameFlags)
    (number : Nat) (p : List UInt8) (src : Option DataSource) (hack : flags.isAck = false)
    {m : MessageOut} {cs : σ} {log : List Event}
    (h : Reach codec (MessageOut.new flags number p src) cs₀ m cs log) :
    m.bytesSent = sentTotal log % 2 ^ 32 ∧
      (∃ taken, Drop (Contents.new p src) taken m.contents ∧
        m.uncompressedBytesSent = taken.length % 2 ^ 32) ∧
      m.unackedBytes < 2 ^ 32 ∧ (sentTotal log < 2 ^ 32 → m.unackedBytes ≤ m.bytesSent) := by
  have hi := reach_inv hack h
  refine ⟨hi.bytesSent, hi.consumed, hi.unacked_lt, fun hlt => ?_⟩
  have := hi.window hlt
  rw [hi.bytesSent, Nat.mod_eq_of_lt hlt]; omega

theorem reach_counters_mod_ex :
    ∃ (m : MessageOut) (cs : UInt32) (f : SentFrame),
      Reach copyCodec (MessageOut.new requestFlags 1 (List.replicate 12 7) none) 0 m cs
        [.ack 20, .ack 5, .frame f] ∧
      sentTotal [.ack 20, .ack 5, .frame f] = 16 ∧
      m.bytesSent = sentTotal [.ack 20, .ack 5, .frame f] % 2 ^ 32 ∧
      (∃ taken, Drop (Contents.new (List.replicate 12 7) none) taken m.contents ∧
        m.uncompressedBytesSent = taken.length % 2 ^ 32) ∧
      m.unackedBytes < 2 ^ 32 ∧
      (sentTotal [.ack 20, .ack 5, .frame f] < 2 ^ 32 → m.unackedBytes ≤ m.bytesSent) := by
  obtain ⟨f, m, cs, h, hlen, -⟩ := twelve_byte_frame
  have hR := Reach.ack 20 (.ack 5 (.frame 16 .start h))
  exact ⟨_, cs, f, hR, by simp only [sentTotal, hlen],
    reach_counters_mod copyCodec 0 requestFlags 1 _ none rfl hR⟩

theorem reach_fullFrames {σ : Type} (codec : Codec σ) (hraw : codec.RawCopies) (cs₀ : σ)
    (flags : FrameFlags) (number : Nat) (p : List UInt8) (hack : flags.isAck = false)
    (hc : flags.compressed = false) (frameSize : Nat) (hF : kChecksumSize < frameSize) (j : Nat)
    (hj : j * (frameSize - kChecksumSize) ≤ p.length) :
    ∃ (m : MessageOut) (cs : σ) (fs : List SentFrame),
      Reach codec (MessageOut.new flags number p none) cs₀ m cs (fs.map .frame) ∧
      m.contents.unsentPayload = p.drop (j * (frameSize - kChecksumSize)) ∧
      sentTotal (fs.map .frame) = j * frameSize := by
  induction j with
  | zero => exact ⟨_, _, [], .start, by simp [MessageOut.new, Contents.new], by simp [sentTotal]⟩
  | succ j ih =>
    have hstep := Nat.add_one_mul j (frameSize - kChecksumSize)
    obtain ⟨m, cs, fs, hr, hp, hs⟩ := ih (by omega)
    have hi := reach_inv hack hr
    have hlen : frameSize - kChecksumSize ≤ m.contents.unsentPayload.length := by
      rw [hp, List.length_drop]; omega
    have hd : m.contents.dataToSend = (.unsentPayload, m.contents) := by
      have := Nat.sub_pos_of_lt hF
      simp only [Contents.dataToSend, if_pos (show 0 < m.contents.unsentPayload.length by omega)]
    obtain ⟨f, m', cs', h, hbody, hcont⟩ := nextFrameToSend_fill codec hraw cs frameSize m
      (hi.flags ▸ hack) (hi.flags ▸ hc) hF (by rw [hd]; exact hlen)
    obtain ⟨hsum, -⟩ := nextFrameToSend_frame (hi.flags ▸ hack) h
    refine ⟨m', cs', f :: fs, .frame frameSize hr h, ?_, ?_⟩
    · rw [hcont, hd]
      simp only [Contents.advance, hp, List.drop_drop, Nat.add_one_mul]
    · simp only [List.map_cons, sentTotal, hs, SentFrame.bytes, List.length_append, hsum, hbody,
        hd, Contents.slice, List.length_take, Nat.min_eq_left hlen, Nat.add_one_mul]
      unfold kChecksumSize at hF ⊢; omega

/-- A request whose payload is `2 ^ 32 - 1` bytes, in 16384-byte frames with no ack: after
`2 ^ 18` frames, `2 ^ 32` bytes have gone out, `bytesSent` has wrapped to zero, and the message
still has data to send. -/
theorem bytesSent_wraps :
    ∃ (m : MessageOut) (cs : UInt32) (fs : List SentFrame),
      Reach copyCodec (MessageOut.new requestFlags 1 (List.replicate (2 ^ 32 - 1) 0) none) 0 m cs
        (fs.map .frame) ∧
      sentTotal (fs.map .frame) = 2 ^ 32 ∧ m.bytesSent = 0 ∧
      m.contents.hasMoreDataToSend = true := by
  obtain ⟨m, cs, fs, hr, hp, hs⟩ := reach_fullFrames copyCodec copyCodec_rawCopies 0 requestFlags
    1 (List.replicate (2 ^ 32 - 1) 0) rfl rfl 16384 (by decide) (2 ^ 18)
    (by simp only [List.length_replicate, kChecksumSize]; omega)
  have hi := reach_inv (by rfl) hr
  have hs' : sentTotal (fs.map .frame) = 2 ^ 32 := hs.trans (by omega)
  refine ⟨m, cs, fs, hr, hs', by rw [hi.bytesSent, hs', Nat.mod_self], ?_⟩
  have hlen : 0 < m.contents.unsentPayload.length := by
    rw [hp, List.length_drop, List.length_replicate]; simp only [kChecksumSize]; omega
  simp [Contents.hasMoreDataToSend, hlen]

end Blip.Lifecycle
