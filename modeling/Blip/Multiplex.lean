import Blip.FrameRun

/-!
# Several messages on one connection

The multiplexer asks several messages for frames, in any order and through one codec, while
acks come back for any of them. The frames of each message carry its bytes in order, and every
frame's checksum is the running CRC-32 the receiver checks.
-/

set_option autoImplicit false

namespace Blip.Multiplex
open Blip.Wire Blip.Compression Blip.Payload Blip.Sender

/-- The sending side of a connection, as its outgoing messages see it: the messages by number,
the state of the codec they all share, and the frames sent so far, oldest first, each with the
number of its message. -/
structure Conn (σ : Type) where
  msgs : Nat → MessageOut
  codec : σ
  wire : List (Nat × SentFrame)

inductive Reach {σ : Type} (codec : Codec σ) (msgs₀ : Nat → MessageOut) (cs₀ : σ) :
    Conn σ → Prop where
  | start : Reach codec msgs₀ cs₀ ⟨msgs₀, cs₀, []⟩
  | frame {c : Conn σ} {f : SentFrame} {m : MessageOut} {cs : σ} (i frameSize : Nat) :
      Reach codec msgs₀ cs₀ c → (c.msgs i).nextFrameToSend codec c.codec frameSize = .ok (f, m, cs) →
      Reach codec msgs₀ cs₀ ⟨Function.update c.msgs i m, cs, c.wire ++ [(i, f)]⟩
  | ack {c : Conn σ} (i count : Nat) : Reach codec msgs₀ cs₀ c →
      Reach codec msgs₀ cs₀ ⟨Function.update c.msgs i ((c.msgs i).receivedAck count), c.codec, c.wire⟩

/-- Modelled from the spec (`MessageIn` is not in src/): the bytes the receiver joins for message
`i`, the bodies of its frames in the order they were sent. -/
def bodiesOf (i : Nat) (wire : List (Nat × SentFrame)) : List UInt8 :=
  (wire.filterMap fun e => if e.1 = i then some e.2.body else none).flatten

theorem bodiesOf_concat (i j : Nat) (wire : List (Nat × SentFrame)) (f : SentFrame) :
    bodiesOf i (wire ++ [(j, f)]) = bodiesOf i wire ++ if j = i then f.body else [] := by
  by_cases h : j = i <;> simp [bodiesOf, List.filterMap_append, h]

section Runs
variable {σ : Type} {codec : Codec σ} {msgs₀ : Nat → MessageOut} {cs₀ : σ} {c : Conn σ}

theorem reach_flags (h : Reach codec msgs₀ cs₀ c) (i : Nat) : (c.msgs i).flags = (msgs₀ i).flags := by
  induction h with
  | start => rfl
  | frame j _ _ hf ih =>
    dsimp only
    by_cases hj : i = j
    · subst hj; rw [Function.update_same, (nextFrameToSend_keeps hf).1, ih]
    · rw [Function.update_noteq hj, ih]
  | ack j _ _ ih =>
    dsimp only
    by_cases hj : i = j
    · subst hj; rw [Function.update_same, receivedAck_flags, ih]
    · rw [Function.update_noteq hj, ih]

structure Taken (m₀ m : MessageOut) (body : List UInt8) : Prop where
  drop : Drop m₀.contents body m.contents
  sent_lt : m.uncompressedBytesSent < 2 ^ 32

theorem reach_taken (hraw : codec.RawCopies) (h : Reach codec msgs₀ cs₀ c) {i : Nat}
    (hack : (msgs₀ i).flags.isAck = false) (hc : (msgs₀ i).flags.compressed = false)
    (hs : (msgs₀ i).uncompressedBytesSent < 2 ^ 32) : Taken (msgs₀ i) (c.msgs i) (bodiesOf i c.wire) := by
  induction h with
  | start => exact ⟨.refl _, hs⟩
  | frame j _ hr hf ih =>
    dsimp only
    rw [bodiesOf_concat]
    by_cases hj : j = i
    · subst hj
      have hfl := reach_flags hr j
      obtain ⟨t, hd, hu, hbody, -⟩ := nextFrameToSend_took (hfl ▸ hack) ih.sent_lt hf
      rw [if_pos rfl, Function.update_same, hbody hraw (hfl ▸ hc)]
      exact ⟨ih.drop.trans hd, hu ▸ Nat.mod_lt _ (Nat.two_pow_pos 32)⟩
    · rw [if_neg hj, List.append_nil, Function.update_noteq (Ne.symm hj)]
      exact ih
  | ack j _ _ ih =>
    dsimp only
    by_cases hj : i = j
    · subst hj
      rw [Function.update_same]
      exact ⟨(receivedAck_contents _ _).symm ▸ ih.drop,
        (receivedAck_uncompressedBytesSent _ _).symm ▸ ih.sent_lt⟩
    · rw [Function.update_noteq hj]
      exact ih

/-- Over every run of a connection whose codec copies, with frames of any size asked of any
message in any order and acks of any count passed to any message: for each non-ack,
uncompressed message whose source, if any, ends at call `k`, the bodies of its frames on the
wire, in order and followed by what it still has to send, are its whole stream, its payload then
its source's chunks. Once it has nothing more to send, the bodies alone are the whole stream. -/
theorem connection_demultiplexes (hraw : codec.RawCopies) (h : Reach codec msgs₀ cs₀ c) (i : Nat)
    (hack : (msgs₀ i).flags.isAck = false) (hc : (msgs₀ i).flags.compressed = false)
    (hs : (msgs₀ i).uncompressedBytesSent < 2 ^ 32) (k : Nat) (hk : (msgs₀ i).contents.EndsAt k) :
    ∃ k', (c.msgs i).contents.EndsAt k' ∧
      bodiesOf i c.wire ++ (c.msgs i).contents.pending k' = (msgs₀ i).contents.pending k ∧
      ((c.msgs i).contents.hasMoreDataToSend = false → bodiesOf i c.wire = (msgs₀ i).contents.pending k) := by
  obtain ⟨k', hk', hp⟩ := (reach_taken hraw h hack hc hs).drop.pending k hk
  refine ⟨k', hk', hp, fun hdone => ?_⟩
  rw [← hp, Payload.pending_of_done _ k' hdone, List.append_nil]

end Runs

theorem interleaved_run :
    ∃ c : Conn UInt32, Reach copyCodec (fun i => MessageOut.new requestFlags i [1, 2, 3] none) 0 c ∧
      c.wire.map Prod.fst = [1, 0] := by
  obtain ⟨f₁, m₁, cs₁, h₁⟩ := nextFrameToSend_ok copyCodec copyCodec_rawCopies 0 6
    (MessageOut.new requestFlags 1 [1, 2, 3] none) rfl rfl
  obtain ⟨f₂, m₂, cs₂, h₂⟩ := nextFrameToSend_ok copyCodec copyCodec_rawCopies cs₁ 6
    (MessageOut.new requestFlags 0 [1, 2, 3] none) rfl rfl
  exact ⟨_, .frame 0 6 (.frame 1 6 .start h₁) h₂, rfl⟩

theorem connection_demultiplexes_ex :
    ∃ c : Conn UInt32, Reach copyCodec (fun i => MessageOut.new requestFlags i [1, 2, 3] none) 0 c ∧
      c.wire.map Prod.fst = [1, 0] ∧
      ∃ k', (c.msgs 0).contents.EndsAt k' ∧
        bodiesOf 0 c.wire ++ (c.msgs 0).contents.pending k' = (Contents.new [1, 2, 3] none).pending 0 ∧
        ((c.msgs 0).contents.hasMoreDataToSend = false →
          bodiesOf 0 c.wire = (Contents.new [1, 2, 3] none).pending 0) := by
  obtain ⟨c, hr, hw⟩ := interleaved_run
  exact ⟨c, hr, hw, connection_demultiplexes copyCodec_rawCopies hr 0 rfl rfl (by decide) 0
    fun _ h => Option.noConfusion h⟩

/-- Modelled from the spec (`MessageIn` and the reading side of `Codec` are not in src/): the
receiver keeps a running CRC-32 over the bodies of the non-ack frames it reads, in the order it
reads them, and checks each one's checksum against it; a mismatch closes the connection. -/
def readChecksums (crc : UInt32) : List SentFrame → Option UInt32
  | [] => some crc
  | f :: fs =>
    if f.flags.isAck then readChecksums crc fs
    else if f.checksum = bigEndian (crc32 crc f.body) then readChecksums (crc32 crc f.body) fs
    else none

theorem readChecksums_append (crc : UInt32) (l₁ l₂ : List SentFrame) :
    readChecksums crc (l₁ ++ l₂) = (readChecksums crc l₁).bind fun crc' => readChecksums crc' l₂ := by
  induction l₁ generalizing crc with
  | nil => rfl
  | cons f fs ih =>
    simp only [List.cons_append, readChecksums]
    split_ifs <;> simp [ih]

theorem frameLoop_copyCodec (mode : Mode) (st : LoopState UInt32) :
    ∃ out, (frameLoop copyCodec mode st).written = st.written ++ out ∧
      (frameLoop copyCodec mode st).codec = crc32 st.codec out := by
  induction st using frameLoop.induct copyCodec mode with
  | case1 st h => exact ⟨[], by simp [frameLoop_nil copyCodec mode st h, crc32_nil]⟩
  | case2 st h hr ih =>
    obtain ⟨out, hw, hc⟩ := ih
    rw [frameLoop_more copyCodec mode st h hr, hw, hc]
    exact ⟨_, List.append_assoc _ _ _, crc32_append _ _ _⟩
  | case3 st h hr =>
    rw [frameLoop_last copyCodec mode st h hr]
    exact ⟨_, rfl, rfl⟩

theorem readChecksums_frame {cs cs' : UInt32} {frameSize : Nat} {m m' : MessageOut} {f : SentFrame}
    (hc : m.flags.compressed = false) (h : m.nextFrameToSend copyCodec cs frameSize = .ok (f, m', cs')) :
    readChecksums cs [f] = some cs' := by
  cases hack : m.flags.isAck with
  | true =>
    rw [nextFrameToSend_ack copyCodec cs frameSize m hack, Except.ok.injEq, Prod.mk.injEq] at h
    obtain ⟨rfl, -, rfl⟩ := h
    simp [readChecksums, hack]
  | false =>
    obtain ⟨-, hb, hsum, rfl, hfl, -, -⟩ := nextFrameToSend_inv hack h
    obtain ⟨out, hw, hcodec⟩ := frameLoop_copyCodec (frameMode m.flags)
      ⟨m.contents, cs, frameSize - kChecksumSize, [], m.uncompressedBytesSent⟩
    have hm : frameMode m.flags = .raw := by simp [frameMode, hc]
    rw [hm] at hb hw hcodec
    simp only [stripTrailer, hw, List.nil_append, Option.some.injEq] at hb
    have hfa : f.flags.isAck = false := by rw [hfl]; split <;> simp [hack]
    simp only [readChecksums, hfa, hsum, hm, hcodec, ← hb, Bool.false_eq_true, if_false, if_true]
    exact if_pos rfl

/-- Over every run of a connection that does not compress and whose codec is `copyCodec`, with
frames of any size asked of any message in any order and acks of any count passed to any
message: a receiver that starts its CRC-32 where the sender's codec started, and checks each
non-ack frame against the running CRC-32 of the bodies it has read, accepts every frame on the
wire, and ends where the sender's codec is. -/
theorem connection_checksums_verify {msgs₀ : Nat → MessageOut} {cs₀ : UInt32} {c : Conn UInt32}
    (h : Reach copyCodec msgs₀ cs₀ c) (hc : ∀ i, (msgs₀ i).flags.compressed = false) :
    readChecksums cs₀ (c.wire.map Prod.snd) = some c.codec := by
  induction h with
  | start => rfl
  | frame i _ hr hf ih =>
    rw [List.map_append, readChecksums_append, ih, Option.some_bind]
    exact readChecksums_frame ((reach_flags hr i).symm ▸ hc i) hf
  | ack _ _ _ ih => exact ih

theorem connection_checksums_verify_ex :
    ∃ c : Conn UInt32, Reach copyCodec (fun i => MessageOut.new requestFlags i [1, 2, 3] none) 0 c ∧
      c.wire.map Prod.fst = [1, 0] ∧ readChecksums 0 (c.wire.map Prod.snd) = some c.codec := by
  obtain ⟨c, hr, hw⟩ := interleaved_run
  exact ⟨c, hr, hw, connection_checksums_verify hr fun _ => rfl⟩

end Blip.Multiplex
