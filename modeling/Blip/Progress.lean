import Blip.Lifecycle

/-!
# Progress reports of an outgoing request

Each frame of a request reports `kSending` while data remains, then `kComplete` for a noreply
request or `kAwaitingReply`, with the bytes taken so far: under `2 ^ 32`, a count that never falls.
`MessageOut::disconnected` reports `kDisconnected` only for a request that expects a reply: a
noreply request cut off mid-stream is left at `kSending`.
-/

set_option autoImplicit false

namespace Blip.Progress
open Blip.Wire Blip.Compression Blip.Payload Blip.Sender Blip.Lifecycle

def reports : List Event → List MessageProgress
  | [] => []
  | .frame f :: log => f.progress.toList ++ reports log
  | .ack _ :: log => reports log

/-- The last progress the callback has seen once `disconnected()` has run. -/
def lastAfterDisconnect (m : MessageOut) (log : List Event) : Option MessageProgress :=
  m.disconnected <|> (reports log).head?

/-- A run with the bytes its frames took from the front of the stream, in order: each frame's
`Drop`, as counted into `uncompressedBytesSent`. -/
inductive Taken {σ : Type} (codec : Codec σ) (m₀ : MessageOut) (cs₀ : σ) :
    MessageOut → σ → List Event → List UInt8 → Prop where
  | start : Taken codec m₀ cs₀ m₀ cs₀ [] []
  | frame {m m' : MessageOut} {cs cs' : σ} {log : List Event} {taken t : List UInt8}
      {f : SentFrame} (frameSize : Nat) :
      Taken codec m₀ cs₀ m cs log taken → m.nextFrameToSend codec cs frameSize = .ok (f, m', cs') →
      Drop m.contents t m'.contents →
      m'.uncompressedBytesSent = (m.uncompressedBytesSent + t.length) % 2 ^ 32 →
      Taken codec m₀ cs₀ m' cs' (.frame f :: log) (taken ++ t)
  | ack {m : MessageOut} {cs : σ} {log : List Event} {taken : List UInt8} (count : Nat) :
      Taken codec m₀ cs₀ m cs log taken →
      Taken codec m₀ cs₀ (m.receivedAck count) cs (.ack count :: log) taken

theorem Taken.reach {σ : Type} {codec : Codec σ} {m₀ m : MessageOut} {cs₀ cs : σ} {log : List Event}
    {taken : List UInt8} (h : Taken codec m₀ cs₀ m cs log taken) :
    Reach codec m₀ cs₀ m cs log := by
  induction h with
  | start => exact .start
  | frame F _ hf _ _ ih => exact .frame F ih hf
  | ack c _ ih => exact .ack c ih

section
variable {σ : Type} {codec : Codec σ} {cs₀ cs : σ} {flags : FrameFlags} {number : Nat}
  {p : List UInt8} {src : Option DataSource} {m : MessageOut} {log : List Event}

theorem reach_reports (hack : flags.isAck = false) (hmc : flags.moreComing = false)
    (h : Reach codec (MessageOut.new flags number p src) cs₀ m cs log) :
    (∀ f, Event.frame f ∈ log →
      f.progress.map MessageProgress.state = some (frameProgress flags f.flags.moreComing)) ∧
    ∀ r ∈ (reports log).head?, r.bytesSent = m.uncompressedBytesSent := by
  induction h with
  | start => exact ⟨fun _ h => (nomatch h), fun _ h => (nomatch h)⟩
  | frame _ hr hf ih =>
    have hi := reach_inv hack hr
    obtain ⟨-, -, -, -, hff, hpr⟩ := nextFrameToSend_frame (hi.flags ▸ hack) hf
    refine ⟨fun g hg => ?_, fun r hr' => ?_⟩
    · rcases List.mem_cons.mp hg with he | hg
      · cases he
        rw [hpr, hff, hi.flags]
        split <;> rename_i hx <;> simp [frameProgress, hx, hmc]
      · exact ih.1 g hg
    · simp only [reports, hpr, Option.toList_some, List.singleton_append, List.head?_cons,
        Option.mem_def, Option.some.injEq] at hr'
      rw [← hr']
  | ack c _ ih =>
    refine ⟨fun g hg => ih.1 g ((List.mem_cons.mp hg).resolve_left nofun), fun r hr' => ?_⟩
    rw [receivedAck_uncompressedBytesSent]; exact ih.2 r hr'

theorem reach_taken (hack : flags.isAck = false)
    (h : Reach codec (MessageOut.new flags number p src) cs₀ m cs log) :
    ∃ taken, Taken codec (MessageOut.new flags number p src) cs₀ m cs log taken := by
  induction h with
  | start => exact ⟨[], .start⟩
  | frame F hr hf ih =>
    obtain ⟨taken, hT⟩ := ih
    have hi := reach_inv hack hr
    obtain ⟨_, -, hu⟩ := hi.consumed
    obtain ⟨t, hd, hs, -, -⟩ :=
      nextFrameToSend_took (hi.flags ▸ hack) (by rw [hu]; exact Nat.mod_lt _ (Nat.two_pow_pos 32)) hf
    exact ⟨taken ++ t, .frame F hT hf hd hs⟩
  | ack c _ ih =>
    obtain ⟨taken, hT⟩ := ih
    exact ⟨taken, .ack c hT⟩

theorem taken_rise (hack : flags.isAck = false) {taken : List UInt8}
    (h : Taken codec (MessageOut.new flags number p src) cs₀ m cs log taken) :
    m.uncompressedBytesSent = taken.length % 2 ^ 32 ∧
      (taken.length < 2 ^ 32 →
        (∀ b ∈ (reports log).map MessageProgress.bytesSent, b ≤ taken.length) ∧
        ((reports log).map MessageProgress.bytesSent).Pairwise (· ≥ ·)) := by
  induction h with
  | start => exact ⟨rfl, fun _ => ⟨fun _ h => (nomatch h), .nil⟩⟩
  | @frame m₁ m₂ cs₁ cs₂ log₁ taken₁ t f F hT hf _ hs ih =>
    obtain ⟨hu, hrise⟩ := ih
    have hi := reach_inv hack hT.reach
    obtain ⟨-, -, -, -, -, hpr⟩ := nextFrameToSend_frame (hi.flags ▸ hack) hf
    have hu' : m₂.uncompressedBytesSent = (taken₁ ++ t).length % 2 ^ 32 := by
      rw [hs, hu, List.length_append, Nat.mod_add_mod]
    refine ⟨hu', fun hlt => ?_⟩
    rw [List.length_append] at hlt ⊢
    obtain ⟨hle, hsorted⟩ := hrise (by omega)
    have hnew : m₂.uncompressedBytesSent = taken₁.length + t.length := by
      rw [hu', List.length_append, Nat.mod_eq_of_lt hlt]
    have hle' : ∀ b ∈ (reports log₁).map MessageProgress.bytesSent, b ≤ taken₁.length + t.length :=
      fun b hb => (hle b hb).trans (Nat.le_add_right _ _)
    simp only [reports, hpr, Option.toList_some, List.singleton_append, List.map_cons]
    exact ⟨List.forall_mem_cons.2 ⟨hnew.le, hle'⟩, .cons (fun b hb => hnew ▸ hle' b hb) hsorted⟩
  | ack c _ ih => simpa only [receivedAck_uncompressedBytesSent, reports] using ih

end

/-- Any run of a request cut short by `disconnected()`: each frame reports `kSending` when it
carries `kMoreComing`, and otherwise `kComplete` for a noreply request or `kAwaitingReply`; the
newest report counts the bytes taken from the stream, modulo `2 ^ 32`; the run has the bytes its
frames took, and while they stay under `2 ^ 32` the reported counts never decrease. After
`disconnected()`, a request that expects a reply has last reported `kDisconnected`, and a
noreply request is left with the report of its last frame. -/
theorem reach_progress {σ : Type} (codec : Codec σ) (cs₀ : σ) (flags : FrameFlags)
    (number : Nat) (p : List UInt8) (src : Option DataSource) (hreq : flags.type = .request)
    (hmc : flags.moreComing = false) {m : MessageOut} {cs : σ} {log : List Event}
    (h : Reach codec (MessageOut.new flags number p src) cs₀ m cs log) :
    (∀ f, Event.frame f ∈ log → f.progress.map MessageProgress.state =
      some (if f.flags.moreComing then .sending
        else if flags.noReply then .complete else .awaitingReply)) ∧
    (∀ r ∈ (reports log).head?, ∃ taken, Drop (Contents.new p src) taken m.contents ∧
      r.bytesSent = taken.length % 2 ^ 32) ∧
    (∃ taken, Taken codec (MessageOut.new flags number p src) cs₀ m cs log taken) ∧
    (∀ taken, Taken codec (MessageOut.new flags number p src) cs₀ m cs log taken →
      taken.length < 2 ^ 32 → ((reports log).map MessageProgress.bytesSent).Pairwise (· ≥ ·)) ∧
    lastAfterDisconnect m log =
      if flags.noReply then (reports log).head? else some disconnectedProgress := by
  have hack : flags.isAck = false := by simp [FrameFlags.isAck, hreq]
  have hi := reach_inv hack h
  obtain ⟨hstates, hlatest⟩ := reach_reports hack hmc h
  refine ⟨hstates, fun r hr => ?_, reach_taken hack h, fun taken hT hlt =>
    ((taken_rise hack hT).2 hlt).2, ?_⟩
  · obtain ⟨taken, hd, hu⟩ := hi.consumed
    exact ⟨taken, hd, (hlatest r hr).trans hu⟩
  · cases hn : flags.noReply <;>
      simp [lastAfterDisconnect, MessageOut.disconnected, hi.flags, hreq, hn]

theorem reach_progress_ex :
    ∃ (m : MessageOut) (cs : UInt32) (log : List Event),
      Reach copyCodec (MessageOut.new requestFlags 1 [1, 2, 3, 4, 5, 6, 7, 8] none) 0 m cs log ∧
      sentTotal log = 16 ∧
      (∀ f, Event.frame f ∈ log → f.progress.map MessageProgress.state =
        some (if f.flags.moreComing then .sending
          else if requestFlags.noReply then .complete else .awaitingReply)) ∧
      (∀ r ∈ (reports log).head?, ∃ taken,
        Drop (Contents.new [1, 2, 3, 4, 5, 6, 7, 8] none) taken m.contents ∧
        r.bytesSent = taken.length % 2 ^ 32) ∧
      (∃ taken, Taken copyCodec (MessageOut.new requestFlags 1 [1, 2, 3, 4, 5, 6, 7, 8] none) 0 m
        cs log taken) ∧
      (∀ taken, Taken copyCodec (MessageOut.new requestFlags 1 [1, 2, 3, 4, 5, 6, 7, 8] none) 0 m
        cs log taken →
        taken.length < 2 ^ 32 → ((reports log).map MessageProgress.bytesSent).Pairwise (· ≥ ·)) ∧
      lastAfterDisconnect m log =
        if requestFlags.noReply then (reports log).head? else some disconnectedProgress := by
  obtain ⟨m, cs, fs, hr, -, hs⟩ := reach_fullFrames copyCodec copyCodec_rawCopies 0 requestFlags 1
    [1, 2, 3, 4, 5, 6, 7, 8] rfl rfl 8 (by decide) 2 (by decide)
  have hR := Reach.ack 5 hr
  exact ⟨_, cs, _, hR, hs, reach_progress copyCodec 0 requestFlags 1 _ none rfl rfl hR⟩

theorem reach_keeps {σ : Type} {codec : Codec σ} {cs₀ cs : σ} {flags : FrameFlags}
    {number : Nat} {p : List UInt8} {src : Option DataSource} {m : MessageOut}
    {log : List Event} (h : Reach codec (MessageOut.new flags number p src) cs₀ m cs log) :
    m.flags = flags ∧ m.number = number := by
  induction h with
  | start => exact ⟨rfl, rfl⟩
  | frame _ _ hf ih =>
    obtain ⟨hfl, hn⟩ := nextFrameToSend_keeps hf
    exact ⟨hfl.trans ih.1, hn.trans ih.2⟩
  | ack c _ ih => rw [receivedAck_flags, receivedAck_number]; exact ih

/-- Once a request expecting a reply has sent its whole stream, over any run of frames through
any codec and acks, the `MessageIn` that `createResponse` makes for the reply has the request's
number, and as its originating size the length of the whole stream, modulo `2 ^ 32`: the payload
and the source's chunks through its first short call. -/
theorem reach_createResponse {σ : Type} (codec : Codec σ) (cs₀ : σ) (flags : FrameFlags)
    (number : Nat) (p : List UInt8) (src : Option DataSource) (hreq : flags.type = .request)
    (hnr : flags.noReply = false) (k : Nat) (hk : (Contents.new p src).EndsAt k) {m : MessageOut}
    {cs : σ} {log : List Event} (h : Reach codec (MessageOut.new flags number p src) cs₀ m cs log)
    (hdone : m.contents.hasMoreDataToSend = false) :
    ∃ r, m.createResponse = some r ∧ r.flags = responseFlags ∧ r.number = number ∧
      r.outgoingSize = ((Contents.new p src).pending k).length % 2 ^ 32 := by
  have hack : flags.isAck = false := by simp [FrameFlags.isAck, hreq]
  obtain ⟨hfl, hn⟩ := reach_keeps h
  obtain ⟨taken, hd, hu⟩ := (reach_inv hack h).consumed
  obtain ⟨k', -, hp⟩ := hd.pending k hk
  rw [pending_of_done _ k' hdone, List.append_nil] at hp
  refine ⟨⟨responseFlags, m.number, m.uncompressedBytesSent⟩, ?_, rfl, hn, by rw [hu, hp]⟩
  simp [MessageOut.createResponse, hfl, hreq, hnr]

theorem reach_createResponse_ex :
    ∃ (m : MessageOut) (cs : UInt32) (log : List Event),
      Reach copyCodec (MessageOut.new requestFlags 1 (List.replicate 12 7) none) 0 m cs log ∧
      m.contents.hasMoreDataToSend = false ∧
      ∃ r, m.createResponse = some r ∧ r.flags = responseFlags ∧ r.number = 1 ∧
        r.outgoingSize = ((Contents.new (List.replicate 12 7) none).pending 0).length % 2 ^ 32 := by
  obtain ⟨f, m, cs, h, -, hdone⟩ := twelve_byte_frame
  have hR := Reach.ack 16 (.frame 16 .start h)
  have hdone' : (m.receivedAck 16).contents.hasMoreDataToSend = false := by
    rw [receivedAck_contents]; exact hdone
  exact ⟨_, cs, _, hR, hdone', reach_createResponse copyCodec 0 requestFlags 1 _ none rfl rfl 0
    (fun _ h => Option.noConfusion h) hR hdone'⟩

/-- A noreply request of two bytes in five-byte frames, disconnected after its first frame:
`disconnected()` reports nothing, and the last state the callback saw is `kSending`. -/
theorem noreply_disconnect_left_sending :
    ∃ (m : MessageOut) (cs : UInt32) (log : List Event),
      Reach copyCodec (MessageOut.new noReplyFlags 1 [1, 2] none) 0 m cs log ∧
      m.disconnected = none ∧ lastAfterDisconnect m log = some ⟨.sending, 1⟩ := by
  have hd : (MessageOut.new noReplyFlags 1 [1, 2] none).contents.dataToSend =
      (.unsentPayload, Contents.new [1, 2] none) := rfl
  obtain ⟨f, m', cs', h, hbody, hcont⟩ := nextFrameToSend_fill copyCodec copyCodec_rawCopies 0 5
    (MessageOut.new noReplyFlags 1 [1, 2] none) rfl rfl (by decide) (by rw [hd]; decide)
  obtain ⟨t, -, hs, hraw, -⟩ := nextFrameToSend_took (by rfl) (by decide) h
  obtain ⟨-, hfl, -, -, -, hpr⟩ := nextFrameToSend_frame (by rfl) h
  rw [hd] at hbody hcont
  have ht : t = [1] := (hraw copyCodec_rawCopies rfl).symm.trans hbody
  have hmore : m'.contents.hasMoreDataToSend = true := by
    rw [hcont]; decide
  have hdis : m'.disconnected = none := by
    simp [MessageOut.disconnected, hfl, MessageOut.new, noReplyFlags]
  refine ⟨m', cs', [.frame f], .frame 5 .start h, hdis, ?_⟩
  simp [lastAfterDisconnect, hdis, reports, hpr, hmore, frameProgress, hs, ht, MessageOut.new]

end Blip.Progress
