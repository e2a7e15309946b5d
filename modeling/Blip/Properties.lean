import Blip.Lifecycle

/-!
# The property block of an outgoing message

`getPropsAndBody` reads the varint length, the property block and the body back from
`_payload`, and `findProperty` searches the block. Until `_payload` is dropped, the block read
back is the one the message was built with.
-/

set_option autoImplicit false

namespace Blip.Properties
open Blip.Varint Blip.Wire Blip.Compression Blip.Payload Blip.Sender Blip.Lifecycle

theorem getPropsAndBody_new (p b : List UInt8) (hp : p.length < 2 ^ 32) (src : Option DataSource) :
    (Contents.new (uvarint p.length ++ p ++ b) src).getPropsAndBody = some (p, b) := by
  have hpos : 0 < (uvarint p.length ++ (p ++ b)).length :=
    List.length_pos.2 (List.append_ne_nil_of_left_ne_nil (uvarint_ne_nil _) _)
  simp [Contents.getPropsAndBody, Contents.new, hpos, readUVarInt32_uvarint _ _ hp]

def Keeps (payload : List UInt8) (c : Contents) : Prop :=
  c.payload = some payload ∨ c.payload = none ∧ c.unsentPayload = []

theorem drop_keeps {c c' : Contents} {t : List UInt8} (h : Drop c t c') {payload : List UInt8} :
    Keeps payload c → Keeps payload c' := by
  induction h with
  | refl => exact id
  | reset c hp => exact fun _ => .inr ⟨rfl, hp⟩
  | read => exact id
  | advance c slot n _ =>
    cases slot with
    | unsentPayload =>
      rintro (h | ⟨h, hu⟩)
      · exact .inl h
      · exact .inr ⟨h, by simp [Contents.advance, hu]⟩
    | unsentDataBuffer => exact id
  | trans _ _ ih₁ ih₂ => exact ih₂ ∘ ih₁

theorem nextFrameToSend_drop {σ : Type} {codec : Codec σ} {cs cs' : σ} {frameSize : Nat}
    {m m' : MessageOut} {f : SentFrame} (hs : m.uncompressedBytesSent < 2 ^ 32)
    (h : m.nextFrameToSend codec cs frameSize = .ok (f, m', cs')) :
    (∃ t, Drop m.contents t m'.contents) ∧ m'.uncompressedBytesSent < 2 ^ 32 := by
  cases hack : m.flags.isAck with
  | false =>
    obtain ⟨t, hd, hu, -, -⟩ := nextFrameToSend_took hack hs h
    exact ⟨⟨t, hd⟩, hu ▸ Nat.mod_lt _ (Nat.two_pow_pos 32)⟩
  | true =>
    rw [nextFrameToSend_ack codec cs frameSize m hack, Except.ok.injEq, Prod.mk.injEq] at h
    obtain ⟨-, rfl, -⟩ := h
    exact ⟨⟨[], dataToSend_drop _⟩, hs⟩

theorem reach_keeps {σ : Type} {codec : Codec σ} {cs₀ cs : σ} {flags : FrameFlags} {number : Nat}
    {payload : List UInt8} {src : Option DataSource} {m : MessageOut} {log : List Event}
    (h : Reach codec (MessageOut.new flags number payload src) cs₀ m cs log) :
    Keeps payload m.contents ∧ m.uncompressedBytesSent < 2 ^ 32 := by
  induction h with
  | start => exact ⟨.inl rfl, Nat.two_pow_pos 32⟩
  | frame _ _ hf ih =>
    obtain ⟨⟨t, hd⟩, hu⟩ := nextFrameToSend_drop ih.2 hf
    exact ⟨drop_keeps hd ih.1, hu⟩
  | ack c _ ih => rw [receivedAck_contents, receivedAck_uncompressedBytesSent]; exact ih

/-- For a property block `p` shorter than `2 ^ 32` bytes and any body `b`, laid out as the varint
of `p`'s length, `p`, then `b`: `getPropsAndBody` reads back `p` and `b`. Over any run of frames
and acks, while some of the payload is still unsent, it still reads back `p` and `b`, and
`findProperty` searches exactly `p`. -/
theorem getPropsAndBody_layout (p b : List UInt8) (hp : p.length < 2 ^ 32)
    (src : Option DataSource) :
    (Contents.new (uvarint p.length ++ p ++ b) src).getPropsAndBody = some (p, b) ∧
    ∀ {σ : Type} (codec : Codec σ) (cs₀ : σ) (flags : FrameFlags) (number : Nat) (m : MessageOut)
      (cs : σ) (log : List Event),
      Reach codec (MessageOut.new flags number (uvarint p.length ++ p ++ b) src) cs₀ m cs log →
      m.contents.unsentPayload ≠ [] →
      m.contents.getPropsAndBody = some (p, b) ∧
      ∀ {α : Type} (find : List UInt8 → String → α) (name : String),
        m.findProperty find name = some (find p name) := by
  have h₀ := getPropsAndBody_new p b hp src
  refine ⟨h₀, fun codec cs₀ flags number m cs log hr hne => ?_⟩
  have hpay : m.contents.payload = some (uvarint p.length ++ p ++ b) :=
    (reach_keeps hr).1.resolve_right fun h => hne h.2
  have hm : m.contents.getPropsAndBody = some (p, b) := (getPropsAndBody_congr hpay).trans h₀
  exact ⟨hm, fun find name => by rw [MessageOut.findProperty, hm]; rfl⟩

theorem getPropsAndBody_layout_ex :
    (Contents.new (uvarint ([1, 2] : List UInt8).length ++ [1, 2] ++ List.replicate 8 3) none).getPropsAndBody =
      some ([1, 2], List.replicate 8 3) ∧
    ∃ (m : MessageOut) (cs : UInt32) (f : SentFrame),
      Reach copyCodec (MessageOut.new requestFlags 1 (uvarint ([1, 2] : List UInt8).length ++ [1, 2] ++
        List.replicate 8 3) none) 0 m cs [.frame f] ∧
      f.body.length = 4 ∧ m.contents.unsentPayload ≠ [] ∧
      m.contents.getPropsAndBody = some ([1, 2], List.replicate 8 3) ∧
      ∀ {α : Type} (find : List UInt8 → String → α) (name : String),
        m.findProperty find name = some (find [1, 2] name) := by
  obtain ⟨h₀, hrest⟩ := getPropsAndBody_layout [1, 2] (List.replicate 8 3) (by decide) none
  have hv : uvarint ([1, 2] : List UInt8).length = [2] := by rw [uvarint_eq]; rfl
  rw [hv] at h₀ hrest ⊢
  have hd : (MessageOut.new requestFlags 1 ([2] ++ [1, 2] ++ List.replicate 8 3) none).contents.dataToSend =
      (.unsentPayload, Contents.new ([2] ++ [1, 2] ++ List.replicate 8 3) none) := rfl
  have hack : (MessageOut.new requestFlags 1 ([2] ++ [1, 2] ++ List.replicate 8 3) none).flags.isAck =
      false := rfl
  obtain ⟨f, m, cs, h, hbody, hcont⟩ := nextFrameToSend_fill copyCodec copyCodec_rawCopies 0 8 _
    hack rfl (by decide) (by rw [hd]; decide)
  rw [hd] at hbody hcont
  have hR := Reach.frame 8 .start h
  have hne : m.contents.unsentPayload ≠ [] := by rw [hcont]; decide
  exact ⟨h₀, m, cs, f, hR, by rw [hbody]; rfl, hne, hrest copyCodec 0 requestFlags 1 m cs _ hR hne⟩

end Blip.Properties
