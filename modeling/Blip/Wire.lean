import Mathlib.Data.List.Basic
import Mathlib.Algebra.Group.Nat.Basic

/-!
# Frame flags and progress notifications

The flags an outgoing message carries on its frames, and the progress states
reported to the callback of an outgoing request (`Message.hh`). The flag bits
are kept as fields; their packing into the header varint is the multiplexer's
and is not modelled.
-/

set_option autoImplicit false

namespace Blip.Wire

inductive MessageType where
  | request
  | response
  | error
  | ackRequest
  | ackResponse
  deriving DecidableEq, Repr

/-- `FrameFlags`: the type in the low bits and the four flag bits. -/
structure FrameFlags where
  type : MessageType
  moreComing : Bool
  urgent : Bool
  noReply : Bool
  compressed : Bool
  deriving DecidableEq, Repr

def requestFlags : FrameFlags := ⟨.request, false, false, false, false⟩

def noReplyFlags : FrameFlags := ⟨.request, false, false, true, false⟩

def ackRequestFlags : FrameFlags := ⟨.ackRequest, false, false, false, false⟩

/-- `Message::isAck`. -/
def FrameFlags.isAck (f : FrameFlags) : Bool :=
  f.type == .ackRequest || f.type == .ackResponse

def FrameFlags.withMoreComing (f : FrameFlags) : FrameFlags := { f with moreComing := true }

@[simp] theorem withMoreComing_moreComing (f : FrameFlags) : f.withMoreComing.moreComing = true :=
  rfl

@[simp] theorem withMoreComing_isAck (f : FrameFlags) : f.withMoreComing.isAck = f.isAck := rfl

inductive ProgressState where
  | queued
  | sending
  | awaitingReply
  | receivingReply
  | complete
  | disconnected
  deriving DecidableEq, Repr

structure MessageProgress where
  state : ProgressState
  bytesSent : Nat
  deriving DecidableEq, Repr

end Blip.Wire
