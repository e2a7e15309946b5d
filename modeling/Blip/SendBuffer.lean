import Blip.Loopback

/-!
# The send buffer of a loopback socket

`send()` counts each message into the `size_t` `_bufferedBytes` and returns false past
`kSendBufferSize`; `_ack` takes the message back out and calls `onWebSocketWriteable` when the
count crosses the threshold downward.
-/

set_option autoImplicit false

namespace Blip.SendBuffer
open Blip.Loopback

theorem add_sub_wrap (a n : Nat) : ((n + a) % 2 ^ 64 + 2 ^ 64 - n % 2 ^ 64) % 2 ^ 64 = a % 2 ^ 64 := by
  omega

section
variable {s : Side} {w₀ w : Pair}

end

end Blip.SendBuffer
