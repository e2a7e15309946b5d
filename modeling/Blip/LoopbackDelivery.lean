import Blip.LoopbackRuns

/-!
# Every message is delivered

From a reachable state in which both sockets have delegates and are connected and no close is
under way, the two actors' own steps deliver every message in flight, so each delegate is given
exactly what the other socket's user sent.
-/

set_option autoImplicit false

namespace Blip.LoopbackDelivery
open Blip.Dispatch Blip.Loopback Blip.LoopbackRuns

inductive Drain (cfg : Config) : Pair → Pair → Prop
  | refl (w : Pair) : Drain cfg w w
  | tick {w w' : Pair} (n : Nat) : w.now ≤ n → Drain cfg { w with now := n } w' → Drain cfg w w'
  | fire {w w' : Pair} (s : Side) {i : Nat} : (w.get s).mailbox.Due w.now i →
      Drain cfg (w.modify s fun x => { x with mailbox := x.mailbox.fire i }) w' → Drain cfg w w'
  | run {w w₁ w' : Pair} (s : Side) : w.run cfg s = some w₁ → Drain cfg w₁ w' → Drain cfg w w'

section Drain
variable {cfg : Config} {w w₁ w' : Pair}

theorem Drain.reach (hd : Drain cfg w w') : Reach cfg w → Reach cfg w' := by
  induction hd with
  | refl => exact id
  | tick n hn _ ih => exact fun h => ih (.tick n h hn)
  | fire s hdue _ ih => exact fun h => ih (.fire s _ h hdue)
  | run s hr _ ih => exact fun h => ih (.run s h hr)

theorem Drain.trans (h₁ : Drain cfg w w₁) (h₂ : Drain cfg w₁ w') : Drain cfg w w' := by
  induction h₁ with
  | refl => exact h₂
  | tick n hn _ ih => exact .tick n hn (ih h₂)
  | fire s hdue _ ih => exact .fire s hdue (ih h₂)
  | run s hr _ ih => exact .run s hr (ih h₂)

end Drain

def closes : Call → Bool
  | .close => true
  | .simulateClosed => true
  | _ => false

/-- Socket `x` has its delegate, has not closed, and no event that would close it is on its
mailbox. -/
structure Quiet (x : Socket) : Prop where
  delegate : x.hasDelegate = true
  notClosed : x.closeNotified = false
  calm : ∀ c ∈ bag x.mailbox, closes c = false

theorem Quiet.congr {x x' : Socket} (h : Quiet x) (hd : x'.hasDelegate = x.hasDelegate)
    (hc : x'.closeNotified = x.closeNotified) (hb : ∀ c ∈ bag x'.mailbox, c ∈ bag x.mailbox ∨ closes c = false) :
    Quiet x' :=
  ⟨hd ▸ h.delegate, hc ▸ h.notClosed, fun c hm => (hb c hm).elim (h.calm c) id⟩

theorem Quiet.pop {x x' : Socket} (h : Quiet x) {c : Call} (hb : bag x.mailbox = c ::ₘ bag x'.mailbox)
    (hd : x'.hasDelegate = x.hasDelegate) (hc : x'.closeNotified = x.closeNotified) : Quiet x' :=
  h.congr hd hc fun _ hm => .inl (hb ▸ Multiset.mem_cons_of_mem hm)

theorem Quiet.push {x : Socket} (h : Quiet x) {mb : Mailbox Call} {c : Call} (hb : bag mb = c ::ₘ bag x.mailbox)
    (hc : closes c = false) : Quiet { x with mailbox := mb } :=
  h.congr rfl rfl fun _ hm => (Multiset.mem_cons.1 (hb ▸ hm)).elim (fun he => .inr (by rw [he]; exact hc)) .inl

theorem Quiet.peer {o : Side} {x y : Socket} (hQ : Quiet x) (hf : Flow o x y) (hr : x.readyToUse = true) :
    x.peer = some o :=
  (hf.ready hr).resolve_right (by rw [hQ.notClosed]; exact Bool.noConfusion)

section Flush

@[simp] theorem get_now (w : Pair) (n : Nat) (s : Side) : ({ w with now := n } : Pair).get s = w.get s := by
  cases s <;> rfl

theorem drain_flush (cfg : Config) (s : Side) (ts : List (Timer Call)) :
    ∀ w : Pair, (w.get s).mailbox.timers = ts → ∃ w', Drain cfg w w' ∧
      w'.get s = { w.get s with mailbox := ⟨(w.get s).mailbox.queue ++ ts.map Timer.block, []⟩ } ∧
      w'.get s.other = w.get s.other := by
  induction ts with
  | nil =>
    intro w ht
    refine ⟨w, .refl w, ?_, rfl⟩
    rw [List.map_nil, List.append_nil, ← ht]
  | cons t ts ih =>
    intro w ht
    have hf : (w.get s).mailbox.fire 0 = ⟨(w.get s).mailbox.queue ++ [t.block], ts⟩ := by
      rw [fire_eq (by rw [ht]; rfl), ht]; rfl
    let w₁ : Pair := { w with now := max w.now t.due }
    have hdue : (w₁.get s).mailbox.Due w₁.now 0 := ⟨t, by rw [get_now, ht]; rfl, le_max_right _ _⟩
    obtain ⟨w', hd, h₁, h₂⟩ := ih (w₁.modify s fun x => { x with mailbox := x.mailbox.fire 0 })
      (by simp only [w₁, Pair.modify, get_set_self, get_now, hf])
    refine ⟨w', .tick _ (le_max_left _ _) (.fire s hdue hd), ?_, ?_⟩
    · rw [h₁]
      simp only [w₁, Pair.modify, get_set_self, get_now, hf, List.map_cons, List.append_assoc, List.singleton_append]
    · rw [h₂]
      simp only [w₁, Pair.modify, get_set_other, get_now]

end Flush

section Events
variable {cfg : Config} {w : Pair} {s : Side} {rest : List Call}

@[simp] theorem get_modify_self (w : Pair) (s : Side) (f : Socket → Socket) : (w.modify s f).get s = f (w.get s) :=
  get_set_self _ _ _
@[simp] theorem get_modify_other (w : Pair) (s : Side) (f : Socket → Socket) :
    (w.modify s f).get s.other = w.get s.other := get_set_other _ _ _
@[simp] theorem get_other_modify (w : Pair) (s : Side) (f : Socket → Socket) :
    (w.modify s.other f).get s = w.get s := get_other_set _ _ _
@[simp] theorem modify_now (w : Pair) (s : Side) (f : Socket → Socket) : (w.modify s f).now = w.now := set_now _ _ _

theorem kRescheduleLatency_pos : 0 < kRescheduleLatency := by decide

theorem run_pop {c : Call} (hq : (w.get s).mailbox.queue = c :: rest) :
    w.run cfg s = (pop w s rest).handle cfg s c := by
  unfold Pair.run; rw [hq]; rfl

theorem handle_send_unready {msg : List UInt8} (hr : (w.get s).readyToUse = false) :
    (pop w s rest).handle cfg s (.send msg) =
      some ((pop w s rest).enqueueAfter s kRescheduleLatency (.send msg)) := by
  simp only [Pair.handle, Pair._send, get_pop, hr, if_true]

theorem handle_receive_unready {msg : List UInt8} (hr : (w.get s).readyToUse = false) :
    (pop w s rest).handle cfg s (.simulateReceived msg) =
      some ((pop w s rest).enqueueAfter s kRescheduleLatency (.simulateReceived msg)) := by
  simp only [Pair.handle, Pair._simulateReceived, get_pop, hr, if_true]

theorem handle_send_ready (cfg : Config) (rest : List Call) (msg : List UInt8) (hr : (w.get s).readyToUse = true)
    (hp : (w.get s).peer = some s.other) :
    ∃ w', (pop w s rest).handle cfg s (.send msg) = some w' ∧
      w'.get s = { w.get s with mailbox := { (w.get s).mailbox with queue := rest } } ∧
      w'.get s.other = { w.get s.other with
        mailbox := (w.get s.other).mailbox.enqueueAfter w.now cfg.latency (.simulateReceived msg) } :=
  ⟨_, rfl, by simp only [Pair._send, get_pop, hr, hp, Bool.true_eq_false, if_false, Pair.simulateReceived,
    Pair.enqueueAfter, get_other_modify, get_modify_self, get_other_pop, pop_now, and_self]⟩

theorem handle_receive_ready (cfg : Config) (rest : List Call) (msg : List UInt8)
    (hr : (w.get s).readyToUse = true) (hp : (w.get s).peer = some s.other) :
    ∃ w', (pop w s rest).handle cfg s (.simulateReceived msg) = some w' ∧
      w'.get s =
        { w.get s with
          mailbox := { (w.get s).mailbox with queue := rest }
          delivered := (w.get s).delivered ++ [msg] } ∧
      w'.get s.other = { w.get s.other with mailbox := (w.get s.other).mailbox.enqueue (.ack msg.length) } := by
  simp only [Pair.handle, Pair._simulateReceived, get_pop, hr, hp, Bool.true_eq_false, if_false, pop_set,
    Option.some.injEq, exists_eq_left', Pair.enqueue, get_other_modify, get_modify_self, get_set_self,
    get_set_other, and_self]

theorem handle_send_closed (cfg : Config) (rest : List Call) (msg : List UInt8)
    (hr : (w.get s).readyToUse = true) (hp : (w.get s).peer = none) :
    (pop w s rest).handle cfg s (.send msg) = some (pop w s rest) := by
  simp only [Pair.handle, Pair._send, get_pop, hr, hp, Bool.true_eq_false, if_false]

theorem handle_receive_closed (cfg : Config) (rest : List Call) (msg : List UInt8)
    (hr : (w.get s).readyToUse = true) (hp : (w.get s).peer = none) :
    (pop w s rest).handle cfg s (.simulateReceived msg) = none := by
  simp only [Pair.handle, Pair._simulateReceived, get_pop, hr, hp, Bool.true_eq_false, if_false]

theorem handle_connect (cfg : Config) (rest : List Call) (p : Side) (hd : (w.get s).hasDelegate = true) :
    ∃ x, (pop w s rest).handle cfg s (.connectToPeer p) = some (w.set s x) ∧ x.readyToUse = true ∧
      x.mailbox = { (w.get s).mailbox with queue := rest } ∧ x.hasDelegate = (w.get s).hasDelegate ∧
      x.closeNotified = (w.get s).closeNotified ∧ x.sent = (w.get s).sent ∧ x.delivered = (w.get s).delivered := by
  simp only [Pair.handle, Pair._connectToPeer, get_pop, hd, Bool.true_eq_false, if_false, pop_set]
  split <;> exact ⟨_, rfl, rfl, rfl, rfl, rfl, rfl, rfl⟩

theorem handle_ack (cfg : Config) (rest : List Call) (n : Nat) :
    ∃ x, (pop w s rest).handle cfg s (.ack n) = some (w.set s x) ∧ x.readyToUse = (w.get s).readyToUse ∧
      x.mailbox = { (w.get s).mailbox with queue := rest } ∧ x.hasDelegate = (w.get s).hasDelegate ∧
      x.closeNotified = (w.get s).closeNotified ∧ x.sent = (w.get s).sent ∧ x.delivered = (w.get s).delivered := by
  simp only [Pair.handle, Pair._ack, get_pop, pop_set]
  split <;> exact ⟨_, rfl, rfl, rfl, rfl, rfl, rfl, rfl⟩

end Events

section Ready
variable {cfg : Config} {w : Pair} {s : Side} {rest : List Call}

structure Kept (x x₁ : Socket) : Prop where
  delegate : x₁.hasDelegate = x.hasDelegate
  closed : x₁.closeNotified = x.closeNotified
  sent : x₁.sent = x.sent
  sub : bag x₁.mailbox ≤ bag x.mailbox
  keepsClose : Call.close ∈ bag x.mailbox → Call.close ∈ bag x₁.mailbox

theorem Kept.refl (x : Socket) : Kept x x := ⟨rfl, rfl, rfl, le_rfl, id⟩

theorem Kept.trans {x x₁ x₂ : Socket} (h₁ : Kept x x₁) (h₂ : Kept x₁ x₂) : Kept x x₂ :=
  ⟨h₂.delegate.trans h₁.delegate, h₂.closed.trans h₁.closed, h₂.sent.trans h₁.sent, h₂.sub.trans h₁.sub,
    fun h => h₂.keepsClose (h₁.keepsClose h)⟩

theorem Kept.rebag {x x₁ : Socket} (hb : bag x₁.mailbox = bag x.mailbox) (hd : x₁.hasDelegate = x.hasDelegate)
    (hc : x₁.closeNotified = x.closeNotified) (hs : x₁.sent = x.sent) : Kept x x₁ :=
  ⟨hd, hc, hs, hb.le, fun h => hb ▸ h⟩

theorem Kept.pop {x x₁ : Socket} {c : Call} (hb : bag x.mailbox = c ::ₘ bag x₁.mailbox) (hne : c ≠ .close)
    (hd : x₁.hasDelegate = x.hasDelegate) (hc : x₁.closeNotified = x.closeNotified) (hs : x₁.sent = x.sent) :
    Kept x x₁ :=
  ⟨hd, hc, hs, hb ▸ Multiset.le_cons_self _ _, fun h => ((Multiset.mem_cons.1 (hb ▸ h)).resolve_left hne.symm)⟩

theorem Quiet.kept {x x₁ : Socket} (hQ : Quiet x) (hk : Kept x x₁) : Quiet x₁ :=
  hQ.congr hk.delegate hk.closed fun _ hm => .inl (Multiset.mem_of_le hk.sub hm)

theorem Quiet.unechoed {x : Socket} (hQ : Quiet x) : Call.simulateClosed ∉ bag x.mailbox :=
  fun hm => absurd (hQ.calm _ hm) (by decide)

theorem handle_close_unready (hr : (w.get s).readyToUse = false) :
    (pop w s rest).handle cfg s .close = some ((pop w s rest).enqueueAfter s kRescheduleLatency .close) := by
  simp only [Pair.handle, Pair._close, get_pop, hr, if_true]

theorem reschedule_get {c : Call} (hq : (w.get s).mailbox.queue = c :: rest) :
    ((pop w s rest).enqueueAfter s kRescheduleLatency c).get s.other = w.get s.other ∧
      Kept (w.get s) (((pop w s rest).enqueueAfter s kRescheduleLatency c).get s) ∧
      (((pop w s rest).enqueueAfter s kRescheduleLatency c).get s).readyToUse = (w.get s).readyToUse ∧
      (((pop w s rest).enqueueAfter s kRescheduleLatency c).get s).mailbox.queue = rest := by
  unfold Pair.enqueueAfter
  rw [get_modify_self, get_modify_other, get_pop, get_other_pop, pop_now]
  refine ⟨rfl, .rebag ?_ rfl rfl rfl, rfl, ?_⟩
  · rw [bag_enqueueAfter]; exact (bag_pop hq).symm
  · simp only [Mailbox.enqueueAfter, kRescheduleLatency_pos, if_true]

theorem run_unready (cfg : Config) {c : Call} (hq : (w.get s).mailbox.queue = c :: rest)
    (hd : (w.get s).hasDelegate = true) (he : Call.simulateClosed ∉ bag (w.get s).mailbox)
    (hr : (w.get s).readyToUse = false) :
    ∃ w₁, w.run cfg s = some w₁ ∧ w₁.get s.other = w.get s.other ∧ Kept (w.get s) (w₁.get s) ∧
      ((w₁.get s).readyToUse = true ∨
        (w₁.get s).readyToUse = false ∧ (w₁.get s).mailbox.queue = rest ∧ ∀ p, c ≠ .connectToPeer p) := by
  have hb := bag_pop hq
  rw [run_pop hq]
  cases c with
  | connectToPeer p =>
    obtain ⟨x, he', h₁, h₂, h₃, h₄, h₅, -⟩ := handle_connect cfg rest p hd
    refine ⟨_, he', ?_⟩
    rw [get_set_self, get_set_other]
    exact ⟨rfl, .pop (h₂ ▸ hb) Call.noConfusion h₃ h₄ h₅, .inl h₁⟩
  | send msg =>
    obtain ⟨h₁, h₂, h₃, h₄⟩ := reschedule_get hq
    exact ⟨_, handle_send_unready hr, h₁, h₂, .inr ⟨h₃.trans hr, h₄, fun _ => Call.noConfusion⟩⟩
  | simulateReceived msg =>
    obtain ⟨h₁, h₂, h₃, h₄⟩ := reschedule_get hq
    exact ⟨_, handle_receive_unready hr, h₁, h₂, .inr ⟨h₃.trans hr, h₄, fun _ => Call.noConfusion⟩⟩
  | ack n =>
    obtain ⟨x, he', h₁, h₂, h₃, h₄, h₅, -⟩ := handle_ack cfg rest n
    refine ⟨_, he', ?_⟩
    rw [get_set_self, get_set_other]
    exact ⟨rfl, .pop (h₂ ▸ hb) Call.noConfusion h₃ h₄ h₅, .inr ⟨h₁.trans hr, by rw [h₂], fun _ => Call.noConfusion⟩⟩
  | close =>
    obtain ⟨h₁, h₂, h₃, h₄⟩ := reschedule_get hq
    exact ⟨_, handle_close_unready hr, h₁, h₂, .inr ⟨h₃.trans hr, h₄, fun _ => Call.noConfusion⟩⟩
  | simulateClosed => exact absurd (hb ▸ Multiset.mem_cons_self _ _) he

theorem drain_unready (s : Side) (n : Nat) :
    ∀ w : Pair, (w.get s).mailbox.queue.length ≤ n → (w.get s).hasDelegate = true →
      Call.simulateClosed ∉ bag (w.get s).mailbox → (w.get s).readyToUse = false →
      (∃ p, Call.connectToPeer p ∈ (w.get s).mailbox.queue) →
      ∃ w₁, Drain cfg w w₁ ∧ (w₁.get s).readyToUse = true ∧ Kept (w.get s) (w₁.get s) ∧
        w₁.get s.other = w.get s.other := by
  induction n with
  | zero =>
    intro w hn _ _ _ ⟨p, hp⟩
    rw [List.length_eq_zero.1 (Nat.le_zero.1 hn)] at hp
    cases hp
  | succ n ih =>
    intro w hn hd he hr ⟨p, hp⟩
    obtain ⟨c, rest, hq⟩ := List.exists_cons_of_ne_nil (List.ne_nil_of_mem hp)
    obtain ⟨w', hrun, ho, hk, hready | ⟨hr', hq', hc⟩⟩ := run_unready cfg hq hd he hr
    · exact ⟨_, .run s hrun (.refl _), hready, hk, ho⟩
    · rw [hq] at hp hn
      have hp' : Call.connectToPeer p ∈ (w'.get s).mailbox.queue :=
        hq' ▸ (List.mem_cons.1 hp).resolve_left fun he => hc p he.symm
      obtain ⟨w₁, hd₁, h₁, h₂, h₃⟩ := ih w' (by rw [hq']; exact Nat.le_of_succ_le_succ hn)
        (hk.delegate.trans hd) (fun hm => he (Multiset.mem_of_le hk.sub hm)) hr' ⟨p, hp'⟩
      exact ⟨w₁, .run s hrun hd₁, h₁, hk.trans h₂, h₃.trans ho⟩

theorem drain_ready (cfg : Config) (s : Side) {w : Pair} (hd : (w.get s).hasDelegate = true)
    (he : Call.simulateClosed ∉ bag (w.get s).mailbox)
    (hc : (w.get s).readyToUse = true ∨ ∃ p, Call.connectToPeer p ∈ bag (w.get s).mailbox) :
    ∃ w₁, Drain cfg w w₁ ∧ (w₁.get s).readyToUse = true ∧ Kept (w.get s) (w₁.get s) ∧
      w₁.get s.other = w.get s.other := by
  cases hr : (w.get s).readyToUse
  · obtain ⟨p, hp⟩ := hc.resolve_left (by rw [hr]; exact Bool.noConfusion)
    obtain ⟨w₁, hd₁, h₁, h₂⟩ := drain_flush cfg s _ w rfl
    have hb : bag (w₁.get s).mailbox = bag (w.get s).mailbox := by
      rw [h₁]; simp only [bag, Mailbox.pending, List.map_nil, List.append_nil]
    have hk : Kept (w.get s) (w₁.get s) := .rebag hb (by rw [h₁]) (by rw [h₁]) (by rw [h₁])
    obtain ⟨w₂, hd₂, h₃, h₄, h₅⟩ := drain_unready s _ w₁ (Nat.le_refl _) (hk.delegate.trans hd)
      (by rw [hb]; exact he) (by rw [h₁]; exact hr)
      ⟨p, by rw [h₁]; simpa only [bag, Mailbox.pending, Multiset.mem_coe] using hp⟩
    exact ⟨w₂, hd₁.trans hd₂, h₃, hk.trans h₄, h₅.trans h₂⟩
  · exact ⟨w, .refl w, hr, .refl _, rfl⟩

end Ready

/-- What an event has yet to do before it has left both mailboxes: a `_send` becomes a
`_simulateReceived` on the peer, which becomes an `_ack` back, and a `_close` puts a
`_simulateClosed` on the peer. -/
def weight : Call → Nat
  | .send _ => 5
  | .simulateReceived _ => 3
  | .close => 3
  | _ => 1

theorem weight_pos (c : Call) : 0 < weight c := by cases c <;> exact Nat.succ_pos _

def eventsWork : List Call → Nat
  | [] => 0
  | c :: l => weight c + eventsWork l

theorem eventsWork_append (l l' : List Call) : eventsWork (l ++ l') = eventsWork l + eventsWork l' := by
  induction l with
  | nil => exact (Nat.zero_add _).symm
  | cons c l ih => rw [List.cons_append, eventsWork, eventsWork, ih, Nat.add_assoc]

def mwork (mb : Mailbox Call) : Nat := eventsWork mb.pending + mb.timers.length

def work (w : Pair) : Nat := mwork (w.get .a).mailbox + mwork (w.get .b).mailbox

theorem work_eq (w : Pair) (s : Side) : work w = mwork (w.get s).mailbox + mwork (w.get s.other).mailbox := by
  cases s
  · rfl
  · exact Nat.add_comm _ _

theorem mwork_pop {mb : Mailbox Call} {c : Call} {rest : List Call} (hq : mb.queue = c :: rest) :
    mwork mb = weight c + mwork { mb with queue := rest } := by
  simp only [mwork, Mailbox.pending, hq, List.cons_append, eventsWork, Nat.add_assoc]

theorem mwork_enqueue (mb : Mailbox Call) (c : Call) : mwork (mb.enqueue c) = mwork mb + weight c := by
  simp only [mwork, Mailbox.pending, enqueue_queue, enqueue_timers, List.append_assoc, List.singleton_append,
    eventsWork_append, eventsWork]
  omega

theorem mwork_enqueueAfter (mb : Mailbox Call) (now d : Nat) (c : Call) :
    mwork (mb.enqueueAfter now d c) ≤ mwork mb + weight c + 1 := by
  unfold Mailbox.enqueueAfter
  split
  · simp only [mwork, Mailbox.pending, List.map_append, List.map_cons, List.map_nil, eventsWork_append, eventsWork,
      List.length_append, List.length_cons, List.length_nil]
    omega
  · rw [mwork_enqueue]; omega

theorem mwork_fire {mb : Mailbox Call} {t : Timer Call} {ts : List (Timer Call)} (ht : mb.timers = t :: ts) :
    mwork (mb.fire 0) + 1 = mwork mb := by
  rw [fire_eq (by rw [ht]; rfl)]
  simp only [mwork, Mailbox.pending, ht, List.eraseIdx_cons_zero, List.map_cons, List.append_assoc,
    List.singleton_append, eventsWork_append, eventsWork, List.length_cons]
  omega

section Work
variable {cfg : Config} {P : Pair → Prop}

/-- What the drain asks of a property of the pair: running the head of either queue keeps it
and leaves less work, and time passing and a due timer firing keep it. -/
structure Lowers (cfg : Config) (P : Pair → Prop) : Prop where
  run : ∀ {w : Pair} {s : Side} {c : Call} {rest : List Call}, Reach cfg w → P w →
    (w.get s).mailbox.queue = c :: rest → ∃ w₁, w.run cfg s = some w₁ ∧ work w₁ < work w ∧ P w₁
  tick : ∀ {w : Pair} (n : Nat), P w → P { w with now := n }
  fire : ∀ {w : Pair} {s : Side} {i : Nat}, P w → (w.get s).mailbox.Due w.now i →
    P (w.modify s fun x => { x with mailbox := x.mailbox.fire i })

theorem Lowers.step (hL : Lowers cfg P) {w : Pair} (hR : Reach cfg w) (hP : P w) :
    (∀ s, bag (w.get s).mailbox = 0) ∨ ∃ w₁, Drain cfg w w₁ ∧ work w₁ < work w ∧ P w₁ := by
  by_cases hq : ∃ s c rest, (w.get s).mailbox.queue = c :: rest
  · obtain ⟨s, c, rest, hq⟩ := hq
    obtain ⟨w₁, hrun, h⟩ := hL.run hR hP hq
    exact .inr ⟨w₁, .run s hrun (.refl _), h⟩
  have hq' : ∀ s, (w.get s).mailbox.queue = [] := fun s => by
    cases h : (w.get s).mailbox.queue with
    | nil => rfl
    | cons c rest => exact absurd ⟨s, c, rest, h⟩ hq
  by_cases ht : ∃ s t ts, (w.get s).mailbox.timers = t :: ts
  · obtain ⟨s, t, ts, ht⟩ := ht
    let w₁ : Pair := { w with now := max w.now t.due }
    have hdue : (w₁.get s).mailbox.Due w₁.now 0 := ⟨t, by rw [get_now, ht]; rfl, le_max_right _ _⟩
    refine .inr ⟨_, .tick _ (le_max_left _ _) (.fire s hdue (.refl _)), ?_, hL.fire (hL.tick _ hP) hdue⟩
    have hf := mwork_fire ht
    rw [work_eq w s, work_eq _ s]
    simp only [w₁, get_modify_self, get_modify_other, get_now]
    omega
  · refine .inl fun s => ?_
    cases h : (w.get s).mailbox.timers with
    | nil => simp only [bag, Mailbox.pending, hq' s, h, List.map_nil, List.append_nil, Multiset.coe_nil]
    | cons t ts => exact absurd ⟨s, t, ts, h⟩ ht

theorem Lowers.drain (hL : Lowers cfg P) (n : Nat) :
    ∀ w, work w ≤ n → Reach cfg w → P w →
      ∃ w', Drain cfg w w' ∧ Reach cfg w' ∧ P w' ∧ ∀ s, bag (w'.get s).mailbox = 0 := by
  induction n with
  | zero =>
    intro w hw hR hP
    rcases hL.step hR hP with h | ⟨_, -, hlt, -⟩
    · exact ⟨w, .refl w, hR, hP, h⟩
    · omega
  | succ n ih =>
    intro w hw hR hP
    rcases hL.step hR hP with h | ⟨w₁, hd, hlt, hP₁⟩
    · exact ⟨w, .refl w, hR, hP, h⟩
    · obtain ⟨w', hd', h'⟩ := ih w₁ (by omega) (hd.reach hR) hP₁
      exact ⟨w', hd.trans hd', h'⟩

end Work

def Settled (w₀ w : Pair) : Prop :=
  ∀ s, Quiet (w.get s) ∧ (w.get s).readyToUse = true ∧ (w.get s).sent = (w₀.get s).sent

theorem settled_of {w₀ w : Pair} (t : Side)
    (h₁ : Quiet (w.get t) ∧ (w.get t).readyToUse = true ∧ (w.get t).sent = (w₀.get t).sent)
    (h₂ : Quiet (w.get t.other) ∧ (w.get t.other).readyToUse = true ∧ (w.get t.other).sent = (w₀.get t.other).sent) :
    Settled w₀ w := fun s => by
  rcases Side.eq_or_eq_other t s with rfl | rfl
  · exact h₁
  · exact h₂

section Settled
variable {cfg : Config} {w : Pair} {s : Side} {rest : List Call}

theorem settled_set {w₀ : Pair} (hS : Settled w₀ w) {c : Call} (hq : (w.get s).mailbox.queue = c :: rest)
    {x : Socket} (hm : x.mailbox = { (w.get s).mailbox with queue := rest }) (hr : x.readyToUse = true)
    (hd : x.hasDelegate = (w.get s).hasDelegate) (hc : x.closeNotified = (w.get s).closeNotified)
    (hs : x.sent = (w.get s).sent) : work (w.set s x) < work w ∧ Settled w₀ (w.set s x) := by
  refine ⟨?_, settled_of s ?_ ?_⟩
  · have := weight_pos c
    simp only [work_eq w s, work_eq _ s, get_set_self, get_set_other, hm, mwork_pop hq]
    omega
  · rw [get_set_self]
    exact ⟨(hS s).1.pop (hm ▸ bag_pop hq) hd hc, hr, hs.trans (hS s).2.2⟩
  · rw [get_set_other]; exact hS s.other

theorem run_settled {w₀ : Pair} (hR : Reach cfg w) (hS : Settled w₀ w) {c : Call}
    (hq : (w.get s).mailbox.queue = c :: rest) :
    ∃ w₁, w.run cfg s = some w₁ ∧ work w₁ < work w ∧ Settled w₀ w₁ := by
  obtain ⟨hQ, hr, hs⟩ := hS s
  obtain ⟨hQ', hr', hs'⟩ := hS s.other
  have hp : (w.get s).peer = some s.other := hQ.peer (reach_inv hR s) hr
  have hb := bag_pop hq
  have hw := mwork_pop hq
  rw [run_pop hq]
  cases c with
  | connectToPeer p =>
    obtain ⟨x, he, h₁, h₂, h₃, h₄, h₅, -⟩ := handle_connect cfg rest p hQ.delegate
    exact ⟨_, he, settled_set hS hq h₂ h₁ h₃ h₄ h₅⟩
  | ack n =>
    obtain ⟨x, he, h₁, h₂, h₃, h₄, h₅, -⟩ := handle_ack cfg rest n
    exact ⟨_, he, settled_set hS hq h₂ (h₁.trans hr) h₃ h₄ h₅⟩
  | send msg =>
    obtain ⟨w₁, he, g₁, g₂⟩ := handle_send_ready cfg rest msg hr hp
    have hle := mwork_enqueueAfter (w.get s.other).mailbox w.now cfg.latency (.simulateReceived msg)
    refine ⟨w₁, he, ?_, settled_of s (by rw [g₁]; exact ⟨hQ.pop hb rfl rfl, hr, hs⟩)
      (by rw [g₂]; exact ⟨hQ'.push (bag_enqueueAfter _ _ _ _) rfl, hr', hs'⟩)⟩
    rw [work_eq w s, work_eq _ s, g₁, g₂, hw]
    simp only [weight] at hle ⊢
    omega
  | simulateReceived msg =>
    obtain ⟨w₁, he, g₁, g₂⟩ := handle_receive_ready cfg rest msg hr hp
    refine ⟨w₁, he, ?_, settled_of s (by rw [g₁]; exact ⟨hQ.pop hb rfl rfl, hr, hs⟩)
      (by rw [g₂]; exact ⟨hQ'.push (bag_enqueue _ _) rfl, hr', hs'⟩)⟩
    rw [work_eq w s, work_eq _ s, g₁, g₂, hw, mwork_enqueue]
    simp only [weight]
    omega
  | close => cases hQ.calm _ (hb ▸ Multiset.mem_cons_self _ _)
  | simulateClosed => cases hQ.calm _ (hb ▸ Multiset.mem_cons_self _ _)

theorem lowers_settled (w₀ : Pair) : Lowers cfg (Settled w₀) where
  run hR hS hq := run_settled hR hS hq
  tick n hS s := by rw [get_now]; exact hS s
  fire {w s _} hS hdue := by
    obtain ⟨hQ, hr, hs⟩ := hS s
    refine settled_of s ?_ (by rw [get_modify_other]; exact hS s.other)
    rw [get_modify_self]
    exact ⟨hQ.congr rfl rfl fun c hm => .inl (bag_fire hdue ▸ hm), hr, hs⟩

end Settled

theorem drain_empties {cfg : Config} {w : Pair} (h : Reach cfg w) (hQ : ∀ s, Quiet (w.get s))
    (hc : ∀ s, (w.get s).readyToUse = true ∨ ∃ p, Call.connectToPeer p ∈ bag (w.get s).mailbox) :
    ∃ w', Drain cfg w w' ∧ Reach cfg w' ∧ Settled w w' ∧ ∀ s, bag (w'.get s).mailbox = 0 := by
  obtain ⟨w₁, hd₁, ha₁, hka, hb₁⟩ := drain_ready cfg .a (hQ .a).delegate (hQ .a).unechoed (hc .a)
  have hQb : Quiet (w₁.get .b) := hb₁ ▸ hQ .b
  obtain ⟨w₂, hd₂, hb₂, hkb, ha₂⟩ := drain_ready cfg .b hQb.delegate hQb.unechoed (hb₁ ▸ hc .b)
  have hS : Settled w w₂ := fun s => by
    cases s
    · exact ⟨ha₂ ▸ (hQ .a).kept hka, ha₂ ▸ ha₁, ha₂ ▸ hka.sent⟩
    · exact ⟨hQb.kept hkb, hb₂, hkb.sent.trans (congrArg Socket.sent hb₁)⟩
  obtain ⟨w', hd, h'⟩ := (lowers_settled w).drain (work w₂) w₂ (Nat.le_refl _) (hd₂.reach (hd₁.reach h)) hS
  exact ⟨w', hd₁.trans (hd₂.trans hd), h'⟩

/-- From a reachable state in which both sockets have delegates, no close is under way and each
is ready or has its `_connectToPeer` on its mailbox, the pair's own steps empty both mailboxes,
and then each delegate has been given, as a multiset, exactly what the other socket's user sent,
messages sent before the connection included. -/
theorem loopback_delivers {cfg : Config} {w : Pair} (h : Reach cfg w) (hQ : ∀ s, Quiet (w.get s))
    (hc : ∀ s, (w.get s).readyToUse = true ∨ ∃ p, Call.connectToPeer p ∈ bag (w.get s).mailbox) :
    ∃ w', Drain cfg w w' ∧ ∀ s, bag (w'.get s).mailbox = 0 ∧ (w'.get s).sent = (w.get s).sent ∧
      ((w'.get s.other).delivered : Multiset (List UInt8)) = (w'.get s).sent := by
  obtain ⟨w', hd, hR', hS', hempty⟩ := drain_empties h hQ hc
  refine ⟨w', hd, fun s => ⟨hempty s, (hS' s).2.2, ?_⟩⟩
  obtain ⟨d, hdel, hz⟩ := (reach_inv hR' s).conserved
  rw [hdel, hz (hS' s).1.notClosed]
  simp only [outgoing, incoming, hempty, Multiset.filterMap_zero, add_zero]

theorem loopback_delivers_ex :
    ∃ w, Reach ⟨0⟩ w ∧ (w.get .a).sent = [[1]] ∧ (w.get .a).readyToUse = false ∧
      ∃ w', Drain ⟨0⟩ w w' ∧ ∀ s, bag (w'.get s).mailbox = 0 ∧ (w'.get s).sent = (w.get s).sent ∧
        ((w'.get s.other).delivered : Multiset (List UInt8)) = (w'.get s).sent := by
  have h : Reach ⟨0⟩ _ := .connect (.send .a [1] (.setDelegate .b (.setDelegate .a (.start 0))))
  refine ⟨_, h, rfl, rfl, loopback_delivers h (fun s => ?_) (fun s => .inr ⟨s.other, ?_⟩)⟩
  · cases s <;> exact ⟨rfl, rfl, by decide⟩
  · cases s <;> decide

end Blip.LoopbackDelivery
