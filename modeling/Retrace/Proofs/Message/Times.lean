import Retrace.Proofs.Message.Readings

/-!
# Readings but for their times

What packets tell besides times does not depend on the times before. A packet that tells a full
address does not depend on anything before, but for its count.
-/

namespace Retrace

open Wire

def Payload.untimed : Payload → Payload
  | .print f => .print { f with timestamp := 0 }
  | payload => payload

def Message.untimed (m : Message) : Message :=
  ⟨m.core, 0, m.payload.untimed⟩

def CoreContext.untimed (c : CoreContext) : CoreContext :=
  { c with timestamp := 0 }

variable {p : Packet} {c c' : CoreContext} {width : Nat} {id : UInt16}
  {last last' : UInt16 → CoreContext} {ps : List Packet}

@[simp]
theorem CoreContext.untimed_stamp (c : CoreContext) (width : Nat) (value? : Option UInt64)
    (full : Bool) : (c.stamp width value? full).untimed = c.untimed := by
  cases value? <;> rfl

theorem untimed_fragments (core : UInt16) (timestamp timestamp' tag data : UInt64) :
    (fragments core timestamp tag data).map Payload.untimed =
      (fragments core timestamp' tag data).map Payload.untimed := by
  simp only [fragments]
  split
  · simp only [List.map_map]
    rfl
  · rfl

/-- Payloads and the context after them, but for times. -/
def forgetTimes (r : List Payload × CoreContext) : List Payload × CoreContext :=
  (r.1.map Payload.untimed, r.2.untimed)

theorem Wire.Packet.payloads?_untimed (p : Packet) (c : CoreContext) :
    (p.payloads? c.untimed).map forgetTimes = (p.payloads? c).map forgetTimes := by
  simp only [payloads?]
  split
  case h_8 =>
      split
      · rfl
      · split
        · rfl
        · rfl
  case h_10 =>
      simp only [Option.map_some, forgetTimes,
        untimed_fragments p.core c.untimed.timestamp c.timestamp]
      rfl
  all_goals rfl

theorem Wire.Packet.payloads?_congr (p : Packet) (h : c.untimed = c'.untimed) :
    (p.payloads? c).map forgetTimes = (p.payloads? c').map forgetTimes := by
  rw [← payloads?_untimed, h, payloads?_untimed]

theorem untimed_messages (core : UInt16) (timestamp : UInt64) (payloads : List Payload) :
    (payloads.map fun payload => Message.mk core timestamp payload).map Message.untimed =
      (payloads.map Payload.untimed).map fun payload => Message.mk core 0 payload := by
  simp only [List.map_map]
  rfl

theorem Wire.Packet.untimed_stamped (p : Packet) (width : Nat) (h : c.untimed = c'.untimed) :
    (p.stamped width c).untimed = (p.stamped width c').untimed := by
  unfold stamped
  split
  · rfl
  · rw [CoreContext.untimed_stamp, CoreContext.untimed_stamp, h]

theorem Wire.Packet.tells_congr (p : Packet) (width : Nat) (h : c.untimed = c'.untimed) :
    (p.tells width c).1.map (·.map Message.untimed) =
        (p.tells width c').1.map (·.map Message.untimed) ∧
      (p.tells width c).2.untimed = (p.tells width c').2.untimed := by
  have hstamped := p.untimed_stamped width h
  have hpayloads := p.payloads?_congr hstamped
  cases hp : p.payloads? (p.stamped width c) with
  | none =>
      cases hp' : p.payloads? (p.stamped width c') with
      | none =>
          rw [tells, tells, expand_of_none hp, expand_of_none hp']
          exact ⟨rfl, hstamped⟩
      | some r =>
          rw [hp, hp'] at hpayloads
          cases hpayloads
  | some r =>
      cases hp' : p.payloads? (p.stamped width c') with
      | none =>
          rw [hp, hp'] at hpayloads
          cases hpayloads
      | some r' =>
          obtain ⟨payloads, d⟩ := r
          obtain ⟨payloads', d'⟩ := r'
          rw [hp, hp'] at hpayloads
          obtain ⟨hmap, hcontext⟩ := Prod.mk.inj (Option.some.inj hpayloads)
          -- Whether there is nothing but a timestamp does not depend on times either.
          have hannounced : (p.announced payloads).map Payload.untimed =
              (p.announced payloads').map Payload.untimed := by
            have hempty : payloads.isEmpty = payloads'.isEmpty := by
              simpa using congrArg List.isEmpty hmap
            unfold announced
            rw [hempty]
            split
            · rfl
            · exact hmap
          rw [tells, tells, expand_of_some hp, expand_of_some hp']
          refine ⟨?_, hcontext⟩
          have hmessages := untimed_messages p.core (p.stamped width c).timestamp
            (p.announced payloads)
          rw [hannounced, ← untimed_messages p.core (p.stamped width c').timestamp] at hmessages
          have hok := congrArg (List.map (@Except.ok PacketError Message)) hmessages
          simp only [List.map_map] at hok ⊢
          exact hok

/-- What packets of one core tell, but for times, does not depend on the time before. -/
theorem told_congr (hid : ∀ p ∈ ps, p.core = id) (h : (last id).untimed = (last' id).untimed) :
    (told width last (ps.map .ok)).map (·.map Message.untimed) =
      (told width last' (ps.map .ok)).map (·.map Message.untimed) := by
  induction ps generalizing last last' with
  | nil => rfl
  | cons p ps ih =>
      obtain rfl := hid p List.mem_cons_self
      obtain ⟨htells, hcontext⟩ := p.tells_congr width h
      rw [List.map_cons, told, told, List.map_append, List.map_append, htells]
      exact congrArg _
        (ih (fun q hq => hid q (List.mem_cons_of_mem p hq)) (by simpa using hcontext))

/-! ## Packets that tell a full address -/

/-- The readings of messages that a core sent at once. -/
def readAt (id : UInt16) (timestamp : UInt64) (payloads : List Payload) :
    List (Except PacketError Message) :=
  payloads.map fun payload => .ok ⟨id, timestamp, payload⟩

theorem Wire.TypeCode.eq_of_isSync {type : TypeCode} (h : type.isSync = true) :
    type = .sync ∨ type = .directBranchSync ∨ type = .indirectBranchSync ∨
      type = .indirectBranchHistorySync := by
  cases type <;> simp_all [isSync]

theorem Wire.Packet.tells_of_payloads {payloads : List Payload} {d : CoreContext}
    (h : p.payloads? (p.stamped width c) = some (payloads, d)) (hne : payloads.isEmpty = false) :
    p.tells width c = (readAt p.core (p.stamped width c).timestamp payloads, d) := by
  rw [tells, expand_of_some h]
  simp [announced, hne, readAt]

/-- A packet of such a type tells outcomes and an address, and remembers the address, whatever was
remembered before. -/
theorem Wire.Packet.tells_sync (hp : p.type.isSync = true) (width : Nat) :
    ∃ (bits? : Option UInt64) (address : UInt64), ∀ c, ∃ timestamp count d,
      p.tells width c =
          (readAt p.core timestamp (bits?.elim [] history ++ [.sync address count]), d) ∧
        d.untimed = ⟨address, 0, 0⟩ := by
  rcases TypeCode.eq_of_isSync hp with ht | ht | ht | ht
  · exact ⟨none, p.mandatory 2 <<< 1, fun c =>
      ⟨_, _, _, tells_of_payloads (by simp only [payloads?, ht]; rfl) rfl, rfl⟩⟩
  · exact ⟨none, p.mandatory 2 <<< 1, fun c =>
      ⟨_, _, _, tells_of_payloads (by simp only [payloads?, ht]; rfl) rfl, rfl⟩⟩
  · exact ⟨none, p.mandatory 3 <<< 1, fun c =>
      ⟨_, _, _, tells_of_payloads (by simp only [payloads?, ht]; rfl) rfl, rfl⟩⟩
  · exact ⟨some (p.mandatory 4), p.mandatory 3 <<< 1, fun c =>
      ⟨_, _, _, tells_of_payloads (by simp only [payloads?, ht]; rfl) (by simp), rfl⟩⟩

/-- Packets behind one of such a type tell the same but for times, whatever was remembered before
that one. -/
theorem told_sync (hp : p.type.isSync = true) (hps : ∀ q ∈ ps, q.core = p.core) (width : Nat)
    (last last' : UInt16 → CoreContext) :
    ∃ (bits? : Option UInt64) (address timestamp timestamp' : UInt64) (count count' : Nat)
      (after after' : UInt16 → CoreContext),
      told width last ((p :: ps).map .ok) =
          readAt p.core timestamp (bits?.elim [] history) ++
            .ok ⟨p.core, timestamp, .sync address count⟩ :: told width after (ps.map .ok) ∧
        told width last' ((p :: ps).map .ok) =
          readAt p.core timestamp' (bits?.elim [] history) ++
            .ok ⟨p.core, timestamp', .sync address count'⟩ :: told width after' (ps.map .ok) ∧
        (told width after' (ps.map .ok)).map (·.map Message.untimed) =
          (told width after (ps.map .ok)).map (·.map Message.untimed) := by
  obtain ⟨bits?, address, htells⟩ := p.tells_sync hp width
  obtain ⟨timestamp, count, d, heq, hd⟩ := htells (last p.core)
  obtain ⟨timestamp', count', d', heq', hd'⟩ := htells (last' p.core)
  refine ⟨bits?, address, timestamp, timestamp', count, count', Function.update last p.core d,
    Function.update last' p.core d', ?_, ?_, told_congr hps ?_⟩
  · rw [List.map_cons, told, heq]
    simp [readAt]
  · rw [List.map_cons, told, heq']
    simp [readAt]
  · rw [Function.update_self, Function.update_self, hd, hd']

end Retrace
