import Retrace.Proofs.Message.Events
import Retrace.Proofs.Wire.RoundTrip

/-!
# Traces of events are read back

Reading a trace message by message gives the events that cores told, whatever their order, since a
reader remembers the last address of each core just as the core does.
-/

namespace Retrace

open Wire

/-- The packets of events on cores, given the last address of each core. -/
def packetsOf (last : UInt16 → UInt64) : List (UInt16 × Event) → List Packet
  | [] => []
  | (core, e) :: es =>
    e.packet core (last core) ::
      packetsOf (Function.update last core (e.address?.getD (last core))) es

def messagesOf (es : List (UInt16 × Event)) : List Message :=
  es.flatMap fun (core, e) => e.messages core

theorem calls_congr {σ α : Type} {f : σ → α × σ} {s s' : σ} (h : f s = f s') (n : Nat) :
    calls f n s = calls f n s' := by
  cases n with
  | zero => rfl
  | succ n => rw [calls, calls, h]

namespace Reader

/-- Nothing is pending, and of each core the last address is remembered and nothing else. -/
structure Remembers (last : UInt16 → UInt64) (r : Reader) : Prop where
  pending : r.pending = []
  cores : ∀ core, r.cores.getD core {} = ⟨last core, 0, 0⟩

variable {r r' : Reader} {last : UInt16 → UInt64} {p : Packet}

theorem calls_next_pending (ms : List Message) (n : Nat) (h : r.pending = ms) :
    calls next (ms.length + n) r =
      ms.map (fun m => some (.ok m)) ++ calls next n { r with pending := [] } := by
  induction ms generalizing r with
  | nil =>
      obtain ⟨options, position, cores, pending⟩ := r
      subst h
      rw [List.length_nil, Nat.zero_add]
      rfl
  | cons m ms ih =>
      have hn : r.next = (some (.ok m), { r with pending := ms }) := by
        rw [next]
        split
        · rename_i m' ms' hp
          rw [h] at hp
          cases hp
          rfl
        · rename_i hp
          rw [h] at hp
          cases hp
      rw [List.length_cons, Nat.succ_add, calls_of_eq hn, ih rfl]
      rfl

theorem next_eq (h : r.pending = []) :
    r.next =
      match r.nextPacket with
      | (none, r') => (none, r')
      | (some (.error e), r') => (some (.error e), r')
      | (some (.ok p), r') =>
        let (messages, context) := p.expand r.options.timestampWidth (r'.cores.getD p.core {})
        let cores := r'.cores.insert p.core context
        match messages with
        | none => (some (.error (.unsupported p.type p.core)), { r' with cores })
        | some messages => next { r' with cores, pending := messages } := by
  fun_cases next r with
  | case1 m pending hp =>
      rw [h] at hp
      cases hp
  | case2 _ r' hn => rw [hn]
  | case3 _ e r' hn => rw [hn]
  | case4 _ p r' hn context cores =>
      rename_i he
      simp only [hn, he, cores]
  | case5 _ p r' hn context cores messages =>
      rename_i he
      simp only [hn, he, cores]

/-- A packet makes its messages pending. -/
theorem next_of_nextPacket {messages : List Message} {context : CoreContext} (hr : r.pending = [])
    (hn : r.nextPacket = (some (.ok p), r'))
    (he : p.expand r.options.timestampWidth (r'.cores.getD p.core {}) = (some messages, context)) :
    r.next = next { r' with
      cores := r'.cores.insert p.core context
      pending := messages } := by
  rw [next_eq hr, hn]
  simp only [he]

theorem calls_next_at_end (extra : Nat) (hp : r.pending = []) (hr : r.position.rest = []) :
    calls next extra r = .replicate extra none := by
  induction extra generalizing r with
  | zero => rfl
  | succ n ih =>
      obtain ⟨offset, hn⟩ := nextPacket_idle (show _ = List.replicate 0 Slice.idle from hr)
      have hnext : r.next = (none, { r with position := ⟨offset, []⟩ }) := by
        rw [next_eq hp, hn]
      have hrest := ih (r := { r with position := ⟨offset, []⟩ }) hp rfl
      rw [calls_of_eq hnext, hrest]
      rfl

/-- After the packet of an event, the address of the event is remembered of its core. -/
theorem Remembers.next_event {e : Event} {core : UInt16} {rest : List UInt8}
    (h : r.Remembers last) (he : e.Valid) (hc : core.toNat < 2 ^ r.options.coreBits)
    (heven : (last core).toNat % 2 = 0)
    (hr : r.position.rest = (e.packet core (last core)).encode r.options.coreBits ++ rest) :
    ∃ r' : Reader, r'.options = r.options ∧ r'.position.rest = rest ∧
      r'.Remembers (Function.update last core (e.address?.getD (last core))) ∧
      r.next = next { r' with pending := e.messages core } := by
  obtain ⟨offset, hn⟩ := nextPacket_encode (Event.complete_packet core (last core) e)
    (show _ = List.replicate 0 Slice.idle ++ _ from hr)
  rw [Event.reduced_packet he hc] at hn
  have hexpand := Event.expand_packet core he heven r.options.timestampWidth
  rw [← h.cores core] at hexpand
  refine ⟨{ r with
    position := ⟨offset, rest⟩
    cores := r.cores.insert core ⟨e.address?.getD (last core), 0, 0⟩
    pending := [] }, rfl, rfl, ⟨rfl, ?_⟩, next_of_nextPacket h.pending hn hexpand⟩
  intro id
  simp only [Std.TreeMap.getD_insert, Function.update_apply, Std.LawfulEqCmp.compare_eq_iff_eq]
  by_cases hid : core = id
  · simp [hid]
  · simp [hid, Ne.symm hid, h.cores id]

/-- The messages of events are given one after the other, and then nothing any more. -/
theorem Remembers.calls_next {es : List (UInt16 × Event)} (extra : Nat) (h : r.Remembers last)
    (hes : ∀ q ∈ es, q.1.toNat < 2 ^ r.options.coreBits ∧ q.2.Valid)
    (heven : ∀ core, (last core).toNat % 2 = 0)
    (hr : r.position.rest = (packetsOf last es).flatMap (·.encode r.options.coreBits)) :
    calls next ((messagesOf es).length + extra) r =
      (messagesOf es).map (fun m => some (.ok m)) ++ .replicate extra none := by
  induction es generalizing r last with
  | nil =>
      rw [messagesOf, List.flatMap_nil, List.length_nil, Nat.zero_add,
        calls_next_at_end extra h.pending hr]
      rfl
  | cons q es ih =>
      obtain ⟨core, e⟩ := q
      obtain ⟨hc, he⟩ : core.toNat < 2 ^ r.options.coreBits ∧ e.Valid := hes _ List.mem_cons_self
      -- The reader gives the messages of the first event and has then just read its packet.
      obtain ⟨r', ho, hpos, hrem, hnext⟩ := h.next_event he hc (heven core) hr
      have heven' : ∀ id,
          (Function.update last core (e.address?.getD (last core)) id).toNat % 2 = 0 := by
        intro id
        rw [Function.update_apply]
        split
        · cases ha : e.address? with
          | none => exact heven core
          | some address => exact he.even address ha
        · exact heven id
      have hlen : (messagesOf ((core, e) :: es)).length + extra =
          (e.messages core).length + ((messagesOf es).length + extra) := by
        simp only [messagesOf, List.flatMap_cons, List.length_append, Nat.add_assoc]
      have hrest := ih (r := { r' with pending := [] }) ⟨rfl, hrem.cores⟩
        (ho ▸ fun q hq => hes q (List.mem_cons_of_mem _ hq)) heven' (ho ▸ hpos)
      rw [hlen, calls_congr hnext, calls_next_pending (e.messages core) _ rfl,
        hrest]
      simp [messagesOf]

/-- Of any events on any cores, a reader gives exactly the messages on them, the outcomes one by one
before what the event tells. -/
theorem transmitted_events_are_read (options : ReaderOptions) (es : List (UInt16 × Event))
    (extra : Nat) (h : ∀ q ∈ es, q.1.toNat < 2 ^ options.coreBits ∧ q.2.Valid) :
    calls next ((messagesOf es).length + extra)
        (start options ((packetsOf (fun _ => 0) es).flatMap (·.encode options.coreBits))) =
      (messagesOf es).map (fun m => some (.ok m)) ++ .replicate extra none := by
  have hstart : (start options ((packetsOf (fun _ => 0) es).flatMap
      (·.encode options.coreBits))).Remembers fun _ => 0 :=
    ⟨rfl, fun _ => Std.TreeMap.getD_emptyc⟩
  exact hstart.calls_next extra h (fun _ => rfl) rfl

/-- The addresses of two cores do not mix. -/
theorem two_cores_are_read :
    let es : List (UInt16 × Event) := [(0, .sync none 0x1000 5), (1, .sync (some [true]) 0x8000 0),
      (0, .indirectBranch (some [true, false]) 0x1010 7), (1, .exception none 2 0x8004 9),
      (1, .taken 3), (0, .outcomes [false])]
    calls next 10 (start ⟨1, 40⟩ ((packetsOf (fun _ => 0) es).flatMap (·.encode 1))) =
      [some (.ok ⟨0, 0, .sync 0x1000 5⟩), some (.ok ⟨1, 0, .directBranch true 0⟩),
        some (.ok ⟨1, 0, .sync 0x8000 0⟩), some (.ok ⟨0, 0, .directBranch true 0⟩),
        some (.ok ⟨0, 0, .directBranch false 0⟩), some (.ok ⟨0, 0, .indirectBranch 0x1010 7⟩),
        some (.ok ⟨1, 0, .exception 0x8004 9⟩), some (.ok ⟨1, 0, .directBranch true 3⟩),
        some (.ok ⟨0, 0, .directBranch false 0⟩), none] := by
  intro es
  have hvalid : ∀ q ∈ es, q.1.toNat < 2 ^ 1 ∧ q.2.Valid := by
    intro q hq
    simp only [es, List.mem_cons, List.not_mem_nil, or_false] at hq
    rcases hq with rfl | rfl | rfl | rfl | rfl | rfl <;>
      exact ⟨by decide, by rintro _ ⟨⟩ <;> decide, by decide, by rintro _ _ _ _ ⟨⟩ <;> decide⟩
  exact transmitted_events_are_read ⟨1, 40⟩ es 1 hvalid

end Reader

end Retrace
