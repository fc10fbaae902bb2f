import Retrace.Proofs.Message.RoundTrip
import Retrace.Proofs.Wire.Framing

/-!
# All that a reader gives

What is read of a trace to its end, as a function of its packets. It is told core by core: what the
packets of one core tell does not depend on those of other cores between them.
-/

namespace Retrace

open Wire

/-- All that a reader still gives: messages, and why packets gave none. -/
def Reader.readings (r : Reader) : List (Except PacketError Message) :=
  match h : r.next with
  | (none, _) => []
  | (some x, r') =>
    have := remaining_of_next h
    x :: r'.readings
termination_by r.remaining
decreasing_by exact this

/-- What a packet tells of its core, and what is remembered of it then. -/
def Wire.Packet.tells (p : Packet) (width : Nat) (c : CoreContext) :
    List (Except PacketError Message) × CoreContext :=
  match p.expand width c with
  | (none, c) => ([.error (.unsupported p.type p.core)], c)
  | (some messages, c) => (messages.map .ok, c)

/-- What packets tell, given what is remembered of each core. -/
def told (width : Nat) (last : UInt16 → CoreContext) :
    List (Except PacketError Packet) → List (Except PacketError Message)
  | [] => []
  | .error e :: ps => .error e :: told width last ps
  | .ok p :: ps =>
    (p.tells width (last p.core)).1 ++
      told width (Function.update last p.core (p.tells width (last p.core)).2) ps

/-- What is remembered of each core after packets. -/
def recalled (width : Nat) (last : UInt16 → CoreContext) :
    List (Except PacketError Packet) → UInt16 → CoreContext
  | [] => last
  | .error _ :: ps => recalled width last ps
  | .ok p :: ps => recalled width (Function.update last p.core (p.tells width (last p.core)).2) ps

/-- The core that is told of, if it is known. -/
def readCore? : Except PacketError Message → Option UInt16
  | .ok m => some m.core
  | .error e => e.core?

def remembered (cores : Std.TreeMap UInt16 CoreContext) (id : UInt16) : CoreContext :=
  cores.getD id {}

variable {r r' : Reader} {x : Except PacketError Message} {width : Nat} {p : Packet}
  {ps ps' : List (Except PacketError Packet)} {last last' : UInt16 → CoreContext}
  {c : CoreContext} {id : UInt16}

/-! ## Reading packet by packet -/

namespace Reader

theorem readings_of_end (h : r.next = (none, r')) : r.readings = [] := by
  rw [readings]
  split
  · rfl
  · rename_i hn
    rw [h] at hn
    cases hn

theorem readings_of_next (h : r.next = (some x, r')) : r.readings = x :: r'.readings := by
  rw [readings]
  split
  · rename_i hn
    rw [h] at hn
    cases hn
  · rename_i hn
    rw [h] at hn
    cases hn
    rfl

theorem next_of_readings {xs : List (Except PacketError Message)} (h : r.readings = x :: xs) :
    ∃ r', r.next = (some x, r') ∧ r'.readings = xs := by
  cases hn : r.next with
  | mk x? r' =>
      cases x? with
      | none =>
          rw [readings_of_end hn] at h
          cases h
      | some x' =>
          rw [readings_of_next hn] at h
          cases h
          exact ⟨r', rfl, rfl⟩

theorem next_of_no_readings (h : r.readings = []) : ∃ r', r.next = (none, r') := by
  cases hn : r.next with
  | mk x? r' =>
      cases x? with
      | none => exact ⟨r', rfl⟩
      | some x =>
          rw [readings_of_next hn] at h
          cases h

/-- What is pending and then what the packets tell. -/
def foretold (r : Reader) : List (Except PacketError Message) :=
  r.pending.map .ok ++
    told r.options.timestampWidth (remembered r.cores) (r.position.packets r.options.coreBits)

theorem remembered_insert (cores : Std.TreeMap UInt16 CoreContext) (id : UInt16) (c : CoreContext) :
    remembered (cores.insert id c) = Function.update (remembered cores) id c := by
  funext core
  simp only [remembered, Std.TreeMap.getD_insert, Function.update_apply,
    Std.LawfulEqCmp.compare_eq_iff_eq]
  by_cases hid : core = id
  · simp [hid]
  · simp [hid, Ne.symm hid]

theorem foretold_of_packet (hp : r.pending = []) (hn : r.nextPacket = (some (.ok p), r')) :
    r.foretold = (p.tells r.options.timestampWidth (remembered r'.cores p.core)).1 ++
      told r.options.timestampWidth (remembered (r'.cores.insert p.core
          (p.tells r.options.timestampWidth (remembered r'.cores p.core)).2))
        (r'.position.packets r.options.coreBits) := by
  obtain ⟨hpackets, hr⟩ := packets_of_nextPacket hn
  rw [foretold, hp, hpackets, List.map_nil, List.nil_append, told, remembered_insert, hr]

/-- The next reading is the first of those foretold. -/
theorem foretold_of_next : match r.next with
    | (none, _) => r.foretold = []
    | (some x, r') => r.foretold = x :: r'.foretold ∧ r'.options = r.options := by
  fun_induction next r with
  | case1 r m pending hp => simp [foretold, hp]
  | case2 r hp r' hn => simp [foretold, hp, packets_of_nextPacket_end hn, told]
  | case3 r hp e r' hn =>
      obtain ⟨hpackets, hr⟩ := packets_of_nextPacket hn
      rw [hr]
      simp [foretold, hp, hpackets, told]
  | case4 r hp p r' hn context cores =>
      rename_i he
      obtain ⟨-, hr⟩ := packets_of_nextPacket hn
      have hpending : r'.pending = [] := by rw [hr, hp]
      have hoptions : r'.options = r.options := by rw [hr]
      have htells : p.tells r.options.timestampWidth (remembered r'.cores p.core) =
          ([.error (.unsupported p.type p.core)], context) := by
        rw [Packet.tells, remembered, he]
      refine ⟨?_, hoptions⟩
      rw [foretold_of_packet hp hn, htells, foretold, hpending, hoptions]
      rfl
  | case5 r hp p r' hn context cores messages =>
      rename_i he ih
      obtain ⟨-, hr⟩ := packets_of_nextPacket hn
      have hoptions : r'.options = r.options := by rw [hr]
      have htells : p.tells r.options.timestampWidth (remembered r'.cores p.core) =
          (messages.map .ok, context) := by
        rw [Packet.tells, remembered, he]
      have hforetold : r.foretold = foretold { r' with cores, pending := messages } := by
        rw [foretold_of_packet hp hn, htells, foretold, hoptions]
      rwa [hforetold, ← hoptions]

theorem readings_eq (r : Reader) : r.readings = r.foretold := by
  fun_induction readings r with
  | case1 r r' hn =>
      have hend := foretold_of_next (r := r)
      rw [hn] at hend
      exact hend.symm
  | case2 r x r' hn _ ih =>
      have hnext := foretold_of_next (r := r)
      rw [hn] at hnext
      rw [ih, hnext.1]

theorem readings_at_end (h : r.next = (none, r')) : r'.readings = [] := by
  obtain ⟨hrest, hpending⟩ : r'.position.rest.length = 0 ∧ r'.pending.length = 0 := by
    simpa [remaining] using remaining_of_end h
  have hposition : r'.position = ⟨r'.position.offset, .replicate 0 Slice.idle⟩ := by
    rw [List.replicate_zero, ← List.length_eq_zero_iff.mp hrest]
  rw [readings_eq, foretold, List.length_eq_zero_iff.mp hpending, hposition,
    Position.packets_replicate_idle]
  rfl

/-- All that is read of a trace is what its packets tell, core by core. -/
theorem readings_start (options : ReaderOptions) (trace : List UInt8) :
    (start options trace).readings =
      told options.timestampWidth (fun _ => {}) (Position.packets options.coreBits ⟨0, trace⟩) := by
  have hlast : remembered {} = fun _ => {} := funext fun _ => Std.TreeMap.getD_emptyc
  rw [readings_eq, ← hlast]
  rfl

theorem readings_eq_told (options : ReaderOptions) (trace : List UInt8) :
    (start options trace).readings =
      told options.timestampWidth (fun _ => {}) (start options trace).packets := by
  rw [readings_start, packets_eq]
  rfl

end Reader

/-! ## What packets tell -/

theorem told_append (width : Nat) (last : UInt16 → CoreContext)
    (ps ps' : List (Except PacketError Packet)) :
    told width last (ps ++ ps') =
      told width last ps ++ told width (recalled width last ps) ps' := by
  induction ps generalizing last with
  | nil => rfl
  | cons p ps ih =>
      cases p with
      | error e => rw [List.cons_append, told, told, recalled, ih, List.cons_append]
      | ok p => rw [List.cons_append, told, told, recalled, ih, List.append_assoc]

theorem told_concat (width : Nat) (last : UInt16 → CoreContext)
    (ps : List (Except PacketError Packet)) (p : Packet) :
    told width last (ps ++ [.ok p]) =
      told width last ps ++ (p.tells width (recalled width last ps p.core)).1 := by
  rw [told_append, told, told, List.append_nil]

theorem recalled_append (width : Nat) (last : UInt16 → CoreContext)
    (ps ps' : List (Except PacketError Packet)) :
    recalled width last (ps ++ ps') = recalled width (recalled width last ps) ps' := by
  induction ps generalizing last with
  | nil => rfl
  | cons p ps ih =>
      cases p with
      | error e => rw [List.cons_append, recalled, recalled, ih]
      | ok p => rw [List.cons_append, recalled, recalled, ih]

theorem recalled_concat (width : Nat) (last : UInt16 → CoreContext)
    (ps : List (Except PacketError Packet)) (p : Packet) :
    recalled width last (ps ++ [.ok p]) =
      let last := recalled width last ps
      Function.update last p.core (p.tells width (last p.core)).2 :=
  recalled_append width last ps [.ok p]

/-- What is read of a trace behind another one that has ended comes after what is read of that. -/
theorem Reader.readings_append (options : ReaderOptions) {x : List UInt8} (hx : Ended x)
    (ps : List (Nat × Packet)) (h : ∀ q ∈ ps, q.2.Complete) :
    ∃ last, (start options (x ++ transmit options.coreBits ps)).readings =
      (start options x).readings ++
        told options.timestampWidth last (ps.map fun q => .ok (q.2.reduced options.coreBits)) := by
  rw [readings_start, readings_start, Position.packets_append hx, Position.packets_transmit ps h,
    told_append]
  exact ⟨_, rfl⟩

/-! ## What packets tell of one core -/

def Wire.Packet.stamped (p : Packet) (width : Nat) (c : CoreContext) : CoreContext :=
  if p.type = .error then {} else c.stamp width p.timestamp? p.type.isSync

/-- What a packet tells: if there is nothing but a timestamp, that is told. -/
def Wire.Packet.announced (p : Packet) (payloads : List Payload) : List Payload :=
  if payloads.isEmpty && p.timestamp?.isSome then [.timestamp] else payloads

theorem Wire.Packet.expand_of_none (h : p.payloads? (p.stamped width c) = none) :
    p.expand width c = (none, p.stamped width c) := by
  unfold stamped at h ⊢
  simp only [expand, h]

theorem Wire.Packet.expand_of_some {r : List Payload × CoreContext}
    (h : p.payloads? (p.stamped width c) = some r) :
    p.expand width c =
      (some ((p.announced r.1).map fun payload => ⟨p.core, (p.stamped width c).timestamp, payload⟩),
        r.2) := by
  unfold stamped at h ⊢
  simp only [expand, h]
  rfl

theorem not_print_of_history {payload : Payload} {bits : UInt64} (h : payload ∈ history bits) :
    payload.kind ≠ .print := by
  obtain ⟨i, -, rfl⟩ := List.mem_map.mp h
  simp [Payload.kind]

theorem not_print_of_indirect (kind address : UInt64) (count : Nat) :
    (indirect kind address count).kind ≠ .print := by
  unfold indirect
  split <;> simp [Payload.kind]

/-- The types of packets that carry a count. -/
def Wire.TypeCode.counted : List TypeCode :=
  [.directBranch, .indirectBranch, .sync, .directBranchSync, .indirectBranchSync,
    .indirectBranchHistory, .indirectBranchHistorySync]

/-- All that a packet can tell, and what is remembered of its core then. -/
inductive Wire.Packet.Yields (p : Packet) (c : CoreContext) :
    List Payload → CoreContext → Prop where
  | counted {bits address : UInt64} {payload : Payload} (htype : p.type ∈ TypeCode.counted)
      (hkind : payload.kind ≠ .print) :
      Yields p c (history bits ++ [payload]) { c with address := address, pendingCount := 0 }
  | ahead (htype : p.type = .resourceFull) (hcode : p.mandatory 0 = 0) :
      Yields p c [] { c with pendingCount := addCount c.pendingCount (p.mandatory 1).toNat }
  | outcomes {bits : UInt64} (htype : p.type = .resourceFull) (hcode : p.mandatory 0 ≠ 0) :
      Yields p c (history bits) c
  | correlation {bits : UInt64} (htype : p.type = .correlation) :
      Yields p c (history bits) { c with pendingCount := 0 }
  | written (htype : p.type = .dataAcquisition) :
      Yields p c (fragments p.core c.timestamp (p.mandatory 0) (p.mandatory 1)) c
  | error {code : UInt64} (htype : p.type = .error) : Yields p c [.error code] c
  | nothing (htype : p.type = .ownershipTrace ∨ p.type = .auxAccessWrite) : Yields p c [] c

theorem history_zero : history 0 = [] := by
  decide

/-- A counted packet without a history. -/
theorem Wire.Packet.Yields.report {address : UInt64} {payload : Payload}
    (htype : p.type ∈ TypeCode.counted) (hkind : payload.kind ≠ .print) :
    p.Yields c [payload] { c with address := address, pendingCount := 0 } := by
  rw [← List.nil_append [payload], ← history_zero]
  exact .counted htype hkind

theorem Wire.Packet.yields_of_payloads {payloads : List Payload} {c' : CoreContext}
    (h : p.payloads? c = some (payloads, c')) : p.Yields c payloads c' := by
  cases htype : p.type
  all_goals simp only [payloads?, htype, reduceCtorEq] at h
  case ownershipTrace =>
      cases h
      exact .nothing (.inl htype)
  case auxAccessWrite =>
      cases h
      exact .nothing (.inr htype)
  case error =>
      cases h
      exact .error htype
  case dataAcquisition =>
      cases h
      exact .written htype
  case resourceFull =>
      split at h
      case isTrue hcode =>
          cases h
          exact .ahead htype hcode
      case isFalse hcode =>
          split at h
          · cases h
            exact .outcomes htype hcode
          · cases h
  case correlation =>
      cases h
      split
      · exact .correlation htype
      · rw [← history_zero]
        exact .correlation htype
  case indirectBranch =>
      cases h
      exact .report (htype ▸ by decide) (not_print_of_indirect _ _ _)
  case indirectBranchHistory =>
      cases h
      exact .counted (htype ▸ by decide) (not_print_of_indirect _ _ _)
  case indirectBranchHistorySync =>
      cases h
      exact .counted (htype ▸ by decide) (by simp [Payload.kind])
  all_goals
    cases h
    exact .report (htype ▸ by decide) (by simp [Payload.kind])

/-- Packets print only by data that they write. -/
theorem Wire.Packet.writes_of_payloads {payloads : List Payload} {payload : Payload}
    {c' : CoreContext} (h : p.payloads? c = some (payloads, c')) (hp : payload ∈ payloads) :
    payload.kind ≠ .print ∨ p.type = .dataAcquisition := by
  cases yields_of_payloads h with
  | counted htype hkind =>
      rcases List.mem_append.mp hp with hp | hp
      · exact .inl (not_print_of_history hp)
      · obtain rfl := List.mem_singleton.mp hp
        exact .inl hkind
  | ahead htype hcode => cases hp
  | outcomes htype hcode => exact .inl (not_print_of_history hp)
  | correlation htype => exact .inl (not_print_of_history hp)
  | written htype => exact .inr htype
  | error htype =>
      obtain rfl := List.mem_singleton.mp hp
      exact .inl (by simp [Payload.kind])
  | nothing htype => cases hp

theorem Wire.Packet.payloads_of_write (h : p.type = .dataAcquisition) (c : CoreContext) :
    p.payloads? c =
      some (fragments p.core c.timestamp (p.mandatory 0) (p.mandatory 1), c) := by
  simp only [payloads?, h]

/-- What is printed is of the core that the packet comes from. -/
theorem Wire.Packet.core_of_payloads {payloads : List Payload} {payload : Payload}
    {c' : CoreContext} (h : p.payloads? c = some (payloads, c')) (hp : payload ∈ payloads) :
    payload.kind ≠ .print ∨ ∃ f, payload = .print f ∧ f.core = p.core := by
  rcases writes_of_payloads h hp with hkind | htype
  · exact .inl hkind
  · rw [payloads_of_write htype] at h
    cases h
    simp only [fragments] at hp
    split at hp
    · obtain ⟨⟨data, terminator⟩, -, rfl⟩ := List.mem_map.mp hp
      exact .inr ⟨_, rfl, rfl⟩
    · cases hp

theorem Wire.Packet.core_of_expand {messages : List Message} {c' : CoreContext} {m : Message}
    (h : p.expand width c = (some messages, c')) (hm : m ∈ messages) :
    m.core = p.core ∧ ∀ f, m.payload = .print f → f.core = p.core := by
  cases hp : p.payloads? (p.stamped width c) with
  | none =>
      rw [expand_of_none hp] at h
      cases h
  | some r =>
      rw [expand_of_some hp] at h
      cases h
      obtain ⟨payload, hpayload, rfl⟩ := List.mem_map.mp hm
      refine ⟨rfl, fun f hf => ?_⟩
      unfold announced at hpayload
      split at hpayload
      · obtain rfl := List.mem_singleton.mp hpayload
        cases hf
      · rcases core_of_payloads hp hpayload with hkind | ⟨f', hf', hcore⟩
        · exact absurd (congrArg Payload.kind hf) hkind
        · cases hf.symm.trans hf'
          exact hcore

theorem Wire.Packet.core_of_tells (h : x ∈ (p.tells width c).1) : readCore? x = some p.core := by
  unfold tells at h
  cases he : p.expand width c with
  | mk messages? c' =>
      rw [he] at h
      cases messages? with
      | none =>
          obtain rfl := List.mem_singleton.mp h
          rfl
      | some messages =>
          obtain ⟨m, hm, rfl⟩ := List.mem_map.mp h
          exact congrArg some (core_of_expand he hm).1

theorem core_of_told {ps : List Packet} (hps : ∀ p ∈ ps, p.core = id)
    (h : x ∈ told width last (ps.map .ok)) : readCore? x = some id := by
  induction ps generalizing last with
  | nil => cases h
  | cons p ps ih =>
      rcases List.mem_append.mp h with h | h
      · rw [← hps p List.mem_cons_self]
        exact Packet.core_of_tells h
      · exact ih (fun q hq => hps q (List.mem_cons_of_mem p hq)) h

theorem told_filter (ps : List Packet) (last last' : UInt16 → CoreContext)
    (h : last id = last' id) :
    (told width last (ps.map .ok)).filter (readCore? · = some id) =
      told width last' ((ps.filter (·.core = id)).map .ok) := by
  induction ps generalizing last last' with
  | nil => rfl
  | cons p ps ih =>
      rw [List.map_cons, told, List.filter_append]
      by_cases hid : p.core = id
      · subst hid
        have hall : ((p.tells width (last p.core)).1.filter (readCore? · = some p.core)) =
            (p.tells width (last p.core)).1 :=
          List.filter_eq_self.mpr fun x hx => by simp [Packet.core_of_tells hx]
        rw [List.filter_cons_of_pos (by simp), List.map_cons, told, hall, h,
          ih _ (Function.update last' p.core (p.tells width (last' p.core)).2) (by simp)]
      · have hnone : ((p.tells width (last p.core)).1.filter (readCore? · = some id)) = [] :=
          List.filter_eq_nil_iff.mpr fun x hx => by simp [Packet.core_of_tells hx, hid]
        rw [List.filter_cons_of_neg (by simpa using hid), hnone, List.nil_append]
        exact ih _ _ (by rwa [Function.update_of_ne (Ne.symm hid)])

/-- The reading is of a packet that could be read, and printed output in it is of its core. -/
def Intact : Except PacketError Message → Prop
  | .ok m => ∀ f, m.payload = .print f → f.core = m.core
  | .error e => ∃ type core, e = .unsupported type core

theorem Wire.Packet.intact_of_tells (h : x ∈ (p.tells width c).1) : Intact x := by
  unfold tells at h
  cases he : p.expand width c with
  | mk messages? c' =>
      rw [he] at h
      cases messages? with
      | none =>
          obtain rfl := List.mem_singleton.mp h
          exact ⟨_, _, rfl⟩
      | some messages =>
          obtain ⟨m, hm, rfl⟩ := List.mem_map.mp h
          obtain ⟨hcore, hprint⟩ := core_of_expand he hm
          exact fun f hf => (hprint f hf).trans hcore.symm

theorem intact_of_told {ps : List Packet} (h : x ∈ told width last (ps.map .ok)) : Intact x := by
  induction ps generalizing last with
  | nil => cases h
  | cons p ps ih =>
      rcases List.mem_append.mp h with h | h
      · exact Packet.intact_of_tells h
      · exact ih h

end Retrace
