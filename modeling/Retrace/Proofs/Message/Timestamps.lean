import Mathlib.Data.List.Infix
import Mathlib.Data.Nat.ModEq
import Retrace.Proofs.Message.Times

/-!
# Running timestamps

Packets tell the low bits of a clock, as they are or as a difference. The running timestamp of a
core is the least that fits them and is not before the last one, so that it never decreases until
messages were lost.
-/

namespace Retrace

open Wire

/-- The packet moves the running timestamp of its core from `t` to `t'`: to the least one from there
on with the low bits that are told. A difference tells nothing where the timestamp is zero. -/
def Wire.Packet.Moves (width : Nat) (p : Packet) (t t' : Nat) : Prop :=
  match p.timestamp? with
  | none => t' = t
  | some v =>
    if p.type.isSync then IsLeast {n | t ≤ n ∧ n ≡ v.toNat [MOD 2 ^ width]} t'
    else if t = 0 then t' = 0
    else IsLeast {n | t ≤ n ∧ n ≡ t ^^^ v.toNat [MOD 2 ^ width]} t'

/-- The running timestamp of a core after packets. -/
def clock (width : Nat) (id : UInt16) (ps : List (Except PacketError Packet)) : Nat :=
  (recalled width (fun _ => {}) ps id).timestamp.toNat

/-- The timestamps of the messages of a core. -/
def stamps (id : UInt16) (messages : List (Except PacketError Message)) : List Nat :=
  messages.filterMap fun
    | .ok m => if m.core = id then some m.timestamp.toNat else none
    | .error _ => none

/-- No messages of the core are lost, its timestamp fields have `width` bits, and its running
timestamp does not exceed a word. -/
structure Steady (width : Nat) (id : UInt16) (before : List (Except PacketError Packet))
    (ps : List Packet) : Prop where
  error : ∀ p ∈ ps, p.core = id → p.type ≠ .error
  low : ∀ p ∈ ps, p.core = id → ∀ v ∈ p.timestamp?, v.toNat < 2 ^ width
  fits : ∀ xs p ys, ps = xs ++ p :: ys → p.core = id →
    ∀ t, p.Moves width (clock width id (before ++ xs.map .ok)) t → t < 2 ^ 64

variable {p : Packet} {c c' : CoreContext} {width unit t raw low : Nat} {last value : UInt64}
  {id : UInt16} {ps : List Packet}

/-! ## Low bits -/

/-- Of a number with the same upper bits, itself or the next one is the least from `t` on with its
low bits. -/
theorem isLeast_wrapped (hunit : 0 < unit) (h : raw / unit = t / unit)
    (hlow : raw ≡ low [MOD unit]) :
    IsLeast {n | t ≤ n ∧ n ≡ low [MOD unit]} (if raw < t then raw + unit else raw) := by
  have ht := Nat.div_add_mod t unit
  have hraw := Nat.div_add_mod raw unit
  rw [h] at hraw
  have htmod := Nat.mod_lt t hunit
  have hrawmod := Nat.mod_lt raw hunit
  split
  · refine ⟨⟨by omega, Nat.add_modEq_right.trans hlow⟩, ?_⟩
    rintro n ⟨hn, hmod⟩
    have hdvd : unit ∣ n - raw := (Nat.modEq_iff_dvd' (by omega)).mp (hlow.trans hmod.symm)
    have := Nat.le_of_dvd (by omega) hdvd
    omega
  · refine ⟨⟨by omega, hlow⟩, ?_⟩
    rintro n ⟨hn, hmod⟩
    by_contra hlt
    have hdvd : unit ∣ raw - n := (Nat.modEq_iff_dvd' (by omega)).mp (hmod.trans hlow.symm)
    have := Nat.le_of_dvd (by omega) hdvd
    omega

theorem lt_of_isLeast (hunit : 0 < unit) {n : Nat}
    (h : IsLeast {n | t ≤ n ∧ n ≡ low [MOD unit]} n) : n < t + unit := by
  by_contra hge
  have hbefore : n - unit ∈ {n | t ≤ n ∧ n ≡ low [MOD unit]} := by
    refine ⟨by omega, ?_⟩
    have hmod := h.1.2
    rwa [← Nat.sub_add_cancel (show unit ≤ n by omega), Nat.ModEq, Nat.add_mod_right] at hmod
  have hle := h.2 hbefore
  omega

theorem CoreContext.toNat_wrapUnit (h : width ≤ 63) : (wrapUnit width).toNat = 2 ^ width := by
  have hwidth : width < 64 := by omega
  have hnat : width.toUInt64.toNat = width := Nat.mod_eq_of_lt (by omega)
  have hpow : 2 ^ width < 2 ^ 64 := Nat.pow_lt_pow_right (by decide) hwidth
  rw [wrapUnit, if_pos hwidth, UInt64.toNat_shiftLeft, hnat, Nat.mod_eq_of_lt hwidth,
    UInt64.toNat_one, Nat.one_shiftLeft, Nat.mod_eq_of_lt hpow]

/-- The bits that a timestamp field does not replace. -/
theorem CoreContext.toNat_upperBits (h : width ≤ 63) (last : UInt64) :
    (last &&& ~~~(wrapUnit width - 1)).toNat = 2 ^ width * (last.toNat / 2 ^ width) := by
  have hpos : 0 < 2 ^ width := Nat.two_pow_pos _
  have hpow : 2 ^ width < 2 ^ 64 := Nat.pow_lt_pow_right (by decide) (by omega)
  have hone : (1 : UInt64) ≤ wrapUnit width := by
    rw [UInt64.le_iff_toNat_le, toNat_wrapUnit h]
    exact hpos
  have hmask : (~~~(wrapUnit width - 1)).toNat = 2 ^ 64 - (2 ^ width - 1 + 1) := by
    rw [UInt64.toNat_not, UInt64.toNat_sub_of_le _ _ hone, toNat_wrapUnit h, UInt64.toNat_one,
      UInt64.size]
    omega
  rw [UInt64.toNat_and, hmask]
  apply Nat.eq_of_testBit_eq
  intro i
  rw [Nat.testBit_and, Nat.testBit_two_pow_sub_succ (by omega), Nat.testBit_two_pow_sub_one,
    Nat.testBit_two_pow_mul, Nat.testBit_div_two_pow]
  by_cases hi : i < width
  · simp [hi]
  · by_cases hi' : i < 64
    · simp [hi, hi', Nat.le_of_not_lt hi]
    · have hbit : last.toNat.testBit i = false :=
        Nat.testBit_lt_two_pow
          (last.toNat_lt.trans_le (Nat.pow_le_pow_right (by decide) (by omega)))
      simp [hi, hbit, Nat.le_of_not_lt hi]

theorem CoreContext.toNat_replaced (h : width ≤ 63) (hlow : value.toNat < 2 ^ width)
    (last : UInt64) :
    (value + (last &&& ~~~(wrapUnit width - 1))).toNat =
      value.toNat + 2 ^ width * (last.toNat / 2 ^ width) := by
  have hsplit : 2 ^ 64 = 2 ^ width * 2 ^ (64 - width) := by
    rw [← pow_add, Nat.add_sub_cancel' (by omega)]
  have hupper : last.toNat / 2 ^ width + 1 ≤ 2 ^ (64 - width) :=
    Nat.div_lt_of_lt_mul (hsplit ▸ last.toNat_lt)
  have hmul := Nat.mul_le_mul_left (2 ^ width) hupper
  rw [Nat.mul_add, Nat.mul_one, ← hsplit] at hmul
  rw [UInt64.toNat_add, toNat_upperBits h, Nat.mod_eq_of_lt (by omega)]

theorem CoreContext.isLeast_wrapped {raw : UInt64} (h : width ≤ 63)
    (hupper : raw.toNat / 2 ^ width = last.toNat / 2 ^ width)
    (hlow : raw.toNat ≡ low [MOD 2 ^ width])
    (hfit : ∀ n, IsLeast {n | last.toNat ≤ n ∧ n ≡ low [MOD 2 ^ width]} n → n < 2 ^ 64) :
    IsLeast {n | last.toNat ≤ n ∧ n ≡ low [MOD 2 ^ width]}
      (if raw < last then raw + wrapUnit width else raw).toNat := by
  have hleast := Retrace.isLeast_wrapped (Nat.two_pow_pos width) hupper hlow
  have hlt := hfit _ hleast
  by_cases hwraps : raw.toNat < last.toNat
  · rw [if_pos hwraps] at hleast hlt
    rwa [if_pos (UInt64.lt_iff_toNat_lt.mpr hwraps), UInt64.toNat_add, toNat_wrapUnit h,
      Nat.mod_eq_of_lt hlt]
  · rw [if_neg hwraps] at hleast
    rwa [if_neg (mt UInt64.lt_iff_toNat_lt.mp hwraps)]

/-! ## One packet -/

namespace Wire.Packet

theorem Moves.between {t' : Nat} (h : p.Moves width t t') : t ≤ t' ∧ t' < t + 2 ^ width := by
  have hpos : 0 < 2 ^ width := Nat.two_pow_pos width
  unfold Moves at h
  split at h
  · omega
  · split at h
    · exact ⟨h.1.1, lt_of_isLeast hpos h⟩
    · split at h
      · omega
      · exact ⟨h.1.1, lt_of_isLeast hpos h⟩

/-- A packet moves the running timestamp as far as it tells. -/
theorem moves_stamped (hwidth : width ≤ 63) (herror : p.type ≠ .error)
    (hlow : ∀ v ∈ p.timestamp?, v.toNat < 2 ^ width)
    (hfit : ∀ t', p.Moves width c.timestamp.toNat t' → t' < 2 ^ 64) :
    p.Moves width c.timestamp.toNat (p.stamped width c).timestamp.toNat := by
  rw [stamped, if_neg herror]
  unfold Moves at hfit ⊢
  cases hv : p.timestamp? with
  | none => rfl
  | some v =>
      have hlt : v.toNat < 2 ^ width := hlow v hv
      simp only [hv] at hfit ⊢
      simp only [CoreContext.stamp, CoreContext.nextTimestamp]
      cases hs : p.type.isSync with
      | true =>
          simp only [hs, ite_true] at hfit ⊢
          have hraw := CoreContext.toNat_replaced hwidth hlt c.timestamp
          refine CoreContext.isLeast_wrapped hwidth ?_ ?_ hfit
          · rw [hraw, Nat.add_mul_div_left _ _ (Nat.two_pow_pos _), Nat.div_eq_of_lt hlt,
              Nat.zero_add]
          · rw [hraw]
            exact Nat.add_mul_mod_self_left _ _ _
      | false =>
          by_cases hzero : c.timestamp = 0
          · simp [hzero]
          · have hnat : c.timestamp.toNat ≠ 0 := fun h => hzero (UInt64.toNat_inj.mp h)
            simp only [hs, Bool.false_eq_true, ite_false, hnat] at hfit ⊢
            simp only [ne_eq, hzero, not_false_eq_true, ite_true]
            refine CoreContext.isLeast_wrapped hwidth ?_ ?_ hfit
            · rw [UInt64.toNat_xor, Nat.xor_div_two_pow, Nat.div_eq_of_lt hlt, Nat.xor_zero]
            · rw [UInt64.toNat_xor]

theorem timestamp_of_payloads {payloads : List Payload}
    (h : p.payloads? c = some (payloads, c')) : c'.timestamp = c.timestamp := by
  cases yields_of_payloads h <;> rfl

/-- The messages of a packet and what is remembered then have its timestamp. -/
theorem timestamp_tells (p : Packet) (width : Nat) (c : CoreContext) :
    (p.tells width c).2.timestamp = (p.stamped width c).timestamp ∧
      ∀ m, .ok m ∈ (p.tells width c).1 → m.timestamp = (p.stamped width c).timestamp := by
  cases hp : p.payloads? (p.stamped width c) with
  | none =>
      rw [tells, expand_of_none hp]
      exact ⟨rfl, by simp⟩
  | some r =>
      obtain ⟨payloads, c'⟩ := r
      rw [tells, expand_of_some hp]
      refine ⟨timestamp_of_payloads hp, ?_⟩
      intro m hm
      obtain ⟨m', hm', heq⟩ := List.mem_map.mp hm
      obtain ⟨payload, -, rfl⟩ := List.mem_map.mp hm'
      cases heq
      rfl

end Wire.Packet

/-! ## Packets in a row -/

variable {before after ps' : List (Except PacketError Packet)} {xs ys : List Packet}

theorem clock_concat_of_ne (h : p.core ≠ id) :
    clock width id (ps' ++ [.ok p]) = clock width id ps' := by
  rw [clock, recalled_concat, Function.update_of_ne (Ne.symm h)]
  rfl

theorem clock_concat (width : Nat) (ps' : List (Except PacketError Packet)) (p : Packet) :
    clock width p.core (ps' ++ [.ok p]) =
      (p.stamped width (recalled width (fun _ => {}) ps' p.core)).timestamp.toNat := by
  rw [clock, recalled_concat, Function.update_self, (p.timestamp_tells width _).1]

theorem stamps_append (id : UInt16) (messages messages' : List (Except PacketError Message)) :
    stamps id (messages ++ messages') = stamps id messages ++ stamps id messages' :=
  List.filterMap_append

theorem eq_clock_of_mem_stamps (h : t ∈ stamps id (p.tells width
      (recalled width (fun _ => {}) ps' p.core)).1) :
    t = clock width id (ps' ++ [.ok p]) := by
  obtain ⟨x, hx, ht⟩ := List.mem_filterMap.mp h
  cases x with
  | error e => cases ht
  | ok m =>
      have hcore : m.core = p.core := Option.some.inj (Packet.core_of_tells hx)
      simp only at ht
      split at ht
      · rename_i hid
        obtain rfl : p.core = id := hcore.symm.trans hid
        rw [clock_concat, ← (p.timestamp_tells width _).2 m hx]
        exact (Option.some.inj ht).symm
      · cases ht

namespace Steady

theorem init (h : Steady width id before (ps ++ [p])) : Steady width id before ps where
  error q hq := h.error q (List.mem_append_left _ hq)
  low q hq := h.low q (List.mem_append_left _ hq)
  fits xs q ys hps := h.fits xs q (ys ++ [p]) (by simp [hps])

theorem moves (h : Steady width id before ps) (hwidth : width ≤ 63) (hps : ps = xs ++ p :: ys)
    (hid : p.core = id) : p.Moves width (clock width id (before ++ xs.map .ok))
      (clock width id (before ++ (xs ++ [p]).map .ok)) := by
  have hp : p ∈ ps := by simp [hps]
  subst hid
  rw [List.map_append, ← List.append_assoc, List.map_singleton, clock_concat]
  exact Packet.moves_stamped hwidth (h.error p hp rfl) (h.low p hp rfl) (h.fits xs p ys hps rfl)

/-- The timestamps of messages are in order, and none is after the running one. -/
theorem sorted (h : Steady width id before ps) (hwidth : width ≤ 63) :
    let messages := told width (recalled width (fun _ => {}) before) (ps.map .ok)
    (stamps id messages).Pairwise (· ≤ ·) ∧
      ∀ t ∈ stamps id messages, t ≤ clock width id (before ++ ps.map .ok) := by
  -- All messages of the last packet have the clock that it leads to, which bounds those before.
  induction ps using List.reverseRecOn with
  | nil => exact ⟨.nil, by simp [told, stamps]⟩
  | append_singleton ps p ih =>
      obtain ⟨hsorted, hbound⟩ := ih h.init
      have hle : clock width id (before ++ ps.map .ok) ≤
          clock width id (before ++ (ps.map .ok ++ [.ok p])) := by
        by_cases hid : p.core = id
        · have hmoves := h.moves hwidth rfl hid
          rw [List.map_append] at hmoves
          exact hmoves.between.1
        · rw [← List.append_assoc, clock_concat_of_ne hid]
      simp only [List.map_append, List.map_singleton, told_concat, ← recalled_append,
        stamps_append]
      rw [List.pairwise_append]
      have hlast : ∀ t ∈ stamps id (p.tells width (recalled width (fun _ => {})
          (before ++ ps.map .ok) p.core)).1,
          t = clock width id (before ++ (ps.map .ok ++ [.ok p])) := by
        intro t ht
        rw [← List.append_assoc]
        exact eq_clock_of_mem_stamps ht
      refine ⟨⟨hsorted, ?_, ?_⟩, ?_⟩
      · exact List.pairwise_of_forall_mem_list fun t ht t' ht' =>
          ((hlast t ht).trans (hlast t' ht').symm).le
      · intro t ht t' ht'
        exact ((hbound t ht).trans hle).trans (hlast t' ht').ge
      · intro t ht
        rcases List.mem_append.mp ht with ht | ht
        · exact (hbound t ht).trans hle
        · exact (hlast t ht).le

end Steady

namespace Reader

/-- Between lost messages of a core, each of its packets moves the running timestamp to the least
one from there on that fits what it tells, and its messages have that one. No other packet moves it.
So the timestamps of the messages of the core never decrease. -/
theorem timestamps_run (options : ReaderOptions) (trace : List UInt8) (id : UInt16)
    (before after : List (Except PacketError Packet)) (ps : List Packet)
    (hwidth : options.timestampWidth ≤ 63)
    (h : (start options trace).packets = before ++ (ps.map .ok ++ after))
    (hsteady : Steady options.timestampWidth id before ps) :
    let width := options.timestampWidth
    let last := recalled width (fun _ => {}) before
    let messages := told width last (ps.map .ok)
    (start options trace).readings = told width (fun _ => {}) before ++
        (messages ++ told width (recalled width last (ps.map .ok)) after) ∧
      (∀ xs p ys, ps = xs ++ p :: ys →
        let t := clock width id (before ++ xs.map .ok)
        let t' := clock width id (before ++ (xs ++ [p]).map .ok)
        if p.core = id then
          p.Moves width t t' ∧
            ∀ s ∈ stamps id (p.tells width (recalled width last (xs.map .ok) id)).1, s = t'
        else t' = t) ∧
      (stamps id messages).Pairwise (· ≤ ·) := by
  intro width last messages
  refine ⟨?_, ?_, (hsteady.sorted hwidth).1⟩
  · rw [readings_eq_told, h, told_append, told_append]
  · intro xs p ys hps t t'
    split
    · rename_i hid
      refine ⟨hsteady.moves hwidth hps hid, ?_⟩
      intro s hs
      subst hid
      simp only [last, ← recalled_append] at hs
      simp only [t', List.map_append, List.map_singleton]
      rw [← List.append_assoc]
      exact eq_clock_of_mem_stamps hs
    · rename_i hid
      simp only [t, t', List.map_append, List.map_singleton]
      rw [← List.append_assoc, clock_concat_of_ne hid]

/-- A timestamp field of eight bits wraps around twice. -/
theorem timestamps_wrap :
    let ps : List Packet := [⟨.sync, 0, [0, 0, 0x800, 250]⟩, ⟨.directBranch, 0, [3, 0x0f]⟩,
      ⟨.directBranch, 1, [1, 0x0f]⟩, ⟨.sync, 0, [0, 0, 0x800, 250]⟩]
    let trace := transmit 1 (ps.map (0, ·))
    (start ⟨1, 8⟩ trace).packets = ps.map .ok ∧ Steady 8 0 [] ps ∧
      (stamps 0 (start ⟨1, 8⟩ trace).readings).Pairwise (· ≤ ·) ∧
      stamps 0 (start ⟨1, 8⟩ trace).readings = [250, 501, 506] := by
  intro ps trace
  have hpackets : (start ⟨1, 8⟩ trace).packets = [] ++ (ps.map .ok ++ []) := by
    have hcomplete : ∀ q ∈ ps.map ((0, ·) : Packet → Nat × Packet), q.2.Complete := by
      simp [ps, Packet.Complete, TypeCode.layout?]
    rw [packets_eq]
    exact (Position.packets_transmit _ hcomplete 1 0).trans rfl
  have hsteady : Steady 8 0 [] ps := by
    have hbound : ∀ xs ∈ ps.inits, clock 8 0 ([] ++ xs.map .ok) < 1000 := by decide +kernel
    refine ⟨by simp [ps], ?_, ?_⟩
    · simp [ps, Packet.timestamp?, Packet.hasOptionalHistory, Packet.optional, TypeCode.layout?]
    · intro xs p ys hps _ t hmoves
      have hlast := hbound xs ((List.mem_inits _ _).mpr ⟨p :: ys, hps.symm⟩)
      have hnext := hmoves.between.2
      omega
  obtain ⟨hreadings, -, hsorted⟩ :=
    timestamps_run ⟨1, 8⟩ trace 0 [] [] ps (by decide) hpackets hsteady
  have hstamps : stamps 0 (start ⟨1, 8⟩ trace).readings =
      stamps 0 (told 8 (fun _ => {}) (ps.map .ok)) := by
    rw [hreadings]
    simp only [told, recalled, List.nil_append, List.append_nil]
  refine ⟨hpackets.trans (by simp), hsteady, ?_, ?_⟩
  · rw [hstamps]
    exact hsorted
  · rw [hstamps]
    decide +kernel

end Reader

end Retrace
