import Mathlib.Order.Nat
import Retrace.Proofs.Image.Disassembly

/-!
# Where a section ends

Whether a section has a byte at an address, which bytes it has from there on, and where its last
byte lies are computed in three ways. They agree for every section that ends below the top of the
address space. The last address of a section that reaches the top is too low, and the last byte
lies beyond it.
-/

namespace Retrace.Section

/-- The address behind the last byte, which may be the first one beyond the address space. -/
def stop (s : Section) : Nat :=
  s.address.toNat + s.data.length

variable {s : Section} {a : UInt64}

/-! ## Bytes from an address on -/

theorem covers_of_dataFrom? {data : List UInt8} (h : s.dataFrom? a = some data) : s.Covers a := by
  rw [dataFrom?] at h
  split_ifs at h with hle
  rw [Covers, ← UInt64.le_iff_toNat_le]
  refine ⟨hle, ?_⟩
  by_contra hstop
  have hdrop : s.data.drop (a - s.address).toNat = [] := by
    rw [List.drop_eq_nil_iff, UInt64.toNat_sub_of_le _ _ hle]
    omega
  rw [hdrop] at h
  cases h

theorem isSome_dataFrom?_iff : (s.dataFrom? a).isSome = true ↔ s.Covers a := by
  refine ⟨fun h => ?_, fun h => by rw [h.dataFrom?, Option.isSome_some]⟩
  obtain ⟨data, hdata⟩ := Option.isSome_iff_exists.mp h
  exact covers_of_dataFrom? hdata

/-! ## The last address -/

theorem stop_pos (hdata : s.data ≠ []) : 0 < s.stop :=
  Nat.add_pos_right _ (List.length_pos_iff.mpr hdata)

theorem toNat_lastAddress (hdata : s.data ≠ []) (h : s.stop < UInt64.size) :
    s.lastAddress.toNat + 1 = s.stop := by
  have hpos := stop_pos hdata
  have hlength : s.data.length.toUInt64.toNat = s.data.length :=
    UInt64.toNat_ofNat_of_lt (Nat.lt_of_le_of_lt (Nat.le_add_left _ s.address.toNat) h)
  have hsum : (s.address + s.data.length.toUInt64).toNat = s.stop := by
    rw [UInt64.toNat_add, hlength]
    exact Nat.mod_eq_of_lt h
  have hadd : addCapped s.address s.data.length.toUInt64 = s.address + s.data.length.toUInt64 := by
    rw [addCapped, hlength]
    exact if_pos h
  have hone : 1 ≤ s.address + s.data.length.toUInt64 := by
    rw [UInt64.le_iff_toNat_le, hsum]
    exact hpos
  have hne : s.address + s.data.length.toUInt64 ≠ 0 := fun hzero => by
    rw [hzero] at hsum
    exact hpos.ne hsum
  rw [lastAddress, hadd, if_neg hne, UInt64.toNat_sub_of_le _ _ hone, hsum]
  exact Nat.sub_add_cancel hpos

/-- The sum is capped before one is taken off, so no section has the greatest address as its
last. -/
theorem lastAddress_lt_maxWord (s : Section) : s.lastAddress < maxWord := by
  rw [lastAddress]
  generalize addCapped s.address s.data.length.toUInt64 = capped
  have hmax : maxWord.toNat = UInt64.size - 1 := rfl
  have hcapped := capped.toNat_lt
  split
  · decide
  · rename_i hne
    have hpos : 0 < capped.toNat := Nat.pos_of_ne_zero fun hzero => hne (UInt64.toNat_inj.mp hzero)
    have hone : 1 ≤ capped := UInt64.le_iff_toNat_le.mpr hpos
    have hsub : (capped - 1).toNat = capped.toNat - 1 := UInt64.toNat_sub_of_le _ _ hone
    rw [UInt64.lt_iff_toNat_lt, hsub, hmax]
    exact Nat.sub_lt_sub_right hpos hcapped

theorem covers_iff_le_lastAddress (hdata : s.data ≠ []) (h : s.stop < UInt64.size) :
    s.Covers a ↔ s.address ≤ a ∧ a ≤ s.lastAddress := by
  have hlast := toNat_lastAddress hdata h
  rw [Covers, UInt64.le_iff_toNat_le, UInt64.le_iff_toNat_le, ← stop, ← hlast, Nat.lt_succ_iff]

theorem covers_maxWord_of_top (h : s.stop = UInt64.size) : s.Covers maxWord := by
  have hmax : maxWord.toNat = UInt64.size - 1 := rfl
  have haddress := s.address.toNat_lt
  rw [Covers, ← stop, h, hmax]
  exact ⟨Nat.le_sub_one_of_lt haddress, by decide⟩

/-- A section has a byte at an address precisely if there are bytes from it on, which are those up
to the end of the section. The last address tells the same, precisely if the section ends below the
top of the address space. -/
theorem bounds_agree (hdata : s.data ≠ []) (hfits : s.stop ≤ UInt64.size) :
    (∀ a, s.contains a = true ↔ (s.dataFrom? a).isSome = true) ∧
      (∀ a data, s.dataFrom? a = some data →
        data = s.data.drop (a.toNat - s.address.toNat) ∧ a.toNat + data.length = s.stop) ∧
      ((∀ a, s.contains a = true ↔ s.address ≤ a ∧ a ≤ s.lastAddress) ↔
        s.stop < UInt64.size) ∧
      (s.stop < UInt64.size → ∀ a data, s.dataFrom? a = some data →
        data.length = s.lastAddress.toNat - a.toNat + 1) := by
  have hbytes : ∀ a data, s.dataFrom? a = some data →
      data = s.data.drop (a.toNat - s.address.toNat) ∧ a.toNat + data.length = s.stop := by
    intro a data h
    have hcovers := covers_of_dataFrom? h
    obtain rfl := Option.some.inj (h.symm.trans hcovers.dataFrom?)
    obtain ⟨hstart, hstop⟩ := hcovers
    refine ⟨rfl, ?_⟩
    rw [List.length_drop, stop]
    omega
  refine ⟨fun a => (s.contains_iff a).trans isSome_dataFrom?_iff.symm, hbytes, ⟨?_, ?_⟩, ?_⟩
  · intro h
    -- A section at the top has a byte at the greatest address, which is never the last address.
    refine Nat.lt_of_le_of_ne hfits fun htop => ?_
    have hcontains := (s.contains_iff maxWord).mpr (covers_maxWord_of_top htop)
    exact UInt64.not_le.mpr s.lastAddress_lt_maxWord ((h maxWord).mp hcontains).2
  · intro h a
    exact (s.contains_iff a).trans (covers_iff_le_lastAddress hdata h)
  · intro h a data hsome
    have hlast := toNat_lastAddress hdata h
    have hle := ((covers_iff_le_lastAddress hdata h).mp (covers_of_dataFrom? hsome)).2
    rw [UInt64.le_iff_toNat_le] at hle
    have hlength := (hbytes a data hsome).2
    omega

/-- The bytes of a section that ends one byte below the top of the address space. -/
theorem bounds_agree_below_top :
    let s : Section := ⟨".text", 0xfffffffffffffffd, [0x82, 0x80], true⟩
    s.data ≠ [] ∧ s.stop ≤ UInt64.size ∧ s.stop < UInt64.size ∧
      s.lastAddress = 0xfffffffffffffffe ∧
      (∀ a, s.contains a = true ↔ s.address ≤ a ∧ a ≤ s.lastAddress) ∧
      s.dataFrom? 0xfffffffffffffffe = some [0x80] ∧ ¬ s.contains maxWord = true := by
  intro s
  have hdata : s.data ≠ [] := by decide
  have hstop : s.stop < UInt64.size := by decide
  obtain ⟨-, -, hlast, -⟩ := bounds_agree hdata hstop.le
  have hbounds := hlast.mpr hstop
  refine ⟨hdata, hstop.le, hstop, by decide, hbounds, by decide, fun htop => ?_⟩
  exact absurd ((hbounds maxWord).mp htop).2 (by decide)

/-- The byte of a section at the top of the address space lies beyond the last address. -/
theorem top_byte_lies_beyond_last_address :
    let s : Section := ⟨".text", maxWord, [0x13], true⟩
    s.data ≠ [] ∧ s.stop ≤ UInt64.size ∧ s.contains maxWord = true ∧
      s.dataFrom? maxWord = some [0x13] ∧ ¬ (s.address ≤ maxWord ∧ maxWord ≤ s.lastAddress) := by
  decide

end Retrace.Section
