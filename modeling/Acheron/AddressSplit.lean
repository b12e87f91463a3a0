import Acheron.Walk

/-!
# The split of the address space

`TCR` gives the sizes of two ranges of virtual addresses: TTBR0 translates the
bottom 2^(64 - T0SZ) addresses and TTBR1 the top 2^(64 - T1SZ). The emulator
lets the upper range start at 2^(64 - T1SZ) instead.

Results:
1. `vaInTtbr0_iff`, `vaInTtbr1_iff`: what the two range tests compute.
2. `architecturalSplit_iff`: an address is treated as the architecture says
   exactly when it is below 2^(64 - T1SZ) or in the upper range.
-/

namespace Acheron

/-! ## 1. The range tests -/

namespace SplitLemmas

theorem getT0sz_toNat (m : MMUEmulator) : m.getT0sz.toNat = m.tcr.toNat % 2 ^ 6 := by
  have hand : (m.tcr &&& 0x3F).toNat = m.tcr.toNat % 2 ^ 6 := by
    rw [BitVec.toNat_and]
    exact Nat.and_two_pow_sub_one_eq_mod _ 6
  unfold MMUEmulator.getT0sz
  rw [BitVec.toNat_setWidth, hand]
  omega

theorem getT1sz_toNat (m : MMUEmulator) : m.getT1sz.toNat = m.tcr.toNat / 2 ^ 16 % 2 ^ 6 := by
  have hand : (m.tcr >>> 16 &&& 0x3F).toNat = m.tcr.toNat / 2 ^ 16 % 2 ^ 6 := by
    rw [BitVec.toNat_and, BitVec.toNat_ushiftRight, Nat.shiftRight_eq_div_pow]
    exact Nat.and_two_pow_sub_one_eq_mod _ 6
  unfold MMUEmulator.getT1sz
  rw [BitVec.toNat_setWidth, hand]
  omega

theorem getT0sz_lt (m : MMUEmulator) : m.getT0sz.toNat < 64 := by
  rw [getT0sz_toNat]
  exact Nat.mod_lt _ (by decide)

theorem getT1sz_lt (m : MMUEmulator) : m.getT1sz.toNat < 64 := by
  rw [getT1sz_toNat]
  exact Nat.mod_lt _ (by decide)

/-- The size of a range, as long as the shift is defined. -/
theorem shl_one_toNat (H : Host) {tsz : Nat} (hpos : 1 ≤ tsz) (hlt : tsz < 64) :
    (H.shl 1 (64 - tsz)).toNat = 2 ^ (64 - tsz) := by
  have hshift : 0 ≤ 64 - (tsz : Int) ∧ 64 - (tsz : Int) < 64 := by omega
  have hnat : (64 - (tsz : Int)).toNat = 64 - tsz := by omega
  unfold Host.shl
  rw [if_pos hshift, hnat]
  show (1#64 <<< (64 - tsz)).toNat = _
  rw [← BitVec.twoPow_eq, BitVec.toNat_twoPow_of_lt (by omega)]

end SplitLemmas

open SplitLemmas

theorem vaInTtbr0_iff {m : MMUEmulator} (hpos : 1 ≤ m.getT0sz.toNat) (H : Host) (va : BitVec 64) :
    m.vaInTtbr0 H va = true ↔ va.toNat < 2 ^ (64 - m.getT0sz.toNat) := by
  unfold MMUEmulator.vaInTtbr0
  rw [decide_eq_true_iff, BitVec.lt_def, shl_one_toNat H hpos (getT0sz_lt m)]

theorem vaInTtbr1_iff {m : MMUEmulator} (hpos : 1 ≤ m.getT1sz.toNat) (H : Host) (va : BitVec 64) :
    m.vaInTtbr1 H va = true ↔ 2 ^ (64 - m.getT1sz.toNat) ≤ va.toNat := by
  unfold MMUEmulator.vaInTtbr1
  rw [decide_eq_true_iff, ge_iff_le, BitVec.le_def, shl_one_toNat H hpos (getT1sz_lt m)]

/-! ## 2. The architecture -/

namespace MMUEmulator

/-- The bottom range, of 2^(64 - T0SZ) addresses. -/
def InBottom (m : MMUEmulator) (va : BitVec 64) : Prop :=
  va.toNat < 2 ^ (64 - m.getT0sz.toNat)

/-- The top range, of 2^(64 - T1SZ) addresses: bits 63 to 64 - T1SZ are ones. -/
def InTop (m : MMUEmulator) (va : BitVec 64) : Prop :=
  2 ^ 64 - 2 ^ (64 - m.getT1sz.toNat) ≤ va.toNat

instance (m : MMUEmulator) (va : BitVec 64) : Decidable (m.InBottom va) :=
  inferInstanceAs (Decidable (_ < _))

instance (m : MMUEmulator) (va : BitVec 64) : Decidable (m.InTop va) :=
  inferInstanceAs (Decidable (_ ≤ _))

/-- The register that the architecture assigns to `va`, if any. -/
def architecturalTtbr (m : MMUEmulator) (va : BitVec 64) : Option (BitVec 64) :=
  if m.InBottom va then some m.ttbr0
  else if m.InTop va then some m.ttbr1
  else none

end MMUEmulator

/-- The emulator treats `va` as the architecture says. An address of neither
range faults without a descriptor being fetched. -/
structure ArchitecturalSplit (H : Host) (m : MMUEmulator) (va : BitVec 64) : Prop where
  ttbr0 : m.vaInTtbr0 H va = true ↔ m.InBottom va
  ttbr1 : m.vaInTtbr1 H va = true ↔ m.InTop va
  apart : ¬ (m.vaInTtbr0 H va = true ∧ m.vaInTtbr1 H va = true)
  walk : ∀ mem fuel r, ∃ f : Frame, f.fetched = [] ∧ f.region = r ∧
    walkPageTables H mem fuel va { mmu := m, region := r } =
      match (m.architecturalTtbr va).map MMUEmulator.tableBase with
      | none => (.returned none, f.countFault)
      | some tableBase => walkLevel H mem va fuel tableBase 0 f

namespace SplitLemmas

/-- A range is at most half of the address space. -/
theorem range_le_half {tsz : Nat} (hpos : 1 ≤ tsz) : 2 ^ (64 - tsz) ≤ 2 ^ 63 :=
  Nat.pow_le_pow_right (by decide) (by omega)

/-- The two ranges do not meet. -/
theorem bottom_lt_top {m : MMUEmulator} (h0 : 1 ≤ m.getT0sz.toNat) (h1 : 1 ≤ m.getT1sz.toNat)
    {va : BitVec 64} (hbottom : m.InBottom va) : ¬ m.InTop va := by
  have hle0 := range_le_half h0
  have hle1 := range_le_half h1
  unfold MMUEmulator.InBottom at hbottom
  unfold MMUEmulator.InTop
  omega

/-- The top range is part of what the emulator takes for it. -/
theorem start_le_of_inTop {m : MMUEmulator} (h1 : 1 ≤ m.getT1sz.toNat) {va : BitVec 64}
    (htop : m.InTop va) : 2 ^ (64 - m.getT1sz.toNat) ≤ va.toNat := by
  have hle := range_le_half h1
  unfold MMUEmulator.InTop at htop
  omega

theorem selectTtbr_eq {m : MMUEmulator} {H : Host} {va : BitVec 64}
    (h0 : m.vaInTtbr0 H va = true ↔ m.InBottom va) (h1 : m.vaInTtbr1 H va = true ↔ m.InTop va) :
    m.selectTtbr H va = m.architecturalTtbr va := by
  unfold MMUEmulator.selectTtbr MMUEmulator.architecturalTtbr
  simp only [h0, h1]

end SplitLemmas

theorem architecturalSplit_iff {m : MMUEmulator} (h0 : 1 ≤ m.getT0sz.toNat)
    (h1 : 1 ≤ m.getT1sz.toNat) (H : Host) (va : BitVec 64) :
    ArchitecturalSplit H m va ↔ va.toNat < 2 ^ (64 - m.getT1sz.toNat) ∨ m.InTop va := by
  have hbottom : m.vaInTtbr0 H va = true ↔ m.InBottom va := vaInTtbr0_iff h0 H va
  have hupper := vaInTtbr1_iff h1 H va
  constructor
  · intro h
    rcases Nat.lt_or_ge va.toNat (2 ^ (64 - m.getT1sz.toNat)) with hlt | hge
    · exact .inl hlt
    · exact .inr (h.ttbr1.mp (hupper.mpr hge))
  · intro h
    have htop : m.vaInTtbr1 H va = true ↔ m.InTop va := by
      rw [hupper]
      refine ⟨fun hge => ?_, start_le_of_inTop h1⟩
      rcases h with hlt | htop
      · exact absurd hge (Nat.not_le.mpr hlt)
      · exact htop
    refine ⟨hbottom, htop, ?_, fun mem fuel r => ?_⟩
    · rintro ⟨hin0, hin1⟩
      exact bottom_lt_top h0 h1 (hbottom.mp hin0) (htop.mp hin1)
    · have hbase : m.walkBase H va = (m.architecturalTtbr va).map MMUEmulator.tableBase :=
        congrArg (Option.map _) (selectTtbr_eq hbottom htop)
      obtain ⟨f, hfetched, hregion, -, heq⟩ := walkPageTables_start H va m r
      refine ⟨f, hfetched, hregion, ?_⟩
      rw [← hbase]
      exact heq mem fuel

/-- Both ranges of 48 bits, as a guest would set them up. -/
def halves : MMUEmulator := ({} : MMUEmulator).setTcr 0x100010

theorem architecturalSplit_iff_sample :
    ArchitecturalSplit Host.masked halves 0xFFFF000000000000 ↔
      (0xFFFF000000000000 : BitVec 64).toNat < 2 ^ (64 - halves.getT1sz.toNat) ∨
        halves.InTop 0xFFFF000000000000 :=
  architecturalSplit_iff (by decide) (by decide) Host.masked _

/-- The first address above the bottom range is translated by TTBR1. -/
theorem hole_translated :
    ¬ ∀ (H : Host) (m : MMUEmulator) (va : BitVec 64), 1 ≤ m.getT0sz.toNat →
      1 ≤ m.getT1sz.toNat → ArchitecturalSplit H m va := by
  intro hall
  have hsplit := hall Host.masked halves 0x0001000000000000 (by decide) (by decide)
  have htop := hsplit.ttbr1.mp (by decide)
  revert htop
  decide

end Acheron
