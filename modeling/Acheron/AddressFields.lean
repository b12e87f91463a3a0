import Acheron.PageTables

/-!
# Addresses in descriptors and registers

A descriptor declares the bits of its output address twice, as a field of the
stage 1 and as one of the stage 2 layout. The field of stage 1 comes one bit
late, since `ap` is declared with three bits. `TTBR0_EL1` masks its address by
hand, with the same constant for reading and for writing.

Results:
1. `getOutputAddress_setOutputAddress`: the two accessors of a descriptor agree
   with each other, and so hide where the address is.
2. `viewsAgree_iff`: for which descriptors and addresses they agree with the
   documented bits 47:12.
3. `baseAddress_iff`: for which register values and addresses those of
   `TTBR0_EL1` keep the address and the ASID apart.
-/

namespace Acheron

/-! ## 1. The accessors of a descriptor -/

namespace FieldLemmas

theorem addressMask_eq :
    (0x0000FFFFFFFFF000 : BitVec 64) = (BitVec.allOnes 36).setWidth 64 <<< 12 := by
  decide

/-- The setter stores bits 47:12 of its argument. -/
theorem stored_eq (pa : BitVec 64) :
    ((pa >>> 12) &&& 0xFFFFFFFFF).setWidth 36 = pa.extractLsb' 12 36 := by
  have hmask : (0xFFFFFFFFF : BitVec 64) = (BitVec.allOnes 36).setWidth 64 := by decide
  rw [hmask, Align.and_setWidth, BitVec.and_allOnes, BitVec.setWidth_setWidth_of_le _ (by decide),
    BitVec.setWidth_eq]
  ext i hi
  rw [BitVec.getElem_setWidth, BitVec.getElem_extractLsb', BitVec.getLsbD_ushiftRight]

theorem outputAddr_setOutputAddress (d : PageTableDescriptor) (pa : BitVec 64) :
    (d.setOutputAddress pa).outputAddr = pa.extractLsb' 12 36 :=
  (Layout.get_put PageTableDescriptor.stage1 8 (by decide) d.value _).trans (stored_eq pa)

/-- The stored bits are 48:13. -/
theorem getLsbD_setOutputAddress (d : PageTableDescriptor) (pa : BitVec 64) {i : Nat}
    (hi : i < 64) :
    (d.setOutputAddress pa).value.getLsbD i =
      if 13 ≤ i ∧ i < 13 + 36 then pa.getLsbD (i - 1) else d.value.getLsbD i := by
  refine (Layout.getLsbD_put PageTableDescriptor.stage1 8 d.value _ hi).trans ?_
  show (if 13 ≤ i ∧ i < 13 + 36 then
    (((pa >>> 12) &&& 0xFFFFFFFFF).setWidth 36).getLsbD (i - 13) else _) = _
  refine ite_congr rfl (fun h => ?_) fun _ => rfl
  rw [stored_eq, BitVec.getLsbD_extractLsb', show 12 + (i - 13) = i - 1 by omega,
    decide_eq_true (show i - 13 < 36 by omega), Bool.true_and]

end FieldLemmas

open FieldLemmas

/-- What is set is read back, aligned to 4 KB and cut to 48 bits. -/
theorem getOutputAddress_setOutputAddress (d : PageTableDescriptor) (pa : BitVec 64) :
    (d.setOutputAddress pa).getOutputAddress = pa &&& 0x0000FFFFFFFFF000 := by
  unfold PageTableDescriptor.getOutputAddress
  rw [outputAddr_setOutputAddress, addressMask_eq, Align.and_run]

/-! ## 2. The documented bits -/

/-- The views of the output address of `d` are bits 47:12, and a store of `pa`
writes these and no others. -/
structure ViewsAgree (d : PageTableDescriptor) (pa : BitVec 64) : Prop where
  raw : d.getOutputAddress = d.value &&& 0x0000FFFFFFFFF000
  stage2 : d.getOutputAddress = d.s2OutputAddr.setWidth 64 <<< 12
  written : (d.setOutputAddress pa).value.extractLsb 47 12 = pa.extractLsb 47 12
  frame : ∀ i, i < 12 ∨ 47 < i →
    (d.setOutputAddress pa).value.getLsbD i = d.value.getLsbD i

/-- Bits 48:12 of `d` and bits 47:12 of `pa` are all equal. -/
def AllEqual (d : PageTableDescriptor) (pa : BitVec 64) : Prop :=
  ∃ b, (∀ i, 12 ≤ i → i ≤ 48 → d.value.getLsbD i = b) ∧
    ∀ i, 12 ≤ i → i ≤ 47 → pa.getLsbD i = b

namespace FieldLemmas

/-- The field of stage 1 shows the documented bits if bits 48:12 are equal. -/
theorem outputAddr_eq_iff (d : PageTableDescriptor) :
    d.outputAddr = d.value.extractLsb' 12 36 ↔
      ∀ i ≤ 36, d.value.getLsbD (12 + i) = d.value.getLsbD 12 := by
  rw [d.outputAddr_eq, Align.extractLsb'_eq_iff,
    ← Align.forall_succ_eq_iff (f := fun i => d.value.getLsbD (12 + i))]
  simp only [show ∀ i, 12 + (i + 1) = 13 + i by omega]

theorem getOutputAddress_eq_iff (d : PageTableDescriptor) {a : BitVec 36} :
    d.getOutputAddress = a.setWidth 64 <<< 12 ↔ d.outputAddr = a :=
  Align.run_inj (by decide)

/-- A store writes the documented bits if bit 12, which it leaves, and bits
46:12 of the address, which it writes one bit too high, are those of the
address. -/
theorem written_iff (d : PageTableDescriptor) (pa : BitVec 64) :
    (d.setOutputAddress pa).value.extractLsb 47 12 = pa.extractLsb 47 12 ↔
      d.value.getLsbD 12 = pa.getLsbD 12 ∧ ∀ i ≤ 35, pa.getLsbD (12 + i) = pa.getLsbD 12 := by
  refine Align.extractLsb'_eq_iff.trans ?_
  rw [← Align.forall_succ_eq_iff (f := fun i => pa.getLsbD (12 + i))]
  constructor
  · intro h
    refine ⟨?_, fun i hi => ?_⟩
    · have hbit := h 0 (by decide)
      rwa [getLsbD_setOutputAddress d pa (by decide), if_neg (by decide)] at hbit
    · have hbit := h (i + 1) (by omega)
      rw [getLsbD_setOutputAddress d pa (by omega), if_pos (by omega)] at hbit
      exact hbit.symm
  · rintro ⟨hfirst, hnext⟩ i hi
    rw [getLsbD_setOutputAddress d pa (by omega)]
    cases i with
    | zero => exact hfirst
    | succ i =>
      rw [if_pos (by omega)]
      exact (hnext i (by omega)).symm

end FieldLemmas

/-- The documented views hold of the constant bit patterns only. -/
theorem viewsAgree_iff (d : PageTableDescriptor) (pa : BitVec 64) :
    ViewsAgree d pa ↔ AllEqual d pa := by
  have hraw : d.getOutputAddress = d.value &&& 0x0000FFFFFFFFF000 ↔
      ∀ i ≤ 36, d.value.getLsbD (12 + i) = d.value.getLsbD 12 := by
    rw [addressMask_eq, Align.and_run, getOutputAddress_eq_iff, outputAddr_eq_iff]
  constructor
  · rintro ⟨raw, -, written, -⟩
    obtain ⟨hbit, haddr⟩ := (written_iff d pa).mp written
    refine ⟨d.value.getLsbD 12, fun i h12 h48 => ?_, fun i h12 h47 => ?_⟩
    · have hi := hraw.mp raw (i - 12) (by omega)
      rwa [show 12 + (i - 12) = i by omega] at hi
    · have hi := haddr (i - 12) (by omega)
      rw [show 12 + (i - 12) = i by omega] at hi
      exact hi.trans hbit.symm
  · rintro ⟨b, hd, hpa⟩
    have hviews : ∀ i ≤ 36, d.value.getLsbD (12 + i) = d.value.getLsbD 12 := fun i hi =>
      (hd _ (by omega) (by omega)).trans (hd 12 (by omega) (by omega)).symm
    refine ⟨hraw.mpr hviews, ?_, (written_iff d pa).mpr ⟨?_, fun i hi => ?_⟩, fun i hi => ?_⟩
    · rw [getOutputAddress_eq_iff]
      exact (outputAddr_eq_iff d).mpr hviews
    · exact (hd 12 (by omega) (by omega)).trans (hpa 12 (by omega) (by omega)).symm
    · exact (hpa _ (by omega) (by omega)).trans (hpa 12 (by omega) (by omega)).symm
    · rcases Nat.lt_or_ge i 64 with hlt | hge
      · rw [getLsbD_setOutputAddress d pa hlt]
        split
        · -- Bit 48 is the only one that the store should have left.
          rw [hpa (i - 1) (by omega) (by omega), hd i (by omega) (by omega)]
        · rfl
      · rw [BitVec.getLsbD_of_ge _ _ hge, BitVec.getLsbD_of_ge _ _ hge]

/-- A page at 0x40000000, whose descriptor has its address in bits 47:12. -/
theorem outputAddress_shifted : ¬ ∀ d pa, ViewsAgree d pa := by
  intro hall
  have hraw := (hall ⟨0x40000703⟩ 0x40000000).raw
  revert hraw
  decide

/-! ## 3. The accessors of `TTBR0_EL1` -/

/-- `TTBR0_EL1`: the `value` of the union. -/
structure TTBR0EL1 where
  value : BitVec 64
deriving DecidableEq, Repr

namespace TTBR0EL1

/-- The widths of `BADDR` and `ASID`. -/
def fields : Layout := ⟨64, [48, 16]⟩

def asid (r : TTBR0EL1) : BitVec 16 := fields.get 1 r.value

def getBaseAddress (r : TTBR0EL1) : BitVec 64 := r.value &&& 0xFFFFFFFFFFFF0000

def setBaseAddress (r : TTBR0EL1) (addr : BitVec 64) : TTBR0EL1 :=
  ⟨(r.value &&& 0xFFFF000000000000) ||| (addr &&& 0xFFFFFFFFFFFF0000)⟩

end TTBR0EL1

/-- The register keeps the 4 KB-aligned 48-bit address, and its ASID. -/
structure KeepsAddress (r : TTBR0EL1) (addr : BitVec 64) : Prop where
  address : (r.setBaseAddress addr).getBaseAddress = addr &&& 0x0000FFFFFFFFF000
  asid : (r.setBaseAddress addr).asid = r.asid

namespace FieldLemmas

theorem asid_eq_zero_iff (r : TTBR0EL1) :
    r.asid = 0 ↔ r.value &&& 0xFFFF000000000000 = 0#64 := by
  have hmask : (0xFFFF000000000000 : BitVec 64) = (BitVec.allOnes 16).setWidth 64 <<< 48 := by
    decide
  have hzero : 0#64 = (0 : BitVec 16).setWidth 64 <<< 48 := by decide
  rw [hmask, Align.and_run, hzero, Align.run_inj (by decide)]
  exact Iff.rfl

/-- Both masks keep the ASID, so the getter returns all that the setter has
stored. -/
theorem getBaseAddress_setBaseAddress (r : TTBR0EL1) (addr : BitVec 64) :
    (r.setBaseAddress addr).getBaseAddress =
      (r.value &&& 0xFFFF000000000000) ||| (addr &&& 0xFFFFFFFFFFFF0000) := by
  have hsub : (0xFFFF000000000000 : BitVec 64) &&& 0xFFFFFFFFFFFF0000 = 0xFFFF000000000000 := by
    decide
  unfold TTBR0EL1.setBaseAddress TTBR0EL1.getBaseAddress
  rw [BitVec.and_or_distrib_right, BitVec.and_assoc, BitVec.and_assoc, hsub, BitVec.and_self]

/-- The two address masks differ in the ASID and in bits 15:12. -/
theorem masks_agree_iff (addr : BitVec 64) :
    addr &&& 0xFFFFFFFFFFFF0000 = addr &&& 0x0000FFFFFFFFF000 ↔
      addr &&& 0xFFFF00000000F000 = 0 := by
  have hdiff : (0xFFFFFFFFFFFF0000 : BitVec 64) ^^^ 0x0000FFFFFFFFF000 = 0xFFFF00000000F000 := by
    decide
  rw [Align.and_eq_and_iff, hdiff]

end FieldLemmas

/-- The accessors work while the stored ASID is 0, for addresses below 2^48 that
are aligned to 64 KB. Bits 11:0 do not matter. -/
theorem baseAddress_iff (r : TTBR0EL1) (addr : BitVec 64) :
    KeepsAddress r addr ↔ r.asid = 0 ∧ addr &&& 0xFFFF00000000F000 = 0 := by
  have hdisjoint : (0x0000FFFFFFFFF000 : BitVec 64) &&& 0xFFFF000000000000 = 0#64 := by decide
  rw [asid_eq_zero_iff, ← masks_agree_iff]
  constructor
  · rintro ⟨haddress, -⟩
    rw [getBaseAddress_setBaseAddress] at haddress
    have hasid : r.value &&& 0xFFFF000000000000 = 0#64 := by
      have hupper := congrArg (· &&& (0xFFFF000000000000 : BitVec 64)) haddress
      rw [BitVec.and_or_distrib_right, BitVec.and_assoc, BitVec.and_self, BitVec.and_assoc addr,
        BitVec.and_assoc addr, hdisjoint, BitVec.and_zero, BitVec.or_eq_zero_iff] at hupper
      exact hupper.1
    rw [hasid, BitVec.zero_or] at haddress
    exact ⟨hasid, haddress⟩
  · rintro ⟨hasid, hmasks⟩
    constructor
    · rw [getBaseAddress_setBaseAddress, hasid, BitVec.zero_or, hmasks]
    · have hset : (r.setBaseAddress addr).asid = 0 := by
        rw [asid_eq_zero_iff]
        unfold TTBR0EL1.setBaseAddress
        rw [hasid, BitVec.zero_or, hmasks, BitVec.and_assoc, hdisjoint, BitVec.and_zero]
      rw [hset, (asid_eq_zero_iff r).mpr hasid]

/-- A table at the second 4 KB page. -/
theorem baseAddress_cleared : ¬ ∀ r addr, KeepsAddress r addr := by
  intro hall
  have haddress := (hall ⟨0⟩ 0x1000).address
  revert haddress
  decide

end Acheron
