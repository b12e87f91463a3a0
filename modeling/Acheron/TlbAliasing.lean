import Acheron.TlbInvariant

/-!
# Which calls share an entry

The key of a call packs the page number and the ASID into one word: bits 47:12
are those of the address, bits 63:48 those of the address OR the ASID. Calls
with different upper address bits and ASIDs can therefore share a slot, and a
hit does not compare anything but the key.

Results:
1. `tlbKey_eq_iff`: which calls have the same key.
2. `hit_matches_iff`: a hit is legitimate exactly when the call that filled the
   slot had the same upper address bits and the same or the global ASID.
-/

namespace Acheron

open TlbLemmas WalkLemmas

/-! ## 1. Keys -/

namespace AliasLemmas

theorem getLsbD_pageMask (i : Nat) : (0xFFF#64).getLsbD i = decide (i < 12) := by
  show ((BitVec.allOnes 12).setWidth 64).getLsbD i = _
  rw [BitVec.getLsbD_setWidth, BitVec.getLsbD_allOnes]
  by_cases h : i < 12
  · simp [h]; omega
  · simp [h]

/-- The parts of a key. -/
theorem tlbKey_eq_append (va : BitVec 64) (asid : BitVec 16) :
    tlbKey va asid =
      ((va.extractLsb 63 48 ||| asid) ++ va.extractLsb 47 12 ++ 0#12 : BitVec 64) := by
  unfold tlbKey
  ext i hi
  simp only [← BitVec.getLsbD_eq_getElem, BitVec.getLsbD_or, BitVec.getLsbD_and,
    BitVec.getLsbD_not, BitVec.getLsbD_shiftLeft, BitVec.getLsbD_setWidth, BitVec.getLsbD_append,
    BitVec.getLsbD_extractLsb, BitVec.getLsbD_zero, getLsbD_pageMask]
  by_cases h12 : i < 12
  · -- the key clears the page offset
    have h48 : i < 48 := by omega
    simp [h12, h48]
  · by_cases h48 : i < 48
    · -- the ASID does not reach down to the page number
      have hpage : 12 + (i - 12) = i := by omega
      simp [hi, h12, h48, hpage, show i - 12 < 36 by omega]
    · have hindex : i - 12 - 36 = i - 48 := by omega
      have hupper : 48 + (i - 48) = i := by omega
      simp [hi, h12, h48, hindex, hupper, show ¬ i - 12 < 36 by omega,
        show i - 48 < 64 by omega, show i - 48 < 16 by omega]

theorem tlbKey_page (va : BitVec 64) (asid : BitVec 16) :
    (tlbKey va asid).extractLsb 47 12 = va.extractLsb 47 12 := by
  rw [tlbKey_eq_append]
  show BitVec.extractLsb' 12 36 (_ ++ 0#12) = _
  rw [BitVec.extractLsb'_append_eq_of_le (Nat.le_refl 12)]
  exact BitVec.extractLsb'_append_eq_right

theorem tlbKey_upper (va : BitVec 64) (asid : BitVec 16) :
    (tlbKey va asid).extractLsb 63 48 = va.extractLsb 63 48 ||| asid := by
  rw [tlbKey_eq_append]
  show BitVec.extractLsb' 48 16 (_ ++ 0#12) = _
  rw [BitVec.extractLsb'_append_eq_of_le (by decide)]
  exact BitVec.extractLsb'_append_eq_left

end AliasLemmas

open AliasLemmas

theorem tlbKey_eq_iff {va va' : BitVec 64} {asid asid' : BitVec 16} :
    tlbKey va asid = tlbKey va' asid' ↔
      SameIndices va va' ∧ va.extractLsb 63 48 ||| asid = va'.extractLsb 63 48 ||| asid' := by
  unfold SameIndices
  constructor
  · intro h
    rw [← tlbKey_page va asid, ← tlbKey_upper va asid, h, tlbKey_page, tlbKey_upper]
    exact ⟨rfl, rfl⟩
  · rintro ⟨hpage, hupper⟩
    rw [tlbKey_eq_append, tlbKey_eq_append, hpage, hupper]

/-! ## 2. Legitimate hits -/

/-- The two calls are for the same upper address bits, and the first one's ASID
is that of the second or the global one. -/
def SameOwner (t : Translation) (va : BitVec 64) (asid : BitVec 16) : Prop :=
  t.va.extractLsb 63 48 = va.extractLsb 63 48 ∧ (t.asid = asid ∨ t.asid = 0xFFFF)

namespace AliasLemmas

theorem upper_eq_iff {va va' : BitVec 64} :
    va.extractLsb 63 48 = va'.extractLsb 63 48 ↔ va.toNat / 2 ^ 48 = va'.toNat / 2 ^ 48 := by
  rw [← BitVec.toNat_inj, BitVec.extractLsb_toNat, BitVec.extractLsb_toNat,
    Nat.shiftRight_eq_div_pow, Nat.shiftRight_eq_div_pow]
  omega

/-- Addresses with the same indices are in the same block exactly when their
upper bits agree. -/
theorem sameBlock_iff {va va' : BitVec 64} (hs : SameIndices va va') {k : Nat} (hk : LeafShift k) :
    va &&& ~~~(BitVec.twoPow 64 k - 1) = va' &&& ~~~(BitVec.twoPow 64 k - 1) ↔
      va.extractLsb 63 48 = va'.extractLsb 63 48 := by
  have hs' := sameIndices_iff.mp hs
  have hlt := shift_lt hk
  rw [Align.base_eq_iff va va' (by omega), upper_eq_iff]
  rcases hk with rfl | rfl | rfl
  · omega
  · omega
  · omega

theorem matches_newEntry {va va' : BitVec 64} {asid asid' : BitVec 16} {r : MemoryRegion} :
    (newEntry va asid r).matches va' asid' ↔
      (asid = asid' ∨ asid = 0xFFFF) ∧ va &&& ~~~(r.size - 1) = va' &&& ~~~(r.size - 1) := by
  unfold TLBEntry.matches newEntry
  dsimp only
  rw [Align.base_base, if_neg (by decide)]
  split
  · next hne => exact ⟨nofun, fun h => absurd h.1 (not_or.mpr hne)⟩
  · next hor =>
    rw [not_and_or, not_not, not_not] at hor
    exact ⟨fun h => ⟨hor, eq_of_beq h⟩, fun h => beq_iff_eq.mpr h.2⟩

end AliasLemmas

theorem hit_matches_iff {H : Host} {h : List Event} {s : System} (hr : Run H h s) {va : BitVec 64}
    {asid : BitVec 16} {e : TLBEntry} (he : s.mmu.hitEntry va asid = some e) :
    ∃ t, lastFill h (tlbKey va asid) = some t ∧ (e.matches va asid ↔ SameOwner t va asid) := by
  obtain ⟨t, d, k, hf⟩ := entry_filledBy hr (lookup_of_hitEntry he)
  refine ⟨t, hf.last, ?_⟩
  have hs : SameIndices t.va va := (tlbKey_eq_iff.mp hf.key).1
  have hsize : t.region.size = BitVec.twoPow 64 k := by rw [hf.region]; rfl
  rw [hf.entry, matches_newEntry, hsize, sameBlock_iff hs hf.shift]
  exact And.comm

theorem hit_matches_iff_sample :
    ∃ t, lastFill sampleHistory (tlbKey 0x0001000000001234 0) = some t ∧
      (sampleEntry.matches 0x0001000000001234 0 ↔ SameOwner t 0x0001000000001234 0) :=
  hit_matches_iff sample_run (by decide)

/-- The entry for ASID 0 and `0x0001000000001234` serves ASID 1 and `0x1234`. -/
theorem hit_of_another_page :
    ¬ ∀ (H : Host) (h : List Event) (s : System), Run H h s →
      ∀ va asid e, s.mmu.hitEntry va asid = some e → e.matches va asid := by
  intro hall
  have hmatches := hall Host.masked sampleHistory sampleSystem sample_run 0x1234 1 sampleEntry
    (by decide)
  revert hmatches
  decide

end Acheron
