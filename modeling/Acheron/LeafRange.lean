import Acheron.CallResults
import Acheron.TablePath

/-!
# The range of a leaf

The level of a leaf fixes how many addresses lead to it: 2^39 at level 0, and
512 times fewer with every level. The offset into the leaf comes from a separate
table, the `switch` of the walk, which has the sizes of the levels 1 and 2 for
the levels 0 and 1.

Results:
1. `leafWalk_spec`: a walk that succeeds, by its level.
2. `linearLeaf_iff`: two addresses under one leaf are mapped linearly exactly
   when the leaf is at the level 2 or 3 and their bits 63:48 agree.
3. `walk_pageUniform`: the walks for two addresses of a 4 KB page end alike.
-/

namespace Acheron

open CallLemmas PathLemmas WalkLemmas

/-! ## 1. Walks that succeed -/

/-- A walk for `va` from the table `base` that returns `pa`, with the region and
the logs in `g`. -/
def LeafWalk (H : Host) (mem : Memory) (base va pa : BitVec 64) (g : Frame) : Prop :=
  ∃ fuel m r,
    walkLevel H mem va fuel base 0 { mmu := m, region := r } = (.returned (some pa), g)

/-- The level of the descriptor that was fetched last. -/
def Frame.lastLevel (g : Frame) : Nat := g.fetched.length - 1

theorem leafWalk_spec {H : Host} {mem : Memory} {base va pa : BitVec 64} {g : Frame}
    (h : LeafWalk H mem base va pa g) :
    ∃ n size, LeadsOn H mem va base n ∧ (descriptorAt H mem va base n).leadsOn = false ∧
      g.fetched = (List.range (n + 1)).map (slotAt H mem va base) ∧ leafSize n = some size ∧
      g.region = leafRegion (descriptorAt H mem va base n) size ∧
      pa = (leafRegion (descriptorAt H mem va base n) size).baseAddress + (va &&& (size - 1)) := by
  obtain ⟨fuel, m, r, hw⟩ := h
  obtain ⟨n, hstop⟩ := stopsAt_of_returned hw
  have hend := hstop.ending
  unfold walkEnd at hend
  split at hend
  · split at hend
    · cases hend
    · next size hsize =>
      cases hend
      exact ⟨n, size, hstop.before, hstop.stop, hstop.fetched.trans (List.nil_append _), hsize,
        rfl, rfl⟩
  · cases hend

/-! ## 2. Two walks to one leaf -/

/-- The leaf maps both addresses at the same distance, and its region has the
size of the range of its level. -/
structure LinearLeaf (va va' pa pa' : BitVec 64) (g g' : Frame) : Prop where
  linear : pa' - pa = va' - va
  size : g.region.size = BitVec.twoPow 64 (39 - 9 * g.lastLevel)
  size' : g'.region.size = BitVec.twoPow 64 (39 - 9 * g'.lastLevel)
  injective : pa = pa' → va = va'

namespace LeafLemmas

theorem slotIn_injective {H : Host} {va va' table : BitVec 64} {level : Nat} (hl : level ≤ 3)
    (h : slotIn H va table level = slotIn H va' table level) :
    va.toNat / 2 ^ (39 - level * 9) % 2 ^ 9 = va'.toNat / 2 ^ (39 - level * 9) % 2 ^ 9 := by
  rw [← index_toNat H va hl, ← index_toNat H va' hl]
  have hi := index_toNat H va hl
  have hj := index_toNat H va' hl
  unfold slotIn at h
  generalize H.shr va (39 - (level : Int) * 9) &&& 0x1FF = i at *
  generalize H.shr va' (39 - (level : Int) * 9) &&& 0x1FF = j at *
  have hi' : i.toNat < 2 ^ 9 := hi ▸ Nat.mod_lt _ (by decide)
  have hj' : j.toNat < 2 ^ 9 := hj ▸ Nat.mod_lt _ (by decide)
  have heq : i * 8 = j * 8 := add_left_cancel h
  bv_omega

/-- Paths that go through the same slots use the same indices. -/
theorem indices_agree {H : Host} {mem : Memory} {base va va' : BitVec 64} {n : Nat}
    (h : ∀ level ≤ n, slotAt H mem va base level = slotAt H mem va' base level) {level : Nat}
    (hl : level ≤ n) (hl3 : level ≤ 3) :
    va.toNat / 2 ^ (39 - level * 9) % 2 ^ 9 = va'.toNat / 2 ^ (39 - level * 9) % 2 ^ 9 := by
  have htable : tableAt H mem va base level = tableAt H mem va' base level := by
    cases level with
    | zero => rfl
    | succ level =>
      rw [tableAt_succ, tableAt_succ, descriptorAt_congr (h level (Nat.le_of_succ_le hl))]
  have hslot := h level hl
  unfold slotAt at hslot
  rw [← htable] at hslot
  exact slotIn_injective hl3 hslot

theorem slots_eq_of_fetched {H : Host} {mem : Memory} {base va va' : BitVec 64} {n n' : Nat}
    (h : (List.range (n + 1)).map (slotAt H mem va base) =
      (List.range (n' + 1)).map (slotAt H mem va' base)) :
    n = n' ∧ ∀ level ≤ n, slotAt H mem va base level = slotAt H mem va' base level := by
  have hlength := congrArg List.length h
  rw [List.length_map, List.length_map, List.length_range, List.length_range] at hlength
  obtain rfl : n = n' := Nat.succ_injective hlength
  exact ⟨rfl, fun level hl => List.map_inj_left.mp h level (List.mem_range.mpr (by omega))⟩

theorem lastLevel_of_fetched {g : Frame} {n : Nat} {slot : Nat → BitVec 64}
    (h : g.fetched = (List.range (n + 1)).map slot) : g.lastLevel = n := by
  unfold Frame.lastLevel
  rw [h, List.length_map, List.length_range, Nat.add_sub_cancel]

/-- The addresses that a leaf returns differ as the offsets do, and these as the
virtual addresses do within one block. -/
theorem linear_iff (base va va' size : BitVec 64) :
    base + (va' &&& (size - 1)) - (base + (va &&& (size - 1))) = va' - va ↔
      va &&& ~~~(size - 1) = va' &&& ~~~(size - 1) := by
  rw [add_sub_add_left_eq_sub, Align.sub_offset_eq_iff]

/-- Only at the levels 2 and 3 the `switch` has the size of the range. -/
theorem leafSize_range_iff {n : Nat} {size : BitVec 64} (h : leafSize n = some size) :
    size = BitVec.twoPow 64 (39 - 9 * n) ↔ n = 2 ∨ n = 3 := by
  match n with
  | 0 => cases h; decide
  | 1 => cases h; decide
  | 2 => cases h; decide
  | 3 => cases h; decide
  | _ + 4 => cases h

/-- Addresses with the same indices down to the level 2 or 3 are in one block
of that level exactly when their upper bits agree. -/
theorem base_eq_iff_upper {n : Nat} (hn : n = 2 ∨ n = 3) {va va' : BitVec 64}
    (h : ∀ level ≤ n,
      va.toNat / 2 ^ (39 - level * 9) % 2 ^ 9 = va'.toNat / 2 ^ (39 - level * 9) % 2 ^ 9) :
    va &&& ~~~(BitVec.twoPow 64 (39 - 9 * n) - 1) = va' &&& ~~~(BitVec.twoPow 64 (39 - 9 * n) - 1) ↔
      va.extractLsb 63 48 = va'.extractLsb 63 48 := by
  rw [Align.base_eq_iff va va' (by omega), AliasLemmas.upper_eq_iff]
  have h0 := h 0 (Nat.zero_le n)
  have h1 := h 1 (by omega)
  have h2 := h 2 (by omega)
  rcases hn with rfl | rfl
  · omega
  · have h3 := h 3 (Nat.le_refl 3)
    omega

end LeafLemmas

open LeafLemmas

theorem linearLeaf_iff {H : Host} {mem : Memory} {base va va' pa pa' : BitVec 64} {g g' : Frame}
    (hw : LeafWalk H mem base va pa g) (hw' : LeafWalk H mem base va' pa' g')
    (hf : g.fetched = g'.fetched) :
    LinearLeaf va va' pa pa' g g' ↔
      LeadsOn H mem va base 2 ∧ va.extractLsb 63 48 = va'.extractLsb 63 48 := by
  obtain ⟨n, size, before, hd, hfetched, hsize, hregion, rfl⟩ := leafWalk_spec hw
  obtain ⟨n', size', -, -, hfetched', hsize', hregion', rfl⟩ := leafWalk_spec hw'
  obtain ⟨rfl, hslots⟩ := slots_eq_of_fetched (hfetched.symm.trans (hf.trans hfetched'))
  obtain rfl : size = size' := Option.some.inj (hsize.symm.trans hsize')
  rw [descriptorAt_congr (hslots n (Nat.le_refl n))] at hregion ⊢
  have hlevel := lastLevel_of_fetched hfetched
  have hlevel' := lastLevel_of_fetched hfetched'
  have hlinear :=
    linear_iff (leafRegion (descriptorAt H mem va' base n) size).baseAddress va va' size
  have hrange := leafSize_range_iff hsize
  have hupper (hn : n = 2 ∨ n = 3) :
      va &&& ~~~(size - 1) = va' &&& ~~~(size - 1) ↔
        va.extractLsb 63 48 = va'.extractLsb 63 48 := by
    rw [hrange.mpr hn]
    exact base_eq_iff_upper hn fun level hl => indices_agree hslots hl (by omega)
  constructor
  · intro h
    have hn : n = 2 ∨ n = 3 := by
      refine hrange.mp ?_
      have hs := h.size
      rw [hregion, hlevel] at hs
      exact hs
    exact ⟨fun level hl => before level (by omega), (hupper hn).mp (hlinear.mp h.linear)⟩
  · rintro ⟨hlead, hbits⟩
    have hn : n = 2 ∨ n = 3 := by
      rcases Nat.lt_or_ge n 2 with hlt | hge
      · cases (hlead n hlt).symm.trans hd
      · have hle := leafSize_level hsize
        omega
    have hlin := hlinear.mpr ((hupper hn).mpr hbits)
    refine ⟨hlin, ?_, ?_, fun hpa => ?_⟩
    · rw [hregion, hlevel]
      exact hrange.mpr hn
    · rw [hregion', hlevel']
      exact hrange.mpr hn
    · rw [hpa, sub_self] at hlin
      exact (sub_eq_zero.mp hlin.symm).symm

/-- A 2 MB block at the level 2, mapped at the address 0, and a block at the
level 0, mapped at 2^39. -/
def leafTables : Memory := fun addr =>
  if addr = 0x1000 then 0x4003
  else if addr = 0x2000 then 0x6003
  else if addr = 0x3000 then 0x400001
  else if addr = 0x1008 then 0x1
  else 0

/-- How a walk of a new emulator to the 2 MB block ends. -/
def leafFrame : Frame :=
  { mmu := {}
    region := leafRegion ⟨0x400001⟩ 0x200000
    fetched := [0x1000, 0x2000, 0x3000]
    shifts := [39, 30, 21] }

theorem linearLeaf_iff_sample :
    LinearLeaf 0x1234 0x105678 0x201234 0x305678 leafFrame leafFrame ↔
      LeadsOn Host.masked leafTables 0x1234 0x1000 2 ∧
        (0x1234 : BitVec 64).extractLsb 63 48 = (0x105678 : BitVec 64).extractLsb 63 48 :=
  linearLeaf_iff ⟨3, {}, {}, rfl⟩ ⟨3, {}, {}, rfl⟩ rfl

/-- The block at the level 0 maps its range 512 times onto the first GB. -/
theorem block_folded :
    ¬ ∀ (H : Host) (mem : Memory) (base va va' pa pa' : BitVec 64) (g g' : Frame),
      LeafWalk H mem base va pa g → LeafWalk H mem base va' pa' g' → g.fetched = g'.fetched →
      LinearLeaf va va' pa pa' g g' := by
  intro hall
  have hleaf := hall Host.masked leafTables 0x1000 0x8000000000 0x8040000000 0 0 _ _
    ⟨1, {}, {}, rfl⟩ ⟨1, {}, {}, rfl⟩ rfl
  exact absurd (hleaf.injective rfl) (by decide)

/-! ## 3. Two walks within a page -/

/-- The walk for `va` succeeds exactly when the one for `va'` does, with the
same region and at the same distance. Beyond the level 3 the two shift by
undefined amounts, of which they may make different things. -/
structure PageUniform (H H' : Host) (mem : Memory) (base va va' : BitVec 64) : Prop where
  succeeds : (∃ pa g, LeafWalk H mem base va pa g) ↔ ∃ pa g, LeafWalk H' mem base va' pa g
  region : ∀ pa pa' g g', LeafWalk H mem base va pa g → LeafWalk H' mem base va' pa' g' →
    g.region = g'.region
  distance : ∀ pa pa' g g', LeafWalk H mem base va pa g → LeafWalk H' mem base va' pa' g' →
    pa' - pa = va' - va

namespace LeafLemmas

/-- A walk has one end, whatever its fuel and the frame that it starts in. -/
theorem leafWalk_unique {H : Host} {mem : Memory} {base va pa pa' : BitVec 64} {g g' : Frame}
    (h : LeafWalk H mem base va pa g) (h' : LeafWalk H mem base va pa' g') :
    pa = pa' ∧ g.region = g'.region := by
  obtain ⟨n, size, before, hd, -, hsize, hregion, rfl⟩ := leafWalk_spec h
  obtain ⟨n', size', before', hd', -, hsize', hregion', rfl⟩ := leafWalk_spec h'
  obtain rfl : n = n' := by
    rcases Nat.lt_trichotomy n n' with hlt | heq | hgt
    · cases (before' n hlt).symm.trans hd
    · exact heq
    · cases (before n' hgt).symm.trans hd'
  obtain rfl : size = size' := Option.some.inj (hsize.symm.trans hsize')
  exact ⟨rfl, hregion.trans hregion'.symm⟩

/-- The walk for an address with the same indices ends in the same leaf. -/
theorem leafWalk_uniform {H : Host} {mem : Memory} {base va va' pa : BitVec 64} {g : Frame}
    (hs : SameIndices va va') (h : LeafWalk H mem base va pa g) (H' : Host) :
    ∃ g', LeafWalk H' mem base va'
        (g.region.baseAddress + (va' &&& (g.region.size - 1))) g' ∧ g'.region = g.region := by
  obtain ⟨fuel, m, r, hw⟩ := h
  obtain ⟨g', hw', hregion⟩ :=
    walkLevel_uniform H H' mem hs fuel base 0 _ { mmu := m, region := r } hw
  exact ⟨g', ⟨fuel, m, r, hw'⟩, hregion⟩

end LeafLemmas

/-- For every memory and every table. -/
theorem walk_pageUniform {va va' : BitVec 64} (hpage : SamePage va va') (H H' : Host)
    (mem : Memory) (base : BitVec 64) : PageUniform H H' mem base va va' := by
  have hs : SameIndices va va' := (samePage_iff.mp hpage).1
  refine ⟨⟨?_, ?_⟩, ?_, ?_⟩
  · rintro ⟨pa, g, h⟩
    obtain ⟨g', h', -⟩ := leafWalk_uniform hs h H'
    exact ⟨_, g', h'⟩
  · rintro ⟨pa', g', h'⟩
    obtain ⟨g, h, -⟩ := leafWalk_uniform hs.symm h' H
    exact ⟨_, g, h⟩
  · intro pa pa' g g' h h'
    obtain ⟨g₁, h₁, hregion⟩ := leafWalk_uniform hs h H'
    exact hregion.symm.trans (leafWalk_unique h₁ h').2
  · intro pa pa' g g' h h'
    obtain ⟨g₁, h₁, -⟩ := leafWalk_uniform hs h H'
    obtain ⟨n, size, -, -, -, hsize, hregion, rfl⟩ := leafWalk_spec h
    obtain ⟨k, hk, rfl⟩ := leafSize_shift hsize
    obtain rfl := (leafWalk_unique h₁ h').1
    rw [hregion]
    show _ + (va' &&& (BitVec.twoPow 64 k - 1)) - _ = _
    rw [add_sub_add_left_eq_sub]
    exact offset_samePage hpage hk

/-- Two addresses of one page of the 2 MB block, and where they are mapped. -/
theorem walk_pageUniform_sample :
    PageUniform Host.masked Host.masked leafTables 0x1000 0x1234 0x1FFF ∧
      LeafWalk Host.masked leafTables 0x1000 0x1234 0x201234 leafFrame ∧
      LeafWalk Host.masked leafTables 0x1000 0x1FFF 0x201FFF leafFrame :=
  ⟨walk_pageUniform (by unfold SamePage; decide) _ _ _ _, ⟨3, {}, {}, rfl⟩, ⟨3, {}, {}, rfl⟩⟩

end Acheron
