import Acheron.TlbTransparency

/-!
# What a call returns

A call of `translate_with_attributes` reports a leaf, whether it has walked the
tables or found the leaf in the TLB. A run `.translated t :: h` is one that has
just completed the call `t`.

Results:
1. `fault_atomic`: a call that fails changes three counters and nothing else.
2. `call_post`: the size, the alignment and the bounds of what a call returns.
3. `next_call_hits`: the next call for the same page is a hit and agrees with
   the one before.
4. `next_region_iff`: after a miss, the next call for the same address reports
   the same region exactly when the two fields that the TLB does not keep come
   in with the right values.
-/

namespace Acheron

open TlbLemmas TransparencyLemmas

/-! ## 1. Faults -/

/-- What is left of a call on `m` with the caller's region `r` that failed. -/
structure AtomicFault (m : MMUEmulator) (r : MemoryRegion) (f : Frame) : Prop where
  region : f.region = r
  tlb : f.mmu.tlb = m.tlb
  ttbr0 : f.mmu.ttbr0 = m.ttbr0
  ttbr1 : f.mmu.ttbr1 = m.ttbr1
  tcr : f.mmu.tcr = m.tcr
  hits : f.mmu.stats.tlbHits = m.stats.tlbHits
  misses : f.mmu.stats.tlbMisses = m.stats.tlbMisses + 1
  walks : f.mmu.stats.pageWalks = m.stats.pageWalks + 1
  faults : f.mmu.stats.translationFaults = m.stats.translationFaults + 1

/-- On every emulator, reachable or not. -/
theorem fault_atomic {H : Host} {mem : Memory} {fuel : Nat} {victim va : BitVec 64}
    {asid : BitVec 16} {m : MMUEmulator} {r : MemoryRegion} {f : Frame}
    (h : translateWithAttributes H mem fuel victim va asid { mmu := m, region := r } =
      (.returned none, f)) : AtomicFault m r f := by
  unfold translateWithAttributes at h
  dsimp only at h
  split at h
  · cases h
  · have outcome := walkPageTables_outcome H mem fuel va m.countMiss r
    split at h
    · cases h
    · next hw =>
      rw [hw, h] at outcome
      cases outcome with
      | fault hm hr =>
        obtain ⟨mmu, region, _, _⟩ := f
        cases hm
        cases hr
        exact ⟨rfl, rfl, rfl, rfl, rfl, rfl, rfl, rfl, rfl⟩

/-- The lower half of the sample is not mapped. -/
theorem fault_atomic_sample :
    ∃ f, translateWithAttributes Host.masked sampleMemory 1 0 0x1234 0
        { mmu := sampleMMU, region := {} } = (.returned none, f) ∧ AtomicFault sampleMMU {} f := by
  have hcall : translateWithAttributes Host.masked sampleMemory 1 0 0x1234 0
      { mmu := sampleMMU, region := {} } = (.returned none, _) := rfl
  exact ⟨_, hcall, fault_atomic hcall⟩

/-! ## 2. Successes -/

/-- What a call for `va` that returns `pa` promises about the region it reports. -/
structure CallPost (va pa : BitVec 64) (region : MemoryRegion) : Prop where
  size : region.size = 4096 ∨ region.size = 2 * 1024 * 1024 ∨ region.size = 1024 * 1024 * 1024
  aligned : region.size.toNat ∣ region.baseAddress.toNat
  address : pa.toNat = region.baseAddress.toNat + va.toNat % region.size.toNat
  range : pa.toNat < 2 ^ 48

/-- The six fields of a region that a TLB entry keeps. -/
structure SameMapping (r r' : MemoryRegion) : Prop where
  baseAddress : r.baseAddress = r'.baseAddress
  size : r.size = r'.size
  type : r.type = r'.type
  ap : r.ap = r'.ap
  uxn : r.uxn = r'.uxn
  pxn : r.pxn = r'.pxn

/-- The region is that of the leaf `d` of size 2^k, and the call for `va`
returns `pa` in it. -/
structure FromLeaf (d : PageTableDescriptor) (k : Nat) (va pa : BitVec 64)
    (region : MemoryRegion) : Prop where
  shift : LeafShift k
  mapping : SameMapping region (leafRegion d (BitVec.twoPow 64 k))
  address : pa = region.baseAddress + (va &&& (region.size - 1))

namespace CallLemmas

/-- An entry keeps the region that it was built from. -/
theorem copyOut_newEntry (va : BitVec 64) (asid : BitVec 16) {r : MemoryRegion}
    {d : PageTableDescriptor} {k : Nat} (hr : r = leafRegion d (BitVec.twoPow 64 k))
    (r' : MemoryRegion) : SameMapping ((newEntry va asid r).copyOut r') r := by
  subst hr
  exact ⟨Align.base_base _ _, rfl, rfl, rfl, rfl, rfl⟩

/-- A call that has succeeded reports a leaf, and leaves an entry for its page
behind that reports the same. -/
theorem call_spec {H : Host} {h : List Event} {s : System} {t : Translation}
    (hr : Run H (.translated t :: h) s) {pa : BitVec 64} (hok : t.result = some pa) :
    ∃ d k e, FromLeaf d k t.va pa t.region ∧ s.mmu.hitEntry t.va t.asid = some e ∧
      ∀ r, SameMapping (e.copyOut r) t.region := by
  obtain ⟨s₀, hr₀, hs⟩ := hr.last
  obtain ⟨victim, r, f, -, rfl, hregion, -, -, outcome⟩ := step_translated hs
  rw [hok] at outcome
  generalize hres : some pa = result at outcome
  cases outcome with
  | hit he hf =>
    obtain ⟨t₀, d, k, hfill⟩ := entry_filledBy hr₀ (lookup_of_hitEntry he)
    cases hres
    subst hf
    refine ⟨d, k, _, ⟨hfill.shift, ?_, ?_⟩, he, fun r' => ?_⟩
    · rw [hregion, hfill.entry, ← hfill.region]
      exact copyOut_newEntry _ _ hfill.region r
    · rw [hregion]
      rfl
    · rw [hregion]
      exact ⟨rfl, rfl, rfl, rfl, rfl, rfl⟩
  | fault => cases hres
  | @fill f _ k addr _ hm hk _ _ hleaf _ =>
    cases hres
    refine ⟨⟨s₀.mem addr⟩, k, newEntry t.va t.asid f.region, ⟨hk, ?_, ?_⟩, ?_, fun r' => ?_⟩
    · rw [hregion, hleaf]
      exact ⟨rfl, rfl, rfl, rfl, rfl, rfl⟩
    · rw [hregion]
    · show f.mmu.hitEntry t.va t.asid = _
      rw [hm]
      exact hitEntry_fill _ victim rfl f.region
    · rw [hregion]
      exact copyOut_newEntry _ _ hleaf r'

theorem post_of_fromLeaf {d : PageTableDescriptor} {k : Nat} {va pa : BitVec 64}
    {region : MemoryRegion} (h : FromLeaf d k va pa region) : CallPost va pa region := by
  obtain ⟨hshift, hmapping, rfl⟩ := h
  obtain ⟨-, hk30⟩ := shift_lt hshift
  obtain ⟨haligned, hrange⟩ := leafBase_range d hshift
  rw [← hmapping.baseAddress] at haligned hrange
  have hsize : region.size = BitVec.twoPow 64 k := hmapping.size
  have hsizeNat : region.size.toNat = 2 ^ k := by rw [hsize, size_toNat hshift]
  have hoffset : (va &&& (region.size - 1)).toNat = va.toNat % 2 ^ k := by
    rw [hsize, Align.toNat_offset va (by omega)]
  have hlt : va.toNat % 2 ^ k < 2 ^ k := Nat.mod_lt _ (Nat.two_pow_pos k)
  -- The offset stays in the block, so the sum does not wrap.
  have hsum : (region.baseAddress + (va &&& (region.size - 1))).toNat =
      region.baseAddress.toNat + va.toNat % 2 ^ k := by
    rw [BitVec.toNat_add, hoffset, Nat.mod_eq_of_lt (by omega)]
  refine ⟨?_, ?_, ?_, ?_⟩
  · rw [hsize]
    exact leaf_size hshift
  · rw [hsizeNat]
    exact haligned
  · rw [hsum, hsizeNat]
  · rw [hsum]
    omega

end CallLemmas

open CallLemmas

/-- On both paths, in every reachable state. -/
theorem call_post {H : Host} {h : List Event} {s : System} {t : Translation}
    (hr : Run H (.translated t :: h) s) {pa : BitVec 64} (hok : t.result = some pa) :
    CallPost t.va pa t.region := by
  obtain ⟨d, k, e, hleaf, -, -⟩ := call_spec hr hok
  exact post_of_fromLeaf hleaf

theorem call_post_sample : CallPost 0x0001000000001234 0x1234 sampleTranslation.region :=
  call_post sample_run rfl

/-! ## 3. The next call for the page -/

/-- The addresses are in the same 4 KB page. -/
def SamePage (va va' : BitVec 64) : Prop := va &&& ~~~0xFFF#64 = va' &&& ~~~0xFFF#64

namespace CallLemmas

theorem samePage_iff {va va' : BitVec 64} :
    SamePage va va' ↔ SameIndices va va' ∧ va.extractLsb 63 48 = va'.extractLsb 63 48 := by
  have key_zero (x : BitVec 64) : tlbKey x 0#16 = x &&& ~~~0xFFF#64 := BitVec.or_zero
  have hkey := @tlbKey_eq_iff va va' 0#16 0#16
  rwa [key_zero, key_zero, BitVec.or_zero, BitVec.or_zero] at hkey

/-- A leaf is at least a page, so a page lies in one block. -/
theorem offset_samePage {va va' : BitVec 64} (h : SamePage va va') {k : Nat} (hk : LeafShift k) :
    (va' &&& (BitVec.twoPow 64 k - 1)) - (va &&& (BitVec.twoPow 64 k - 1)) = va' - va := by
  obtain ⟨hk12, hk30⟩ := shift_lt hk
  have hpage : 0xFFF#64 = BitVec.twoPow 64 12 - 1 := by decide
  unfold SamePage at h
  rw [hpage] at h
  exact (Align.sub_offset_eq_iff va va' _).mpr (Align.base_eq_of_le hk12 (by omega) h)

end CallLemmas

namespace CallLemmas

theorem region_eq_iff {r r' : MemoryRegion} :
    r = r' ↔ SameMapping r r' ∧ r.contiguous = r'.contiguous ∧ r.shareable = r'.shareable := by
  constructor
  · rintro rfl
    exact ⟨⟨rfl, rfl, rfl, rfl, rfl, rfl⟩, rfl, rfl⟩
  · rintro ⟨⟨hbase, hsize, htype, hap, huxn, hpxn⟩, hcontiguous, hshareable⟩
    cases r
    cases r'
    simp only [MemoryRegion.mk.injEq]
    exact ⟨hbase, hsize, htype, hap, huxn, hpxn, hcontiguous, hshareable⟩

end CallLemmas

/-- The hit path leaves `contiguous` and `shareable` to the caller. -/
theorem next_region_iff {H : Host} {h : List Event} {s : System} {t : Translation}
    (hr : Run H (.translated t :: h) s) (hmiss : t.hit = false) (hok : t.result.isSome)
    (mem : Memory) (fuel : Nat) (victim : BitVec 64) (r : MemoryRegion) :
    ∃ d, t.leaf = some d ∧
      ((translateWithAttributes H mem fuel victim t.va t.asid
          { mmu := s.mmu, region := r }).2.region = t.region ↔
        r.contiguous = false ∧ r.shareable = decide (d.sh ≠ 0)) := by
  obtain ⟨pa, hpa⟩ := Option.isSome_iff_exists.mp hok
  obtain ⟨_, _, e, -, he, hkeeps⟩ := call_spec hr hpa
  obtain ⟨s₀, -, hs⟩ := hr.last
  obtain ⟨-, d, k, hleaf, -, hregion⟩ := miss_spec hs hmiss hok
  refine ⟨d, hleaf, ?_⟩
  rw [translate_of_hit he, region_eq_iff]
  dsimp only
  rw [and_iff_right (hkeeps r), hregion]
  exact Iff.rfl

theorem next_region_iff_sample :
    ∃ d, sampleTranslation.leaf = some d ∧
      ((translateWithAttributes Host.masked sampleMemory 0 0 0x0001000000001234 0
          { mmu := sampleSystem.mmu, region := { shareable := true } }).2.region =
            sampleTranslation.region ↔
        ({ shareable := true } : MemoryRegion).contiguous = false ∧
          ({ shareable := true } : MemoryRegion).shareable = decide (d.sh ≠ 0)) :=
  next_region_iff sample_run rfl rfl sampleMemory 0 0 { shareable := true }

/-- The caller's `contiguous` flag survives the second call. -/
theorem stale_region :
    ¬ ∀ (H : Host) (h : List Event) (s : System) (t : Translation) (mem : Memory) (fuel : Nat)
      (victim : BitVec 64) (r : MemoryRegion), Run H (.translated t :: h) s → t.hit = false →
      t.result.isSome →
      (translateWithAttributes H mem fuel victim t.va t.asid
        { mmu := s.mmu, region := r }).2.region = t.region := by
  intro hall
  have hsame := hall Host.masked _ sampleSystem sampleTranslation sampleMemory 0 0
    { contiguous := true } sample_run rfl rfl
  have he : sampleSystem.mmu.hitEntry sampleTranslation.va sampleTranslation.asid =
      some sampleEntry := by
    decide
  rw [translate_of_hit he] at hsame
  cases congrArg MemoryRegion.contiguous hsame

end Acheron
