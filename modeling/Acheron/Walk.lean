import Acheron.MMUEmulator

/-!
# The table walk

What a walk can do, said once (`WalkOutcome`), and on what its result depends:
the table that it starts from, bits 47:12 of the address and nothing else.

Results:
1. `walkPageTables_outcome`: a walk that returns either faults, having counted
   one fault and written nothing, or ends in a leaf at one of the levels 0 to 3.
2. `walkPageTables_uniform`: two addresses that start from the same table and
   agree on bits 47:12 are translated by the same leaf.
3. `walkReturns_unique`: what a walk returns depends neither on the fuel nor on
   the caller's region.
-/

namespace Acheron

/-! ## 1. Outcomes -/

/-- The three sizes of a leaf, as powers of two. -/
def LeafShift (k : Nat) : Prop := k = 12 ∨ k = 21 ∨ k = 30

/-- What a walk for `va` can do, started on the emulator `m` with the caller's
region `r`. -/
inductive WalkOutcome (mem : Memory) (va : BitVec 64) (m : MMUEmulator) (r : MemoryRegion) :
    Call (Option (BitVec 64)) × Frame → Prop
  | running {f : Frame} : f.mmu = m → f.region = r → WalkOutcome mem va m r (.running, f)
  | fault {f : Frame} :
      f.mmu = m.countFault → f.region = r → WalkOutcome mem va m r (.returned none, f)
  | leaf {f : Frame} {level k : Nat} {addr : BitVec 64} :
      LeafShift k → leafSize level = some (BitVec.twoPow 64 k) →
      f.mmu = m → f.fetched.getLast? = some addr →
      f.region = leafRegion ⟨mem addr⟩ (BitVec.twoPow 64 k) →
      WalkOutcome mem va m r
        (.returned (some (f.region.baseAddress + (va &&& (f.region.size - 1)))), f)

namespace WalkLemmas

theorem leafSize_shift {level : Nat} {size : BitVec 64} (h : leafSize level = some size) :
    ∃ k, LeafShift k ∧ size = BitVec.twoPow 64 k := by
  match level with
  | 0 => cases h; exact ⟨30, by simp [LeafShift], by decide⟩
  | 1 => cases h; exact ⟨21, by simp [LeafShift], by decide⟩
  | 2 => cases h; exact ⟨21, by simp [LeafShift], by decide⟩
  | 3 => cases h; exact ⟨12, by simp [LeafShift], by decide⟩
  | _ + 4 => cases h

theorem leafSize_deep {level : Nat} (h : 4 ≤ level) : leafSize level = none := by
  match level, h with
  | _ + 4, _ => rfl

theorem leafSize_level {level : Nat} {size : BitVec 64} (h : leafSize level = some size) :
    level ≤ 3 := by
  rcases Nat.lt_or_ge level 4 with hl | hl
  · exact Nat.le_of_lt_succ hl
  · rw [leafSize_deep hl] at h
    cases h

end WalkLemmas

open WalkLemmas

/-- A walk from any level, whatever the fuel. The induction is on the fuel. -/
theorem walkLevel_outcome (H : Host) (mem : Memory) (va : BitVec 64) (fuel : Nat)
    (tableBase : BitVec 64) (level : Nat) (f : Frame) :
    WalkOutcome mem va f.mmu f.region (walkLevel H mem va fuel tableBase level f) := by
  induction fuel generalizing tableBase level f with
  | zero => exact .running rfl rfl
  | succ fuel ih =>
    unfold walkLevel
    dsimp only
    split
    · exact .fault rfl rfl
    · split
      · exact ih _ _ ((f.logShift _).logFetch _)
      · split
        · exact .fault rfl rfl
        · next size hsize =>
          obtain ⟨k, hk, rfl⟩ := leafSize_shift hsize
          exact .leaf (f := { (f.logShift _).logFetch _ with region := leafRegion _ _ })
            hk hsize rfl List.getLast?_concat rfl

/-- The table that the walk for `va` starts from, if any. -/
def MMUEmulator.walkBase (m : MMUEmulator) (H : Host) (va : BitVec 64) : Option (BitVec 64) :=
  (m.selectTtbr H va).map tableBase

/-- The first table depends on the registers only. -/
theorem MMUEmulator.walkBase_congr {m m' : MMUEmulator} (h0 : m.ttbr0 = m'.ttbr0)
    (h1 : m.ttbr1 = m'.ttbr1) (htcr : m.tcr = m'.tcr) (H : Host) (va : BitVec 64) :
    m.walkBase H va = m'.walkBase H va := by
  unfold walkBase selectTtbr vaInTtbr0 vaInTtbr1 getT0sz getT1sz
  rw [h0, h1, htcr]

/-- The logs and the counters when the walk for `va` has looked at the ranges. -/
def walkStart (H : Host) (va : BitVec 64) (m : MMUEmulator) (r : MemoryRegion) : Frame :=
  { mmu := m.countWalk
    region := r
    shifts := (64 - m.getT0sz.toNat) ::
      if m.vaInTtbr0 H va then [] else [64 - (m.getT1sz.toNat : Int)] }

theorem walkPageTables_eq (H : Host) (mem : Memory) (fuel : Nat) (va : BitVec 64)
    (m : MMUEmulator) (r : MemoryRegion) :
    walkPageTables H mem fuel va { mmu := m, region := r } =
      match m.walkBase H va with
      | none => (.returned none, (walkStart H va m r).countFault)
      | some tableBase => walkLevel H mem va fuel tableBase 0 (walkStart H va m r) := by
  unfold walkPageTables MMUEmulator.walkBase
  extract_lets f1 f2 f3
  have hstart : f3 = walkStart H va m r := by
    unfold f3 walkStart
    show (if m.vaInTtbr0 H va then f2 else _) = _
    split <;> rfl
  have hsel : (walkStart H va m r).mmu.selectTtbr H va = m.selectTtbr H va := rfl
  rw [hstart, hsel]
  cases m.selectTtbr H va with
  | none => rfl
  | some ttbr => rfl

/-- A walk from the TTBRs, up to its first table. It counts itself before
anything else. -/
theorem walkPageTables_start (H : Host) (va : BitVec 64) (m : MMUEmulator) (r : MemoryRegion) :
    ∃ f : Frame, f.fetched = [] ∧ f.region = r ∧ f.mmu = m.countWalk ∧ ∀ mem fuel,
      walkPageTables H mem fuel va { mmu := m, region := r } =
        match m.walkBase H va with
        | none => (.returned none, f.countFault)
        | some tableBase => walkLevel H mem va fuel tableBase 0 f :=
  ⟨walkStart H va m r, rfl, rfl, rfl, fun mem fuel => walkPageTables_eq H mem fuel va m r⟩

theorem walkPageTables_outcome (H : Host) (mem : Memory) (fuel : Nat) (va : BitVec 64)
    (m : MMUEmulator) (r : MemoryRegion) :
    WalkOutcome mem va m.countWalk r
      (walkPageTables H mem fuel va { mmu := m, region := r }) := by
  obtain ⟨f, -, hr, hm, heq⟩ := walkPageTables_start H va m r
  rw [heq, ← hr, ← hm]
  cases m.walkBase H va with
  | none => exact .fault rfl rfl
  | some tableBase => exact walkLevel_outcome H mem va fuel tableBase 0 f

/-! ## 2. Uniformity -/

/-- The addresses agree on bits 47:12, the bits that select descriptors at the
levels 0 to 3. -/
def SameIndices (va va' : BitVec 64) : Prop := va.extractLsb 47 12 = va'.extractLsb 47 12

namespace WalkLemmas

theorem sameIndices_iff {va va' : BitVec 64} :
    SameIndices va va' ↔ va.toNat / 2 ^ 12 % 2 ^ 36 = va'.toNat / 2 ^ 12 % 2 ^ 36 := by
  unfold SameIndices
  rw [← BitVec.toNat_inj, BitVec.extractLsb_toNat, BitVec.extractLsb_toNat,
    Nat.shiftRight_eq_div_pow, Nat.shiftRight_eq_div_pow]

theorem index_toNat (H : Host) (va : BitVec 64) {level : Nat} (h : level ≤ 3) :
    (H.shr va (39 - (level : Int) * 9) &&& 0x1FF).toNat =
      va.toNat / 2 ^ (39 - level * 9) % 2 ^ 9 := by
  have hr : 0 ≤ 39 - (level : Int) * 9 ∧ 39 - (level : Int) * 9 < 64 := by omega
  have hn : (39 - (level : Int) * 9).toNat = 39 - level * 9 := by omega
  unfold Host.shr
  rw [if_pos hr, hn, BitVec.toNat_and, BitVec.toNat_ushiftRight, Nat.shiftRight_eq_div_pow]
  exact Nat.and_two_pow_sub_one_eq_mod _ 9

/-- The levels 0 to 3 index with bits that equal addresses share, and shift by
amounts on which all hosts agree. -/
theorem index_congr (H H' : Host) {va va' : BitVec 64} (hs : SameIndices va va') {level : Nat}
    (h : level ≤ 3) :
    H.shr va (39 - (level : Int) * 9) &&& 0x1FF =
      H'.shr va' (39 - (level : Int) * 9) &&& 0x1FF := by
  apply BitVec.eq_of_toNat_eq
  rw [index_toNat H va h, index_toNat H' va' h]
  have hs' := sameIndices_iff.mp hs
  match level, h with
  | 0, _ => omega
  | 1, _ => omega
  | 2, _ => omega
  | 3, _ => omega

/-- A walk that has left the levels 0 to 3 cannot succeed any more. -/
theorem walkLevel_deep (H : Host) (mem : Memory) (va : BitVec 64) (fuel : Nat) {level : Nat}
    (hl : 4 ≤ level) (tableBase : BitVec 64) (f : Frame) (pa : BitVec 64) :
    (walkLevel H mem va fuel tableBase level f).1 ≠ .returned (some pa) := by
  induction fuel generalizing level tableBase f with
  | zero => exact nofun
  | succ fuel ih =>
    unfold walkLevel
    dsimp only
    split
    · exact nofun
    · split
      · exact ih (by omega) _ _
      · rw [leafSize_deep hl]
        exact nofun

end WalkLemmas

/-- Where the walk for `va` ends in a leaf, the walk for any address with the
same indices ends in the same leaf. The induction is on the fuel; it stays at
the levels 0 to 3, since a success cannot come from further down. -/
theorem walkLevel_uniform (H H' : Host) (mem : Memory) {va va' : BitVec 64}
    (hs : SameIndices va va') (fuel : Nat) (tableBase : BitVec 64) (level : Nat) (f f' : Frame)
    {pa : BitVec 64} {g : Frame}
    (h : walkLevel H mem va fuel tableBase level f = (.returned (some pa), g)) :
    ∃ g', walkLevel H' mem va' fuel tableBase level f' =
        (.returned (some (g.region.baseAddress + (va' &&& (g.region.size - 1)))), g') ∧
      g'.region = g.region := by
  induction fuel generalizing tableBase level f f' with
  | zero => cases h
  | succ fuel ih =>
    rcases Nat.lt_or_ge level 4 with hl | hl
    · unfold walkLevel at h ⊢
      dsimp only at h ⊢
      -- Both walks fetch the same descriptor, so they branch alike.
      rw [index_congr H H' hs (Nat.le_of_lt_succ hl)] at h
      split at h
      · cases h
      · next hv =>
        rw [if_neg hv]
        split at h
        · next ht =>
          rw [if_pos ht]
          exact ih _ _ _ _ h
        · next ht =>
          rw [if_neg ht]
          split at h
          · cases h
          · cases h
            exact ⟨_, rfl, rfl⟩
    · exact absurd (congrArg Prod.fst h) (walkLevel_deep H mem va _ hl _ _ _)

/-- The same from the TTBRs. -/
theorem walkPageTables_uniform {H : Host} {mem : Memory} {va va' : BitVec 64} {m m' : MMUEmulator}
    (hs : SameIndices va va') (hb : m.walkBase H va = m'.walkBase H va') {fuel : Nat}
    {r : MemoryRegion} (r' : MemoryRegion) {pa : BitVec 64} {g : Frame}
    (h : walkPageTables H mem fuel va { mmu := m, region := r } = (.returned (some pa), g)) :
    ∃ g', walkPageTables H mem fuel va' { mmu := m', region := r' } =
        (.returned (some (g.region.baseAddress + (va' &&& (g.region.size - 1)))), g') ∧
      g'.region = g.region := by
  obtain ⟨f, -, -, -, heq⟩ := walkPageTables_start H va m r
  obtain ⟨f', -, -, -, heq'⟩ := walkPageTables_start H va' m' r'
  rw [heq, hb] at h
  rw [heq']
  cases hbase : m'.walkBase H va' with
  | none => rw [hbase] at h; cases h
  | some tableBase =>
    rw [hbase] at h
    exact walkLevel_uniform H H mem hs fuel tableBase 0 f f' h

/-! ## 3. What a walk returns -/

namespace WalkLemmas

/-- More fuel does not change a walk that returns. -/
theorem walkLevel_mono (H : Host) (mem : Memory) (va : BitVec 64) {fuel fuel' : Nat}
    (hle : fuel ≤ fuel') (tableBase : BitVec 64) (level : Nat) (f : Frame)
    {r : Option (BitVec 64)} (h : (walkLevel H mem va fuel tableBase level f).1 = .returned r) :
    (walkLevel H mem va fuel' tableBase level f).1 = .returned r := by
  induction fuel generalizing fuel' tableBase level f with
  | zero => cases h
  | succ fuel ih =>
    obtain ⟨fuel', rfl⟩ : ∃ n, fuel' = n + 1 := ⟨fuel' - 1, by omega⟩
    unfold walkLevel at h ⊢
    dsimp only at h ⊢
    split at h
    · next hv => rw [if_pos hv]; exact h
    · next hv =>
      rw [if_neg hv]
      split at h
      · next ht =>
        rw [if_pos ht]
        exact ih (by omega) _ _ _ h
      · next ht => rw [if_neg ht]; exact h

/-- What a walk from a given table returns does not depend on its frame. -/
theorem walkLevel_result (H : Host) (mem : Memory) (va : BitVec 64) (fuel : Nat)
    (tableBase : BitVec 64) (level : Nat) (f f' : Frame) :
    (walkLevel H mem va fuel tableBase level f).1 =
      (walkLevel H mem va fuel tableBase level f').1 := by
  induction fuel generalizing tableBase level f f' with
  | zero => rfl
  | succ fuel ih =>
    unfold walkLevel
    dsimp only
    split
    · rfl
    · split
      · exact ih _ _ _ _
      · split <;> rfl

/-- Whatever their fuel, two walks from one table that return agree. -/
theorem walkLevel_unique {H : Host} {mem : Memory} {va : BitVec 64} {fuel fuel' : Nat}
    {tableBase : BitVec 64} {level : Nat} {f : Frame} {result result' : Option (BitVec 64)}
    (h : (walkLevel H mem va fuel tableBase level f).1 = .returned result)
    (h' : (walkLevel H mem va fuel' tableBase level f).1 = .returned result') :
    result = result' := by
  have hm := walkLevel_mono H mem va (Nat.le_max_left fuel fuel') tableBase level f h
  have hm' := walkLevel_mono H mem va (Nat.le_max_right fuel fuel') tableBase level f h'
  injection hm.symm.trans hm'

end WalkLemmas

/-- The uncached translation of `va` on the emulator `m` returns `result`. -/
def WalkReturns (H : Host) (mem : Memory) (m : MMUEmulator) (va : BitVec 64)
    (result : Option (BitVec 64)) : Prop :=
  ∃ fuel, (walkPageTables H mem fuel va { mmu := m, region := {} }).1 = .returned result

/-- The caller's region and whatever else the emulator holds do not matter. -/
theorem walkReturns_of_walk {H : Host} {mem : Memory} {va : BitVec 64} {m m' : MMUEmulator}
    (hb : m.walkBase H va = m'.walkBase H va) {fuel : Nat} {r : MemoryRegion}
    {result : Option (BitVec 64)}
    (h : (walkPageTables H mem fuel va { mmu := m, region := r }).1 = .returned result) :
    WalkReturns H mem m' va result := by
  obtain ⟨f, -, -, -, heq⟩ := walkPageTables_start H va m r
  obtain ⟨f', -, -, -, heq'⟩ := walkPageTables_start H va m' {}
  refine ⟨fuel, ?_⟩
  rw [heq, hb] at h
  rw [heq']
  cases hbase : m'.walkBase H va with
  | none => rw [hbase] at h; exact h
  | some tableBase =>
    rw [hbase] at h
    exact (walkLevel_result H mem va fuel tableBase 0 f' f).trans h

theorem walkReturns_unique {H : Host} {mem : Memory} {m : MMUEmulator} {va : BitVec 64}
    {result result' : Option (BitVec 64)} (h : WalkReturns H mem m va result)
    (h' : WalkReturns H mem m va result') : result = result' := by
  obtain ⟨fuel, h⟩ := h
  obtain ⟨fuel', h'⟩ := h'
  obtain ⟨f, -, -, -, heq⟩ := walkPageTables_start H va m {}
  rw [heq] at h h'
  cases hbase : m.walkBase H va with
  | none =>
    rw [hbase] at h h'
    injection h.symm.trans h'
  | some tableBase =>
    rw [hbase] at h h'
    exact walkLevel_unique h h'

end Acheron
