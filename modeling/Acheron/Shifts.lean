import Acheron.AddressSplit
import Acheron.MMURuns
import Acheron.TablePath

/-!
# Undefined shifts

A translation shifts by 64 - T0SZ, by 64 - T1SZ and by 39 - 9 * level, and
checks none of these amounts. The registers are the guest's, and so are the
tables that decide how many levels the walk enters.

Results:
1. `register_eq`: a register holds the value that the run has given it last.
2. `levels_defined_iff`: the shifts of a walk are defined exactly when one of
   the first five descriptors does not lead on.
3. `shiftsDefined_iff`: when all shifts of a call are defined, in every
   reachable state.
-/

namespace Acheron

/-! ## 1. The registers of a run -/

/-- The registers of the emulator. -/
inductive MMURegister
  | ttbr0
  | ttbr1
  | tcr
deriving DecidableEq, Repr

def MMUEmulator.register (m : MMUEmulator) : MMURegister → BitVec 64
  | .ttbr0 => m.ttbr0
  | .ttbr1 => m.ttbr1
  | .tcr => m.tcr

/-- The value that the event gives to the register, if any. -/
def Event.sets : Event → MMURegister → Option (BitVec 64)
  | .operated (.setTtbr0 value), .ttbr0 => some value
  | .operated (.setTtbr1 value), .ttbr1 => some value
  | .operated (.setTcr value), .tcr => some value
  | _, _ => none

/-- The value that the run has given to the register last, or 0. -/
def lastSet (h : List Event) (reg : MMURegister) : BitVec 64 :=
  (History.latest Event.sets h reg).getD 0

/-- A new emulator, but with the registers that the run has set. -/
def configuredBy (h : List Event) : MMUEmulator :=
  { ttbr0 := lastSet h .ttbr0
    ttbr1 := lastSet h .ttbr1
    tcr := lastSet h .tcr }

namespace ShiftLemmas

theorem register_step {H : Host} {s s' : System} {ev : Event} (h : Step H s ev s')
    (reg : MMURegister) : s'.mmu.register reg = (ev.sets reg).getD (s.mmu.register reg) := by
  cases ev with
  | translated t =>
    obtain ⟨-, h0, h1, htcr⟩ := translated_registers h
    cases reg with
    | ttbr0 => exact h0
    | ttbr1 => exact h1
    | tcr => exact htcr
  | operated op =>
    cases h
    cases op <;> cases reg <;> rfl
  | memoryChanged =>
    cases h
    rfl

end ShiftLemmas

open ShiftLemmas

theorem register_eq {H : Host} {h : List Event} {s : System} (hr : Run H h s) (reg : MMURegister) :
    s.mmu.register reg = lastSet h reg :=
  hr.store_latest (fun s reg => s.mmu.register reg) Event.sets
    (fun s hs => by rw [hs]; cases reg <;> rfl) fun s ev s' hs => register_step hs reg

/-! ## 2. The levels -/

/-- The amounts that C++ defines the shift of a 64-bit word for. -/
def DefinedShift (n : Int) : Prop := 0 ≤ n ∧ n ≤ 63

namespace ShiftLemmas

theorem levelShifts_defined_iff (n : Nat) : (∀ x ∈ levelShifts n, DefinedShift x) ↔ n ≤ 5 := by
  constructor
  · intro h
    rcases Nat.lt_or_ge 5 n with hlt | hle
    · have hmem : (39 - ((5 : Nat) : Int) * 9) ∈ levelShifts n :=
        List.mem_map.mpr ⟨5, List.mem_range.mpr hlt, rfl⟩
      exact absurd (h _ hmem).1 (by decide)
    · exact hle
  · intro hn x hx
    obtain ⟨level, hlevel, rfl⟩ := List.mem_map.mp hx
    have hlt := List.mem_range.mp hlevel
    unfold DefinedShift
    omega

end ShiftLemmas

theorem levels_defined_iff (H : Host) (mem : Memory) (va base : BitVec 64) (f : Frame) :
    (∀ fuel, ∀ x ∈ (walkLevel H mem va fuel base 0 f).2.shifts, DefinedShift x) ↔
      (∀ x ∈ f.shifts, DefinedShift x) ∧
        ∃ level ≤ 4, (descriptorAt H mem va base level).leadsOn = false := by
  constructor
  · intro h
    refine ⟨h 0, ?_⟩
    have h6 := h 6
    rcases walkLevel_path H mem va base 6 f with ⟨-, hrun⟩ | ⟨n, -, result, g, hstop, hw⟩
    · rw [hrun, Frame.follow, List.forall_mem_append, levelShifts_defined_iff] at h6
      exact absurd h6.2 (by decide)
    · rw [hw, hstop.shifts, List.forall_mem_append, levelShifts_defined_iff] at h6
      exact ⟨n, Nat.le_of_succ_le_succ h6.2, hstop.stop⟩
  · rintro ⟨hstart, level, hlevel, hd⟩ fuel
    -- No walk gets beyond the descriptor at `level`.
    have bound {n : Nat} (hlead : LeadsOn H mem va base n) : n ≤ level := by
      rcases Nat.lt_or_ge level n with hlt | hge
      · cases (hlead level hlt).symm.trans hd
      · exact hge
    rcases walkLevel_path H mem va base fuel f with ⟨hall, hrun⟩ | ⟨n, -, result, g, hstop, hw⟩
    · rw [hrun, Frame.follow, List.forall_mem_append, levelShifts_defined_iff]
      exact ⟨hstart, (bound hall).trans (hlevel.trans (by decide))⟩
    · rw [hw, hstop.shifts, List.forall_mem_append, levelShifts_defined_iff]
      exact ⟨hstart, Nat.succ_le_succ ((bound hstop.before).trans hlevel)⟩

/-! ## 3. Calls -/

/-- Every shift that a call for `va` evaluates is defined. -/
def ShiftsDefined (H : Host) (s : System) (va : BitVec 64) (asid : BitVec 16) : Prop :=
  ∀ fuel victim r, ∀ x ∈ (translateWithAttributes H s.mem fuel victim va asid
    { mmu := s.mmu, region := r }).2.shifts, DefinedShift x

/-- What keeps the shifts of a walk for `va` in range: the registers give both
sizes that are looked at, and one of the first five descriptors ends the walk. -/
structure SafeWalk (H : Host) (mem : Memory) (m : MMUEmulator) (va : BitVec 64) : Prop where
  t0sz : m.getT0sz ≠ 0
  t1sz : m.vaInTtbr0 H va = true ∨ m.getT1sz ≠ 0
  path : ∀ base, m.walkBase H va = some base →
    ∃ level ≤ 4, (descriptorAt H mem va base level).leadsOn = false

namespace ShiftLemmas

theorem range_defined_iff {tsz : BitVec 8} (hlt : tsz.toNat < 64) :
    DefinedShift (64 - tsz.toNat) ↔ tsz ≠ 0 := by
  have hzero : tsz ≠ 0 ↔ tsz.toNat ≠ 0 := BitVec.toNat_ne
  unfold DefinedShift
  rw [hzero]
  omega

theorem start_defined_iff (H : Host) (va : BitVec 64) (m : MMUEmulator) (r : MemoryRegion) :
    (∀ x ∈ (walkStart H va m r).shifts, DefinedShift x) ↔
      m.getT0sz ≠ 0 ∧ (m.vaInTtbr0 H va = true ∨ m.getT1sz ≠ 0) := by
  have h0 := range_defined_iff (SplitLemmas.getT0sz_lt m)
  have h1 := range_defined_iff (SplitLemmas.getT1sz_lt m)
  unfold walkStart
  rw [List.forall_mem_cons, h0]
  cases m.vaInTtbr0 H va with
  | true => simp
  | false => simp [h1]

theorem safeWalk_iff (H : Host) (mem : Memory) (m : MMUEmulator) (va : BitVec 64)
    (r : MemoryRegion) :
    (∀ fuel, ∀ x ∈ (walkPageTables H mem fuel va { mmu := m, region := r }).2.shifts,
      DefinedShift x) ↔ SafeWalk H mem m va := by
  have hsplit : SafeWalk H mem m va ↔ (∀ x ∈ (walkStart H va m r).shifts, DefinedShift x) ∧
      ∀ base, m.walkBase H va = some base →
        ∃ level ≤ 4, (descriptorAt H mem va base level).leadsOn = false := by
    rw [start_defined_iff]
    exact ⟨fun h => ⟨⟨h.t0sz, h.t1sz⟩, h.path⟩, fun h => ⟨h.1.1, h.1.2, h.2⟩⟩
  simp only [hsplit, walkPageTables_eq]
  cases hbase : m.walkBase H va with
  | none => exact ⟨fun h => ⟨h 0, nofun⟩, fun h _ => h.1⟩
  | some base =>
    refine (levels_defined_iff H mem va base _).trans (and_congr_right fun _ => ?_)
    exact ⟨fun h base' hb => Option.some.inj hb ▸ h, fun h => h base rfl⟩

/-- A call that misses shifts like the walk. -/
theorem shifts_of_miss {m : MMUEmulator} {va : BitVec 64} {asid : BitVec 16}
    (hmiss : m.hitEntry va asid = none) (H : Host) (mem : Memory) (fuel : Nat)
    (victim : BitVec 64) (r : MemoryRegion) :
    (translateWithAttributes H mem fuel victim va asid { mmu := m, region := r }).2.shifts =
      (walkPageTables H mem fuel va { mmu := m.countMiss, region := r }).2.shifts := by
  unfold translateWithAttributes
  rw [hmiss]
  dsimp only
  split
  · next hw => rw [hw]
  · next hw => rw [hw]

/-- The walk looks at the registers only. -/
theorem safeWalk_congr {H : Host} {mem : Memory} {m m' : MMUEmulator} {va : BitVec 64}
    (h : ∀ reg, m.register reg = m'.register reg) :
    SafeWalk H mem m va ↔ SafeWalk H mem m' va := by
  have h0 : m.ttbr0 = m'.ttbr0 := h .ttbr0
  have h1 : m.ttbr1 = m'.ttbr1 := h .ttbr1
  have htcr : m.tcr = m'.tcr := h .tcr
  obtain ⟨_, _, _, _, _⟩ := m
  obtain ⟨_, _, _, _, _⟩ := m'
  cases h0
  cases h1
  cases htcr
  exact ⟨fun h => ⟨h.t0sz, h.t1sz, h.path⟩, fun h => ⟨h.t0sz, h.t1sz, h.path⟩⟩

end ShiftLemmas

theorem shiftsDefined_iff {H : Host} {h : List Event} {s : System} (hr : Run H h s)
    (va : BitVec 64) (asid : BitVec 16) :
    ShiftsDefined H s va asid ↔
      (s.mmu.hitEntry va asid).isSome ∨ SafeWalk H s.mem (configuredBy h) va := by
  have hregisters (reg : MMURegister) :
      (configuredBy h).register reg = s.mmu.countMiss.register reg := by
    cases reg with
    | ttbr0 => exact (register_eq hr .ttbr0).symm
    | ttbr1 => exact (register_eq hr .ttbr1).symm
    | tcr => exact (register_eq hr .tcr).symm
  unfold ShiftsDefined
  cases hentry : s.mmu.hitEntry va asid with
  | some e =>
    refine ⟨fun _ => .inl rfl, fun _ fuel victim r => ?_⟩
    rw [translate_of_hit hentry]
    exact nofun
  | none =>
    simp only [shifts_of_miss hentry, Option.isSome_none, Bool.false_eq_true, false_or,
      safeWalk_congr hregisters]
    constructor
    · intro hall
      exact (safeWalk_iff H s.mem s.mmu.countMiss va {}).mp fun fuel => hall fuel 0 {}
    · intro hsafe fuel _ r
      exact (safeWalk_iff H s.mem s.mmu.countMiss va r).mpr hsafe fuel

/-- Looking up the other half of the address space. -/
theorem shiftsDefined_iff_sample :
    ShiftsDefined Host.masked sampleSystem 0x1234 0 ↔
      (sampleSystem.mmu.hitEntry 0x1234 0).isSome ∨
        SafeWalk Host.masked sampleSystem.mem (configuredBy sampleHistory) 0x1234 :=
  shiftsDefined_iff sample_run 0x1234 0

/-- A new emulator has T0SZ = 0, and shifts by 64. -/
theorem first_shift_undefined :
    ¬ ∀ (H : Host) (h : List Event) (s : System), Run H h s →
      ∀ va asid, ShiftsDefined H s va asid := by
  intro hall
  have hnew : Run Host.masked [] ⟨sampleMemory, {}⟩ := .start rfl
  have hdefined := hall _ _ _ hnew 0 0 0 0 {} 64 (by decide)
  exact absurd hdefined.2 (by decide)

end Acheron
