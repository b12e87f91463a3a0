import Acheron.Walk

/-!
# The path of a walk

A walk for `va` from the table `base` goes from descriptor to descriptor as
long as these are valid and have the table bit. Which descriptors these are
depends on the memory alone, so a walk can be said in terms of them
(`walkLevel_path`), for any fuel.

Results:
1. `walkLevel_path`: a walk follows the path to the first descriptor that does
   not lead on, and what it does there.
2. `boundedWalk_iff`: the walk is over after four levels exactly when one of
   the first four descriptors does not lead on.
3. `page_never_translates`: a page descriptor leads on like a table descriptor,
   so no 4 KB page is ever translated.
-/

namespace Acheron

/-! ## 1. The path -/

/-- The descriptor is a valid table descriptor, as the walk reads it. -/
def PageTableDescriptor.leadsOn (d : PageTableDescriptor) : Bool := d.isValid && d.isTable

/-- The address of the descriptor for `va` in a table of the given level. -/
def slotIn (H : Host) (va table : BitVec 64) (level : Nat) : BitVec 64 :=
  table + (H.shr va (39 - level * 9) &&& 0x1FF) * 8

/-- The table of each level, provided that the descriptors of all levels before
lead on. -/
def tableAt (H : Host) (mem : Memory) (va base : BitVec 64) : Nat → BitVec 64
  | 0 => base
  | level + 1 =>
    PageTableDescriptor.getOutputAddress ⟨mem (slotIn H va (tableAt H mem va base level) level)⟩

def slotAt (H : Host) (mem : Memory) (va base : BitVec 64) (level : Nat) : BitVec 64 :=
  slotIn H va (tableAt H mem va base level) level

def descriptorAt (H : Host) (mem : Memory) (va base : BitVec 64) (level : Nat) :
    PageTableDescriptor :=
  ⟨mem (slotAt H mem va base level)⟩

theorem tableAt_succ (H : Host) (mem : Memory) (va base : BitVec 64) (level : Nat) :
    tableAt H mem va base (level + 1) = (descriptorAt H mem va base level).getOutputAddress := rfl

theorem descriptorAt_congr {H : Host} {mem : Memory} {va va' base : BitVec 64} {level : Nat}
    (h : slotAt H mem va base level = slotAt H mem va' base level) :
    descriptorAt H mem va base level = descriptorAt H mem va' base level := by
  unfold descriptorAt
  rw [h]

/-- The first `n` descriptors of the path lead on. -/
def LeadsOn (H : Host) (mem : Memory) (va base : BitVec 64) (n : Nat) : Prop :=
  ∀ level < n, (descriptorAt H mem va base level).leadsOn = true

/-- The shift amounts of the first `n` levels. -/
def levelShifts (n : Nat) : List Int := (List.range n).map fun level : Nat => 39 - (level : Int) * 9

/-- The logs of a walk that has followed the path for `n` levels. -/
def Frame.follow (f : Frame) (H : Host) (mem : Memory) (va base : BitVec 64) (n : Nat) : Frame :=
  { f with
    fetched := f.fetched ++ (List.range n).map (slotAt H mem va base)
    shifts := f.shifts ++ levelShifts n }

/-- What the walk does at a descriptor of the given level that does not lead
on. -/
def walkEnd (va : BitVec 64) (d : PageTableDescriptor) (level : Nat) (f : Frame) :
    Call (Option (BitVec 64)) × Frame :=
  if d.isValid then
    match leafSize level with
    | none => (.returned none, f.countFault)
    | some size =>
      (.returned (some ((leafRegion d size).baseAddress + (va &&& (size - 1)))),
        { f with region := leafRegion d size })
  else (.returned none, f.countFault)

/-- The walk that was started in `f` ends at the descriptor of level `n`, the
first one that does not lead on, with the result `result` and in `g`. -/
structure StopsAt (H : Host) (mem : Memory) (va base : BitVec 64) (f : Frame) (n : Nat)
    (result : Option (BitVec 64)) (g : Frame) : Prop where
  before : LeadsOn H mem va base n
  stop : (descriptorAt H mem va base n).leadsOn = false
  fetched : g.fetched = f.fetched ++ (List.range (n + 1)).map (slotAt H mem va base)
  shifts : g.shifts = f.shifts ++ levelShifts (n + 1)
  ending : walkEnd va (descriptorAt H mem va base n) n (f.follow H mem va base (n + 1)) =
    (.returned result, g)

namespace PathLemmas

theorem follow_zero (f : Frame) (H : Host) (mem : Memory) (va base : BitVec 64) :
    f.follow H mem va base 0 = f := by
  unfold Frame.follow levelShifts
  rw [List.range_zero, List.map_nil, List.map_nil, List.append_nil, List.append_nil]

theorem follow_succ (f : Frame) (H : Host) (mem : Memory) (va base : BitVec 64) (n : Nat) :
    f.follow H mem va base (n + 1) =
      ((f.follow H mem va base n).logShift (39 - n * 9)).logFetch (slotAt H mem va base n) := by
  unfold Frame.follow Frame.logShift Frame.logFetch levelShifts
  dsimp only
  rw [List.range_succ, List.map_append, List.map_append, ← List.append_assoc, ← List.append_assoc]
  rfl

theorem walkLevel_leadsOn {H : Host} {mem : Memory} {va base : BitVec 64} {n : Nat}
    (h : (descriptorAt H mem va base n).leadsOn = true) (fuel : Nat) (f : Frame) :
    walkLevel H mem va (fuel + 1) (tableAt H mem va base n) n (f.follow H mem va base n) =
      walkLevel H mem va fuel (tableAt H mem va base (n + 1)) (n + 1)
        (f.follow H mem va base (n + 1)) := by
  obtain ⟨hvalid, htable⟩ := Bool.and_eq_true_iff.mp h
  rw [follow_succ]
  conv_lhs => unfold walkLevel
  dsimp only
  rw [if_neg (by rw [Bool.not_eq_true', Bool.not_eq_false]; exact hvalid)]
  exact if_pos htable

theorem walkLevel_ends {H : Host} {mem : Memory} {va base : BitVec 64} {n : Nat}
    (h : (descriptorAt H mem va base n).leadsOn = false) (fuel : Nat) (f : Frame) :
    walkLevel H mem va (fuel + 1) (tableAt H mem va base n) n (f.follow H mem va base n) =
      walkEnd va (descriptorAt H mem va base n) n (f.follow H mem va base (n + 1)) := by
  rw [follow_succ]
  unfold walkLevel walkEnd
  dsimp only
  cases hvalid : (descriptorAt H mem va base n).isValid with
  | false => exact if_pos (by rw [Bool.not_eq_true']; exact hvalid)
  | true =>
    unfold PageTableDescriptor.leadsOn at h
    rw [hvalid, Bool.true_and] at h
    refine (if_neg (by rw [Bool.not_eq_true', Bool.not_eq_false]; exact hvalid)).trans ?_
    refine (if_neg (by rw [Bool.not_eq_true]; exact h)).trans ?_
    cases leafSize n with
    | none => rfl
    | some size => rfl

theorem walkEnd_returns (va : BitVec 64) (d : PageTableDescriptor) (level : Nat) (f : Frame) :
    ∃ result g, walkEnd va d level f = (.returned result, g) ∧ g.fetched = f.fetched ∧
      g.shifts = f.shifts := by
  unfold walkEnd
  split
  · split
    · exact ⟨_, _, rfl, rfl, rfl⟩
    · exact ⟨_, _, rfl, rfl, rfl⟩
  · exact ⟨_, _, rfl, rfl, rfl⟩

theorem exists_first_end {H : Host} {mem : Memory} {va base : BitVec 64} {fuel : Nat}
    (h : ¬ LeadsOn H mem va base fuel) :
    ∃ n < fuel, LeadsOn H mem va base n ∧ (descriptorAt H mem va base n).leadsOn = false := by
  have stop : ∃ n, n < fuel ∧ (descriptorAt H mem va base n).leadsOn = false := by
    unfold LeadsOn at h
    push Not at h
    obtain ⟨n, hn, hd⟩ := h
    exact ⟨n, hn, Bool.eq_false_iff.mpr hd⟩
  obtain ⟨hn, hd⟩ := Nat.find_spec stop
  refine ⟨Nat.find stop, hn, fun level hl => ?_, hd⟩
  rcases Bool.eq_false_or_eq_true (descriptorAt H mem va base level).leadsOn with hon | hoff
  · exact hon
  · exact absurd ⟨hl.trans hn, hoff⟩ (Nat.find_min stop hl)

end PathLemmas

open PathLemmas

/-- A walk with fuel for more than `n` levels gets as far as level `n`, if the
descriptors before lead on. -/
theorem walkLevel_follow {H : Host} {mem : Memory} {va base : BitVec 64} {n : Nat}
    (h : LeadsOn H mem va base n) (fuel : Nat) (f : Frame) :
    walkLevel H mem va (n + fuel) base 0 f =
      walkLevel H mem va fuel (tableAt H mem va base n) n (f.follow H mem va base n) := by
  induction n generalizing fuel with
  | zero => rw [Nat.zero_add, follow_zero, tableAt]
  | succ n ih =>
    have hn : LeadsOn H mem va base n := fun level hl => h level (Nat.lt_succ_of_lt hl)
    rw [Nat.succ_add, ← Nat.add_succ, ih hn (fuel + 1)]
    exact walkLevel_leadsOn (h n (Nat.lt_succ_self n)) fuel f

/-- Either the fuel ends on the path, or the walk meets a descriptor that does
not lead on. -/
theorem walkLevel_path (H : Host) (mem : Memory) (va base : BitVec 64) (fuel : Nat) (f : Frame) :
    (LeadsOn H mem va base fuel ∧
      walkLevel H mem va fuel base 0 f = (.running, f.follow H mem va base fuel)) ∨
    ∃ n < fuel, ∃ result g, StopsAt H mem va base f n result g ∧
      walkLevel H mem va fuel base 0 f = (.returned result, g) := by
  by_cases hall : LeadsOn H mem va base fuel
  · exact .inl ⟨hall, walkLevel_follow hall 0 f⟩
  · right
    -- The first descriptor that does not lead on is where the walk stops.
    obtain ⟨n, hn, before, hd⟩ := exists_first_end hall
    obtain ⟨rest, rfl⟩ : ∃ rest, fuel = n + (rest + 1) := ⟨fuel - n - 1, by omega⟩
    obtain ⟨result, g, hend, hfetched, hshifts⟩ := walkEnd_returns va
      (descriptorAt H mem va base n) n (f.follow H mem va base (n + 1))
    refine ⟨n, hn, result, g, ⟨before, hd, hfetched, hshifts, hend⟩, ?_⟩
    rw [walkLevel_follow before (rest + 1) f, walkLevel_ends hd rest f, hend]

namespace PathLemmas

theorem stopsAt_of_returned {H : Host} {mem : Memory} {va base : BitVec 64} {fuel : Nat}
    {f g : Frame} {result : Option (BitVec 64)}
    (h : walkLevel H mem va fuel base 0 f = (.returned result, g)) :
    ∃ n, StopsAt H mem va base f n result g := by
  rcases walkLevel_path H mem va base fuel f with ⟨-, hrun⟩ | ⟨n, -, result', g', hstop, hw⟩
  · cases hrun.symm.trans h
  · cases hw.symm.trans h
    exact ⟨n, hstop⟩

/-- The fetches of a walk, returned or not, are slots of the path in order. -/
theorem walkLevel_fetched (H : Host) (mem : Memory) (va base : BitVec 64) (fuel : Nat) (f : Frame) :
    ∃ n, (walkLevel H mem va (fuel + 1) base 0 f).2.fetched =
      f.fetched ++ (List.range (n + 1)).map (slotAt H mem va base) := by
  rcases walkLevel_path H mem va base (fuel + 1) f with ⟨-, hrun⟩ | ⟨n, -, result, g, hstop, hw⟩
  · exact ⟨fuel, by rw [hrun]; rfl⟩
  · exact ⟨n, by rw [hw]; exact hstop.fetched⟩

end PathLemmas

/-! ## 2. Termination -/

/-- The walk for `va` from the table `base` returns, having fetched at most
four descriptors, at the levels 0 to 3. The log of the shifts has one entry for
each level entered. -/
def BoundedWalk (H : Host) (mem : Memory) (va base : BitVec 64) (m : MMUEmulator)
    (r : MemoryRegion) : Prop :=
  ∃ fuel result g,
    walkLevel H mem va fuel base 0 { mmu := m, region := r } = (.returned result, g) ∧
      g.fetched.length ≤ 4 ∧ ∀ shift ∈ g.shifts, ∃ level : Nat, level ≤ 3 ∧ shift = 39 - level * 9

namespace PathLemmas

theorem length_fetched {H : Host} {mem : Memory} {va base : BitVec 64} {m : MMUEmulator}
    {r : MemoryRegion} {n : Nat} {result : Option (BitVec 64)} {g : Frame}
    (h : StopsAt H mem va base { mmu := m, region := r } n result g) :
    g.fetched.length = n + 1 := by
  rw [h.fetched, List.nil_append, List.length_map, List.length_range]

theorem stops_of_boundedWalk {H : Host} {mem : Memory} {va base : BitVec 64} {m : MMUEmulator}
    {r : MemoryRegion} (h : BoundedWalk H mem va base m r) :
    ∃ level ≤ 3, (descriptorAt H mem va base level).leadsOn = false := by
  obtain ⟨fuel, result, g, hw, hlength, -⟩ := h
  obtain ⟨n, hstop⟩ := stopsAt_of_returned hw
  rw [length_fetched hstop] at hlength
  exact ⟨n, Nat.le_of_succ_le_succ hlength, hstop.stop⟩

end PathLemmas

/-- The recursion is on the descriptors alone: nothing else stops it. -/
theorem boundedWalk_iff (H : Host) (mem : Memory) (va base : BitVec 64) (m : MMUEmulator)
    (r : MemoryRegion) :
    BoundedWalk H mem va base m r ↔
      ∃ level ≤ 3, (descriptorAt H mem va base level).leadsOn = false := by
  refine ⟨stops_of_boundedWalk, ?_⟩
  rintro ⟨level, hlevel, hd⟩
  rcases walkLevel_path H mem va base (level + 1) { mmu := m, region := r } with
    ⟨hall, -⟩ | ⟨n, hn, result, g, hstop, hw⟩
  · cases (hall level (Nat.lt_succ_self level)).symm.trans hd
  · refine ⟨level + 1, result, g, hw, ?_, ?_⟩
    · rw [length_fetched hstop]
      omega
    · intro shift hshift
      rw [hstop.shifts, List.nil_append] at hshift
      obtain ⟨l, hl, rfl⟩ := List.mem_map.mp hshift
      have hlt := List.mem_range.mp hl
      exact ⟨l, by omega, rfl⟩

/-- A table whose entries are table descriptors for the table itself. -/
def selfTable : Memory := fun _ => 0x3

theorem selfTable_unbounded :
    ¬ ∀ (H : Host) (mem : Memory) (va base : BitVec 64) (m : MMUEmulator) (r : MemoryRegion),
      BoundedWalk H mem va base m r := by
  intro hall
  obtain ⟨level, -, hd⟩ := stops_of_boundedWalk (hall Host.masked selfTable 0 0 {} {})
  have hlead : PageTableDescriptor.leadsOn ⟨0x3⟩ = true := by decide
  cases hlead.symm.trans hd

/-! ## 3. Pages -/

/-- The descriptors that the walk fetches at the levels 0 to 3 have bits 1:0
set: three tables and a page. -/
def PagePath (H : Host) (mem : Memory) (va base : BitVec 64) : Prop :=
  ∀ level < 4, (descriptorAt H mem va base level).value.extractLsb 1 0 = 0b11

/-- The walk ends at the page descriptor and returns the address in its page. -/
def PageTranslates (H : Host) (mem : Memory) (va base : BitVec 64) (f : Frame) : Prop :=
  ∃ fuel g,
    walkLevel H mem va fuel base 0 f =
      (.returned (some ((descriptorAt H mem va base 3).getOutputAddress + (va &&& 0xFFF))), g) ∧
    g.region.size = 4096 ∧ g.fetched = f.fetched ++ (List.range 4).map (slotAt H mem va base)

theorem PageTableDescriptor.leadsOn_iff (d : PageTableDescriptor) :
    d.leadsOn = true ↔ d.value.extractLsb 1 0 = 0b11 := by
  have hvalid : d.valid = d.value.extractLsb' 0 1 := rfl
  have htable : d.table = d.value.extractLsb' 1 1 := rfl
  unfold leadsOn isValid isTable
  rw [Bool.and_eq_true, beq_iff_eq, beq_iff_eq, hvalid, htable, ← BitVec.toNat_inj,
    ← BitVec.toNat_inj, ← BitVec.toNat_inj, BitVec.extractLsb'_toNat, BitVec.extractLsb'_toNat,
    BitVec.extractLsb_toNat, Nat.shiftRight_eq_div_pow, Nat.shiftRight_eq_div_pow]
  show _ % 2 = 1 ∧ _ % 2 = 1 ↔ _ % 4 = 3
  omega

/-- Below level 3 there are no leaves. -/
theorem walkEnd_deep (va : BitVec 64) (d : PageTableDescriptor) {level : Nat} (h : 4 ≤ level)
    (f : Frame) : walkEnd va d level f = (.returned none, f.countFault) := by
  unfold walkEnd
  rw [WalkLemmas.leafSize_deep h]
  split <;> rfl

/-- The walk takes the page for a table and looks for a leaf behind it. -/
theorem page_never_translates {H : Host} {mem : Memory} {va base : BitVec 64}
    (h : PagePath H mem va base) (f : Frame) : ¬ PageTranslates H mem va base f := by
  rintro ⟨fuel, g, hw, -, -⟩
  obtain ⟨n, hstop⟩ := stopsAt_of_returned hw
  rcases Nat.lt_or_ge n 4 with hn | hn
  · cases ((PageTableDescriptor.leadsOn_iff _).mpr (h n hn)).symm.trans hstop.stop
  · cases (walkEnd_deep va _ hn _).symm.trans hstop.ending

/-- The page at `0x5000`, mapped at the address 0 by the tables at `0x1000` to
`0x4000`. -/
def pageTables : Memory := fun addr =>
  if addr = 0x1000 then 0x4003
  else if addr = 0x2000 then 0x6003
  else if addr = 0x3000 then 0x8003
  else if addr = 0x4000 then 0xA003
  else 0

theorem page_never_translates_sample :
    ¬ PageTranslates Host.masked pageTables 0 0x1000 { mmu := {}, region := {} } :=
  page_never_translates (fun level hl => by
    revert level
    decide) _

theorem page_faults :
    ¬ ∀ (H : Host) (mem : Memory) (va base : BitVec 64) (f : Frame), PagePath H mem va base →
      PageTranslates H mem va base f := by
  intro hall
  have hpath : PagePath Host.masked pageTables 0 0x1000 := by
    unfold PagePath
    decide
  obtain ⟨fuel, g, hw, -, -⟩ :=
    hall Host.masked pageTables 0 0x1000 { mmu := {}, region := {} } hpath
  have hfault : (walkLevel Host.masked pageTables 0 5 0x1000 0 { mmu := {}, region := {} }).1 =
      .returned none := by
    decide
  cases WalkLemmas.walkLevel_unique (congrArg Prod.fst hw) hfault

end Acheron
