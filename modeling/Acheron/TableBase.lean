import Acheron.TablePath

/-!
# The table that a walk starts from

Bits 47:12 of a TTBR are the address of the first table, bits 63:48 an ASID.
`walk_page_tables` clears bits 15:0 instead, so the ASID moves the table and
a table that is not aligned to 64 KB is not found.

Results:
1. `walkPageTables_sameView`: two emulators with the same first table walk
   alike, `walkPageTables_head`: the first fetch of a walk.
2. `ttbr_asid_iff`: the walk is that of the table in the TTBR exactly when the
   TTBR has none of the bits that the mask gets wrong.
-/

namespace Acheron

open PathLemmas WalkLemmas

/-! ## 1. What two walks share -/

/-- Two walks look the same from outside: they fetch the same descriptors,
return the same and leave the same in the caller's region. -/
structure SameView (w w' : Call (Option (BitVec 64)) × Frame) : Prop where
  fetched : w.2.fetched = w'.2.fetched
  result : w.1 = w'.1
  region : w.2.region = w'.2.region

namespace TableBaseLemmas

/-- A walk from a given table does not look at the emulator. The induction is
on the fuel. -/
theorem walkLevel_sameView (H : Host) (mem : Memory) (va : BitVec 64) (fuel : Nat)
    (tableBase : BitVec 64) (level : Nat) {f f' : Frame} (hf : f.fetched = f'.fetched)
    (hr : f.region = f'.region) :
    SameView (walkLevel H mem va fuel tableBase level f)
      (walkLevel H mem va fuel tableBase level f') := by
  induction fuel generalizing tableBase level f f' with
  | zero => exact ⟨hf, rfl, hr⟩
  | succ fuel ih =>
    have step (addr : BitVec 64) : f.fetched ++ [addr] = f'.fetched ++ [addr] := by rw [hf]
    unfold walkLevel
    dsimp only
    split
    · exact ⟨step _, rfl, hr⟩
    · split
      · exact ih _ _ (step _) hr
      · split
        · exact ⟨step _, rfl, hr⟩
        · exact ⟨step _, rfl, rfl⟩

/-- Level 0 is indexed with bits 47:39. -/
theorem index_zero (H : Host) (va : BitVec 64) :
    H.shr va (39 - ((0 : Nat) : Int) * 9) &&& 0x1FF = (va.extractLsb 47 39).setWidth 64 := by
  apply BitVec.eq_of_toNat_eq
  rw [index_toNat H va (Nat.zero_le 3), BitVec.toNat_setWidth_of_le (by decide),
    BitVec.extractLsb_toNat, Nat.shiftRight_eq_div_pow]

end TableBaseLemmas

open TableBaseLemmas

/-- The first descriptor of a walk that gets as far as fetching one. -/
theorem walkPageTables_head (H : Host) (mem : Memory) (fuel : Nat) (va : BitVec 64)
    (m : MMUEmulator) (r : MemoryRegion) :
    (walkPageTables H mem (fuel + 1) va { mmu := m, region := r }).2.fetched.head? =
      (m.walkBase H va).map (· + (va.extractLsb 47 39).setWidth 64 * 8) := by
  obtain ⟨f, hf, -, -, heq⟩ := walkPageTables_start H va m r
  rw [heq]
  cases m.walkBase H va with
  | none =>
    show f.fetched.head? = none
    rw [hf]
    rfl
  | some tableBase =>
    obtain ⟨n, h⟩ := walkLevel_fetched H mem va tableBase fuel f
    show (walkLevel H mem va (fuel + 1) tableBase 0 f).2.fetched.head? = _
    rw [h, hf, List.nil_append, List.range_succ_eq_map, List.map_cons, List.head?_cons, slotAt,
      tableAt, slotIn, index_zero]
    rfl

/-- Walks from the same table, or both from none, look the same. -/
theorem walkPageTables_sameView {H : Host} {va : BitVec 64} {m m' : MMUEmulator}
    (h : m.walkBase H va = m'.walkBase H va) (mem : Memory) (fuel : Nat) (r : MemoryRegion) :
    SameView (walkPageTables H mem fuel va { mmu := m, region := r })
      (walkPageTables H mem fuel va { mmu := m', region := r }) := by
  obtain ⟨f, hf, hr, -, heq⟩ := walkPageTables_start H va m r
  obtain ⟨f', hf', hr', -, heq'⟩ := walkPageTables_start H va m' r
  have hfetched := hf.trans hf'.symm
  have hregion := hr.trans hr'.symm
  rw [heq, heq', h]
  cases m'.walkBase H va with
  | none => exact ⟨hfetched, rfl, hregion⟩
  | some tableBase => exact walkLevel_sameView H mem va fuel tableBase 0 hfetched hregion

/-! ## 2. The table that the TTBR holds -/

/-- The registers differ at most in the ASID fields of the TTBRs. -/
structure SameTables (m m' : MMUEmulator) : Prop where
  tcr : m.tcr = m'.tcr
  ttbr0 : m.ttbr0.setWidth 48 = m'.ttbr0.setWidth 48
  ttbr1 : m.ttbr1.setWidth 48 = m'.ttbr1.setWidth 48

/-- The table base that a TTBR holds: bits 47:12. -/
def architecturalBase (ttbr : BitVec 64) : BitVec 64 := ttbr &&& 0x0000FFFFFFFFF000

/-- The walk for `va` looks the same for both register contents, and its first
fetch is in the table that the selected TTBR holds. -/
structure TtbrHonoured (H : Host) (mem : Memory) (m m' : MMUEmulator) (va : BitVec 64) : Prop where
  sameView : ∀ fuel r, SameView (walkPageTables H mem fuel va { mmu := m, region := r })
    (walkPageTables H mem fuel va { mmu := m', region := r })
  first : ∀ n ∈ [m, m'], ∀ fuel r,
    (walkPageTables H mem (fuel + 1) va { mmu := n, region := r }).2.fetched.head? =
      (n.selectTtbr H va).map fun t =>
        architecturalBase t + 8 * (va.extractLsb 47 39).setWidth 64

/-- The bits in which the mask of `tableBase` and that of the table address
differ: the ASID field, which it keeps, and bits 15:12, which it drops. -/
def ttbrSlip : BitVec 64 := 0xFFFF00000000F000

namespace TableBaseLemmas

theorem architecturalBase_congr {t t' : BitVec 64} (h : t.setWidth 48 = t'.setWidth 48) :
    architecturalBase t = architecturalBase t' := by
  show t &&& (0xFFFFFFFFF000#48).setWidth 64 = t' &&& (0xFFFFFFFFF000#48).setWidth 64
  rw [Align.and_setWidth, Align.and_setWidth, h]

theorem selectTtbr_sameTables {H : Host} {m m' : MMUEmulator} (h : SameTables m m')
    (va : BitVec 64) :
    (m.selectTtbr H va).map architecturalBase = (m'.selectTtbr H va).map architecturalBase := by
  unfold MMUEmulator.selectTtbr MMUEmulator.vaInTtbr0 MMUEmulator.vaInTtbr1
    MMUEmulator.getT0sz MMUEmulator.getT1sz
  rw [h.tcr]
  split
  · exact congrArg some (architecturalBase_congr h.ttbr0)
  · split
    · exact congrArg some (architecturalBase_congr h.ttbr1)
    · rfl

theorem tableBase_eq_iff (t : BitVec 64) :
    MMUEmulator.tableBase t = architecturalBase t ↔ t &&& ttbrSlip = 0 :=
  Align.and_eq_and_iff t _ _

end TableBaseLemmas

open TableBaseLemmas

/-- The ASID field stays out of the walk, and the table base is honoured,
exactly when the selected TTBR has none of the bits that the mask gets wrong. -/
theorem ttbr_asid_iff (H : Host) (mem : Memory) {m m' : MMUEmulator} (h : SameTables m m')
    (va : BitVec 64) :
    TtbrHonoured H mem m m' va ↔
      ∀ n ∈ [m, m'], ∀ t ∈ n.selectTtbr H va, t &&& ttbrSlip = 0 := by
  constructor
  · intro hon n hn t ht
    have hfirst := hon.first n hn 0 {}
    rw [walkPageTables_head, MMUEmulator.walkBase, ht, BitVec.mul_comm] at hfirst
    exact (tableBase_eq_iff t).mp (add_right_cancel (Option.some.inj hfirst))
  · intro hslip
    have hbase : ∀ n ∈ [m, m'], ∀ t ∈ n.selectTtbr H va,
        MMUEmulator.tableBase t = architecturalBase t :=
      fun n hn t ht => (tableBase_eq_iff t).mpr (hslip n hn t ht)
    refine ⟨walkPageTables_sameView ?_ mem, ?_⟩
    · calc (m.selectTtbr H va).map MMUEmulator.tableBase
          = (m.selectTtbr H va).map architecturalBase :=
            Option.map_congr (hbase m (by simp))
        _ = (m'.selectTtbr H va).map architecturalBase := selectTtbr_sameTables h va
        _ = (m'.selectTtbr H va).map MMUEmulator.tableBase :=
            (Option.map_congr (hbase m' (by simp))).symm
    · intro n hn fuel r
      rw [walkPageTables_head, MMUEmulator.walkBase, Option.map_map]
      refine Option.map_congr fun t ht => ?_
      rw [Function.comp_apply, hbase n hn t ht, BitVec.mul_comm]

/-- A 64 KB-aligned table without an ASID is honoured, whatever ASID the other
TTBR has. -/
theorem ttbr_asid_iff_aligned :
    TtbrHonoured Host.masked (fun _ => 1)
      { ttbr0 := 0x40080000, ttbr1 := 0x40090000, tcr := 0x100010 }
      { ttbr0 := 0x40080000, ttbr1 := 0x0007000040090000, tcr := 0x100010 } 0x8000123456 := by
  have same : SameTables { ttbr0 := 0x40080000, ttbr1 := 0x40090000, tcr := 0x100010 }
      { ttbr0 := 0x40080000, ttbr1 := 0x0007000040090000, tcr := 0x100010 } :=
    ⟨rfl, rfl, by decide⟩
  refine (ttbr_asid_iff Host.masked (fun _ => 1) same 0x8000123456).mpr fun n hn t ht => ?_
  have sel : ∀ n ∈ [({ ttbr0 := 0x40080000, ttbr1 := 0x40090000, tcr := 0x100010 } : MMUEmulator),
      { ttbr0 := 0x40080000, ttbr1 := 0x0007000040090000, tcr := 0x100010 }],
      n.selectTtbr Host.masked 0x8000123456 = some 0x40080000 := by decide
  rw [sel n hn] at ht
  cases ht
  decide

/-- ASID 1 in `TTBR0_EL1` moves the first fetch from `0x40080000` to
`0x0001000040080000`. -/
theorem ttbr_asid_selects_table :
    ¬ ∀ (H : Host) (mem : Memory) (m m' : MMUEmulator) (va : BitVec 64),
      SameTables m m' → TtbrHonoured H mem m m' va := by
  intro h
  have hon := h Host.masked (fun _ => 1) { ttbr0 := 0x40080000, tcr := 0x100010 }
    { ttbr0 := 0x0001000040080000, tcr := 0x100010 } 0 ⟨rfl, by decide, rfl⟩
  have hfetched := (hon.sameView 1 {}).fetched
  revert hfetched
  decide

end Acheron
