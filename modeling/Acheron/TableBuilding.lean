import Acheron.AddressFields
import Acheron.LeafPath
import Acheron.Lib.BitFields

/-!
# Tables built with the setters

The walk reads descriptors, and a client writes them: by assigning the
bit-fields and by `set_output_address`. The misplaced output address does not
show, since both sides use it, and a leaf is translated with the attributes that
were assigned and the size of its level.

Results:
1. `leafAt_of_mapsTo`: tables that were built for a leaf are walked to that leaf.
2. `built_tables_translate`: what a call returns on them.
-/

namespace Acheron

open FieldLemmas LeafPathLemmas PathLemmas TransparencyLemmas WalkLemmas

/-! ## 1. Building a descriptor -/

/-- A new descriptor, after assignments to the nine bit-fields of its `value`
and a call of `set_output_address`. -/
def builtDescriptor (stores : List (Fin 9 × Nat)) (pa : BitVec 64) : PageTableDescriptor :=
  PageTableDescriptor.setOutputAddress ⟨PageTableDescriptor.stage1.putAll 0#64 stores⟩ pa

/-- Made valid and pointed to the table at `next`. -/
def tableDescriptor (next : BitVec 64) : PageTableDescriptor :=
  builtDescriptor [(0, 1), (1, 1)] next

/-- The attributes that the walk reads off a leaf. -/
structure LeafAttributes where
  sh : BitVec 2
  ap : BitVec 3
  attrIndex : BitVec 3
deriving DecidableEq, Repr

/-- Made valid and a leaf for `pa`. -/
def leafDescriptor (a : LeafAttributes) (pa : BitVec 64) : PageTableDescriptor :=
  builtDescriptor [(0, 1), (2, a.sh.toNat), (4, a.ap.toNat), (6, a.attrIndex.toNat)] pa

namespace BuildingLemmas

theorem stage1_disjoint : PageTableDescriptor.stage1.Disjoint 9 64 := by decide

/-- A field other than the address holds what it was assigned last, or 0. -/
theorem toNat_get_built (stores : List (Fin 9 × Nat)) (pa : BitVec 64) {j : Fin 9} (hj : j ≠ 8) :
    (PageTableDescriptor.stage1.get j (builtDescriptor stores pa).value).toNat =
      (History.latest PageTableDescriptor.stage1.stored stores.reverse j).getD 0 := by
  have hne : ((8 : Fin 9) : Nat) ≠ j := fun h => hj (Fin.ext h.symm)
  have hzero : (PageTableDescriptor.stage1.get j (0#64)).toNat = 0 := by
    unfold Layout.get
    rw [BitVec.extractLsb'_toNat]
    exact (Nat.zero_shiftRight _).symm ▸ Nat.zero_mod _
  unfold builtDescriptor PageTableDescriptor.setOutputAddress
  rw [Layout.get_put_of_apart ((stage1_disjoint 8 (by decide)).2 j j.isLt hne)
    (stage1_disjoint j j.isLt).1, Layout.toNat_get_putAll stage1_disjoint, hzero]

theorem leadsOn_tableDescriptor (next : BitVec 64) : (tableDescriptor next).leadsOn = true := by
  have hvalid : (tableDescriptor next).valid = 1#1 :=
    BitVec.eq_of_toNat_eq (toNat_get_built [(0, 1), (1, 1)] next (j := 0) (by decide))
  have htable : (tableDescriptor next).table = 1#1 :=
    BitVec.eq_of_toNat_eq (toNat_get_built [(0, 1), (1, 1)] next (j := 1) (by decide))
  unfold PageTableDescriptor.leadsOn PageTableDescriptor.isValid PageTableDescriptor.isTable
  rw [hvalid, htable]
  rfl

/-- What the walk reads off a leaf that was built. -/
structure ReadsAs (d : PageTableDescriptor) (a : LeafAttributes) (pa : BitVec 64) : Prop where
  valid : d.isValid = true
  table : d.isTable = false
  sh : d.sh = a.sh
  ap : d.ap = a.ap
  attrIndex : d.attrIndex = a.attrIndex
  address : d.getOutputAddress = pa &&& 0x0000FFFFFFFFF000

theorem readsAs_leafDescriptor (a : LeafAttributes) (pa : BitVec 64) :
    ReadsAs (leafDescriptor a pa) a pa := by
  have field {j : Fin 9} (hj : j ≠ 8) := toNat_get_built
    [(0, 1), (2, a.sh.toNat), (4, a.ap.toNat), (6, a.attrIndex.toNat)] pa hj
  have hvalid : (leafDescriptor a pa).valid = 1#1 :=
    BitVec.eq_of_toNat_eq (field (j := 0) (by decide))
  have htable : (leafDescriptor a pa).table = 0#1 :=
    BitVec.eq_of_toNat_eq (field (j := 1) (by decide))
  refine ⟨?_, ?_, ?_, ?_, ?_, getOutputAddress_setOutputAddress _ pa⟩
  · unfold PageTableDescriptor.isValid
    rw [hvalid]
    rfl
  · unfold PageTableDescriptor.isTable
    rw [htable]
    rfl
  · exact BitVec.eq_of_toNat_eq
      ((field (j := 2) (by decide)).trans (Nat.mod_eq_of_lt a.sh.isLt))
  · exact BitVec.eq_of_toNat_eq
      ((field (j := 4) (by decide)).trans (Nat.mod_eq_of_lt a.ap.isLt))
  · exact BitVec.eq_of_toNat_eq
      ((field (j := 6) (by decide)).trans (Nat.mod_eq_of_lt a.attrIndex.isLt))

end BuildingLemmas

open BuildingLemmas

/-! ## 2. Building a path -/

/-- The memory holds what a client builds to map `va` to `pa` by a leaf at level
`n`: the tables of the levels 0 to `n`, each of the others 4 KB-aligned and
within 48 bits. -/
structure MapsTo (H : Host) (mem : Memory) (va : BitVec 64) (tables : Nat → BitVec 64) (n : Nat)
    (a : LeafAttributes) (pa : BitVec 64) : Prop where
  aligned : ∀ level < n, tables (level + 1) &&& 0x0000FFFFFFFFF000 = tables (level + 1)
  table : ∀ level < n,
    mem (slotIn H va (tables level) level) = (tableDescriptor (tables (level + 1))).value
  leaf : mem (slotIn H va (tables n) n) = (leafDescriptor a pa).value

/-- The region that such a leaf stands for. -/
def builtRegion (a : LeafAttributes) (pa size : BitVec 64) : MemoryRegion :=
  { baseAddress := pa &&& 0x0000FFFFFFFFF000 &&& ~~~(size - 1)
    size := size
    type := decodeMemoryType (a.attrIndex.setWidth 8)
    ap := decodePermissions (a.ap.setWidth 8)
    shareable := a.sh ≠ 0 }

namespace BuildingLemmas

theorem tableAt_of_mapsTo {H : Host} {mem : Memory} {va pa : BitVec 64} {tables : Nat → BitVec 64}
    {n : Nat} {a : LeafAttributes} (h : MapsTo H mem va tables n a pa) {level : Nat}
    (hl : level ≤ n) : tableAt H mem va (tables 0) level = tables level := by
  induction level with
  | zero => rfl
  | succ level ih =>
    unfold tableAt
    rw [ih (Nat.le_of_succ_le hl), h.table level hl]
    exact (getOutputAddress_setOutputAddress _ _).trans (h.aligned level hl)

theorem descriptorAt_of_mapsTo {H : Host} {mem : Memory} {va pa : BitVec 64}
    {tables : Nat → BitVec 64} {n : Nat} {a : LeafAttributes} (h : MapsTo H mem va tables n a pa)
    {level : Nat} (hl : level ≤ n) :
    descriptorAt H mem va (tables 0) level = ⟨mem (slotIn H va (tables level) level)⟩ := by
  unfold descriptorAt slotAt
  rw [tableAt_of_mapsTo h hl]

end BuildingLemmas

theorem leafAt_of_mapsTo {H : Host} {mem : Memory} {va pa : BitVec 64} {tables : Nat → BitVec 64}
    {n : Nat} {a : LeafAttributes} (h : MapsTo H mem va tables n a pa) {size : BitVec 64}
    (hsize : leafSize n = some size) :
    LeafAt H mem va (tables 0) n size ∧
      regionAt H mem va (tables 0) n size = builtRegion a pa size := by
  have hlast : descriptorAt H mem va (tables 0) n = leafDescriptor a pa := by
    rw [descriptorAt_of_mapsTo h (Nat.le_refl n), h.leaf]
  obtain ⟨hvalid, htable, hsh, hap, hattr, haddress⟩ := readsAs_leafDescriptor a pa
  refine ⟨⟨fun level hl => ?_, ?_, ?_, hsize⟩, ?_⟩
  · rw [descriptorAt_of_mapsTo h hl.le, h.table level hl]
    exact leadsOn_tableDescriptor _
  · rw [hlast]
    exact hvalid
  · rw [hlast]
    exact htable
  · unfold regionAt leafRegion builtRegion
    rw [hlast, haddress, hsh, hap, hattr]

/-- The answer of a call for `va`, and the region that it leaves. -/
structure Answers (c : Call (Option (BitVec 64)) × Frame) (va : BitVec 64)
    (region : MemoryRegion) : Prop where
  result : c.1 = .returned (some (region.baseAddress + (va &&& (region.size - 1))))
  region : c.2.region = region

namespace BuildingLemmas

/-- A call that has to walk answers with the leaf at the end of its path. -/
theorem answers_of_leafAt {H : Host} {mem : Memory} {m : MMUEmulator} {va base : BitVec 64}
    {asid : BitVec 16} {n : Nat} {size : BitVec 64} (hleaf : LeafAt H mem va base n size)
    (hbase : m.walkBase H va = some base) (hmiss : m.hitEntry va asid = none) {fuel : Nat}
    (hfuel : n < fuel) (victim : BitVec 64) (r : MemoryRegion) :
    Answers (translateWithAttributes H mem fuel victim va asid { mmu := m, region := r }) va
      (regionAt H mem va base n size) := by
  obtain ⟨extra, rfl⟩ : ∃ extra, fuel = n + (extra + 1) := ⟨fuel - n - 1, by omega⟩
  have hwalk := walkLevel_leafAt hleaf extra (walkStart H va m.countMiss r)
  have hbase' : m.countMiss.walkBase H va = some base := hbase
  have hcall := walkPageTables_eq H mem (n + (extra + 1)) va m.countMiss r
  rw [hbase'] at hcall
  unfold translateWithAttributes
  rw [hmiss]
  dsimp only
  rw [hcall.trans hwalk]
  exact ⟨rfl, rfl⟩

end BuildingLemmas

/-- A call that does not find its page in the TLB, on an emulator in whatever
state, returns with enough fuel, and then it has translated by the leaf that
was built. -/
theorem built_tables_translate {H : Host} {mem : Memory} {m : MMUEmulator} {va pa : BitVec 64}
    {asid : BitVec 16} {tables : Nat → BitVec 64} {n : Nat} {a : LeafAttributes}
    (h : MapsTo H mem va tables n a pa) {size : BitVec 64} (hsize : leafSize n = some size)
    (hbase : m.walkBase H va = some (tables 0)) (hmiss : m.hitEntry va asid = none)
    {fuel : Nat} (hfuel : n < fuel) (victim : BitVec 64) (r : MemoryRegion) :
    Answers (translateWithAttributes H mem fuel victim va asid { mmu := m, region := r }) va
      (builtRegion a pa size) := by
  obtain ⟨hleaf, hregion⟩ := leafAt_of_mapsTo h hsize
  rw [← hregion]
  exact answers_of_leafAt hleaf hbase hmiss hfuel victim r

/-- A 2 MB block that EL0 may read, for the third 2 MB of the lower range. -/
def builtTables : Memory := fun addr =>
  if addr = 0x10000 then (tableDescriptor 0x2000).value
  else if addr = 0x2000 then (tableDescriptor 0x3000).value
  else if addr = 0x3010 then (leafDescriptor ⟨3, 1, 4⟩ 0x80600000).value
  else 0

/-- The tables of its path. -/
def builtPath (level : Nat) : BitVec 64 := [0x10000, 0x2000, 0x3000].getD level 0

theorem built_tables_translate_sample :
    Answers (translateWithAttributes Host.masked builtTables 3 0 0x401234 7
      { mmu := (({} : MMUEmulator).setTcr 0x100010).setTtbr0 0x10000, region := {} }) 0x401234
      (builtRegion ⟨3, 1, 4⟩ 0x80600000 (2 * 1024 * 1024)) := by
  have hmaps : MapsTo Host.masked builtTables 0x401234 builtPath 2 ⟨3, 1, 4⟩ 0x80600000 := by
    refine ⟨?_, ?_, by decide⟩
    · decide
    · decide
  exact built_tables_translate hmaps rfl (by decide) rfl (by decide) 0 {}

end Acheron
