import Acheron.PageTables
import Mathlib.Data.List.AList

/-!
# The MMU emulator

`MMUEmulator` of `MMUEmulator.cpp`: the table walk, the TLB in front of it and
the operations that invalidate it.

Three things the source leaves to its surroundings are parameters.

* `Memory`: the descriptor that `walk_level` stubs as the constant 0, as a
  function of the address it names, `table_base + index * 8`.
* `Host`: the value of a shift by an amount outside 0..63, which C++ leaves
  undefined. It is an arbitrary function of the operand and the amount.
* the victim of an eviction: `tlb_.begin()` of a hash map is some entry.

The walk recurses as long as the tables tell it to, so it takes a number of
levels it may enter (`fuel`) and says when that is not enough.
-/

namespace Acheron

/-! ## Surroundings -/

/-- The value of an undefined shift, for each direction. -/
structure Host where
  undefShl : BitVec 64 → Int → BitVec 64
  undefShr : BitVec 64 → Int → BitVec 64

namespace Host

def shl (H : Host) (x : BitVec 64) (n : Int) : BitVec 64 :=
  if 0 ≤ n ∧ n < 64 then x <<< n.toNat else H.undefShl x n

def shr (H : Host) (x : BitVec 64) (n : Int) : BitVec 64 :=
  if 0 ≤ n ∧ n < 64 then x >>> n.toNat else H.undefShr x n

/-- A host that takes shift amounts modulo 64. -/
def masked : Host where
  undefShl x n := x <<< (n % 64).toNat
  undefShr x n := x >>> (n % 64).toNat

end Host

/-- The descriptors, by address. -/
abbrev Memory := BitVec 64 → BitVec 64

/-- How far a call gets: it may still be running when its fuel is used up. -/
inductive Call (α : Type)
  | running
  | returned (result : α)
deriving DecidableEq, Repr

/-! ## State -/

/-- `MMUEmulator::Stats`. -/
structure Stats where
  tlbHits : BitVec 64 := 0
  tlbMisses : BitVec 64 := 0
  pageWalks : BitVec 64 := 0
  translationFaults : BitVec 64 := 0
deriving DecidableEq, Repr

/-- The TLB: a map from keys to entries. -/
abbrev Tlb := AList fun _ : BitVec 64 => TLBEntry

def tlbSize : Nat := 1024

structure MMUEmulator where
  tlb : Tlb := ∅
  ttbr0 : BitVec 64 := 0
  ttbr1 : BitVec 64 := 0
  tcr : BitVec 64 := 0
  stats : Stats := {}

namespace MMUEmulator

def countHit (m : MMUEmulator) : MMUEmulator :=
  { m with stats.tlbHits := m.stats.tlbHits + 1 }

def countMiss (m : MMUEmulator) : MMUEmulator :=
  { m with stats.tlbMisses := m.stats.tlbMisses + 1 }

def countWalk (m : MMUEmulator) : MMUEmulator :=
  { m with stats.pageWalks := m.stats.pageWalks + 1 }

def countFault (m : MMUEmulator) : MMUEmulator :=
  { m with stats.translationFaults := m.stats.translationFaults + 1 }

end MMUEmulator

/-- What a translation works on: the emulator and the caller's region. The two
lists are for the statements about a walk, the emulator does not keep them:
the addresses of the descriptors it has fetched and the shift amounts it has
evaluated, in the order of time. -/
structure Frame where
  mmu : MMUEmulator
  region : MemoryRegion
  fetched : List (BitVec 64) := []
  shifts : List Int := []

namespace Frame

def countFault (f : Frame) : Frame := { f with mmu := f.mmu.countFault }

def logFetch (f : Frame) (addr : BitVec 64) : Frame :=
  { f with fetched := f.fetched ++ [addr] }

def logShift (f : Frame) (n : Int) : Frame :=
  { f with shifts := f.shifts ++ [n] }

end Frame

/-! ## Attributes -/

def decodeMemoryType (attrIndex : BitVec 8) : MemoryType :=
  if attrIndex = 0x00 then .deviceNGnRnE
  else if attrIndex = 0x01 then .deviceNGnRE
  else if attrIndex = 0x04 then .normalNC
  else if attrIndex = 0x44 then .normalWB
  else .normal

def decodePermissions (apBits : BitVec 8) : AccessPermission :=
  if apBits = 0b000 then .el1Rw
  else if apBits = 0b001 then .el0Ro
  else if apBits = 0b010 then .el0Rw
  else if apBits = 0b100 then .el1None
  else if apBits = 0b101 then .el1Ro
  else if apBits = 0b110 then .el1Rw
  else .el1Rw

/-- The size that the `switch` of `walk_level` assigns to a leaf, by its level. -/
def leafSize : Nat → Option (BitVec 64)
  | 0 => some (1024 * 1024 * 1024)
  | 1 => some (2 * 1024 * 1024)
  | 2 => some (2 * 1024 * 1024)
  | 3 => some 4096
  | _ => none

/-- The region that a leaf descriptor of the given size describes. The walk
writes all eight fields. -/
def leafRegion (desc : PageTableDescriptor) (size : BitVec 64) : MemoryRegion :=
  { baseAddress := desc.getOutputAddress &&& ~~~(size - 1)
    size := size
    type := decodeMemoryType (desc.attrIndex.setWidth 8)
    ap := decodePermissions (desc.ap.setWidth 8)
    uxn := false
    pxn := false
    contiguous := false
    shareable := desc.sh ≠ 0 }

/-! ## The walk -/

/-- `walk_level`. The result is the optional physical address. -/
def walkLevel (H : Host) (mem : Memory) (va : BitVec 64) :
    Nat → BitVec 64 → Nat → Frame → Call (Option (BitVec 64)) × Frame
  | 0, _, _, f => (.running, f)
  | fuel + 1, tableBase, level, f =>
    let shift : Int := 39 - level * 9
    let index := H.shr va shift &&& 0x1FF
    let addr := tableBase + index * 8
    let desc : PageTableDescriptor := ⟨mem addr⟩
    let f := (f.logShift shift).logFetch addr
    if !desc.isValid then (.returned none, f.countFault)
    else if desc.isTable then walkLevel H mem va fuel desc.getOutputAddress (level + 1) f
    else
      match leafSize level with
      | none => (.returned none, f.countFault)
      | some size =>
        let region := leafRegion desc size
        (.returned (some (region.baseAddress + (va &&& (size - 1)))), { f with region := region })

namespace MMUEmulator

def getT0sz (m : MMUEmulator) : BitVec 8 := (m.tcr &&& 0x3F).setWidth 8

def getT1sz (m : MMUEmulator) : BitVec 8 := ((m.tcr >>> 16) &&& 0x3F).setWidth 8

def vaInTtbr0 (m : MMUEmulator) (H : Host) (va : BitVec 64) : Bool :=
  va < H.shl 1 (64 - m.getT0sz.toNat)

def vaInTtbr1 (m : MMUEmulator) (H : Host) (va : BitVec 64) : Bool :=
  va ≥ H.shl 1 (64 - m.getT1sz.toNat)

/-- The value of the TTBR that `walk_page_tables` selects for `va`, if any. -/
def selectTtbr (m : MMUEmulator) (H : Host) (va : BitVec 64) : Option (BitVec 64) :=
  if m.vaInTtbr0 H va then some m.ttbr0
  else if m.vaInTtbr1 H va then some m.ttbr1
  else none

/-- The mask that is meant to clear the ASID and the reserved bits of a TTBR. -/
def tableBase (ttbr : BitVec 64) : BitVec 64 := ttbr &&& 0xFFFFFFFFFFFF0000

end MMUEmulator

/-- `walk_page_tables`. The second range test is only evaluated when the first
one fails. -/
def walkPageTables (H : Host) (mem : Memory) (fuel : Nat) (va : BitVec 64) (f : Frame) :
    Call (Option (BitVec 64)) × Frame :=
  let f := { f with mmu := f.mmu.countWalk }
  let f := f.logShift (64 - f.mmu.getT0sz.toNat)
  let f := if f.mmu.vaInTtbr0 H va then f else f.logShift (64 - f.mmu.getT1sz.toNat)
  match f.mmu.selectTtbr H va with
  | none => (.returned none, f.countFault)
  | some ttbr => walkLevel H mem va fuel (MMUEmulator.tableBase ttbr) 0 f

/-! ## The TLB -/

/-- The key that the TLB files a page of an address space under. -/
def tlbKey (va : BitVec 64) (asid : BitVec 16) : BitVec 64 :=
  (va &&& ~~~0xFFF#64) ||| (asid.setWidth 64 <<< 48)

/-- The entry that the miss path builds from the region of the walk. -/
def newEntry (va : BitVec 64) (asid : BitVec 16) (region : MemoryRegion) : TLBEntry :=
  { virtualAddress := va &&& ~~~(region.size - 1)
    physicalAddress := region.baseAddress &&& ~~~(region.size - 1)
    size := region.size
    type := region.type
    ap := region.ap
    uxn := region.uxn
    pxn := region.pxn
    asid := asid
    valid := true }

/-- The fields of the region that the hit path copies out of an entry. -/
def TLBEntry.copyOut (e : TLBEntry) (region : MemoryRegion) : MemoryRegion :=
  { region with
    baseAddress := e.physicalAddress
    size := e.size
    type := e.type
    ap := e.ap
    uxn := e.uxn
    pxn := e.pxn }

namespace MMUEmulator

/-- The entry that a translation finds on its hit path. -/
def hitEntry (m : MMUEmulator) (va : BitVec 64) (asid : BitVec 16) : Option TLBEntry :=
  (m.tlb.lookup (tlbKey va asid)).filter (·.valid)

/-- Store an entry, evicting the victim first if the TLB is full. -/
def fill (m : MMUEmulator) (victim key : BitVec 64) (entry : TLBEntry) : MMUEmulator :=
  let tlb := if m.tlb.entries.length ≥ tlbSize then m.tlb.erase victim else m.tlb
  { m with tlb := tlb.insert key entry }

end MMUEmulator

/-- `translate_with_attributes`. -/
def translateWithAttributes (H : Host) (mem : Memory) (fuel : Nat) (victim va : BitVec 64)
    (asid : BitVec 16) (f : Frame) : Call (Option (BitVec 64)) × Frame :=
  match f.mmu.hitEntry va asid with
  | some entry =>
    (.returned (some (entry.physicalAddress + (va &&& (entry.size - 1)))),
      { f with mmu := f.mmu.countHit, region := entry.copyOut f.region })
  | none =>
    match walkPageTables H mem fuel va { f with mmu := f.mmu.countMiss } with
    | (.returned (some pa), f) =>
      let entry := newEntry va asid f.region
      (.returned (some pa), { f with mmu := f.mmu.fill victim (tlbKey va asid) entry })
    | (result, f) => (result, f)

/-- `translate`: the region is the callee's own. -/
def translate (H : Host) (mem : Memory) (fuel : Nat) (victim va : BitVec 64) (asid : BitVec 16)
    (m : MMUEmulator) : Call (Option (BitVec 64)) × MMUEmulator :=
  let (result, f) := translateWithAttributes H mem fuel victim va asid { mmu := m, region := {} }
  (result, f.mmu)

/-! ## Invalidation and configuration -/

/-- The map without the entries that satisfy `p`, as left by the erasing loop. -/
def Tlb.eraseIf (tlb : Tlb) (p : TLBEntry → Bool) : Tlb :=
  ⟨tlb.entries.filter fun s => !p s.2, tlb.nodupKeys.sublist List.filter_sublist⟩

namespace MMUEmulator

def tlbInvalidateVa (m : MMUEmulator) (va : BitVec 64) (asid : BitVec 16) : MMUEmulator :=
  { m with tlb := m.tlb.erase (tlbKey va asid) }

def tlbInvalidateAsid (m : MMUEmulator) (asid : BitVec 16) : MMUEmulator :=
  { m with tlb := m.tlb.eraseIf fun e => (e.asid == asid || asid == 0xFFFF) && e.valid }

def tlbInvalidateAll (m : MMUEmulator) : MMUEmulator := { m with tlb := ∅ }

def setTtbr0 (m : MMUEmulator) (ttbr0 : BitVec 64) : MMUEmulator :=
  { m with ttbr0 := ttbr0 }.tlbInvalidateAll

def setTtbr1 (m : MMUEmulator) (ttbr1 : BitVec 64) : MMUEmulator :=
  { m with ttbr1 := ttbr1 }.tlbInvalidateAll

def setTcr (m : MMUEmulator) (tcr : BitVec 64) : MMUEmulator :=
  { m with tcr := tcr }.tlbInvalidateAll

/-- Bit 0 of `SCTLR_EL1` is its field `M`. -/
def isMmuEnabled (_ : MMUEmulator) (sctlr : BitVec 64) : Bool := sctlr.extractLsb' 0 1 == 1

def getStats (m : MMUEmulator) : Stats := m.stats

def resetStats (m : MMUEmulator) : MMUEmulator := { m with stats := {} }

end MMUEmulator

end Acheron
