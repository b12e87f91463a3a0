import Acheron.Lib.Align

/-!
# Memory attributes, TLB entries and descriptors

The data types of `MMUEmulator.hpp`.
-/

namespace Acheron

/-- `MemoryType`. -/
inductive MemoryType
  | deviceNGnRnE
  | deviceNGnRE
  | deviceNGRE
  | deviceGRE
  | normal
  | normalNC
  | normalWB
  | normalWT
deriving DecidableEq, Repr

/-- The values of `AccessPermission`. The enumeration has six names for three
values, so that a permission does not tell whether it is about EL0 or EL1. -/
inductive AccessPermission
  | b00
  | b01
  | b10
deriving DecidableEq, Repr

namespace AccessPermission

def el0None : AccessPermission := b00
def el0Ro : AccessPermission := b01
def el0Rw : AccessPermission := b10
def el1None : AccessPermission := b00
def el1Ro : AccessPermission := b01
def el1Rw : AccessPermission := b10

end AccessPermission

/-- `MemoryRegion`. The defaults are those of the constructor. -/
structure MemoryRegion where
  baseAddress : BitVec 64 := 0
  size : BitVec 64 := 0
  type : MemoryType := .normal
  ap : AccessPermission := .el1Rw
  uxn : Bool := false
  pxn : Bool := false
  contiguous : Bool := false
  shareable : Bool := false
deriving DecidableEq, Repr

/-- `TLBEntry`. -/
structure TLBEntry where
  virtualAddress : BitVec 64 := 0
  physicalAddress : BitVec 64 := 0
  size : BitVec 64 := 0
  type : MemoryType := .normal
  ap : AccessPermission := .el1Rw
  uxn : Bool := false
  pxn : Bool := false
  asid : BitVec 16 := 0
  valid : Bool := false
deriving DecidableEq, Repr

/-- Whether the entry translates `va` for the address space `asidMatch`. -/
def TLBEntry.matches (e : TLBEntry) (va : BitVec 64) (asidMatch : BitVec 16) : Bool :=
  if !e.valid then false
  else if e.asid ≠ asidMatch ∧ e.asid ≠ 0xFFFF then false
  else
    let mask := ~~~(e.size - 1)
    e.virtualAddress &&& mask == va &&& mask

/-! ## Page table descriptors -/

/-- `PageTableDescriptor`: the `value` of the union. -/
structure PageTableDescriptor where
  value : BitVec 64
deriving DecidableEq, Repr

namespace PageTableDescriptor

/-- The declared widths of the stage 1 bit-fields, from `valid` to `reserved2`. -/
def stage1 : Layout := ⟨64, [1, 1, 2, 1, 3, 1, 3, 1, 36, 16]⟩

/-- The widths of the overlaid stage 2 bit-fields, from `reserved3` on. -/
def stage2 : Layout := ⟨64, [2, 2, 4, 3, 1, 36]⟩

def valid (d : PageTableDescriptor) : BitVec 1 := stage1.get 0 d.value
def table (d : PageTableDescriptor) : BitVec 1 := stage1.get 1 d.value
def sh (d : PageTableDescriptor) : BitVec 2 := stage1.get 2 d.value
def ap (d : PageTableDescriptor) : BitVec 3 := stage1.get 4 d.value
def attrIndex (d : PageTableDescriptor) : BitVec 3 := stage1.get 6 d.value
def outputAddr (d : PageTableDescriptor) : BitVec 36 := stage1.get 8 d.value
def s2OutputAddr (d : PageTableDescriptor) : BitVec 36 := stage2.get 5 d.value

def isValid (d : PageTableDescriptor) : Bool := d.valid == 1
def isTable (d : PageTableDescriptor) : Bool := d.table == 1

def getOutputAddress (d : PageTableDescriptor) : BitVec 64 :=
  d.outputAddr.setWidth 64 <<< 12

def setOutputAddress (d : PageTableDescriptor) (pa : BitVec 64) : PageTableDescriptor :=
  ⟨stage1.put 8 d.value (((pa >>> 12) &&& 0xFFFFFFFFF).setWidth _)⟩

/-- The widths put the output address one bit higher than the comments of the
source say: `ap` is declared with three bits for the two it documents. -/
theorem outputAddr_eq (d : PageTableDescriptor) : d.outputAddr = d.value.extractLsb' 13 36 := rfl

theorem getOutputAddress_toNat (d : PageTableDescriptor) :
    d.getOutputAddress.toNat = d.outputAddr.toNat * 2 ^ 12 := by
  have hlt : d.outputAddr.toNat < 2 ^ 36 := d.outputAddr.isLt
  unfold getOutputAddress
  rw [BitVec.toNat_shiftLeft, BitVec.toNat_setWidth_of_le (by omega), Nat.shiftLeft_eq]
  omega

end PageTableDescriptor

end Acheron
