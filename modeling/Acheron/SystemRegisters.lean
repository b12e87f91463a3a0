import Acheron.Decoder
import Mathlib.Data.List.AList

/-!
# The system register emulator

The register state and `SystemRegisterEmulator` of `ARM64SystemRegisters.cpp`.
A register is the `value` of its union. What the emulator prints for an access
is modelled on its own, in `AccessLog`.
-/

namespace Acheron

/-- `ARM64SystemRegisterState`: the `value` of each register. -/
structure ARM64SystemRegisterState where
  sctlrEl1 : BitVec 64
  tcrEl1 : BitVec 64
  ttbr0El1 : BitVec 64
  ttbr1El1 : BitVec 64
  esrEl1 : BitVec 64
  farEl1 : BitVec 64
  elrEl1 : BitVec 64
  vbarEl1 : BitVec 64
  mpidrEl1 : BitVec 64
  midrEl1 : BitVec 64
deriving DecidableEq, Repr

/-- `SCTLR_EL1::RESET_VALUE`. -/
def sctlrResetValue : BitVec 64 := 0x00C50838
/-- `TCR_EL1::RESET_VALUE`. -/
def tcrResetValue : BitVec 64 := 0x00000000
/-- `MPIDR_EL1::RESET_VALUE`. -/
def mpidrResetValue : BitVec 64 := 0x80000000
/-- `MIDR_EL1::APPLE_M1`. -/
def midrAppleM1 : BitVec 64 := 0x610F0220

/-- The state that `reset` leaves, whatever it was before. -/
def ARM64SystemRegisterState.reset : ARM64SystemRegisterState :=
  { sctlrEl1 := sctlrResetValue
    tcrEl1 := tcrResetValue
    ttbr0El1 := 0
    ttbr1El1 := 0
    esrEl1 := 0
    farEl1 := 0
    elrEl1 := 0
    vbarEl1 := 0x0
    mpidrEl1 := mpidrResetValue
    midrEl1 := midrAppleM1 }

/-- The emulator holds one register state. -/
structure SystemRegisterEmulator where
  state : ARM64SystemRegisterState
deriving DecidableEq, Repr

/-- The general-purpose registers behind the callbacks `getRegValue` and
`setRegValue`, indexed by the `uint8_t` that the callbacks take. -/
abbrev GprFile := BitVec 8 → BitVec 64

/-- `setRegValue` of a backend: store `value` in register `r`. -/
def GprFile.set (gprs : GprFile) (r : BitVec 8) (value : BitVec 64) : GprFile :=
  Function.update gprs r value

namespace SystemRegisterEmulator

/-- The constructor. -/
def new : SystemRegisterEmulator := ⟨.reset⟩

def readSystemRegister (self : SystemRegisterEmulator) (op0 op1 crn crm op2 : BitVec 8) :
    Option (BitVec 64) :=
  if op0 = 0b11 ∧ op1 = 0b000 ∧ crn = 0b0001 ∧ crm = 0b0000 ∧ op2 = 0b000 then
    some self.state.sctlrEl1
  else if op0 = 0b11 ∧ op1 = 0b000 ∧ crn = 0b0010 ∧ crm = 0b0000 ∧ op2 = 0b010 then
    some self.state.tcrEl1
  else if op0 = 0b11 ∧ op1 = 0b000 ∧ crn = 0b0010 ∧ crm = 0b0000 ∧ op2 = 0b000 then
    some self.state.ttbr0El1
  else if op0 = 0b11 ∧ op1 = 0b000 ∧ crn = 0b0010 ∧ crm = 0b0000 ∧ op2 = 0b001 then
    some self.state.ttbr1El1
  else if op0 = 0b11 ∧ op1 = 0b000 ∧ crn = 0b0101 ∧ crm = 0b0010 ∧ op2 = 0b000 then
    some self.state.esrEl1
  else if op0 = 0b11 ∧ op1 = 0b000 ∧ crn = 0b0110 ∧ crm = 0b0000 ∧ op2 = 0b000 then
    some self.state.farEl1
  else if op0 = 0b11 ∧ op1 = 0b000 ∧ crn = 0b0100 ∧ crm = 0b0000 ∧ op2 = 0b001 then
    some self.state.elrEl1
  else if op0 = 0b11 ∧ op1 = 0b000 ∧ crn = 0b1100 ∧ crm = 0b0000 ∧ op2 = 0b000 then
    some self.state.vbarEl1
  else if op0 = 0b11 ∧ op1 = 0b000 ∧ crn = 0b0000 ∧ crm = 0b0000 ∧ op2 = 0b101 then
    some self.state.mpidrEl1
  else if op0 = 0b11 ∧ op1 = 0b000 ∧ crn = 0b0000 ∧ crm = 0b0000 ∧ op2 = 0b000 then
    some self.state.midrEl1
  else none

/-- Every path returns `true`; an unknown register is acknowledged and dropped. -/
def writeSystemRegister (self : SystemRegisterEmulator) (op0 op1 crn crm op2 : BitVec 8)
    (value : BitVec 64) : Bool × SystemRegisterEmulator :=
  if op0 = 0b11 ∧ op1 = 0b000 ∧ crn = 0b0001 ∧ crm = 0b0000 ∧ op2 = 0b000 then
    (true, ⟨{ self.state with sctlrEl1 := value }⟩)
  else if op0 = 0b11 ∧ op1 = 0b000 ∧ crn = 0b0010 ∧ crm = 0b0000 ∧ op2 = 0b010 then
    (true, ⟨{ self.state with tcrEl1 := value }⟩)
  else if op0 = 0b11 ∧ op1 = 0b000 ∧ crn = 0b0010 ∧ crm = 0b0000 ∧ op2 = 0b000 then
    (true, ⟨{ self.state with ttbr0El1 := value }⟩)
  else if op0 = 0b11 ∧ op1 = 0b000 ∧ crn = 0b0010 ∧ crm = 0b0000 ∧ op2 = 0b001 then
    (true, ⟨{ self.state with ttbr1El1 := value }⟩)
  else if op0 = 0b11 ∧ op1 = 0b000 ∧ crn = 0b0101 ∧ crm = 0b0010 ∧ op2 = 0b000 then
    (true, ⟨{ self.state with esrEl1 := value }⟩)
  else if op0 = 0b11 ∧ op1 = 0b000 ∧ crn = 0b0110 ∧ crm = 0b0000 ∧ op2 = 0b000 then
    (true, ⟨{ self.state with farEl1 := value }⟩)
  else if op0 = 0b11 ∧ op1 = 0b000 ∧ crn = 0b0100 ∧ crm = 0b0000 ∧ op2 = 0b001 then
    (true, ⟨{ self.state with elrEl1 := value }⟩)
  else if op0 = 0b11 ∧ op1 = 0b000 ∧ crn = 0b1100 ∧ crm = 0b0000 ∧ op2 = 0b000 then
    (true, ⟨{ self.state with vbarEl1 := value }⟩)
  else (true, self)

/-- The register fields are 64 bits wide in `SystemInstruction` and are passed
as `uint8_t`, hence the truncations. -/
def emulateMSR (self : SystemRegisterEmulator) (instruction : SystemInstruction)
    (gprs : GprFile) : Bool × SystemRegisterEmulator :=
  let write (value : BitVec 64) :=
    self.writeSystemRegister (instruction.sysRegOp0.setWidth 8) (instruction.sysRegOp1.setWidth 8)
      (instruction.sysRegCRn.setWidth 8) (instruction.sysRegCRm.setWidth 8)
      (instruction.sysRegOp2.setWidth 8) value
  match instruction.type with
  | .msrReg => write (gprs instruction.rt)
  | .msrImm => write instruction.immediate
  | _ => (false, self)

/-- A read of an unknown register stores 0. -/
def emulateMRS (self : SystemRegisterEmulator) (instruction : SystemInstruction)
    (gprs : GprFile) : Bool × SystemRegisterEmulator × GprFile :=
  if instruction.type ≠ .mrsReg then (false, self, gprs)
  else
    match self.readSystemRegister (instruction.sysRegOp0.setWidth 8)
      (instruction.sysRegOp1.setWidth 8) (instruction.sysRegCRn.setWidth 8)
      (instruction.sysRegCRm.setWidth 8) (instruction.sysRegOp2.setWidth 8) with
    | some value => (true, self, gprs.set instruction.rt value)
    | none => (true, self, gprs.set instruction.rt 0)

def handleExceptionEntry (self : SystemRegisterEmulator) (currentPC esr far : BitVec 64) :
    SystemRegisterEmulator :=
  ⟨{ self.state with elrEl1 := currentPC, esrEl1 := esr, farEl1 := far }⟩

def handleExceptionReturn (self : SystemRegisterEmulator) : BitVec 64 :=
  self.state.elrEl1

end SystemRegisterEmulator

/-! ## The register table -/

/-- The register fields of an access, as the `uint8_t` values that the emulator
compares. -/
structure Encoding where
  op0 : BitVec 8
  op1 : BitVec 8
  crn : BitVec 8
  crm : BitVec 8
  op2 : BitVec 8
deriving DecidableEq, Repr

/-- The ten supported registers. -/
inductive SysReg
  | sctlr
  | tcr
  | ttbr0
  | ttbr1
  | esr
  | far
  | elr
  | vbar
  | mpidr
  | midr
deriving DecidableEq, Repr

namespace SysReg

def all : List SysReg := [sctlr, tcr, ttbr0, ttbr1, esr, far, elr, vbar, mpidr, midr]

/-- The encoding table of `docs/ARCHITECTURE.md`. -/
def encoding : SysReg → Encoding
  | sctlr => ⟨3, 0, 1, 0, 0⟩
  | tcr => ⟨3, 0, 2, 0, 2⟩
  | ttbr0 => ⟨3, 0, 2, 0, 0⟩
  | ttbr1 => ⟨3, 0, 2, 0, 1⟩
  | esr => ⟨3, 0, 5, 2, 0⟩
  | far => ⟨3, 0, 6, 0, 0⟩
  | elr => ⟨3, 0, 4, 0, 1⟩
  | vbar => ⟨3, 0, 12, 0, 0⟩
  | mpidr => ⟨3, 0, 0, 0, 5⟩
  | midr => ⟨3, 0, 0, 0, 0⟩

/-- The identification registers are read-only. -/
def writable : SysReg → Bool
  | mpidr | midr => false
  | _ => true

def get (s : ARM64SystemRegisterState) : SysReg → BitVec 64
  | sctlr => s.sctlrEl1
  | tcr => s.tcrEl1
  | ttbr0 => s.ttbr0El1
  | ttbr1 => s.ttbr1El1
  | esr => s.esrEl1
  | far => s.farEl1
  | elr => s.elrEl1
  | vbar => s.vbarEl1
  | mpidr => s.mpidrEl1
  | midr => s.midrEl1

def set (s : ARM64SystemRegisterState) (v : BitVec 64) : SysReg → ARM64SystemRegisterState
  | sctlr => { s with sctlrEl1 := v }
  | tcr => { s with tcrEl1 := v }
  | ttbr0 => { s with ttbr0El1 := v }
  | ttbr1 => { s with ttbr1El1 := v }
  | esr => { s with esrEl1 := v }
  | far => { s with farEl1 := v }
  | elr => { s with elrEl1 := v }
  | vbar => { s with vbarEl1 := v }
  | mpidr => { s with mpidrEl1 := v }
  | midr => { s with midrEl1 := v }

/-- The register that an encoding names. -/
def named (e : Encoding) : Option SysReg :=
  all.find? fun r => r.encoding = e

@[simp] theorem named_encoding (r : SysReg) : named r.encoding = some r := by cases r <;> rfl

theorem named_eq_some {e : Encoding} {r : SysReg} : named e = some r ↔ e = r.encoding := by
  constructor
  · intro h
    exact (by simpa using List.find?_some h : r.encoding = e).symm
  · rintro rfl
    exact named_encoding r

theorem named_eq_none {e : Encoding} (h : named e = none) (r : SysReg) : e ≠ r.encoding := by
  rintro rfl
  simp at h

theorem encoding_injective {r r' : SysReg} (h : r.encoding = r'.encoding) : r = r' := by
  have hn := congrArg named h
  simpa using hn

@[simp] theorem get_set_self (s : ARM64SystemRegisterState) (v : BitVec 64) (r : SysReg) :
    get (set s v r) r = v := by cases r <;> rfl

theorem get_set_ne (s : ARM64SystemRegisterState) (v : BitVec 64) {r r' : SysReg} (h : r' ≠ r) :
    get (set s v r) r' = get s r' := by
  cases r <;> cases r' <;> first | rfl | exact absurd rfl h

end SysReg

/-! ## The two guard chains read the table -/

namespace SystemRegisterEmulator

/-- `readSystemRegister` on an encoding. -/
def read (self : SystemRegisterEmulator) (e : Encoding) : Option (BitVec 64) :=
  self.readSystemRegister e.op0 e.op1 e.crn e.crm e.op2

/-- `writeSystemRegister` on an encoding. -/
def write (self : SystemRegisterEmulator) (e : Encoding) (value : BitVec 64) :
    Bool × SystemRegisterEmulator :=
  self.writeSystemRegister e.op0 e.op1 e.crn e.crm e.op2 value

/-- No guard of the two chains fires on an encoding that names no register. -/
theorem guard_miss {e : Encoding} (h : SysReg.named e = none) (r : SysReg) :
    ¬ (e.op0 = r.encoding.op0 ∧ e.op1 = r.encoding.op1 ∧ e.crn = r.encoding.crn ∧
      e.crm = r.encoding.crm ∧ e.op2 = r.encoding.op2) := by
  rintro ⟨h0, h1, hn, hm, h2⟩
  apply SysReg.named_eq_none h r
  cases e
  simp only at h0 h1 hn hm h2
  rw [h0, h1, hn, hm, h2]

/-- The read chain is a lookup in the register table. -/
theorem read_eq (self : SystemRegisterEmulator) (e : Encoding) :
    self.read e = (SysReg.named e).map (SysReg.get self.state) := by
  cases hn : SysReg.named e with
  | some r =>
    rw [SysReg.named_eq_some.mp hn]
    cases r <;> rfl
  | none =>
    have miss := guard_miss hn
    unfold read readSystemRegister
    refine (if_neg (miss .sctlr)).trans ?_
    refine (if_neg (miss .tcr)).trans ?_
    refine (if_neg (miss .ttbr0)).trans ?_
    refine (if_neg (miss .ttbr1)).trans ?_
    refine (if_neg (miss .esr)).trans ?_
    refine (if_neg (miss .far)).trans ?_
    refine (if_neg (miss .elr)).trans ?_
    refine (if_neg (miss .vbar)).trans ?_
    refine (if_neg (miss .mpidr)).trans ?_
    exact if_neg (miss .midr)

/-- What the write chain stores: the named register if it is writable, else
nothing. -/
def written (s : ARM64SystemRegisterState) (e : Encoding) (value : BitVec 64) :
    ARM64SystemRegisterState :=
  match SysReg.named e with
  | some r => if r.writable then SysReg.set s value r else s
  | none => s

/-- The write chain is an update of the register table. It always reports
success. -/
theorem write_eq (self : SystemRegisterEmulator) (e : Encoding) (value : BitVec 64) :
    self.write e value = (true, ⟨written self.state e value⟩) := by
  cases hn : SysReg.named e with
  | some r =>
    rw [SysReg.named_eq_some.mp hn]
    cases r <;> rfl
  | none =>
    have miss := guard_miss hn
    have same : written self.state e value = self.state := by simp only [written, hn]
    rw [same]
    unfold write writeSystemRegister
    refine (if_neg (miss .sctlr)).trans ?_
    refine (if_neg (miss .tcr)).trans ?_
    refine (if_neg (miss .ttbr0)).trans ?_
    refine (if_neg (miss .ttbr1)).trans ?_
    refine (if_neg (miss .esr)).trans ?_
    refine (if_neg (miss .far)).trans ?_
    refine (if_neg (miss .elr)).trans ?_
    exact if_neg (miss .vbar)

theorem get_written (s : ARM64SystemRegisterState) (e : Encoding) (value : BitVec 64) (r : SysReg) :
    SysReg.get (written s e value) r =
      if e = r.encoding ∧ r.writable then value else SysReg.get s r := by
  unfold written
  cases hn : SysReg.named e with
  | none => rw [if_neg fun h => SysReg.named_eq_none hn r h.1]
  | some r' =>
    obtain rfl := SysReg.named_eq_some.mp hn
    dsimp only
    by_cases hr : r' = r
    · subst hr
      by_cases hw : r'.writable
      · rw [if_pos hw, if_pos ⟨rfl, hw⟩, SysReg.get_set_self]
      · rw [if_neg hw, if_neg fun h => hw h.2]
    · have apart : ¬ (r'.encoding = r.encoding ∧ r.writable) :=
        fun h => hr (SysReg.encoding_injective h.1)
      rw [if_neg apart]
      by_cases hw : r'.writable
      · rw [if_pos hw, SysReg.get_set_ne s value (Ne.symm hr)]
      · rw [if_neg hw]

end SystemRegisterEmulator

/-- The encoding that a decoded instruction names, truncated as the calls
truncate it. -/
def SystemInstruction.encoding (i : SystemInstruction) : Encoding :=
  ⟨i.sysRegOp0.setWidth 8, i.sysRegOp1.setWidth 8, i.sysRegCRn.setWidth 8,
    i.sysRegCRm.setWidth 8, i.sysRegOp2.setWidth 8⟩

/-- The value that an `MSR` instruction writes, if it is one. -/
def SystemInstruction.msrValue (i : SystemInstruction) (gprs : GprFile) : Option (BitVec 64) :=
  match i.type with
  | .msrReg => some (gprs i.rt)
  | .msrImm => some i.immediate
  | _ => none

namespace SystemRegisterEmulator

theorem emulateMSR_eq (self : SystemRegisterEmulator) (i : SystemInstruction) (gprs : GprFile) :
    self.emulateMSR i gprs =
      match i.msrValue gprs with
      | some value => self.write i.encoding value
      | none => (false, self) := by
  unfold emulateMSR SystemInstruction.msrValue
  cases i.type <;> rfl

theorem emulateMRS_eq (self : SystemRegisterEmulator) (i : SystemInstruction) (gprs : GprFile) :
    self.emulateMRS i gprs =
      if i.type = .mrsReg then (true, self, gprs.set i.rt ((self.read i.encoding).getD 0))
      else (false, self, gprs) := by
  unfold emulateMRS
  by_cases ht : i.type = .mrsReg
  · rw [if_neg (not_not.mpr ht), if_pos ht]
    change (match self.read i.encoding with
      | some value => _
      | none => _) = _
    cases self.read i.encoding <;> rfl
  · rw [if_pos ht, if_neg ht]

end SystemRegisterEmulator

end Acheron
