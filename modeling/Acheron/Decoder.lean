import Acheron.Lib.MaskGuard

/-!
# The system instruction decoder

`decodeSystemInstruction` as `ARM64SystemRegisters.cpp` computes it: ten arms,
each a mask and pattern test on the 32-bit word, tried in order. Every field
keeps the shift and mask the source extracts it with, and the width of the
field it is stored in.
-/

namespace Acheron

/-- `SystemInstruction::Type`. -/
inductive InstructionType
  | unknown
  | msrImm
  | msrReg
  | mrsReg
  | isb
  | dsb
  | dmb
  | wfi
  | wfe
  | hlt
  | brk
deriving DecidableEq, Repr

/-- A decoded instruction. The defaults are those of the constructor. -/
structure SystemInstruction where
  type : InstructionType := .unknown
  sysRegOp0 : BitVec 64 := 0
  sysRegOp1 : BitVec 64 := 0
  sysRegCRn : BitVec 64 := 0
  sysRegCRm : BitVec 64 := 0
  sysRegOp2 : BitVec 64 := 0
  rt : BitVec 8 := 0
  immediate : BitVec 64 := 0
deriving DecidableEq, Repr

/-- The five register fields, which the three `MSR`/`MRS` arms extract alike. -/
def sysRegFields (type : InstructionType) (instruction : BitVec 32) : SystemInstruction :=
  { type := type
    sysRegOp0 := ((instruction >>> 19) &&& 0x7).setWidth 64
    sysRegOp1 := ((instruction >>> 16) &&& 0x7).setWidth 64
    sysRegCRn := ((instruction >>> 12) &&& 0xF).setWidth 64
    sysRegCRm := ((instruction >>> 8) &&& 0xF).setWidth 64
    sysRegOp2 := ((instruction >>> 5) &&& 0x7).setWidth 64 }

/-- What the arm of a type stores in `result` once its test has succeeded. -/
def fieldsOf (type : InstructionType) (instruction : BitVec 32) : SystemInstruction :=
  match type with
  | .msrImm =>
    { sysRegFields .msrImm instruction with
      immediate := ((instruction >>> 0) &&& 0x1F).setWidth 64 }
  -- `rt` comes from the same shift as `op2`, as in the source
  | .msrReg =>
    { sysRegFields .msrReg instruction with rt := ((instruction >>> 5) &&& 0x1F).setWidth 8 }
  | .mrsReg =>
    { sysRegFields .mrsReg instruction with rt := ((instruction >>> 5) &&& 0x1F).setWidth 8 }
  | .hlt => { type := .hlt, immediate := ((instruction >>> 0) &&& 0xFFFF).setWidth 64 }
  | .brk => { type := .brk, immediate := ((instruction >>> 0) &&& 0xFFFF).setWidth 64 }
  | type => { type := type }

/-- The decoder. Each `if` is one arm of the source, in the source's order. -/
def decodeSystemInstruction (instruction : BitVec 32) : SystemInstruction :=
  if instruction &&& 0xFFE0001F = 0xD5000000 then fieldsOf .msrImm instruction
  else if instruction &&& 0xFFE00000 = 0xD5100000 then fieldsOf .msrReg instruction
  else if instruction &&& 0xFFE00000 = 0xD5300000 then fieldsOf .mrsReg instruction
  else if instruction = 0xD500401F then fieldsOf .isb instruction
  else if instruction &&& 0xFFFFF01F = 0xD5033000 then fieldsOf .dsb instruction
  else if instruction &&& 0xFFFFF01F = 0xD5033000 then fieldsOf .dmb instruction
  else if instruction = 0xD503205F then fieldsOf .wfi instruction
  else if instruction = 0xD503207F then fieldsOf .wfe instruction
  else if instruction &&& 0xFFE0001F = 0xD4200000 then fieldsOf .hlt instruction
  else if instruction &&& 0xFFE0001F = 0xD4200000 then fieldsOf .brk instruction
  else fieldsOf .unknown instruction

/-! ## The decoder as a table of arms -/

/-- The guard of each type, as the source writes it. The three equality tests
are guards with the full mask. -/
def guardOf : InstructionType → MaskGuard 32
  | .msrImm => ⟨0xFFE0001F, 0xD5000000⟩
  | .msrReg => ⟨0xFFE00000, 0xD5100000⟩
  | .mrsReg => ⟨0xFFE00000, 0xD5300000⟩
  | .isb => ⟨BitVec.allOnes 32, 0xD500401F⟩
  | .dsb => ⟨0xFFFFF01F, 0xD5033000⟩
  | .dmb => ⟨0xFFFFF01F, 0xD5033000⟩
  | .wfi => ⟨BitVec.allOnes 32, 0xD503205F⟩
  | .wfe => ⟨BitVec.allOnes 32, 0xD503207F⟩
  | .hlt => ⟨0xFFE0001F, 0xD4200000⟩
  | .brk => ⟨0xFFE0001F, 0xD4200000⟩
  -- `unknown` has no arm: it is what is left when every test fails
  | .unknown => ⟨0, 1⟩

/-- The types that have an arm, in the order in which the arms are tried. -/
def armTypes : List InstructionType :=
  [.msrImm, .msrReg, .mrsReg, .isb, .dsb, .dmb, .wfi, .wfe, .hlt, .brk]

/-- The arm of a type. -/
def armOf (t : InstructionType) : MaskGuard.Arm 32 SystemInstruction :=
  ⟨guardOf t, fieldsOf t⟩

/-- The arms of a list of types. -/
def armsOf (types : List InstructionType) : List (MaskGuard.Arm 32 SystemInstruction) :=
  types.map armOf

/-- The arms of the decoder, in the source's order. -/
def arms : List (MaskGuard.Arm 32 SystemInstruction) :=
  armsOf armTypes

/-- The chain of tests is a first match over the table. -/
theorem decode_eq_firstMatch (w : BitVec 32) :
    decodeSystemInstruction w = MaskGuard.firstMatch {} arms w := by
  have full (p : BitVec 32) : w &&& BitVec.allOnes 32 = p ↔ w = p := by
    rw [BitVec.and_allOnes]
  simp only [arms, armsOf, armTypes, armOf, List.map, MaskGuard.firstMatch, MaskGuard.Holds, guardOf, full]
  rfl

@[simp] theorem fieldsOf_type (t : InstructionType) (w : BitVec 32) : (fieldsOf t w).type = t := by
  cases t <;> rfl

/-! ## Register access words -/

/-- The word of `MSR <sysreg>, Xt` (`load = false`) or `MRS Xt, <sysreg>`
(`load = true`), with `op0` given as the number 2 or 3. -/
def accessWord (load : Bool) (op0 op1 crn crm op2 rt : BitVec 32) : BitVec 32 :=
  0xD5100000 ||| ((if load then 1 else 0) <<< 21) ||| ((op0 - 2) <<< 19) ||| (op1 <<< 16) |||
    (crn <<< 12) ||| (crm <<< 8) ||| (op2 <<< 5) ||| rt

end Acheron
