import Acheron.DecoderArms
import Acheron.SystemRegisters

/-!
# Trapped register accesses

A hypervisor backend decodes the word of a trapped instruction and passes the
result to the emulator. This module compares that with the architecture, for
sequences of `MSR` and `MRS` words on the supported registers.

Results:
1. `trap_msr_x0`, `trap_msr_other`, `trap_mrs`: what the trap handler does to a
   register access word. A write from `X0` stores 0, every other access is lost.
2. `trapped_effect_iff`: the accesses whose loss does not show.
-/

namespace Acheron

open MaskGuard SystemRegisterEmulator

/-! ## The trap handler -/

/-- What the KVM backend keeps for a virtual CPU: its emulator, and the
registers of the shared `kvm_run` page. -/
structure Vcpu where
  emulator : SystemRegisterEmulator
  regs : GprFile
  pc : BitVec 64

/-- `KVMIntegration::handleSystemRegisterTrap`. The trapped word, which the
example leaves at 0 where a guest memory read belongs, is a parameter. -/
def Vcpu.handleSystemRegisterTrap (vcpu : Vcpu) (instrBytes : BitVec 32) : Vcpu :=
  let instr := decodeSystemInstruction instrBytes
  match instr.type with
  | .msrReg | .msrImm =>
    let (emulated, emulator) := vcpu.emulator.emulateMSR instr vcpu.regs
    if emulated then { vcpu with emulator := emulator, pc := vcpu.pc + 4 }
    else { vcpu with emulator := emulator }
  | .mrsReg =>
    let (_, emulator, regs) := vcpu.emulator.emulateMRS instr vcpu.regs
    { emulator := emulator, regs := regs, pc := vcpu.pc + 4 }
  | .isb | .dsb | .dmb | .wfi | .wfe => { vcpu with pc := vcpu.pc + 4 }
  | _ => vcpu

/-- The registers that the accesses are about: the system registers and the
general-purpose file. -/
abbrev Registers := ARM64SystemRegisterState × GprFile

def Vcpu.registers (vcpu : Vcpu) : Registers := (vcpu.emulator.state, vcpu.regs)

/-- The virtual CPU after the words `ws` have been trapped, in the order of
time. -/
def Vcpu.trapAll (vcpu : Vcpu) (ws : List (BitVec 32)) : Vcpu :=
  ws.foldl handleSystemRegisterTrap vcpu

/-! ## Accesses and their architectural effect -/

/-- The general-purpose registers `X0` to `X30`. -/
abbrev Gpr := Fin 31

/-- The `uint8_t` index of a general-purpose register. -/
def Gpr.index (t : Gpr) : BitVec 8 := BitVec.ofNat 8 t

/-- A register access of the architecture: a write to a writable register or a
read of any supported one. -/
inductive Access
  | msr (r : SysReg) (writable : r.writable = true) (t : Gpr)
  | mrs (t : Gpr) (r : SysReg)

/-- The instruction word of an access to `r` through `t`. -/
def SysReg.word (r : SysReg) (load : Bool) (t : Gpr) : BitVec 32 :=
  accessWord load (r.encoding.op0.setWidth 32) (r.encoding.op1.setWidth 32)
    (r.encoding.crn.setWidth 32) (r.encoding.crm.setWidth 32) (r.encoding.op2.setWidth 32)
    (t.index.setWidth 32)

def Access.word : Access → BitVec 32
  | msr r _ t => r.word false t
  | mrs t r => r.word true t

/-- The architectural effect: an `MSR` stores `X[t]` in the register, an `MRS`
stores the register in `X[t]`. -/
def Access.effect (s : Registers) : Access → Registers
  | msr r _ t => (r.set s.1 (s.2 t.index), s.2)
  | mrs t r => (s.1, s.2.set t.index (r.get s.1))

/-! ## 1. What the handler does to an access word -/

namespace BackendLemmas

/-- Bits 31:20 of `MSR` register words. -/
def msrSpace : MaskGuard 32 := ⟨0xFFF00000, 0xD5100000⟩

/-- Bits 31:20 of `MRS` words. -/
def mrsSpace : MaskGuard 32 := ⟨0xFFF00000, 0xD5300000⟩

/-- The target register field is `X0`. -/
def rtZero : MaskGuard 32 := ⟨0x1F, 0⟩

/-- No live arm accepts an `MRS` word. -/
theorem decode_mrsSpace {w : BitVec 32} (h : mrsSpace.Holds w) : decodeSystemInstruction w = {} := by
  rw [decode_eq_live]
  apply firstMatch_of_none
  have clash : ∀ t ∈ liveTypes, mrsSpace.Clash (guardOf t) := by decide
  rintro a ha
  obtain ⟨t, ht, rfl⟩ := List.mem_map.mp ha
  exact not_holds_of_clash (clash t ht) h

/-- The `MSR` immediate arm accepts the `MSR` register words with target `X0`. -/
theorem decode_msrSpace_x0 {w : BitVec 32} (h : msrSpace.Holds w) (h0 : rtZero.Holds w) :
    decodeSystemInstruction w = fieldsOf .msrImm w := by
  have him : (guardOf .msrImm).Holds w := holds_of_coversJoint (by decide) h h0
  rw [decode_eq_live]
  exact if_pos him

/-- No live arm accepts the other `MSR` register words. -/
theorem decode_msrSpace_other {w : BitVec 32} (h : msrSpace.Holds w) (h0 : ¬ rtZero.Holds w) :
    decodeSystemInstruction w = {} := by
  rw [decode_eq_live]
  apply firstMatch_of_none
  have clash : ∀ t ∈ liveTypes, rtZero.Covers (guardOf t) ∨ msrSpace.Clash (guardOf t) := by decide
  rintro a ha
  obtain ⟨t, ht, rfl⟩ := List.mem_map.mp ha
  rcases clash t ht with hc | hc
  · exact fun hx => h0 (holds_of_covers hc hx)
  · exact not_holds_of_clash hc h

theorem word_mrsSpace (r : SysReg) (t : Gpr) : mrsSpace.Holds (r.word true t) := by
  revert t
  cases r <;> decide

theorem word_msrSpace (r : SysReg) (t : Gpr) : msrSpace.Holds (r.word false t) := by
  revert t
  cases r <;> decide

theorem word_rtZero (r : SysReg) (t : Gpr) : rtZero.Holds (r.word false t) ↔ t = 0 := by
  revert t
  cases r <;> decide

theorem fields_word_x0 (r : SysReg) :
    (fieldsOf .msrImm (r.word false 0)).encoding = r.encoding ∧
    (fieldsOf .msrImm (r.word false 0)).immediate = 0 := by
  cases r <;> decide

end BackendLemmas

open BackendLemmas

/-- A trapped `MSR` from `X0` stores 0, whatever `X0` holds. -/
theorem trap_msr_x0 (vcpu : Vcpu) (r : SysReg) (hw : r.writable = true) :
    (vcpu.handleSystemRegisterTrap (r.word false 0)).registers =
      (r.set vcpu.emulator.state 0, vcpu.regs) := by
  have hd := decode_msrSpace_x0 (word_msrSpace r 0) ((word_rtZero r 0).mpr rfl)
  obtain ⟨he, hi⟩ := fields_word_x0 r
  have hmsr : vcpu.emulator.emulateMSR (fieldsOf .msrImm (r.word false 0)) vcpu.regs =
      (true, ⟨r.set vcpu.emulator.state 0⟩) := by
    have hv : (fieldsOf .msrImm (r.word false 0)).msrValue vcpu.regs = some 0 := congrArg some hi
    rw [emulateMSR_eq, hv]
    dsimp only
    rw [he, write_eq, written, SysReg.named_encoding]
    dsimp only
    rw [if_pos hw]
  unfold Vcpu.handleSystemRegisterTrap Vcpu.registers
  rw [hd]
  dsimp only
  rw [fieldsOf_type, hmsr]
  rfl

/-- A trapped `MSR` from another register is not recognised. -/
theorem trap_msr_other (vcpu : Vcpu) (r : SysReg) {t : Gpr} (ht : t ≠ 0) :
    vcpu.handleSystemRegisterTrap (r.word false t) = vcpu := by
  have hd := decode_msrSpace_other (word_msrSpace r t) fun h => ht ((word_rtZero r t).mp h)
  unfold Vcpu.handleSystemRegisterTrap
  rw [hd]

/-- A trapped `MRS` is not recognised. -/
theorem trap_mrs (vcpu : Vcpu) (r : SysReg) (t : Gpr) :
    vcpu.handleSystemRegisterTrap (r.word true t) = vcpu := by
  unfold Vcpu.handleSystemRegisterTrap
  rw [decode_mrsSpace (word_mrsSpace r t)]

/-! ## 2. Whole sequences -/

/-- The architecture's effect of a sequence of accesses, in the order of time. -/
def Access.effects (s : Registers) (accesses : List Access) : Registers :=
  accesses.foldl effect s

/-- The words of the accesses have their architectural effect, in every state
that trapping them one after another reaches. -/
def ArchitecturalEffect (vcpu : Vcpu) (accesses : List Access) : Prop :=
  ∀ n, (vcpu.trapAll ((accesses.take n).map Access.word)).registers =
    Access.effects vcpu.registers (accesses.take n)

/-- The misreading of the access does not show in the state `s`: a write from
`X0` finds 0 there, another write finds its value already in the register, and
a read finds the value already in its target. -/
def Access.Unaffected (s : Registers) : Access → Prop
  | msr r _ t => if t = 0 then s.2 t.index = 0 else r.get s.1 = s.2 t.index
  | mrs t r => s.2 t.index = r.get s.1

/-- Every access of the sequence is unaffected in the state it is executed in. -/
def Access.AllUnaffected : Registers → List Access → Prop
  | _, [] => True
  | s, a :: accesses => a.Unaffected s ∧ AllUnaffected (a.effect s) accesses

namespace BackendLemmas

theorem set_get_self (s : ARM64SystemRegisterState) (r : SysReg) : r.set s (r.get s) = s := by
  cases r <;> rfl

theorem set_eq_iff {s : ARM64SystemRegisterState} {r : SysReg} {v v' : BitVec 64} :
    r.set s v = r.set s v' ↔ v = v' := by
  refine ⟨fun h => ?_, fun h => h ▸ rfl⟩
  have hg := congrArg (SysReg.get · r) h
  simpa using hg

theorem gprs_set_eq_iff {x : GprFile} {i : BitVec 8} {v : BitVec 64} :
    x = x.set i v ↔ x i = v := by
  unfold GprFile.set
  exact ⟨fun h => by simpa using congrFun h i, fun h => by rw [← h, Function.update_eq_self]⟩

/-- One access has its architectural effect exactly when it is unaffected. -/
theorem trap_effect_iff (vcpu : Vcpu) (a : Access) :
    (vcpu.handleSystemRegisterTrap a.word).registers = a.effect vcpu.registers ↔
      a.Unaffected vcpu.registers := by
  cases a with
  | msr r hw t =>
    by_cases ht : t = 0
    · subst ht
      rw [Access.word, trap_msr_x0 vcpu r hw]
      simp only [Access.effect, Access.Unaffected, Vcpu.registers, Prod.mk.injEq, set_eq_iff,
        and_true, if_true]
      exact eq_comm
    · rw [Access.word, trap_msr_other vcpu r ht]
      simp only [Access.effect, Access.Unaffected, Vcpu.registers, Prod.mk.injEq, and_true,
        if_neg ht]
      rw [← set_eq_iff (s := vcpu.emulator.state) (r := r), set_get_self]
  | mrs t r =>
    rw [Access.word, trap_mrs]
    simp only [Access.effect, Access.Unaffected, Vcpu.registers, Prod.mk.injEq, true_and]
    exact gprs_set_eq_iff

/-- The words of a nonempty sequence have their effect exactly when the first
has and the rest has, from the state after the first. -/
theorem architecturalEffect_cons (vcpu : Vcpu) (a : Access) (accesses : List Access) :
    ArchitecturalEffect vcpu (a :: accesses) ↔
      (vcpu.handleSystemRegisterTrap a.word).registers = a.effect vcpu.registers ∧
      ArchitecturalEffect (vcpu.handleSystemRegisterTrap a.word) accesses := by
  constructor
  · intro h
    have first : (vcpu.handleSystemRegisterTrap a.word).registers = a.effect vcpu.registers := h 1
    refine ⟨first, fun n => ?_⟩
    rw [first]
    exact h (n + 1)
  · rintro ⟨first, rest⟩ n
    cases n with
    | zero => rfl
    | succ n =>
      have hn := rest n
      rw [first] at hn
      exact hn

end BackendLemmas

/-- Trapped accesses have their architectural effect, in every state of the
sequence, exactly when none of them is affected by the misreading of its word:
the words are decoded as an immediate write of 0, or not at all. -/
theorem trapped_effect_iff (vcpu : Vcpu) (accesses : List Access) :
    ArchitecturalEffect vcpu accesses ↔ Access.AllUnaffected vcpu.registers accesses := by
  induction accesses generalizing vcpu with
  | nil => exact ⟨fun _ => trivial, fun _ n => by rw [List.take_nil]; rfl⟩
  | cons a accesses ih =>
    rw [architecturalEffect_cons, trap_effect_iff, ih, Access.AllUnaffected]
    refine and_congr_right fun ha => ?_
    rw [(trap_effect_iff vcpu a).mpr ha]

/-- `MSR SCTLR_EL1, X0` with 5 in `X0` stores 0, `MSR SCTLR_EL1, X1` with 5 in
`X1` stores nothing, and neither is the architectural effect. -/
theorem msr_sctlr_lost :
    ¬ (∀ (vcpu : Vcpu) (accesses : List Access),
      (vcpu.trapAll (accesses.map Access.word)).registers =
        Access.effects vcpu.registers accesses) ∧
    (Vcpu.trapAll ⟨.new, fun _ => 5, 0⟩ [0xD5181000]).emulator.state.sctlrEl1 = 0 ∧
    (Vcpu.trapAll ⟨.new, fun _ => 5, 0⟩ [0xD5181001]).emulator.state.sctlrEl1 = sctlrResetValue := by
  refine ⟨fun h => ?_, by decide, by decide⟩
  have bad := congrArg (fun s => s.1.sctlrEl1) (h ⟨.new, fun _ => 5, 0⟩ [.msr .sctlr rfl 0])
  revert bad
  decide

end Acheron
