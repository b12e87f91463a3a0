import Acheron.Backend
import Acheron.DecoderOperands
import Acheron.Lib.History

/-!
# Three backends

KVM, HVF and WHP each come with a trap handler. The handlers decode the trapped
word, pass it to the emulator and advance the PC, but not over the same words.
This module says what any sequence of trapped words does, register accesses or
not.

Results:
1. `handle_eq`: the three handlers differ in the words that they advance over,
   and in nothing else.
2. `traps_spec`: what a backend holds after any sequence of trapped words. A
   system register is 0 if the word that writes it from `X0` was trapped, and
   has its old value if not.
-/

namespace Acheron

open BackendLemmas DecoderLemmas Extraction MaskGuard SystemRegisterEmulator

/-! ## 1. The handlers -/

/-- `HVFIntegration::handleSystemRegisterTrap`, on the registers that the
callbacks and `hv_vcpu_set_reg` reach. -/
def HVFIntegration.handleSystemRegisterTrap (vcpu : Vcpu) (pc : BitVec 64)
    (instrBytes : BitVec 32) : Vcpu :=
  let instr := decodeSystemInstruction instrBytes
  match instr.type with
  | .msrReg | .msrImm =>
    let (emulated, emulator) := vcpu.emulator.emulateMSR instr vcpu.regs
    if emulated then { vcpu with emulator := emulator, pc := pc + 4 }
    else { vcpu with emulator := emulator }
  | .mrsReg =>
    let (emulated, emulator, regs) := vcpu.emulator.emulateMRS instr vcpu.regs
    if emulated then { emulator := emulator, regs := regs, pc := pc + 4 }
    else { vcpu with emulator := emulator, regs := regs }
  | .isb | .dsb | .dmb => { vcpu with pc := pc + 4 }
  | .wfi | .wfe => { vcpu with pc := pc + 4 }
  | _ => { vcpu with pc := pc + 4 }

/-- `WHPIntegration::handleSystemRegisterTrap`. The PC is left behind after an
`MRS`, where the source has a comment only. -/
def WHPIntegration.handleSystemRegisterTrap (vcpu : Vcpu) (pc : BitVec 64)
    (instrBytes : BitVec 32) : Vcpu :=
  let instr := decodeSystemInstruction instrBytes
  match instr.type with
  | .msrReg | .msrImm =>
    let (emulated, emulator) := vcpu.emulator.emulateMSR instr vcpu.regs
    if emulated then { vcpu with emulator := emulator, pc := pc + 4 }
    else { vcpu with emulator := emulator }
  | .mrsReg =>
    let (_, emulator, regs) := vcpu.emulator.emulateMRS instr vcpu.regs
    { vcpu with emulator := emulator, regs := regs }
  | _ => vcpu

inductive Backend
  | kvm
  | hvf
  | whp
deriving DecidableEq, Repr

namespace Backend

/-- The handler of the backend, for a word trapped at the PC of the virtual CPU. -/
def handle : Backend → Vcpu → BitVec 32 → Vcpu
  | kvm, vcpu, w => vcpu.handleSystemRegisterTrap w
  | hvf, vcpu, w => HVFIntegration.handleSystemRegisterTrap vcpu vcpu.pc w
  | whp, vcpu, w => WHPIntegration.handleSystemRegisterTrap vcpu vcpu.pc w

/-- Whether the backend advances the PC over a word that it decodes so. -/
def advances : Backend → InstructionType → Bool
  | kvm, type => type ≠ .unknown ∧ type ≠ .hlt ∧ type ≠ .brk
  | hvf, _ => true
  | whp, type => type = .msrReg ∨ type = .msrImm

end Backend

/-- The PC is advanced over the word, or it is not. -/
def Vcpu.advance (vcpu : Vcpu) (ok : Bool) : Vcpu :=
  if ok then { vcpu with pc := vcpu.pc + 4 } else vcpu

/-- The emulator after the word: an immediate write, or nothing. -/
def SystemRegisterEmulator.trapped (self : SystemRegisterEmulator) (w : BitVec 32) :
    SystemRegisterEmulator :=
  if (decodeSystemInstruction w).type = .msrImm then
    (self.write (decodeSystemInstruction w).encoding 0).2
  else self

namespace BackendLemmas

/-- The guard of the immediate arm leaves nothing of the immediate. -/
theorem immediate_eq_zero {w : BitVec 32} (h : (guardOf .msrImm).Holds w) :
    (fieldsOf .msrImm w).immediate = 0 := by
  have hlow : w &&& 0x1F = 0 := by
    have hg : w &&& 0xFFE0001F = 0xD5000000 := h
    have hbits : (0x1F : BitVec 32) = 0xFFE0001F &&& 0x1F := by decide
    rw [hbits, ← BitVec.and_assoc, hg]
    decide
  show ((w >>> 0 &&& 0x1F).setWidth 64 : BitVec 64) = 0
  rw [BitVec.ushiftRight_zero, hlow]
  rfl

theorem emulateMSR_of_msrImm {w : BitVec 32} (h : (decodeSystemInstruction w).type = .msrImm)
    (self : SystemRegisterEmulator) (gprs : GprFile) :
    self.emulateMSR (decodeSystemInstruction w) gprs = (true, self.trapped w) := by
  have hzero : (decodeSystemInstruction w).immediate = 0 := by
    rw [decode_eq_fieldsOf w, h]
    exact immediate_eq_zero (holds_of_decode_type (by decide) h)
  have hvalue : (decodeSystemInstruction w).msrValue gprs = some 0 := by
    unfold SystemInstruction.msrValue
    rw [h, ← hzero]
  unfold trapped
  rw [emulateMSR_eq, hvalue, if_pos h]
  dsimp only
  rw [write_eq]

/-- The other types that a word can have. -/
theorem silent_types {w : BitVec 32} (h : (decodeSystemInstruction w).type ≠ .msrImm) :
    (decodeSystemInstruction w).type = .isb ∨ (decodeSystemInstruction w).type = .wfi ∨
      (decodeSystemInstruction w).type = .wfe ∨ (decodeSystemInstruction w).type = .hlt ∨
      (decodeSystemInstruction w).type = .unknown := by
  have hlive := (decode_reaches_iff _).mp ⟨w, rfl⟩
  simp only [liveTypes, List.mem_cons, List.not_mem_nil, or_false, h, false_or] at hlive
  simpa only [or_assoc] using hlive

end BackendLemmas

/-- What a handler does, by the words that it advances over. -/
theorem handle_eq (b : Backend) (vcpu : Vcpu) (w : BitVec 32) :
    b.handle vcpu w =
      Vcpu.advance { vcpu with emulator := vcpu.emulator.trapped w }
        (b.advances (decodeSystemInstruction w).type) := by
  by_cases hmsr : (decodeSystemInstruction w).type = .msrImm
  · have hcall := emulateMSR_of_msrImm hmsr vcpu.emulator vcpu.regs
    cases b with
    | kvm =>
      unfold Backend.handle Vcpu.handleSystemRegisterTrap
      dsimp only
      rw [hcall, hmsr]
      rfl
    | hvf =>
      unfold Backend.handle HVFIntegration.handleSystemRegisterTrap
      dsimp only
      rw [hcall, hmsr]
      rfl
    | whp =>
      unfold Backend.handle WHPIntegration.handleSystemRegisterTrap
      dsimp only
      rw [hcall, hmsr]
      rfl
  · have hsame : vcpu.emulator.trapped w = vcpu.emulator := if_neg hmsr
    rw [hsame]
    rcases silent_types hmsr with h | h | h | h | h <;> cases b with
    | kvm =>
      unfold Backend.handle Vcpu.handleSystemRegisterTrap
      dsimp only
      rw [h]
      rfl
    | hvf =>
      unfold Backend.handle HVFIntegration.handleSystemRegisterTrap
      dsimp only
      rw [h]
      rfl
    | whp =>
      unfold Backend.handle WHPIntegration.handleSystemRegisterTrap
      dsimp only
      rw [h]
      rfl

/-! ## 2. Sequences of words -/

namespace BackendLemmas

/-- A field of at most 8 bits survives the two conversions. -/
theorem setWidth_field_inj {x y mask : BitVec 32} (hmask : mask.toNat < 2 ^ 8)
    (h : ((x &&& mask).setWidth 64).setWidth 8 = ((y &&& mask).setWidth 64).setWidth 8) :
    x &&& mask = y &&& mask := by
  have hlt (z : BitVec 32) : (z &&& mask).toNat < 2 ^ 8 := by
    rw [BitVec.toNat_and]
    exact Nat.and_lt_two_pow _ hmask
  have hx := hlt x
  have hy := hlt y
  have htoNat := congrArg BitVec.toNat h
  rw [BitVec.toNat_setWidth, BitVec.toNat_setWidth, BitVec.toNat_setWidth,
    BitVec.toNat_setWidth] at htoNat
  apply BitVec.eq_of_toNat_eq
  omega

/-- Immediate writes to one encoding are one word: all other bits are tested. -/
theorem eq_of_encoding {w w' : BitVec 32} (h : (guardOf .msrImm).Holds w)
    (h' : (guardOf .msrImm).Holds w')
    (he : (fieldsOf .msrImm w).encoding = (fieldsOf .msrImm w').encoding) : w = w' := by
  unfold SystemInstruction.encoding at he
  injection he with h0 h1 hn hm h2
  have hfields : (extractionsOf .msrImm).map (·.get w) =
      (extractionsOf .msrImm).map (·.get w') := by
    have himm : (w >>> 0) &&& (0x1F : BitVec 32) = (w' >>> 0) &&& (0x1F : BitVec 32) := by
      have hzero := (immediate_eq_zero h).trans (immediate_eq_zero h').symm
      rw [← setWidth_stored (w >>> 0 &&& 0x1F), ← setWidth_stored (w' >>> 0 &&& 0x1F)]
      exact congrArg (BitVec.setWidth 32) hzero
    simp only [extractionsOf, sysRegExtractions, Extraction.get, List.cons_append, List.nil_append,
      List.map_cons, List.map_nil, setWidth_field_inj (by decide) h0,
      setWidth_field_inj (by decide) h1, setWidth_field_inj (by decide) hn,
      setWidth_field_inj (by decide) hm, setWidth_field_inj (by decide) h2, himm]
  exact eq_of_agree h h' (by decide) ((agree_iff _ w w').mp hfields)

theorem decode_word (r : SysReg) :
    decodeSystemInstruction (r.word false 0) = fieldsOf .msrImm (r.word false 0) :=
  decode_msrSpace_x0 (word_msrSpace r 0) ((word_rtZero r 0).mpr rfl)

theorem encoding_eq_iff {w : BitVec 32} (h : (decodeSystemInstruction w).type = .msrImm)
    (r : SysReg) : (decodeSystemInstruction w).encoding = r.encoding ↔ w = r.word false 0 := by
  have hword := (fields_word_x0 r).1
  constructor
  · intro he
    have hfields : decodeSystemInstruction w = fieldsOf .msrImm w := by
      rw [decode_eq_fieldsOf w, h]
    rw [hfields, ← hword] at he
    refine eq_of_encoding (holds_of_decode_type (by decide) h) ?_ he
    exact holds_of_decode_type (by decide) (by rw [decode_word, fieldsOf_type])
  · rintro rfl
    rw [decode_word, hword]

end BackendLemmas

/-- `X0`. -/
def Gpr.x0 : Gpr := ⟨0, Nat.zero_lt_succ 30⟩

theorem Gpr.x0_eq : Gpr.x0 = 0 := rfl

/-- What the trapped word writes to the register: 0, if it is the one that
writes the register from `X0`. -/
def trapWrites (w : BitVec 32) (r : SysReg) : Option (BitVec 64) :=
  if r.writable ∧ w = r.word false .x0 then some 0 else none

/-- The same for an event, which may trap a word. -/
def eventWrites {ε : Type} (word : ε → Option (BitVec 32)) (e : ε) (r : SysReg) :
    Option (BitVec 64) :=
  (word e).bind (trapWrites · r)

namespace BackendLemmas

theorem get_trapped (self : SystemRegisterEmulator) (w : BitVec 32) (r : SysReg) :
    r.get (self.trapped w).state = (trapWrites w r).getD (r.get self.state) := by
  unfold trapped trapWrites
  rw [Gpr.x0_eq]
  by_cases hmsr : (decodeSystemInstruction w).type = .msrImm
  · rw [if_pos hmsr, write_eq, get_written]
    simp only [encoding_eq_iff hmsr]
    by_cases hw : r.writable <;> by_cases hr : w = r.word false 0 <;> simp [hw, hr]
  · have hne : ¬ (r.writable ∧ w = r.word false 0) := by
      rintro ⟨-, rfl⟩
      exact hmsr (by rw [decode_word, fieldsOf_type])
    rw [if_neg hmsr, if_neg hne, Option.getD_none]

end BackendLemmas

/-- The virtual CPU after the words have been trapped, in the order of time. -/
def Backend.traps (b : Backend) (vcpu : Vcpu) (ws : List (BitVec 32)) : Vcpu :=
  ws.foldl b.handle vcpu

/-- What the words `ws` make of the virtual CPU `start`. -/
structure TrapOutcome (b : Backend) (start : Vcpu) (ws : List (BitVec 32)) (finish : Vcpu) :
    Prop where
  system : ∀ r : SysReg, r.get finish.emulator.state =
    if r.writable ∧ r.word false 0 ∈ ws then 0 else r.get start.emulator.state
  gprs : finish.regs = start.regs
  pc : finish.pc =
    start.pc + 4 * BitVec.ofNat 64 (ws.countP fun w => b.advances (decodeSystemInstruction w).type)

namespace BackendLemmas

@[simp] theorem advance_emulator (vcpu : Vcpu) (ok : Bool) :
    (vcpu.advance ok).emulator = vcpu.emulator := by
  cases ok <;> rfl

@[simp] theorem advance_regs (vcpu : Vcpu) (ok : Bool) : (vcpu.advance ok).regs = vcpu.regs := by
  cases ok <;> rfl

theorem advance_pc (vcpu : Vcpu) (ok : Bool) :
    (vcpu.advance ok).pc = vcpu.pc + if ok then 4 else 0 := by
  cases ok
  · exact (BitVec.add_zero _).symm
  · rfl

theorem state_ext {s s' : ARM64SystemRegisterState} (h : ∀ r : SysReg, r.get s = r.get s') :
    s = s' := by
  cases s
  cases s'
  rw [ARM64SystemRegisterState.mk.injEq]
  exact ⟨h .sctlr, h .tcr, h .ttbr0, h .ttbr1, h .esr, h .far, h .elr, h .vbar, h .mpidr, h .midr⟩

theorem latest_eventWrites {ε : Type} (word : ε → Option (BitVec 32)) (r : SysReg)
    (es : List ε) :
    History.latest (eventWrites word) es r =
      if r.writable ∧ ∃ e ∈ es, word e = some (r.word false 0) then some 0 else none := by
  induction es with
  | nil => exact (if_neg (by simp)).symm
  | cons e es ih =>
    by_cases hw : r.writable ∧ word e = some (r.word false 0)
    · have hzero : eventWrites word e r = some 0 := by
        unfold eventWrites
        rw [hw.2]
        exact if_pos ⟨hw.1, rfl⟩
      rw [History.latest_cons_some hzero, if_pos ⟨hw.1, e, List.mem_cons_self, hw.2⟩]
    · have hnone : eventWrites word e r = none := by
        unfold eventWrites
        cases he : word e with
        | none => rfl
        | some w =>
          refine if_neg fun h => hw ⟨h.1, ?_⟩
          rw [he, h.2, Gpr.x0_eq]
      rw [History.latest_cons_none hnone, ih]
      refine ite_congr ?_ (fun _ => rfl) fun _ => rfl
      refine propext (and_congr_right fun hwritable => ?_)
      rw [List.exists_mem_cons_iff]
      exact (or_iff_right fun heq => hw ⟨hwritable, heq⟩).symm

end BackendLemmas

theorem traps_spec (b : Backend) (vcpu : Vcpu) (ws : List (BitVec 32)) :
    TrapOutcome b vcpu ws (b.traps vcpu ws) := by
  refine ⟨fun r => ?_, ?_, ?_⟩
  · have one (vcpu : Vcpu) (w : BitVec 32) : r.get (b.handle vcpu w).emulator.state =
        (eventWrites some w r).getD (r.get vcpu.emulator.state) := by
      rw [handle_eq, advance_emulator]
      exact get_trapped vcpu.emulator w r
    refine (History.foldl_latest (fun (vcpu : Vcpu) r => SysReg.get vcpu.emulator.state r)
      (eventWrites some) one ws vcpu).trans ?_
    rw [latest_eventWrites]
    simp only [List.mem_reverse, Option.some.injEq, exists_eq_right]
    split <;> rfl
  · induction ws generalizing vcpu with
    | nil => rfl
    | cons w ws ih =>
      refine (ih (b.handle vcpu w)).trans ?_
      rw [handle_eq, advance_regs]
  · induction ws generalizing vcpu with
    | nil => exact (BitVec.add_zero _).symm
    | cons w ws ih =>
      refine (ih (b.handle vcpu w)).trans ?_
      rw [handle_eq, advance_pc, List.countP_cons]
      cases b.advances (decodeSystemInstruction w).type
      · simp
      · simp only [if_true, BitVec.ofNat_add]
        rw [BitVec.mul_add, BitVec.add_assoc, BitVec.add_comm 4]
        rfl

/-- Trapped words do the same to the registers on every backend. The PCs part
where one backend advances and the other does not. -/
theorem backends_agree (b b' : Backend) (vcpu : Vcpu) {ws : List (BitVec 32)}
    (hlength : ws.length < 2 ^ 62) :
    (b.traps vcpu ws).registers = (b'.traps vcpu ws).registers ∧
      ((b.traps vcpu ws).pc = (b'.traps vcpu ws).pc ↔
        (ws.countP fun w => b.advances (decodeSystemInstruction w).type) =
          ws.countP fun w => b'.advances (decodeSystemInstruction w).type) := by
  have h := traps_spec b vcpu ws
  have h' := traps_spec b' vcpu ws
  refine ⟨Prod.ext ?_ (h.gprs.trans h'.gprs.symm), ?_⟩
  · exact state_ext fun r => (h.system r).trans (h'.system r).symm
  · rw [h.pc, h'.pc, BitVec.add_right_inj]
    generalize hn : List.countP _ ws = n
    generalize hn' : List.countP _ ws = n'
    have hle : n < 2 ^ 62 := (hn ▸ List.countP_le_length).trans_lt hlength
    have hle' : n' < 2 ^ 62 := (hn' ▸ List.countP_le_length).trans_lt hlength
    constructor
    · intro heq
      have htoNat := congrArg BitVec.toNat heq
      have hfour : (4 : BitVec 64).toNat = 4 := rfl
      rw [BitVec.toNat_mul, BitVec.toNat_mul, BitVec.toNat_ofNat, BitVec.toNat_ofNat,
        hfour] at htoNat
      omega
    · intro heq
      rw [heq]

/-- A write of `SCTLR_EL1`, a wait and a word that no arm accepts. -/
def sampleWords : List (BitVec 32) := [0xD5181000, 0xD503205F, 0]

def sampleVcpu : Vcpu := ⟨.new, fun _ => 5, 0x1000⟩

theorem backends_agree_sample :
    (Backend.kvm.traps sampleVcpu sampleWords).registers =
        (Backend.hvf.traps sampleVcpu sampleWords).registers ∧
      ((Backend.kvm.traps sampleVcpu sampleWords).pc =
          (Backend.hvf.traps sampleVcpu sampleWords).pc ↔
        (sampleWords.countP fun w => Backend.kvm.advances (decodeSystemInstruction w).type) =
          sampleWords.countP fun w => Backend.hvf.advances (decodeSystemInstruction w).type) :=
  backends_agree .kvm .hvf sampleVcpu (by decide)

end Acheron
