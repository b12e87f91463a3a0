import Acheron.Backends
import Acheron.Lib.EventLoop
import Acheron.MMUEmulator

/-!
# Runs of the backends

What a guest meets on a backend: first, one that only executes words that trap,
each at the PC that the handler has left; then, any guest, through the run loop
of the backend, which hands some of its exits to the handler.

Results:
1. `livelock_iff`: a straight line of trapping words ends in a livelock exactly
   when the backend does not advance over one of them. HVF never does.
2. `kvm_runLoop_outcome`, `hvf_runLoop_outcome`, `whp_runLoop_outcome`: what the
   run loops do, and which exits end them.
3. `guest_cannot_configure`: in any sequence of run loop calls, the only system
   register that a guest can change is `SCTLR_EL1`, and that to 0. Its MMU stays
   off.
-/

namespace Acheron

open BackendLemmas DecoderLemmas

/-! ## 1. Trapping code -/

namespace Backend

/-- The virtual CPU after `n` traps, by the words that `code` holds. -/
def runCode (b : Backend) (code : BitVec 64 → BitVec 32) (vcpu : Vcpu) : Nat → Vcpu
  | 0 => vcpu
  | n + 1 => b.handle (b.runCode code vcpu n) (code (b.runCode code vcpu n).pc)

/-- The word number `i` of the straight line that starts at `pc`. -/
def lineWord (code : BitVec 64 → BitVec 32) (pc : BitVec 64) (i : Nat) : BitVec 32 :=
  code (pc + 4 * BitVec.ofNat 64 i)

/-- The backend advances over the first `k` words of the line. -/
def Passes (b : Backend) (code : BitVec 64 → BitVec 32) (pc : BitVec 64) (k : Nat) : Prop :=
  ∀ i < k, b.advances (decodeSystemInstruction (lineWord code pc i)).type = true

/-- The backend advances over the first `k` words of the line and not over the
next one. -/
structure StuckAt (b : Backend) (code : BitVec 64 → BitVec 32) (pc : BitVec 64) (k : Nat) :
    Prop where
  passes : b.Passes code pc k
  blocked : b.advances (decodeSystemInstruction (lineWord code pc k)).type = false

end Backend

open Backend

/-- Where a backend does not advance, its handler does nothing at all. -/
theorem handle_of_blocked {b : Backend} {w : BitVec 32}
    (h : b.advances (decodeSystemInstruction w).type = false) (vcpu : Vcpu) :
    b.handle vcpu w = vcpu := by
  have hne : (decodeSystemInstruction w).type ≠ .msrImm := by
    intro hmsr
    rw [hmsr] at h
    cases b <;> cases h
  have hsame : vcpu.emulator.trapped w = vcpu.emulator := if_neg hne
  rw [handle_eq, h, hsame]
  rfl

namespace BackendLemmas

theorem traps_append_singleton (b : Backend) (vcpu : Vcpu) (ws : List (BitVec 32)) (w : BitVec 32) :
    b.traps vcpu (ws ++ [w]) = b.handle (b.traps vcpu ws) w := by
  unfold Backend.traps
  rw [List.foldl_append]
  rfl

/-- As long as the backend advances, it goes along the line. -/
theorem runCode_line {b : Backend} {code : BitVec 64 → BitVec 32} {vcpu : Vcpu} {k : Nat}
    (h : b.Passes code vcpu.pc k) :
    b.runCode code vcpu k = b.traps vcpu ((List.range k).map (lineWord code vcpu.pc)) ∧
      (b.runCode code vcpu k).pc = vcpu.pc + 4 * BitVec.ofNat 64 k := by
  induction k with
  | zero => exact ⟨rfl, (BitVec.add_zero _).symm⟩
  | succ k ih =>
    obtain ⟨hline, hpc⟩ := ih fun i hi => h i (Nat.lt_succ_of_lt hi)
    have hword : code (b.runCode code vcpu k).pc = lineWord code vcpu.pc k := by
      rw [hpc]
      rfl
    constructor
    · rw [List.range_succ, List.map_append, List.map_singleton, traps_append_singleton, ← hline,
        ← hword]
      rfl
    · show (b.handle (b.runCode code vcpu k) (code (b.runCode code vcpu k).pc)).pc = _
      rw [handle_eq, advance_pc, hword, h k (Nat.lt_succ_self k), if_pos rfl]
      show (b.runCode code vcpu k).pc + 4 = _
      rw [hpc, BitVec.ofNat_add, BitVec.mul_add, BitVec.add_assoc]
      rfl

/-- From a word over which the backend does not advance, nothing changes. -/
theorem runCode_stuck {b : Backend} {code : BitVec 64 → BitVec 32} {vcpu : Vcpu} {k : Nat}
    (h : b.StuckAt code vcpu.pc k) {n : Nat} (hn : k ≤ n) :
    b.runCode code vcpu n = b.runCode code vcpu k := by
  induction n, hn using Nat.le_induction with
  | base => rfl
  | succ n _ ih =>
    show b.handle (b.runCode code vcpu n) (code (b.runCode code vcpu n).pc) = _
    rw [ih, (runCode_line h.passes).2]
    exact handle_of_blocked h.blocked _

theorem passes_or_stuck (b : Backend) (code : BitVec 64 → BitVec 32) (pc : BitVec 64) :
    (∀ k, b.Passes code pc k) ∨ ∃ k, b.StuckAt code pc k := by
  by_cases hall : ∀ i, b.advances (decodeSystemInstruction (lineWord code pc i)).type = true
  · exact .inl fun k i _ => hall i
  · right
    have stop : ∃ i, b.advances (decodeSystemInstruction (lineWord code pc i)).type = false := by
      push Not at hall
      obtain ⟨i, hi⟩ := hall
      exact ⟨i, Bool.eq_false_iff.mpr hi⟩
    refine ⟨Nat.find stop, fun i hi => ?_, Nat.find_spec stop⟩
    exact Bool.eq_true_of_not_eq_false (Nat.find_min stop hi)

end BackendLemmas

/-- Where a line gets stuck, the virtual CPU keeps what the words before have
made of it. -/
theorem livelock_state {b : Backend} {code : BitVec 64 → BitVec 32} {vcpu : Vcpu} {k : Nat}
    (h : b.StuckAt code vcpu.pc k) {n : Nat} (hn : k ≤ n) :
    b.runCode code vcpu n = b.traps vcpu ((List.range k).map (lineWord code vcpu.pc)) :=
  (runCode_stuck h hn).trans (runCode_line h.passes).1

/-- The traps go on forever without any effect. -/
def Livelock (b : Backend) (code : BitVec 64 → BitVec 32) (vcpu : Vcpu) : Prop :=
  ∃ N, ∀ n ≥ N, b.runCode code vcpu n = b.runCode code vcpu N

theorem livelock_iff (b : Backend) (code : BitVec 64 → BitVec 32) (vcpu : Vcpu) :
    Livelock b code vcpu ↔ ∃ k, b.StuckAt code vcpu.pc k := by
  constructor
  · rintro ⟨N, hN⟩
    refine (passes_or_stuck b code vcpu.pc).resolve_left fun hall => ?_
    -- One more word would move the PC.
    have hnow := (runCode_line (hall N)).2
    have hnext := (runCode_line (hall (N + 1))).2
    rw [hN (N + 1) (Nat.le_succ N), hnow, BitVec.ofNat_add, BitVec.mul_add,
      ← BitVec.add_assoc] at hnext
    exact absurd (left_eq_add.mp hnext) (by decide)
  · rintro ⟨k, hk⟩
    exact ⟨k, fun n hn => runCode_stuck hk hn⟩

/-! ## 2. The run loops -/

/-- A return of the hypervisor to the run loop: the registers that the guest has
left behind, and what there is to do. As in the handlers, a trapped word is that
of the guest, where the source reads 0. -/
structure GuestExit (ρ : Type) where
  regs : GprFile
  pc : BitVec 64
  reason : ρ

/-- The virtual CPU when the guest has run up to the exit. -/
def Vcpu.resume {ρ : Type} (vcpu : Vcpu) (exit : GuestExit ρ) : Vcpu :=
  { vcpu with regs := exit.regs, pc := exit.pc }

/-- The results of `ioctl(vcpu_fd, KVM_RUN, 0)`: -1 with `errno` `EINTR` or
another one, and the exit reasons that the loop tells apart. -/
inductive KvmReason
  | interrupted
  | failed
  | exception (instrBytes : BitVec 32)
  | mmio
  | intr
  | shutdown
  | unknown
deriving DecidableEq, Repr

/-- `KVMIntegration::runLoop`, up to the exits that there have been. -/
def KVMIntegration.runLoop (vcpu : Vcpu) : List (GuestExit KvmReason) → EventLoop.Status Vcpu
  | [] => .running vcpu
  | exit :: exits =>
    let vcpu := vcpu.resume exit
    match exit.reason with
    | .interrupted => runLoop vcpu exits
    | .failed => .ended vcpu
    | .exception instrBytes => runLoop (vcpu.handleSystemRegisterTrap instrBytes) exits
    | .mmio => runLoop vcpu exits
    | .intr => runLoop vcpu exits
    | .shutdown => .ended vcpu
    | .unknown => .ended vcpu

/-- `ESR_EL1::getExceptionClass`. -/
def getExceptionClass (esr : BitVec 64) : BitVec 8 := ((esr >>> 26) &&& 0x3F).setWidth 8

/-- `ExceptionClass::SYSTEM_REGISTER_TRAP`. -/
def systemRegisterTrap : BitVec 8 := 0x05

/-- The results of `hv_vcpu_run`: an error, and the exit reasons. -/
inductive HvfReason
  | failed
  | exception (syndrome : BitVec 64) (instrBytes : BitVec 32)
  | vtimerActivated
  | other
deriving DecidableEq, Repr

/-- `HVFIntegration::runLoop`. The mask of the virtual timer is not part of the
registers. -/
def HVFIntegration.runLoop (vcpu : Vcpu) : List (GuestExit HvfReason) → EventLoop.Status Vcpu
  | [] => .running vcpu
  | exit :: exits =>
    let vcpu := vcpu.resume exit
    match exit.reason with
    | .failed => .ended vcpu
    | .exception syndrome instrBytes =>
      let ec : BitVec 32 := ((syndrome >>> 26) &&& 0x3F).setWidth 32
      if ec = systemRegisterTrap.setWidth 32 then
        runLoop (handleSystemRegisterTrap vcpu vcpu.pc instrBytes) exits
      else runLoop vcpu exits
    | .vtimerActivated => runLoop vcpu exits
    | .other => runLoop vcpu exits

/-- The results of `WHvRunVirtualProcessor`. -/
inductive WhpReason
  | failed
  | exception (instrBytes : BitVec 32)
  | other
deriving DecidableEq, Repr

/-- `WHPIntegration::runLoop`, which runs the guest once. The PC of the exit
context is that of the virtual CPU. -/
def WHPIntegration.runLoop (vcpu : Vcpu) (exit : GuestExit WhpReason) : Vcpu :=
  let vcpu := vcpu.resume exit
  match exit.reason with
  | .failed => vcpu
  | .exception instrBytes => handleSystemRegisterTrap vcpu vcpu.pc instrBytes
  | .other => vcpu

/-! ### What reaches the handler -/

/-- The word that the loop passes to the handler, if any. -/
def KvmReason.word : KvmReason → Option (BitVec 32)
  | exception instrBytes => some instrBytes
  | _ => none

def KvmReason.ends : KvmReason → Bool
  | failed | shutdown | unknown => true
  | _ => false

def HvfReason.word : HvfReason → Option (BitVec 32)
  | exception syndrome instrBytes =>
    if getExceptionClass syndrome = systemRegisterTrap then some instrBytes else none
  | _ => none

def HvfReason.ends : HvfReason → Bool
  | failed => true
  | _ => false

def WhpReason.word : WhpReason → Option (BitVec 32)
  | exception instrBytes => some instrBytes
  | _ => none

/-- An exit in a loop of the backend `b`. -/
def Backend.onExit {ρ : Type} (b : Backend) (word : ρ → Option (BitVec 32)) (vcpu : Vcpu)
    (exit : GuestExit ρ) : Vcpu :=
  match word exit.reason with
  | some w => b.handle (vcpu.resume exit) w
  | none => vcpu.resume exit

namespace BackendLemmas

theorem kvm_runLoop_eq (vcpu : Vcpu) (exits : List (GuestExit KvmReason)) :
    KVMIntegration.runLoop vcpu exits =
      EventLoop.run (Backend.kvm.onExit KvmReason.word) (fun exit => exit.reason.ends) vcpu
        exits := by
  induction exits generalizing vcpu with
  | nil => rfl
  | cons exit exits ih =>
    obtain ⟨regs, pc, reason⟩ := exit
    cases reason with
    | failed | shutdown | unknown => rfl
    | interrupted | mmio | intr | exception _ => exact ih _

theorem class_eq_iff (syndrome : BitVec 64) :
    (((syndrome >>> 26) &&& 0x3F).setWidth 32 : BitVec 32) = systemRegisterTrap.setWidth 32 ↔
      getExceptionClass syndrome = systemRegisterTrap := by
  have hlt : (syndrome >>> 26 &&& 0x3F).toNat < 2 ^ 6 := by
    rw [BitVec.toNat_and]
    exact Nat.and_lt_two_pow _ (by decide)
  have hcode : systemRegisterTrap.toNat = 5 := rfl
  unfold getExceptionClass
  rw [← BitVec.toNat_inj, ← BitVec.toNat_inj, BitVec.toNat_setWidth, BitVec.toNat_setWidth,
    BitVec.toNat_setWidth, hcode]
  omega

theorem hvf_runLoop_eq (vcpu : Vcpu) (exits : List (GuestExit HvfReason)) :
    HVFIntegration.runLoop vcpu exits =
      EventLoop.run (Backend.hvf.onExit HvfReason.word) (fun exit => exit.reason.ends) vcpu
        exits := by
  induction exits generalizing vcpu with
  | nil => rfl
  | cons exit exits ih =>
    obtain ⟨regs, pc, reason⟩ := exit
    cases reason with
    | failed => rfl
    | vtimerActivated | other => exact ih _
    | exception syndrome instrBytes =>
      unfold HVFIntegration.runLoop EventLoop.run Backend.onExit HvfReason.word
      dsimp only
      simp only [class_eq_iff]
      by_cases hclass : getExceptionClass syndrome = systemRegisterTrap
      · rw [if_pos hclass, if_pos hclass]
        exact ih _
      · rw [if_neg hclass, if_neg hclass]
        exact ih _

end BackendLemmas

/-- The PC after the exit: that of the guest, or past the trapped word. -/
def Backend.pcAfter {ρ : Type} (b : Backend) (word : ρ → Option (BitVec 32))
    (exit : GuestExit ρ) : BitVec 64 :=
  match word exit.reason with
  | some w => exit.pc + if b.advances (decodeSystemInstruction w).type then 4 else 0
  | none => exit.pc

/-- What the exits, in the order of time, make of the virtual CPU `start`. -/
structure LoopOutcome {ρ : Type} (b : Backend) (word : ρ → Option (BitVec 32)) (start : Vcpu)
    (exits : List (GuestExit ρ)) (finish : Vcpu) : Prop where
  system : ∀ r : SysReg, r.get finish.emulator.state =
    if r.writable ∧ ∃ exit ∈ exits, word exit.reason = some (r.word false 0) then 0
    else r.get start.emulator.state
  gprs : finish.regs = exits.getLast?.elim start.regs (·.regs)
  pc : finish.pc = exits.getLast?.elim start.pc (b.pcAfter word)

namespace BackendLemmas

variable {ρ : Type} (b : Backend) (word : ρ → Option (BitVec 32))

theorem get_onExit (vcpu : Vcpu) (exit : GuestExit ρ) (r : SysReg) :
    r.get (b.onExit word vcpu exit).emulator.state =
      (eventWrites (fun exit : GuestExit ρ => word exit.reason) exit r).getD
        (r.get vcpu.emulator.state) := by
  have hevent : eventWrites (fun exit : GuestExit ρ => word exit.reason) exit r =
      (word exit.reason).bind (trapWrites · r) := rfl
  unfold Backend.onExit
  rw [hevent]
  cases hword : word exit.reason with
  | none => rfl
  | some w =>
    dsimp only [Option.bind_some]
    rw [handle_eq, advance_emulator]
    exact get_trapped vcpu.emulator w r

theorem regs_onExit (vcpu : Vcpu) (exit : GuestExit ρ) :
    (b.onExit word vcpu exit).regs = exit.regs := by
  unfold Backend.onExit
  cases hword : word exit.reason with
  | none => rfl
  | some w =>
    dsimp only
    rw [handle_eq, advance_regs]
    rfl

theorem pc_onExit (vcpu : Vcpu) (exit : GuestExit ρ) :
    (b.onExit word vcpu exit).pc = b.pcAfter word exit := by
  unfold Backend.onExit Backend.pcAfter
  cases hword : word exit.reason with
  | none => rfl
  | some w =>
    dsimp only
    rw [handle_eq, advance_pc]
    rfl

/-- The registers come from the last exit, the emulator from all of them. -/
theorem loopOutcome_foldl (vcpu : Vcpu) (exits : List (GuestExit ρ)) :
    LoopOutcome b word vcpu exits (exits.foldl (b.onExit word) vcpu) := by
  refine ⟨fun r => ?_, ?_, ?_⟩
  · refine (History.foldl_latest (fun (vcpu : Vcpu) r => SysReg.get vcpu.emulator.state r)
      (eventWrites fun exit : GuestExit ρ => word exit.reason)
      (fun vcpu exit => get_onExit b word vcpu exit r) exits vcpu).trans ?_
    rw [latest_eventWrites]
    simp only [List.mem_reverse]
    split <;> rfl
  · induction exits using List.reverseRecOn with
    | nil => rfl
    | append_singleton exits exit _ =>
      rw [List.foldl_append, List.getLast?_concat]
      exact regs_onExit b word _ exit
  · induction exits using List.reverseRecOn with
    | nil => rfl
    | append_singleton exits exit _ =>
      rw [List.foldl_append, List.getLast?_concat]
      exact pc_onExit b word _ exit

theorem loopOutcome_run (ends : GuestExit ρ → Bool) (vcpu : Vcpu) (exits : List (GuestExit ρ)) :
    LoopOutcome b word vcpu (EventLoop.taken ends exits)
      (EventLoop.run (b.onExit word) ends vcpu exits).state := by
  rw [(EventLoop.run_eq (b.onExit word) ends vcpu exits).1]
  exact loopOutcome_foldl b word vcpu _

end BackendLemmas

theorem kvm_runLoop_outcome (vcpu : Vcpu) (exits : List (GuestExit KvmReason)) :
    LoopOutcome .kvm KvmReason.word vcpu (EventLoop.taken (fun exit => exit.reason.ends) exits)
        (KVMIntegration.runLoop vcpu exits).state ∧
      ((KVMIntegration.runLoop vcpu exits).isRunning = true ↔
        ∀ exit ∈ exits, exit.reason.ends = false) := by
  rw [kvm_runLoop_eq]
  exact ⟨loopOutcome_run .kvm KvmReason.word _ vcpu exits, (EventLoop.run_eq _ _ vcpu exits).2⟩

theorem hvf_runLoop_outcome (vcpu : Vcpu) (exits : List (GuestExit HvfReason)) :
    LoopOutcome .hvf HvfReason.word vcpu (EventLoop.taken (fun exit => exit.reason.ends) exits)
        (HVFIntegration.runLoop vcpu exits).state ∧
      ((HVFIntegration.runLoop vcpu exits).isRunning = true ↔
        ∀ exit ∈ exits, exit.reason.ends = false) := by
  rw [hvf_runLoop_eq]
  exact ⟨loopOutcome_run .hvf HvfReason.word _ vcpu exits, (EventLoop.run_eq _ _ vcpu exits).2⟩

theorem whp_runLoop_outcome (vcpu : Vcpu) (exit : GuestExit WhpReason) :
    LoopOutcome .whp WhpReason.word vcpu [exit] (WHPIntegration.runLoop vcpu exit) := by
  have hloop : WHPIntegration.runLoop vcpu exit =
      [exit].foldl (Backend.whp.onExit WhpReason.word) vcpu := by
    obtain ⟨regs, pc, reason⟩ := exit
    cases reason <;> rfl
  rw [hloop]
  exact loopOutcome_foldl .whp WhpReason.word vcpu [exit]

/-! ## 3. Guests and their MMU -/

/-- One call of a run loop, whatever the guest does in it. -/
inductive LoopCall (vcpu : Vcpu) : Vcpu → Prop
  | kvm (exits : List (GuestExit KvmReason)) :
      LoopCall vcpu (KVMIntegration.runLoop vcpu exits).state
  | hvf (exits : List (GuestExit HvfReason)) :
      LoopCall vcpu (HVFIntegration.runLoop vcpu exits).state
  | whp (exit : GuestExit WhpReason) : LoopCall vcpu (WHPIntegration.runLoop vcpu exit)

/-- The only change that a guest can make to the system registers. -/
def sctlrCleared : ARM64SystemRegisterState := { ARM64SystemRegisterState.reset with sctlrEl1 := 0 }

namespace BackendLemmas

/-- Outside `SCTLR_EL1`, what is writable is 0 from the start. -/
theorem get_reset {r : SysReg} (hw : r.writable = true) (hr : r ≠ .sctlr) :
    r.get .reset = 0 := by
  cases r <;> first | rfl | exact absurd rfl hr | cases hw

end BackendLemmas

theorem LoopOutcome.keeps {ρ : Type} {b : Backend} {word : ρ → Option (BitVec 32)}
    {start finish : Vcpu} {exits : List (GuestExit ρ)}
    (h : LoopOutcome b word start exits finish)
    (hstart : start.emulator.state = .reset ∨ start.emulator.state = sctlrCleared) :
    finish.emulator.state = .reset ∨ finish.emulator.state = sctlrCleared := by
  have others (r : SysReg) (hr : r ≠ .sctlr) : r.get finish.emulator.state = r.get .reset := by
    have hold : r.get start.emulator.state = r.get .reset := by
      rcases hstart with hs | hs <;> rw [hs]
      cases r <;> first | rfl | exact absurd rfl hr
    rw [h.system r, hold]
    split
    · next hw => exact (get_reset hw.1 hr).symm
    · rfl
  have eqOf (s : ARM64SystemRegisterState) (hs : ∀ r : SysReg, r ≠ .sctlr → r.get s = r.get .reset)
      (hsctlr : SysReg.sctlr.get finish.emulator.state = SysReg.sctlr.get s) :
      finish.emulator.state = s := by
    refine state_ext fun r => ?_
    by_cases hr : r = .sctlr
    · rw [hr, hsctlr]
    · rw [others r hr, hs r hr]
  have hcleared (r : SysReg) (hr : r ≠ .sctlr) : r.get sctlrCleared = r.get .reset := by
    cases r <;> first | rfl | exact absurd rfl hr
  have hsctlr := h.system .sctlr
  split at hsctlr
  · exact .inr (eqOf sctlrCleared hcleared hsctlr)
  · rcases hstart with hs | hs
    · exact .inl (eqOf .reset (fun _ _ => rfl) (by rw [hsctlr, hs]))
    · exact .inr (eqOf sctlrCleared hcleared (by rw [hsctlr, hs]))

/-- Whatever it does, a guest leaves the system registers at reset or clears
`SCTLR_EL1`. Its MMU stays off. -/
theorem guest_cannot_configure {start finish : Vcpu} (hnew : start.emulator = .new)
    (hcalls : Relation.ReflTransGen LoopCall start finish) (m : MMUEmulator) :
    (finish.emulator.state = .reset ∨ finish.emulator.state = sctlrCleared) ∧
      m.isMmuEnabled (SysReg.sctlr.get finish.emulator.state) = false := by
  have hstate : finish.emulator.state = .reset ∨ finish.emulator.state = sctlrCleared := by
    induction hcalls with
    | refl =>
      rw [hnew]
      exact .inl rfl
    | tail _ hcall ih =>
      cases hcall with
      | kvm exits =>
        rw [kvm_runLoop_eq]
        exact (loopOutcome_run .kvm KvmReason.word _ _ exits).keeps ih
      | hvf exits =>
        rw [hvf_runLoop_eq]
        exact (loopOutcome_run .hvf HvfReason.word _ _ exits).keeps ih
      | whp exit => exact (whp_runLoop_outcome _ exit).keeps ih
  refine ⟨hstate, ?_⟩
  rcases hstate with hs | hs <;> rw [hs] <;> rfl

/-- A guest that sets bit 0 of `SCTLR_EL1`, and then halts. -/
def sampleExits : List (GuestExit KvmReason) :=
  [⟨fun _ => 1, 0x1000, .exception (SysReg.sctlr.word false .x0)⟩, ⟨fun _ => 1, 0x1004, .shutdown⟩]

theorem guest_cannot_configure_sample :
    ((KVMIntegration.runLoop sampleVcpu sampleExits).state.emulator.state = .reset ∨
        (KVMIntegration.runLoop sampleVcpu sampleExits).state.emulator.state = sctlrCleared) ∧
      ({} : MMUEmulator).isMmuEnabled
        (SysReg.sctlr.get (KVMIntegration.runLoop sampleVcpu sampleExits).state.emulator.state) =
          false :=
  have hnew : sampleVcpu.emulator = .new := rfl
  guest_cannot_configure hnew (.single (.kvm sampleExits)) {}

end Acheron
