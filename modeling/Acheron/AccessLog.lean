import Acheron.Lib.SelfDelimiting
import Acheron.RegisterFile
import Acheron.RegisterNames

/-!
# The log of the emulator

The emulator prints most writes on its output, with the name of the register and
the value in hexadecimal, and the reads of unknown registers on its error
stream. It prints what the guest asks for, before it is known whether there is
such a register.

Results:
1. `stdout_eq`, `stderr_eq`: the two streams as sequences of lines.
2. `log_determines`: the output of a run tells exactly which writes it has made,
   except for those to `ESR_EL1`, `FAR_EL1` and `ELR_EL1`, and so what all other
   registers hold.
-/

namespace Acheron

open Decimal Delimited NameLemmas SystemRegisterEmulator

/-! ## 1. What is printed -/

/-- `std::hex << value`. -/
def hex (value : BitVec 64) : String := String.ofList (Nat.toDigits 16 value.toNat)

/-- What `writeSystemRegister` prints on `std::cout`. -/
def printedWrite (op0 op1 crn crm op2 : BitVec 8) (value : BitVec 64) : String :=
  if op0 = 0b11 ∧ op1 = 0b000 ∧ crn = 0b0001 ∧ crm = 0b0000 ∧ op2 = 0b000 then
    "[SystemRegisterEmulator] MSR SCTLR_EL1 = 0x" ++ hex value ++ "\n"
  else if op0 = 0b11 ∧ op1 = 0b000 ∧ crn = 0b0010 ∧ crm = 0b0000 ∧ op2 = 0b010 then
    "[SystemRegisterEmulator] MSR TCR_EL1 = 0x" ++ hex value ++ "\n"
  else if op0 = 0b11 ∧ op1 = 0b000 ∧ crn = 0b0010 ∧ crm = 0b0000 ∧ op2 = 0b000 then
    "[SystemRegisterEmulator] MSR TTBR0_EL1 = 0x" ++ hex value ++ "\n"
  else if op0 = 0b11 ∧ op1 = 0b000 ∧ crn = 0b0010 ∧ crm = 0b0000 ∧ op2 = 0b001 then
    "[SystemRegisterEmulator] MSR TTBR1_EL1 = 0x" ++ hex value ++ "\n"
  else if op0 = 0b11 ∧ op1 = 0b000 ∧ crn = 0b0101 ∧ crm = 0b0010 ∧ op2 = 0b000 then ""
  else if op0 = 0b11 ∧ op1 = 0b000 ∧ crn = 0b0110 ∧ crm = 0b0000 ∧ op2 = 0b000 then ""
  else if op0 = 0b11 ∧ op1 = 0b000 ∧ crn = 0b0100 ∧ crm = 0b0000 ∧ op2 = 0b001 then ""
  else if op0 = 0b11 ∧ op1 = 0b000 ∧ crn = 0b1100 ∧ crm = 0b0000 ∧ op2 = 0b000 then
    "[SystemRegisterEmulator] MSR VBAR_EL1 = 0x" ++ hex value ++ "\n"
  else
    "[SystemRegisterEmulator] MSR " ++ getSystemRegisterName op0 op1 crn crm op2 ++ " = 0x" ++
      hex value ++ "\n"

/-- What `readSystemRegister` prints on `std::cerr`. -/
def printedRead (self : SystemRegisterEmulator) (op0 op1 crn crm op2 : BitVec 8) : String :=
  match self.readSystemRegister op0 op1 crn crm op2 with
  | some _ => ""
  | none =>
    "[SystemRegisterEmulator] Unknown MRS: " ++ getSystemRegisterName op0 op1 crn crm op2 ++ "\n"

/-- The line for a write. -/
def writeLine (name : String) (value : BitVec 64) : String :=
  "[SystemRegisterEmulator] MSR " ++ name ++ " = 0x" ++ hex value ++ "\n"

/-- The line for a read that fails. -/
def readLine (name : String) : String :=
  "[SystemRegisterEmulator] Unknown MRS: " ++ name ++ "\n"

/-- The registers whose writes are not printed. -/
def SysReg.quiet : SysReg → Bool
  | esr | far | elr => true
  | _ => false

/-- Writes to the encoding are printed. -/
def Encoding.logged (e : Encoding) : Bool := (SysReg.named e).all fun r => !r.quiet

namespace LogLemmas

theorem printedWrite_eq (e : Encoding) (value : BitVec 64) :
    printedWrite e.op0 e.op1 e.crn e.crm e.op2 value =
      if e.logged then writeLine e.name value else "" := by
  cases hn : SysReg.named e with
  | some r =>
    obtain rfl := SysReg.named_eq_some.mp hn
    rw [name_encoding]
    cases r <;> rfl
  | none =>
    have miss := guard_miss hn
    have hlogged : e.logged = true := by
      unfold Encoding.logged
      rw [hn]
      rfl
    rw [if_pos hlogged]
    unfold printedWrite
    refine (if_neg (miss .sctlr)).trans ?_
    refine (if_neg (miss .tcr)).trans ?_
    refine (if_neg (miss .ttbr0)).trans ?_
    refine (if_neg (miss .ttbr1)).trans ?_
    refine (if_neg (miss .esr)).trans ?_
    refine (if_neg (miss .far)).trans ?_
    refine (if_neg (miss .elr)).trans ?_
    exact if_neg (miss .vbar)

example : printedWrite 3 0 1 0 0 0x1005 =
    "[SystemRegisterEmulator] MSR SCTLR_EL1 = 0x1005\n" := by decide

theorem printedRead_eq (self : SystemRegisterEmulator) (e : Encoding) :
    printedRead self e.op0 e.op1 e.crn e.crm e.op2 =
      if (SysReg.named e).isNone then readLine e.name else "" := by
  have hread : self.readSystemRegister e.op0 e.op1 e.crn e.crm e.op2 =
      (SysReg.named e).map (SysReg.get self.state) := read_eq self e
  unfold printedRead
  rw [hread]
  cases SysReg.named e <;> rfl

end LogLemmas

/-! ## 2. The streams of a run -/

namespace RegOp

/-- The write that the operation asks for. -/
def writeCall : RegOp → Option (Encoding × BitVec 64)
  | writeSystemRegister e value => some (e, value)
  | emulateMSR i gprs => (i.msrValue gprs).map fun value => (i.encoding, value)
  | _ => none

/-- The read that the operation asks for. -/
def readCall : RegOp → Option Encoding
  | readSystemRegister e => some e
  | emulateMRS i _ => if i.type = .mrsReg then some i.encoding else none
  | _ => none

/-- What the operation prints on `std::cout`. -/
def stdout (op : RegOp) : String :=
  match op.writeCall with
  | some (e, value) => printedWrite e.op0 e.op1 e.crn e.crm e.op2 value
  | none => ""

/-- What the operation prints on `std::cerr`. -/
def stderr (self : SystemRegisterEmulator) (op : RegOp) : String :=
  match op.readCall with
  | some e => printedRead self e.op0 e.op1 e.crn e.crm e.op2
  | none => ""

/-- What a sequence of operations prints on the two streams. -/
def output (self : SystemRegisterEmulator) : List RegOp → String × String
  | [] => ("", "")
  | op :: ops =>
    let (out, err) := output (op.apply self) ops
    (op.stdout ++ out, op.stderr self ++ err)

/-- The write of the operation, if it is printed. -/
def loggedWrite (op : RegOp) : Option (Encoding × BitVec 64) := op.writeCall.filter (·.1.logged)

/-- The read of the operation, if it fails. -/
def failedRead (op : RegOp) : Option Encoding :=
  op.readCall.filter fun e => (SysReg.named e).isNone

end RegOp

namespace LogLemmas

theorem stdout_line (op : RegOp) :
    op.stdout.toList = op.loggedWrite.toList.flatMap fun p => (writeLine p.1.name p.2).toList := by
  unfold RegOp.stdout RegOp.loggedWrite
  cases op.writeCall with
  | none => rfl
  | some p =>
    obtain ⟨e, value⟩ := p
    dsimp only
    rw [printedWrite_eq, Option.filter_some]
    split <;> simp

theorem stderr_line (self : SystemRegisterEmulator) (op : RegOp) :
    (op.stderr self).toList = op.failedRead.toList.flatMap fun e => (readLine e.name).toList := by
  unfold RegOp.stderr RegOp.failedRead
  cases op.readCall with
  | none => rfl
  | some e =>
    dsimp only
    rw [printedRead_eq, Option.filter_some]
    split <;> simp

end LogLemmas

open LogLemmas

theorem stdout_eq (self : SystemRegisterEmulator) (ops : List RegOp) :
    (RegOp.output self ops).1.toList =
      (ops.filterMap RegOp.loggedWrite).flatMap fun p => (writeLine p.1.name p.2).toList := by
  induction ops generalizing self with
  | nil => rfl
  | cons op ops ih =>
    show (op.stdout ++ (RegOp.output (op.apply self) ops).1).toList = _
    rw [String.toList_append, ih, stdout_line, ← List.flatMap_append]
    cases hop : op.loggedWrite with
    | none => rw [List.filterMap_cons_none hop]; rfl
    | some p => rw [List.filterMap_cons_some hop]; rfl

theorem stderr_eq (self : SystemRegisterEmulator) (ops : List RegOp) :
    (RegOp.output self ops).2.toList =
      (ops.filterMap RegOp.failedRead).flatMap fun e => (readLine e.name).toList := by
  induction ops generalizing self with
  | nil => rfl
  | cons op ops ih =>
    show (op.stderr self ++ (RegOp.output (op.apply self) ops).2).toList = _
    rw [String.toList_append, ih, stderr_line, ← List.flatMap_append]
    cases hop : op.failedRead with
    | none => rw [List.filterMap_cons_none hop]; rfl
    | some e => rw [List.filterMap_cons_some hop]; rfl

/-! ## 3. Reading the log -/

namespace LogLemmas

/-- No name contains a character that ends one in a line. -/
theorem plain_name {c : Char} (hc : c = ' ' ∨ c = '\n') (e : Encoding) : c ∉ e.name.toList := by
  have table : ∀ row ∈ guardedNames, ' ' ∉ row.2.toList ∧ '\n' ∉ row.2.toList := by decide
  rw [systemRegisterName_eq]
  cases hs : guardedNames.lookup e with
  | some s =>
    obtain ⟨hspace, hline⟩ := table _ (mem_of_lookup hs)
    rcases hc with rfl | rfl
    · exact hspace
    · exact hline
  | none =>
    rw [Option.getD_none, String.toList_ofList]
    intro hmem
    rcases mem_render hmem with hformat | hdigit
    · rcases hc with rfl | rfl <;> exact absurd hformat (by decide)
    · rcases hc with rfl | rfl <;> cases hdigit

theorem plain_hex (value : BitVec 64) : '\n' ∉ (hex value).toList := by
  unfold hex
  rw [String.toList_ofList]
  intro hmem
  obtain ⟨d, hd, hc⟩ := mem_toDigits (by decide) hmem
  have digits : ∀ d < 16, '\n' ≠ Nat.digitChar d := by decide
  exact digits d hd hc

theorem hex_injective : Function.Injective fun value => (hex value).toList := by
  intro value value' h
  unfold hex at h
  dsimp only at h
  rw [String.toList_ofList, String.toList_ofList] at h
  exact BitVec.eq_of_toNat_eq (toDigits_injective (by decide) (Nat.le_refl 16) h)

theorem nameList_injective : Function.Injective fun e : Encoding => e.name.toList :=
  fun _ _ h => name_injective (String.toList_inj.mp h)

theorem writeLine_delimited :
    SelfDelimiting fun p : Encoding × BitVec 64 => (writeLine p.1.name p.2).toList := by
  have hline (p : Encoding × BitVec 64) : (writeLine p.1.name p.2).toList =
      "[SystemRegisterEmulator] MSR ".toList ++
        ((p.1.name.toList ++ [' ']) ++ (['=', ' ', '0', 'x'] ++ ((hex p.2).toList ++ ['\n']))) := by
    unfold writeLine
    simp only [String.toList_append, List.append_assoc]
    rfl
  simp only [hline]
  exact opening (pair (of_stop nameList_injective (plain_name (.inl rfl)))
    (opening (of_stop hex_injective plain_hex) _)) _

theorem readLine_delimited : SelfDelimiting fun e : Encoding => (readLine e.name).toList := by
  have hline (e : Encoding) : (readLine e.name).toList =
      "[SystemRegisterEmulator] Unknown MRS: ".toList ++ (e.name.toList ++ ['\n']) := by
    unfold readLine
    simp only [String.toList_append, List.append_assoc]
    rfl
  simp only [hline]
  exact opening (of_stop nameList_injective (plain_name (.inr rfl))) _

theorem writeLine_ne_nil (name : String) (value : BitVec 64) :
    (writeLine name value).toList ≠ [] := by
  unfold writeLine
  simp [String.toList_append]

theorem readLine_ne_nil (name : String) : (readLine name).toList ≠ [] := by
  unfold readLine
  simp [String.toList_append]

/-- What is written to a register that is not quiet is in the log. -/
theorem writes_of_logged {r : SysReg} (hr : r.quiet = false) (op : RegOp) :
    op.writes r.encoding =
      op.loggedWrite.bind fun p => if p.1 = r.encoding then some p.2 else none := by
  have hlogged : r.encoding.logged = true := by cases r <;> first | rfl | cases hr
  have filtered (p : Encoding × BitVec 64) : (if p.1 = r.encoding then some p.2 else none) =
      ((some p).filter (·.1.logged)).bind fun p => if p.1 = r.encoding then some p.2 else none := by
    by_cases he : p.1 = r.encoding
    · rw [Option.filter_some, he, if_pos hlogged, Option.bind_some, he]
    · rw [Option.filter_some, if_neg he]
      split
      · rw [Option.bind_some, if_neg he]
      · rfl
  unfold RegOp.loggedWrite
  cases op with
  | writeSystemRegister e value => exact filtered (e, value)
  | emulateMSR i gprs =>
    unfold RegOp.writes RegOp.writeCall
    dsimp only
    cases i.msrValue gprs with
    | none => split <;> rfl
    | some value => exact filtered (i.encoding, value)
  | handleExceptionEntry pc esr far => cases r <;> first | rfl | cases hr
  | readSystemRegister _ | emulateMRS _ _ | handleExceptionReturn => rfl

end LogLemmas

/-- What two runs of a new emulator have in common if they print the same. -/
structure LogDetermines (ops ops' : List RegOp) : Prop where
  writes : (RegOp.output new ops).1 = (RegOp.output new ops').1 ↔
    ops.filterMap RegOp.loggedWrite = ops'.filterMap RegOp.loggedWrite
  reads : (RegOp.output new ops).2 = (RegOp.output new ops').2 ↔
    ops.filterMap RegOp.failedRead = ops'.filterMap RegOp.failedRead
  registers : (RegOp.output new ops).1 = (RegOp.output new ops').1 →
    ∀ r : SysReg, r.quiet = false →
      r.get (RegOp.run ops).state = r.get (RegOp.run ops').state

theorem log_determines (ops ops' : List RegOp) : LogDetermines ops ops' := by
  have hwrites : (RegOp.output new ops).1 = (RegOp.output new ops').1 ↔
      ops.filterMap RegOp.loggedWrite = ops'.filterMap RegOp.loggedWrite := by
    rw [← String.toList_inj, stdout_eq, stdout_eq]
    exact (flatMap_injective writeLine_delimited fun p => writeLine_ne_nil p.1.name p.2).eq_iff
  refine ⟨hwrites, ?_, fun hout r hr => ?_⟩
  · rw [← String.toList_inj, stderr_eq, stderr_eq]
    exact (flatMap_injective readLine_delimited fun e => readLine_ne_nil e.name).eq_iff
  · have hlast (ops : List RegOp) : RegOp.lastWrite ops r.encoding =
        (ops.filterMap RegOp.loggedWrite).reverse.findSome? fun p =>
          if p.1 = r.encoding then some p.2 else none := by
      rw [← List.filterMap_reverse, ← List.head?_filterMap, List.filterMap_filterMap,
        List.head?_filterMap]
      unfold RegOp.lastWrite History.latest
      simp only [writes_of_logged hr]
    rw [get_run, get_run, hlast, hlast, hwrites.mp hout]

end Acheron
