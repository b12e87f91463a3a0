import Acheron.SystemRegisters
import Acheron.Lib.Decimal

/-!
# Register names

`getSystemRegisterName` has names of its own for twelve encodings and prints
the five numbers of any other. The guards of its chain, of the read chain and
of the write chain are written out three times.

Results:
1. `systemRegisterName_eq`: the chain is a lookup in a table.
2. `register_names`: different encodings have different names, and a register
   can be read and written exactly under the name of its field.
-/

namespace Acheron

open Decimal

/-! ## 1. The chain -/

/-- `snprintf` into a buffer of the given size, which ends the text with a NUL,
for arguments that are not negative. -/
def snprintf (size : Nat) (format : String) (args : List Nat) : String :=
  String.ofList ((render format.toList args).take (size - 1))

def getSystemRegisterName (op0 op1 crn crm op2 : BitVec 8) : String :=
  if op0 = 0b11 ∧ op1 = 0b000 ∧ crn = 0b0001 ∧ crm = 0b0000 ∧ op2 = 0b000 then "SCTLR_EL1"
  else if op0 = 0b11 ∧ op1 = 0b000 ∧ crn = 0b0010 ∧ crm = 0b0000 ∧ op2 = 0b010 then "TCR_EL1"
  else if op0 = 0b11 ∧ op1 = 0b000 ∧ crn = 0b0010 ∧ crm = 0b0000 ∧ op2 = 0b000 then "TTBR0_EL1"
  else if op0 = 0b11 ∧ op1 = 0b000 ∧ crn = 0b0010 ∧ crm = 0b0000 ∧ op2 = 0b001 then "TTBR1_EL1"
  else if op0 = 0b11 ∧ op1 = 0b000 ∧ crn = 0b0101 ∧ crm = 0b0010 ∧ op2 = 0b000 then "ESR_EL1"
  else if op0 = 0b11 ∧ op1 = 0b000 ∧ crn = 0b0110 ∧ crm = 0b0000 ∧ op2 = 0b000 then "FAR_EL1"
  else if op0 = 0b11 ∧ op1 = 0b000 ∧ crn = 0b0100 ∧ crm = 0b0000 ∧ op2 = 0b001 then "ELR_EL1"
  else if op0 = 0b11 ∧ op1 = 0b000 ∧ crn = 0b1100 ∧ crm = 0b0000 ∧ op2 = 0b000 then "VBAR_EL1"
  else if op0 = 0b11 ∧ op1 = 0b000 ∧ crn = 0b0000 ∧ crm = 0b0000 ∧ op2 = 0b101 then "MPIDR_EL1"
  else if op0 = 0b11 ∧ op1 = 0b000 ∧ crn = 0b0000 ∧ crm = 0b0000 ∧ op2 = 0b000 then "MIDR_EL1"
  else if op0 = 0b11 ∧ op1 = 0b100 ∧ crn = 0b0001 ∧ crm = 0b0000 ∧ op2 = 0b000 then "SCTLR_EL2"
  else if op0 = 0b11 ∧ op1 = 0b100 ∧ crn = 0b0001 ∧ crm = 0b0001 ∧ op2 = 0b000 then "HCR_EL2"
  else
    snprintf 64 "S%d_%d_C%d_C%d_%d" [op0.toNat, op1.toNat, crn.toNat, crm.toNat, op2.toNat]

namespace Encoding

/-- The arguments of the format. -/
def numbers (e : Encoding) : List Nat :=
  [e.op0.toNat, e.op1.toNat, e.crn.toNat, e.crm.toNat, e.op2.toNat]

/-- The text of the format, before it is cut to the buffer. -/
def text (e : Encoding) : List Char := render "S%d_%d_C%d_C%d_%d".toList e.numbers

/-- `getSystemRegisterName` on an encoding. -/
def name (e : Encoding) : String := getSystemRegisterName e.op0 e.op1 e.crn e.crm e.op2

end Encoding

/-- The names with a guard of their own. -/
def guardedNames : List (Encoding × String) :=
  [(⟨3, 0, 1, 0, 0⟩, "SCTLR_EL1"), (⟨3, 0, 2, 0, 2⟩, "TCR_EL1"), (⟨3, 0, 2, 0, 0⟩, "TTBR0_EL1"),
    (⟨3, 0, 2, 0, 1⟩, "TTBR1_EL1"), (⟨3, 0, 5, 2, 0⟩, "ESR_EL1"), (⟨3, 0, 6, 0, 0⟩, "FAR_EL1"),
    (⟨3, 0, 4, 0, 1⟩, "ELR_EL1"), (⟨3, 0, 12, 0, 0⟩, "VBAR_EL1"), (⟨3, 0, 0, 0, 5⟩, "MPIDR_EL1"),
    (⟨3, 0, 0, 0, 0⟩, "MIDR_EL1"), (⟨3, 4, 1, 0, 0⟩, "SCTLR_EL2"), (⟨3, 4, 1, 1, 0⟩, "HCR_EL2")]

namespace NameLemmas

/-- A chain of guards on the fields of an encoding. -/
def guardChain (e : Encoding) (table : List (Encoding × String)) (rest : String) : String :=
  table.foldr (fun row s =>
    if e.op0 = row.1.op0 ∧ e.op1 = row.1.op1 ∧ e.crn = row.1.crn ∧ e.crm = row.1.crm ∧
      e.op2 = row.1.op2 then row.2 else s) rest

theorem fields_eq_iff {e e' : Encoding} :
    (e.op0 = e'.op0 ∧ e.op1 = e'.op1 ∧ e.crn = e'.crn ∧ e.crm = e'.crm ∧ e.op2 = e'.op2) ↔
      e = e' := by
  cases e
  cases e'
  rw [Encoding.mk.injEq]

theorem guardChain_eq (e : Encoding) (table : List (Encoding × String)) (rest : String) :
    guardChain e table rest = (table.lookup e).getD rest := by
  induction table with
  | nil => rfl
  | cons row table ih =>
    rw [List.lookup_cons]
    refine (if_congr fields_eq_iff rfl ih).trans ?_
    split
    · next h => rw [beq_iff_eq.mpr h, Option.getD_some]
    · next h => rw [beq_false_of_ne h]

/-- The format and its arguments fit into the buffer. -/
theorem length_text (e : Encoding) : e.text.length < 64 := by
  have hbyte : ∀ n ∈ e.numbers, n < 10 ^ 3 := by
    intro n hn
    unfold Encoding.numbers at hn
    have h0 := e.op0.isLt
    have h1 := e.op1.isLt
    have h2 := e.crn.isLt
    have h3 := e.crm.isLt
    have h4 := e.op2.isLt
    simp only [List.mem_cons, List.not_mem_nil, or_false] at hn
    omega
  have hle := length_render_le (by decide) "S%d_%d_C%d_C%d_%d".toList hbyte
  have hformat : "S%d_%d_C%d_C%d_%d".toList.length + 3 * 5 < 64 := by decide
  exact Nat.lt_of_le_of_lt hle hformat

theorem snprintf_eq (e : Encoding) :
    snprintf 64 "S%d_%d_C%d_C%d_%d" e.numbers = String.ofList e.text :=
  congrArg String.ofList (List.take_of_length_le (Nat.le_of_lt_succ (length_text e)))

end NameLemmas

open NameLemmas

theorem systemRegisterName_eq (e : Encoding) :
    e.name = (guardedNames.lookup e).getD (String.ofList e.text) := by
  rw [← snprintf_eq]
  exact guardChain_eq e guardedNames _

/-! ## 2. Names and fields -/

/-- The names of the fields of the register state. -/
def SysReg.name : SysReg → String
  | sctlr => "SCTLR_EL1"
  | tcr => "TCR_EL1"
  | ttbr0 => "TTBR0_EL1"
  | ttbr1 => "TTBR1_EL1"
  | esr => "ESR_EL1"
  | far => "FAR_EL1"
  | elr => "ELR_EL1"
  | vbar => "VBAR_EL1"
  | mpidr => "MPIDR_EL1"
  | midr => "MIDR_EL1"

/-- Names are never cut and never shared. A read returns a value exactly when
the encoding has the name of a field, and then that field. A write leaves all
fields of other names alone. -/
structure RegisterNames : Prop where
  untruncated : ∀ e : Encoding, e.text.length < 64
  injective : ∀ e e' : Encoding, e.name = e'.name → e = e'
  read : ∀ (self : SystemRegisterEmulator) (e : Encoding) (v : BitVec 64),
    self.read e = some v ↔ ∃ r : SysReg, e.name = r.name ∧ v = r.get self.state
  write : ∀ (self : SystemRegisterEmulator) (e : Encoding) (value : BitVec 64) (r : SysReg),
    e.name ≠ r.name → r.get (self.write e value).2.state = r.get self.state

namespace NameLemmas

/-- The second character of a name tells whether it was printed. -/
def printed (name : List Char) : Bool := name.tail.head?.any Char.isDigit

theorem printed_text (e : Encoding) : printed e.text = true := by
  have htext : e.text = 'S' :: (Nat.toDigits 10 e.op0.toNat ++
      render "_%d_C%d_C%d_%d".toList [e.op1.toNat, e.crn.toNat, e.crm.toNat, e.op2.toNat]) := rfl
  obtain ⟨c, ds, hdigits⟩ := List.exists_cons_of_ne_nil (Nat.toDigits_ne_nil (b := 10))
  have hc : c ∈ Nat.toDigits 10 e.op0.toNat := hdigits ▸ List.mem_cons_self
  rw [htext, hdigits]
  exact isDigit_of_mem hc

theorem text_injective {e e' : Encoding} (h : e.text = e'.text) : e = e' := by
  have hnumbers : e.numbers = e'.numbers := render_inj (by decide) rfl rfl h
  simp only [Encoding.numbers, List.cons.injEq, BitVec.toNat_inj, and_true] at hnumbers
  exact fields_eq_iff.mp hnumbers

theorem mem_of_lookup {e : Encoding} {s : String} (h : guardedNames.lookup e = some s) :
    (e, s) ∈ guardedNames := by
  obtain ⟨before, after, heq, -⟩ := List.lookup_eq_some_iff.mp h
  rw [heq]
  exact List.mem_append_right before List.mem_cons_self

/-- No name of the table is used twice, and none looks like a printed one. -/
theorem guardedNames_apart : ∀ row ∈ guardedNames, printed row.2.toList = false ∧
    ∀ row' ∈ guardedNames, row.2 = row'.2 → row.1 = row'.1 := by
  decide

theorem guarded_ne_text {e e' : Encoding} {s : String} (h : guardedNames.lookup e = some s) :
    s ≠ String.ofList e'.text := by
  rintro rfl
  have hname := (guardedNames_apart _ (mem_of_lookup h)).1
  rw [String.toList_ofList, printed_text] at hname
  cases hname

theorem name_injective {e e' : Encoding} (h : e.name = e'.name) : e = e' := by
  rw [systemRegisterName_eq, systemRegisterName_eq] at h
  cases hs : guardedNames.lookup e with
  | some s =>
    cases hs' : guardedNames.lookup e' with
    | some s' =>
      rw [hs, hs'] at h
      exact (guardedNames_apart _ (mem_of_lookup hs)).2 _ (mem_of_lookup hs') h
    | none =>
      rw [hs, hs'] at h
      exact absurd h (guarded_ne_text hs)
  | none =>
    cases hs' : guardedNames.lookup e' with
    | some s' =>
      rw [hs, hs'] at h
      exact absurd h.symm (guarded_ne_text hs')
    | none =>
      rw [hs, hs'] at h
      exact text_injective (String.ofList_injective h)

theorem name_encoding (r : SysReg) : r.encoding.name = r.name := by
  cases r <;> rfl

theorem name_eq_iff {e : Encoding} {r : SysReg} : e.name = r.name ↔ e = r.encoding := by
  rw [← name_encoding]
  exact ⟨name_injective, congrArg Encoding.name⟩

end NameLemmas

theorem register_names : RegisterNames := by
  refine ⟨length_text, fun _ _ => name_injective, fun self e v => ?_, fun self e value r h => ?_⟩
  · rw [SystemRegisterEmulator.read_eq, Option.map_eq_some_iff]
    refine exists_congr fun r => ?_
    rw [SysReg.named_eq_some, name_eq_iff]
    exact and_congr_right fun _ => eq_comm
  · rw [SystemRegisterEmulator.write_eq, SystemRegisterEmulator.get_written]
    exact if_neg fun hwrite => h (name_eq_iff.mpr hwrite.1)

end Acheron
