import Acheron.DecoderArms
import Acheron.Lib.Align
import Acheron.Lib.Extraction

/-!
# What the decoder keeps

Every arm of the decoder tests some bits of the word and stores others in the
instruction. A bit that it does neither with is lost.

Results:
1. `sameOperands_iff`: which words of a type decode to the same operands.
2. `keepsOperands_iff`: two words are told apart unless both are `HLT` words
   that differ in bits 20:16 only.
3. `encode_decode_iff`: the decoder can be undone on the other words.
-/

namespace Acheron

open DecoderLemmas Extraction MaskGuard

/-! ## 1. Operands -/

/-- The five register fields. -/
def sysRegExtractions : List (Extraction 32) :=
  [⟨19, 0x7⟩, ⟨16, 0x7⟩, ⟨12, 0xF⟩, ⟨8, 0xF⟩, ⟨5, 0x7⟩]

/-- The fields that the arm of a type reads. -/
def extractionsOf : InstructionType → List (Extraction 32)
  | .msrImm => sysRegExtractions ++ [⟨0, 0x1F⟩]
  | .msrReg | .mrsReg => sysRegExtractions ++ [⟨5, 0x1F⟩]
  | .hlt | .brk => [⟨0, 0xFFFF⟩]
  | _ => []

/-- The operands that an instruction of the type has, in the same order. -/
def SystemInstruction.operands (d : SystemInstruction) : List (BitVec 32) :=
  let sysReg := [d.sysRegOp0.setWidth 32, d.sysRegOp1.setWidth 32, d.sysRegCRn.setWidth 32,
    d.sysRegCRm.setWidth 32, d.sysRegOp2.setWidth 32]
  match d.type with
  | .msrImm => sysReg ++ [d.immediate.setWidth 32]
  | .msrReg | .mrsReg => sysReg ++ [d.rt.setWidth 32]
  | .hlt | .brk => [d.immediate.setWidth 32]
  | _ => []

/-- All operand fields agree. -/
structure SameOperands (d d' : SystemInstruction) : Prop where
  op0 : d.sysRegOp0 = d'.sysRegOp0
  op1 : d.sysRegOp1 = d'.sysRegOp1
  crn : d.sysRegCRn = d'.sysRegCRn
  crm : d.sysRegCRm = d'.sysRegCRm
  op2 : d.sysRegOp2 = d'.sysRegOp2
  rt : d.rt = d'.rt
  immediate : d.immediate = d'.immediate

namespace DecoderLemmas

/-- A field is no wider than the variable it is stored in. -/
theorem setWidth_stored (x : BitVec 32) : (x.setWidth 64).setWidth 32 = x := by
  rw [BitVec.setWidth_setWidth_of_le _ (by decide), BitVec.setWidth_eq]

theorem setWidth_rt (x : BitVec 32) : ((x &&& 0x1F).setWidth 8).setWidth 32 = x &&& 0x1F := by
  apply BitVec.eq_of_toNat_eq
  have hlt : (x &&& 0x1F).toNat < 2 ^ 5 :=
    BitVec.toNat_and x 0x1F ▸ Nat.and_lt_two_pow _ (by decide)
  rw [BitVec.toNat_setWidth, BitVec.toNat_setWidth]
  omega

theorem operands_fieldsOf (t : InstructionType) (w : BitVec 32) :
    (fieldsOf t w).operands = (extractionsOf t).map (·.get w) := by
  cases t with
  | msrImm | msrReg | mrsReg | hlt | brk =>
    simp only [SystemInstruction.operands, fieldsOf, sysRegFields, extractionsOf,
      sysRegExtractions, Extraction.get, List.cons_append, List.nil_append, List.map_cons,
      List.map_nil, setWidth_stored, setWidth_rt]
  | _ => rfl

theorem operands_congr {d d' : SystemInstruction} (ht : d.type = d'.type)
    (h : SameOperands d d') : d.operands = d'.operands := by
  obtain ⟨hop0, hop1, hcrn, hcrm, hop2, hrt, himm⟩ := h
  unfold SystemInstruction.operands
  rw [ht, hop0, hop1, hcrn, hcrm, hop2, hrt, himm]

/-- An arm stores nothing but what it reads. -/
theorem fieldsOf_congr {t : InstructionType} {x y : BitVec 32}
    (h : (extractionsOf t).map (·.get x) = (extractionsOf t).map (·.get y)) :
    fieldsOf t x = fieldsOf t y := by
  cases t with
  | msrImm | msrReg | mrsReg | hlt | brk =>
    simp only [extractionsOf, sysRegExtractions, Extraction.get, List.cons_append,
      List.nil_append, List.map_cons, List.map_nil, List.cons_eq_cons, and_true] at h
    simp only [fieldsOf, sysRegFields, h]
  | _ => rfl

end DecoderLemmas

/-- Words of one type have the same operands exactly when they agree on the
bits that the arm of the type reads. -/
theorem sameOperands_iff (t : InstructionType) (x y : BitVec 32) :
    SameOperands (fieldsOf t x) (fieldsOf t y) ↔
      x &&& cover (extractionsOf t) = y &&& cover (extractionsOf t) := by
  rw [← agree_iff]
  constructor
  · intro h
    have hlist := operands_congr ((fieldsOf_type t x).trans (fieldsOf_type t y).symm) h
    rwa [operands_fieldsOf, operands_fieldsOf] at hlist
  · intro h
    rw [fieldsOf_congr h]
    exact ⟨rfl, rfl, rfl, rfl, rfl, rfl, rfl⟩

/-! ## 2. Lost operands -/

/-- The types whose instructions have operands. -/
def operandTypes : List InstructionType := [.msrImm, .msrReg, .mrsReg, .hlt, .brk]

/-- The decoder tells the two words apart, if it gives them one type that has
operands. -/
def KeepsOperands (w w' : BitVec 32) : Prop :=
  w ≠ w' → (decodeSystemInstruction w).type = (decodeSystemInstruction w').type →
    (decodeSystemInstruction w).type ∈ operandTypes →
    ¬ SameOperands (decodeSystemInstruction w) (decodeSystemInstruction w')

/-- The words have the shape of `HLT`, agree on bits 15:0, which the arm reads
for the immediate, and differ in bits 20:16, which it does not read. -/
structure DifferInDropped (w w' : BitVec 32) : Prop where
  left : w &&& 0xFFE0001F = 0xD4200000
  right : w' &&& 0xFFE0001F = 0xD4200000
  kept : w &&& 0xFFFF = w' &&& 0xFFFF
  dropped : w &&& 0x1F0000 ≠ w' &&& 0x1F0000

namespace DecoderLemmas

theorem decode_eq_fieldsOf (w : BitVec 32) :
    decodeSystemInstruction w = fieldsOf (decodeSystemInstruction w).type w := by
  rw [decode_eq_live, armsOf]
  generalize liveTypes = ts
  induction ts with
  | nil => rfl
  | cons t ts ih =>
    rw [List.map_cons, firstMatch]
    split
    · show fieldsOf t w = fieldsOf (fieldsOf t w).type w
      rw [fieldsOf_type]
    · exact ih

/-- The `HLT` arm is not taken away any of its words. -/
theorem decode_of_hlt {w : BitVec 32} (h : (guardOf .hlt).Holds w) :
    decodeSystemInstruction w = fieldsOf .hlt w := by
  have clash : liveTypes.Pairwise fun s t => (guardOf s).Clash (guardOf t) := by decide
  have one : AtMostOne (armsOf liveTypes) w := by
    refine List.pairwise_map.mpr (clash.imp ?_)
    rintro s t hst ⟨hs, ht⟩
    exact not_holds_of_clash hst hs ht
  have hmem : armOf .hlt ∈ armsOf liveTypes := List.mem_map_of_mem (by decide)
  rw [decode_eq_live]
  exact firstMatch_of_mem one hmem h

theorem decode_type_ne_brk (w : BitVec 32) : (decodeSystemInstruction w).type ≠ .brk :=
  fun h => absurd ((decode_reaches_iff .brk).mp ⟨w, h⟩) (by decide)

/-- Bits 31:21 and 4:0 are tested, bits 15:0 are read. -/
theorem eq_of_hlt {w w' : BitVec 32} (h : (guardOf .hlt).Holds w) (h' : (guardOf .hlt).Holds w')
    (kept : w &&& 0xFFFF = w' &&& 0xFFFF) (dropped : w &&& 0x1F0000 = w' &&& 0x1F0000) :
    w = w' := by
  have untested : w &&& (0xFFFF ||| 0x1F0000) = w' &&& (0xFFFF ||| 0x1F0000) :=
    (and_or_eq_iff w w' _ _).mpr ⟨kept, dropped⟩
  exact eq_of_agree h h' (by decide) untested

end DecoderLemmas

theorem keepsOperands_iff (w w' : BitVec 32) : KeepsOperands w w' ↔ ¬ DifferInDropped w w' := by
  constructor
  · rintro hkeep ⟨hw, hw', kept, dropped⟩
    have hdecode := decode_of_hlt hw
    have hdecode' := decode_of_hlt hw'
    refine hkeep (fun heq => dropped (by rw [heq])) ?_ ?_ ?_
    · rw [hdecode, hdecode', fieldsOf_type, fieldsOf_type]
    · rw [hdecode, fieldsOf_type]
      decide
    · rw [hdecode, hdecode', sameOperands_iff]
      exact kept
  · intro hdropped hne htype hmem hsame
    rw [decode_eq_fieldsOf w, decode_eq_fieldsOf w', ← htype, sameOperands_iff] at hsame
    generalize hd : (decodeSystemInstruction w).type = t at *
    have htype' : (decodeSystemInstruction w').type = t := htype.symm
    cases t with
    | msrImm =>
      -- Every bit of the word is tested or read.
      have hw := holds_of_decode_type (by decide) hd
      have hw' := holds_of_decode_type (by decide) htype'
      exact hne (eq_of_agree hw hw' (by decide) hsame)
    | hlt =>
      have hw := holds_of_decode_type (by decide) hd
      have hw' := holds_of_decode_type (by decide) htype'
      exact hdropped ⟨hw, hw', hsame, fun heq => hne (eq_of_hlt hw hw' hsame heq)⟩
    | msrReg => exact decode_type_ne_msrReg w hd
    | mrsReg => exact decode_type_ne_mrsReg w hd
    | brk => exact decode_type_ne_brk w hd
    | _ => exact absurd hmem (by decide)

/-- `HLT` with bit 16 of the word set: the immediate is the same. -/
theorem hlt_operand_lost : ¬ ∀ w w', KeepsOperands w w' := by
  intro hall
  exact hall 0xD4200000 0xD4210000 (by decide) (by decide) (by decide)
    ⟨rfl, rfl, rfl, rfl, rfl, rfl, by decide⟩

/-! ## 3. An encoder -/

/-- The word that the instruction has been decoded from, as far as its type and
operands tell. -/
def encodeSystemInstruction (d : SystemInstruction) : BitVec 32 :=
  (guardOf d.type).pattern ||| assemble (extractionsOf d.type) d.operands

/-- Encoding clears what has been lost, so the decoder can be undone on all
words it recognises except for the `HLT` words that use bits 20:16. -/
theorem encode_decode_iff {w : BitVec 32} (h : (decodeSystemInstruction w).type ≠ .unknown) :
    encodeSystemInstruction (decodeSystemInstruction w) = w ↔
      ((decodeSystemInstruction w).type = .hlt → w &&& 0x1F0000 = 0) := by
  have hw := holds_of_decode_type h rfl
  have hencode : encodeSystemInstruction (decodeSystemInstruction w) =
      w &&& ((guardOf (decodeSystemInstruction w).type).mask |||
        cover (extractionsOf (decodeSystemInstruction w).type)) := by
    unfold encodeSystemInstruction
    rw [← assemble_of_holds hw]
    conv_lhs => rw [decode_eq_fieldsOf w, operands_fieldsOf, fieldsOf_type]
  have hlive := ((decode_reaches_iff _).mp ⟨w, rfl⟩).resolve_right h
  rw [hencode]
  generalize (decodeSystemInstruction w).type = t at hlive ⊢
  rcases eq_or_ne t .hlt with rfl | hne
  · have hbits : (guardOf .hlt).mask ||| cover (extractionsOf .hlt) = 0xFFE0FFFF := by decide
    have hlost : (0xFFE0FFFF : BitVec 32) ^^^ BitVec.allOnes 32 = 0x1F0000 := by decide
    have hclear := Align.and_eq_and_iff w 0xFFE0FFFF (BitVec.allOnes 32)
    rw [BitVec.and_allOnes, hlost] at hclear
    rw [hbits, hclear]
    exact ⟨fun hzero _ => hzero, fun hzero => hzero rfl⟩
  · have full : ∀ t ∈ liveTypes, t ≠ .hlt →
        (guardOf t).mask ||| cover (extractionsOf t) = BitVec.allOnes 32 := by
      decide
    rw [full t hlive hne, BitVec.and_allOnes]
    exact ⟨fun _ heq => absurd heq hne, fun _ => rfl⟩

end Acheron
