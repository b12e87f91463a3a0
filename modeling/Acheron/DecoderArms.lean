import Acheron.Decoder
import Mathlib.Tactic.DeriveFintype

/-!
# What the decoder accepts

The guards of `decodeSystemInstruction` decide, by their constants alone, which
arms can answer and which words two arms compete for.

Results:
1. `decode_type_ne_msrReg`, `decode_type_ne_mrsReg`: the two register arms test
   bit 20 but mask it away, so no word reaches them.
2. `registerGrammar_iff`: the decoder follows the register grammar exactly on
   the words that are not register accesses.
3. `armsPartition_iff`, `decode_reaches_iff`: the words two arms compete for,
   and the types that are ever returned.
-/

namespace Acheron

open MaskGuard

/-! ## 1. Dead arms -/

namespace DecoderLemmas

theorem msrReg_unsatisfiable : ¬ (guardOf .msrReg).Satisfiable := by decide

theorem mrsReg_unsatisfiable : ¬ (guardOf .mrsReg).Satisfiable := by decide

/-- A type is answered only by its own arm, or by the final `else`. -/
theorem holds_of_decode_type {w : BitVec 32} {t : InstructionType} (ht : t ≠ .unknown)
    (h : (decodeSystemInstruction w).type = t) : (guardOf t).Holds w := by
  rw [decode_eq_firstMatch] at h
  unfold arms armsOf at h
  generalize armTypes = ts at h
  induction ts with
  | nil => exact absurd h.symm ht
  | cons a ts ih =>
    rw [List.map_cons, firstMatch] at h
    split at h
    · next hw =>
      have hat : a = t := (fieldsOf_type a w).symm.trans h
      exact hat ▸ hw
    · exact ih h

end DecoderLemmas

open DecoderLemmas

theorem decode_type_ne_msrReg (w : BitVec 32) : (decodeSystemInstruction w).type ≠ .msrReg :=
  fun h => msrReg_unsatisfiable (satisfiable_of_holds (holds_of_decode_type (by decide) h))

theorem decode_type_ne_mrsReg (w : BitVec 32) : (decodeSystemInstruction w).type ≠ .mrsReg :=
  fun h => mrsReg_unsatisfiable (satisfiable_of_holds (holds_of_decode_type (by decide) h))

/-! ## 2. The register grammar -/

/-- The decoded instruction `d` has the operands of the register access word
`w`, and encoding them again gives `w` back. -/
structure RegisterFields (w : BitVec 32) (d : SystemInstruction) : Prop where
  op0 : d.sysRegOp0 = (w.extractLsb 20 19).setWidth 64
  op1 : d.sysRegOp1 = (w.extractLsb 18 16).setWidth 64
  crn : d.sysRegCRn = (w.extractLsb 15 12).setWidth 64
  crm : d.sysRegCRm = (w.extractLsb 11 8).setWidth 64
  op2 : d.sysRegOp2 = (w.extractLsb 7 5).setWidth 64
  rt : d.rt = (w.extractLsb 4 0).setWidth 8
  op0Range : d.sysRegOp0 = 2 ∨ d.sysRegOp0 = 3
  roundTrip :
    accessWord (d.type = .mrsReg) (d.sysRegOp0.setWidth 32) (d.sysRegOp1.setWidth 32)
      (d.sysRegCRn.setWidth 32) (d.sysRegCRm.setWidth 32) (d.sysRegOp2.setWidth 32)
      (d.rt.setWidth 32) = w

/-- On the word `w` the decoder follows the `MSR`/`MRS` register grammar: the
two register types are answered on exactly their words, with their operands. -/
structure RegisterGrammar (w : BitVec 32) : Prop where
  msr : (decodeSystemInstruction w).type = .msrReg ↔ w.extractLsb 31 20 = 0xD51
  mrs : (decodeSystemInstruction w).type = .mrsReg ↔ w.extractLsb 31 20 = 0xD53
  fields : (decodeSystemInstruction w).type = .msrReg ∨ (decodeSystemInstruction w).type = .mrsReg →
    RegisterFields w (decodeSystemInstruction w)

/-- The decoder follows the register grammar exactly on the words that are not
register accesses at all: it recognises no `MSR` or `MRS` register word. -/
theorem registerGrammar_iff (w : BitVec 32) :
    RegisterGrammar w ↔ w.extractLsb 31 20 ≠ 0xD51 ∧ w.extractLsb 31 20 ≠ 0xD53 := by
  constructor
  · intro h
    exact ⟨fun hw => decode_type_ne_msrReg w (h.msr.mpr hw),
      fun hw => decode_type_ne_mrsReg w (h.mrs.mpr hw)⟩
  · rintro ⟨hmsr, hmrs⟩
    refine ⟨⟨fun h => absurd h (decode_type_ne_msrReg w), fun h => absurd h hmsr⟩,
      ⟨fun h => absurd h (decode_type_ne_mrsReg w), fun h => absurd h hmrs⟩, ?_⟩
    rintro (h | h)
    · exact absurd h (decode_type_ne_msrReg w)
    · exact absurd h (decode_type_ne_mrsReg w)

/-- `MSR SCTLR_EL1, X0` is decoded as an immediate write. -/
theorem msr_sctlr_x0_misread :
    (0xD5181000 : BitVec 32).extractLsb 31 20 = 0xD51 ∧
    (decodeSystemInstruction 0xD5181000).type = .msrImm ∧ ¬ RegisterGrammar 0xD5181000 := by
  refine ⟨by decide, by decide, fun h => ?_⟩
  exact absurd (h.msr.mpr (by decide)) (by decide)

/-! ## 3. Overlapping arms -/

/-- The arms compete for no word like `w`: at most one guard holds of it, and
every order of the arms gives the decoder's answer. -/
structure ArmsPartition (w : BitVec 32) : Prop where
  one : AtMostOne arms w
  order : ∀ arms', arms.Perm arms' → firstMatch {} arms' w = decodeSystemInstruction w

namespace DecoderLemmas

/-- Some word satisfies both guards. -/
def Overlap (g h : MaskGuard 32) : Prop :=
  g.Satisfiable ∧ h.Satisfiable ∧ ¬ g.Clash h

instance (g h : MaskGuard 32) : Decidable (Overlap g h) :=
  inferInstanceAs (Decidable (g.Satisfiable ∧ h.Satisfiable ∧ ¬ g.Clash h))

/-- Of the 45 pairs of arms, the ones that overlap involve the `DSB`/`DMB`
guard or the `HLT`/`BRK` guard. -/
theorem overlap_pairs :
    armTypes.Pairwise fun s t => Overlap (guardOf s) (guardOf t) →
      guardOf t = guardOf .dsb ∨ guardOf t = guardOf .hlt := by
  decide

theorem atMostOne_of_not_dsb_hlt {w : BitVec 32} (hdsb : ¬ (guardOf .dsb).Holds w)
    (hhlt : ¬ (guardOf .hlt).Holds w) : AtMostOne arms w := by
  unfold AtMostOne arms armsOf
  refine List.pairwise_map.mpr (overlap_pairs.imp ?_)
  rintro s t hst ⟨hs, ht⟩
  rcases hst (exists_both_iff.mp ⟨w, hs, ht⟩) with h | h
  · exact hdsb (h ▸ ht)
  · exact hhlt (h ▸ ht)

theorem atMostOne_apart {w : BitVec 32} (one : AtMostOne arms w) {s t : InstructionType}
    (hst : [s, t].Sublist armTypes) : ¬ ((guardOf s).Holds w ∧ (guardOf t).Holds w) := by
  have hsub : [armOf s, armOf t].Sublist arms := hst.map armOf
  have hp := one.sublist hsub
  simpa [armOf] using hp

end DecoderLemmas

/-- The arms compete for a word exactly when it has the `DSB` shape, which the
`MSR` immediate, `DSB` and `DMB` tests all accept, or the `HLT` shape, which
the `HLT` and `BRK` tests accept. -/
theorem armsPartition_iff (w : BitVec 32) :
    ArmsPartition w ↔ w &&& 0xFFFFF01F ≠ 0xD5033000 ∧ w &&& 0xFFE0001F ≠ 0xD4200000 := by
  constructor
  · intro h
    exact ⟨fun hw => atMostOne_apart h.one (s := .dsb) (t := .dmb) (by decide) ⟨hw, hw⟩,
      fun hw => atMostOne_apart h.one (s := .hlt) (t := .brk) (by decide) ⟨hw, hw⟩⟩
  · rintro ⟨hdsb, hhlt⟩
    have one := atMostOne_of_not_dsb_hlt hdsb hhlt
    exact ⟨one, fun arms' hp => by rw [decode_eq_firstMatch, firstMatch_perm one hp]⟩

/-- The arms that can answer. -/
def liveTypes : List InstructionType :=
  [.msrImm, .isb, .wfi, .wfe, .hlt]

/-- Half of the arms can be dropped: two have unsatisfiable guards, `DSB` and
`DMB` are covered by the `MSR` immediate arm and `BRK` by the `HLT` arm. -/
theorem decode_eq_live (w : BitVec 32) :
    decodeSystemInstruction w = firstMatch {} (armsOf liveTypes) w := by
  have msrReg : ¬ (guardOf .msrReg).Holds w := fun h => msrReg_unsatisfiable (satisfiable_of_holds h)
  have mrsReg : ¬ (guardOf .mrsReg).Holds w := fun h => mrsReg_unsatisfiable (satisfiable_of_holds h)
  have dsb : (guardOf .dsb).Holds w → (guardOf .msrImm).Holds w := holds_of_covers (by decide)
  have dmb : (guardOf .dmb).Holds w → (guardOf .msrImm).Holds w := holds_of_covers (by decide)
  have brk : (guardOf .brk).Holds w → (guardOf .hlt).Holds w := holds_of_covers (by decide)
  calc decodeSystemInstruction w
      = firstMatch {} (armsOf armTypes) w := decode_eq_firstMatch w
    _ = firstMatch {} (armsOf [.msrImm, .mrsReg, .isb, .dsb, .dmb, .wfi, .wfe, .hlt, .brk]) w :=
      firstMatch_drop (armsOf [.msrImm]) fun h => absurd h msrReg
    _ = firstMatch {} (armsOf [.msrImm, .isb, .dsb, .dmb, .wfi, .wfe, .hlt, .brk]) w :=
      firstMatch_drop (armsOf [.msrImm]) fun h => absurd h mrsReg
    _ = firstMatch {} (armsOf [.msrImm, .isb, .dmb, .wfi, .wfe, .hlt, .brk]) w :=
      firstMatch_drop (armsOf [.msrImm, .isb]) fun h => ⟨armOf .msrImm, by simp [armsOf], dsb h⟩
    _ = firstMatch {} (armsOf [.msrImm, .isb, .wfi, .wfe, .hlt, .brk]) w :=
      firstMatch_drop (armsOf [.msrImm, .isb]) fun h => ⟨armOf .msrImm, by simp [armsOf], dmb h⟩
    _ = firstMatch {} (armsOf [.msrImm, .isb, .wfi, .wfe, .hlt]) w :=
      firstMatch_drop (armsOf [.msrImm, .isb, .wfi, .wfe, .hlt])
        fun h => ⟨armOf .hlt, by simp [armsOf], brk h⟩

/-- The types that some word decodes to: no word is ever decoded as a register
access, as `DSB`, as `DMB` or as `BRK`. -/
theorem decode_reaches_iff (t : InstructionType) :
    (∃ w, (decodeSystemInstruction w).type = t) ↔ t ∈ liveTypes ∨ t = .unknown := by
  constructor
  · rintro ⟨w, rfl⟩
    rw [decode_eq_live, armsOf]
    generalize liveTypes = ts
    induction ts with
    | nil => exact .inr rfl
    | cons a ts ih =>
      rw [List.map_cons, firstMatch]
      split
      · exact .inl (by simp [armOf])
      · exact ih.imp (List.mem_cons_of_mem a) id
  · rintro (h | rfl)
    · refine ⟨(guardOf t).pattern, ?_⟩
      revert t
      decide
    · exact ⟨0, by decide⟩

/-- The arms partition the words they recognise, and every type with an arm is
returned for some word: what the decoder is meant to do. -/
def DecoderPartitions : Prop :=
  (∀ w, ArmsPartition w) ∧ ∀ t, t ≠ .unknown → ∃ w, (decodeSystemInstruction w).type = t

/-- For which words the arms of the decoder do not compete, and which types are
returned for some word. -/
theorem decoder_partition (w : BitVec 32) (t : InstructionType) :
    (ArmsPartition w ↔ w &&& 0xFFFFF01F ≠ 0xD5033000 ∧ w &&& 0xFFE0001F ≠ 0xD4200000) ∧
    ((∃ w', (decodeSystemInstruction w').type = t) ↔ t ∈ liveTypes ∨ t = .unknown) :=
  ⟨armsPartition_iff w, decode_reaches_iff t⟩

/-- The word of the `HLT` and `BRK` tests satisfies both guards, and no word is
decoded as `BRK`. -/
theorem hlt_brk_overlap :
    ¬ ArmsPartition 0xD4200000 ∧ (¬ ∃ w, (decodeSystemInstruction w).type = .brk) ∧
    ¬ DecoderPartitions := by
  have overlap : ¬ ArmsPartition 0xD4200000 := fun h => ((armsPartition_iff _).mp h).2 (by decide)
  refine ⟨overlap, fun h => ?_, fun h => overlap (h.1 _)⟩
  exact absurd ((decode_reaches_iff _).mp h) (by decide)

end Acheron
