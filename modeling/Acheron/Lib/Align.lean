import Mathlib.Data.BitVec

/-!
# Alignment and bit-fields

Two ways in which systems code takes a machine word apart.

* A power of two `size` splits a word into the offset `x & (size - 1)` and the
  aligned base `x & ~(size - 1)`. On numbers these are the remainder and the
  multiple part of the division by `size`, and the questions about them become
  linear arithmetic.
* A C structure of bit-fields assigns consecutive bits to fields of given
  widths (`Layout`). The positions follow from the widths alone. A load of a
  field is an extraction, a store leaves the bits around the field alone.
-/

namespace Align

variable {w k : Nat}

theorem toNat_pred_twoPow (hk : k < w) : (BitVec.twoPow w k - 1).toNat = 2 ^ k - 1 := by
  have hw : 2 ^ k < 2 ^ w := Nat.pow_lt_pow_right (by decide) hk
  have h1 : 1 ≤ 2 ^ k := Nat.one_le_two_pow
  have one : (1 : BitVec w).toNat = 1 := BitVec.toNat_one (by omega)
  rw [BitVec.toNat_sub_of_le, BitVec.toNat_twoPow_of_lt hk, one]
  rw [BitVec.le_def, BitVec.toNat_twoPow_of_lt hk, one]
  exact h1

/-- The offset of a word is its remainder. -/
theorem toNat_offset (x : BitVec w) (hk : k < w) :
    (x &&& (BitVec.twoPow w k - 1)).toNat = x.toNat % 2 ^ k := by
  rw [BitVec.toNat_and, toNat_pred_twoPow hk, Nat.and_two_pow_sub_one_eq_mod]

/-- A word is its base plus its offset. -/
theorem base_add_offset (x m : BitVec w) : (x &&& ~~~m) + (x &&& m) = x := by
  rw [BitVec.add_eq_or_of_and_eq_zero]
  · ext i hi
    simp only [← BitVec.getLsbD_eq_getElem, BitVec.getLsbD_or, BitVec.getLsbD_and,
      BitVec.getLsbD_not]
    cases x.getLsbD i <;> cases m.getLsbD i <;> simp [hi]
  · ext i hi
    simp only [← BitVec.getLsbD_eq_getElem, BitVec.getLsbD_and, BitVec.getLsbD_not]
    cases x.getLsbD i <;> cases m.getLsbD i <;> simp

/-- The base of a word is its multiple part. -/
theorem toNat_base (x : BitVec w) (hk : k < w) :
    (x &&& ~~~(BitVec.twoPow w k - 1)).toNat = x.toNat / 2 ^ k * 2 ^ k := by
  have hle : x &&& (BitVec.twoPow w k - 1) ≤ x := by
    rw [BitVec.le_def, toNat_offset x hk]
    exact Nat.mod_le _ _
  have hsub : x &&& ~~~(BitVec.twoPow w k - 1) = x - (x &&& (BitVec.twoPow w k - 1)) :=
    eq_sub_of_add_eq (base_add_offset x _)
  rw [hsub, BitVec.toNat_sub_of_le hle, toNat_offset x hk]
  have := Nat.div_add_mod' x.toNat (2 ^ k)
  omega

/-- Two words have the same base exactly when their quotients agree. -/
theorem base_eq_iff (x y : BitVec w) (hk : k < w) :
    x &&& ~~~(BitVec.twoPow w k - 1) = y &&& ~~~(BitVec.twoPow w k - 1) ↔
      x.toNat / 2 ^ k = y.toNat / 2 ^ k := by
  rw [← BitVec.toNat_inj, toNat_base x hk, toNat_base y hk]
  exact Nat.mul_left_inj (Nat.two_pow_pos k).ne'

/-- Words in one small block are in one large block. -/
theorem base_eq_of_le {j : Nat} (hjk : j ≤ k) (hk : k < w) {x y : BitVec w}
    (h : x &&& ~~~(BitVec.twoPow w j - 1) = y &&& ~~~(BitVec.twoPow w j - 1)) :
    x &&& ~~~(BitVec.twoPow w k - 1) = y &&& ~~~(BitVec.twoPow w k - 1) := by
  have hsplit (n : Nat) : n / 2 ^ k = n / 2 ^ j / 2 ^ (k - j) := by
    rw [Nat.div_div_eq_div_mul, ← Nat.pow_add, Nat.add_sub_cancel' hjk]
  rw [base_eq_iff x y hk, hsplit, hsplit, (base_eq_iff x y (hjk.trans_lt hk)).mp h]

/-- The offsets of two words are as far apart as the words exactly when their
bases agree. -/
theorem sub_offset_eq_iff (x y m : BitVec w) :
    (y &&& m) - (x &&& m) = y - x ↔ x &&& ~~~m = y &&& ~~~m := by
  have hx : x &&& ~~~m = x - (x &&& m) := eq_sub_of_add_eq (base_add_offset x m)
  have hy : y &&& ~~~m = y - (y &&& m) := eq_sub_of_add_eq (base_add_offset y m)
  rw [hx, hy, eq_comm, sub_eq_sub_iff_sub_eq_sub, eq_comm]

theorem base_base (x m : BitVec w) : x &&& ~~~m &&& ~~~m = x &&& ~~~m := by
  rw [BitVec.and_assoc, BitVec.and_self]

/-- The bits of `y` are among those of `x`, by intersection and by union. -/
theorem and_eq_right_iff {x y : BitVec w} : x &&& y = y ↔ x ||| y = x := by
  have bitwise (b c : Bool) : (b && c) = c ↔ (b || c) = b := by
    cases b <;> cases c <;> decide
  simp only [BitVec.eq_of_getLsbD_eq_iff, BitVec.getLsbD_and, BitVec.getLsbD_or, bitwise]

/-- Two masks take the same bits of a word exactly when the word has none of
the bits in which they differ. -/
theorem and_eq_and_iff (x a b : BitVec w) : x &&& a = x &&& b ↔ x &&& (a ^^^ b) = 0 := by
  have distrib : x &&& (a ^^^ b) = (x &&& a) ^^^ (x &&& b) := by
    ext i hi
    simp only [← BitVec.getLsbD_eq_getElem, BitVec.getLsbD_and, BitVec.getLsbD_xor]
    cases x.getLsbD i <;> simp
  rw [distrib]
  exact BitVec.xor_eq_zero_iff.symm

/-- A mask of `v` bits looks at the `v` low bits of a word only. -/
theorem and_setWidth {v : Nat} (x : BitVec w) (mask : BitVec v) :
    x &&& mask.setWidth w = (x.setWidth v &&& mask).setWidth w := by
  ext i hi
  simp only [← BitVec.getLsbD_eq_getElem, BitVec.getLsbD_and, BitVec.getLsbD_setWidth]
  by_cases hv : i < v
  · simp [hi, hv]
  · simp [BitVec.getLsbD_of_ge mask i (by omega)]

/-- Masking a run of bits is extracting it and shifting it back. -/
theorem and_run (x : BitVec w) {s n : Nat} :
    x &&& ((BitVec.allOnes n).setWidth w <<< s) = (x.extractLsb' s n).setWidth w <<< s := by
  ext i hi
  simp only [← BitVec.getLsbD_eq_getElem, BitVec.getLsbD_and, BitVec.getLsbD_shiftLeft,
    BitVec.getLsbD_setWidth, BitVec.getLsbD_allOnes, BitVec.getLsbD_extractLsb']
  rcases Nat.lt_or_ge i s with hlow | hlow
  · simp [hlow]
  · have hlt : i - s < w := by omega
    simp [hi, hlt, Nat.not_lt.mpr hlow, Nat.add_sub_cancel' hlow, Bool.and_comm]

/-- What has been shifted into place is read back. -/
theorem extractLsb'_run {s n : Nat} (h : s + n ≤ w) (a : BitVec n) :
    (a.setWidth w <<< s).extractLsb' s n = a := by
  ext i hi
  rw [BitVec.getElem_extractLsb', BitVec.getLsbD_shiftLeft, BitVec.getLsbD_setWidth,
    Nat.add_sub_cancel_left, BitVec.getLsbD_eq_getElem hi]
  simp [show s + i < w by omega, show i < w by omega]

theorem run_inj {s n : Nat} (h : s + n ≤ w) {a b : BitVec n} :
    a.setWidth w <<< s = b.setWidth w <<< s ↔ a = b := by
  constructor
  · intro hab
    rw [← extractLsb'_run h a, hab, extractLsb'_run h b]
  · rintro rfl
    rfl

/-- Two views of words agree bit by bit. -/
theorem extractLsb'_eq_iff {v n s t : Nat} {x : BitVec w} {y : BitVec v} :
    x.extractLsb' s n = y.extractLsb' t n ↔
      ∀ i < n, x.getLsbD (s + i) = y.getLsbD (t + i) := by
  constructor
  · intro h i hi
    have hbit := congrArg (BitVec.getLsbD · i) h
    simpa only [BitVec.getLsbD_extractLsb', hi, decide_true, Bool.true_and] using hbit
  · intro h
    ext i hi
    rw [BitVec.getElem_extractLsb', BitVec.getElem_extractLsb']
    exact h i hi

/-- Bits that equal their neighbours are all equal. -/
theorem forall_succ_eq_iff {f : Nat → Bool} {n : Nat} :
    (∀ i < n, f (i + 1) = f i) ↔ ∀ i ≤ n, f i = f 0 := by
  constructor
  · intro h i
    induction i with
    | zero => exact fun _ => rfl
    | succ i ih => exact fun hi => (h i hi).trans (ih (Nat.le_of_succ_le hi))
  · intro h i hi
    rw [h (i + 1) hi, h i (Nat.le_of_lt hi)]

end Align

/-! ## Bit-fields -/

/-- The fields of a structure of bit-fields: the size of its storage units and
the declared widths. -/
structure Layout where
  unit : Nat
  widths : List Nat

namespace Layout

/-- Positions of consecutive fields, allocated from the least significant bit
on, starting at bit `pos`. A field that would straddle two storage units is
moved to the start of the next one. -/
def allocate (unit : Nat) : Nat → List Nat → List Nat
  | _, [] => []
  | pos, width :: widths =>
    let start := if pos % unit + width ≤ unit then pos else (pos / unit + 1) * unit
    start :: allocate unit (start + width) widths

/-- The position of the field number `i`. -/
def start (l : Layout) (i : Nat) : Nat := (allocate l.unit 0 l.widths).getD i 0

/-- The width of the field number `i`. -/
def width (l : Layout) (i : Nat) : Nat := l.widths.getD i 0

/-- The value of the field number `i` in the raw image `x`. -/
def get (l : Layout) (i : Nat) {w : Nat} (x : BitVec w) : BitVec (l.width i) :=
  x.extractLsb' (l.start i) (l.width i)

/-- The raw image `x` after a store to the field number `i`. -/
def put (l : Layout) (i : Nat) {w : Nat} (x : BitVec w) (v : BitVec (l.width i)) : BitVec w :=
  (x &&& ~~~((BitVec.allOnes (l.width i)).setWidth w <<< l.start i)) |||
    (v.setWidth w <<< l.start i)

/-- A store writes the bits of its field and leaves the others. -/
theorem getLsbD_put (l : Layout) (i : Nat) {w : Nat} (x : BitVec w) (v : BitVec (l.width i))
    {j : Nat} (hj : j < w) :
    (l.put i x v).getLsbD j =
      if l.start i ≤ j ∧ j < l.start i + l.width i then v.getLsbD (j - l.start i)
      else x.getLsbD j := by
  unfold put
  simp only [BitVec.getLsbD_or, BitVec.getLsbD_and, BitVec.getLsbD_not, BitVec.getLsbD_shiftLeft,
    BitVec.getLsbD_setWidth, BitVec.getLsbD_allOnes, hj, decide_true, Bool.true_and,
    show j - l.start i < w by omega]
  rcases Nat.lt_or_ge j (l.start i) with hlow | hlow
  · simp [hlow, Nat.not_le.mpr hlow]
  · rcases Nat.lt_or_ge (j - l.start i) (l.width i) with hin | hout
    · have hlt : j < l.start i + l.width i := by omega
      simp [Nat.not_lt.mpr hlow, hlow, hin, hlt]
    · have hge : ¬ j < l.start i + l.width i := by omega
      simp [Nat.not_lt.mpr hlow, Nat.not_lt.mpr hout, hge, BitVec.getLsbD_of_ge v _ hout]

/-- A load after a store to the same field. -/
theorem get_put (l : Layout) (i : Nat) {w : Nat} (hw : l.start i + l.width i ≤ w) (x : BitVec w)
    (v : BitVec (l.width i)) : l.get i (l.put i x v) = v := by
  unfold get
  ext j hj
  rw [BitVec.getElem_extractLsb', getLsbD_put l i x v (by omega), if_pos (by omega),
    Nat.add_sub_cancel_left, BitVec.getLsbD_eq_getElem]

end Layout
