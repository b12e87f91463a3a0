import Acheron.Lib.MaskGuard

/-!
# Operand fields

A decoder reads the operands of a word `x` by expressions `(x >> shift) & mask`.
Together with the guard of the instruction (`MaskGuard`) the fields keep the
bits of the word that one of them reads, and lose the others:

* `agree_iff`: two words have the same fields exactly when they agree on the
  bits that some field reads;
* `eq_of_agree`: if guard and fields read all bits, the fields tell the words
  of the instruction apart;
* `assemble_of_holds`: the fields, put back on top of the pattern of the guard,
  give the word with the bits that nothing reads cleared.
-/

/-- The expression `(x >> shift) & mask` on `w`-bit words. -/
structure Extraction (w : Nat) where
  shift : Nat
  mask : BitVec w
deriving DecidableEq

namespace Extraction

variable {w : Nat}

def get (f : Extraction w) (x : BitVec w) : BitVec w := (x >>> f.shift) &&& f.mask

/-- The bits of a word that the field reads. -/
def bits (f : Extraction w) : BitVec w := f.mask <<< f.shift

/-- The word that has the value `v` in the field, and no other bits. -/
def put (f : Extraction w) (v : BitVec w) : BitVec w := v <<< f.shift

theorem put_get (f : Extraction w) (x : BitVec w) : f.put (f.get x) = x &&& f.bits := by
  unfold put get bits
  ext i hi
  simp only [← BitVec.getLsbD_eq_getElem, BitVec.getLsbD_shiftLeft, BitVec.getLsbD_and,
    BitVec.getLsbD_ushiftRight]
  rcases Nat.lt_or_ge i f.shift with hlt | hge
  · simp [hlt]
  · simp [hi, Nat.not_lt.mpr hge, Nat.add_sub_cancel' hge]

/-- A field reads nothing but its bits. -/
theorem get_and_bits (f : Extraction w) (x : BitVec w) : f.get (x &&& f.bits) = f.get x := by
  unfold get bits
  ext i hi
  simp only [← BitVec.getLsbD_eq_getElem, BitVec.getLsbD_shiftLeft, BitVec.getLsbD_and,
    BitVec.getLsbD_ushiftRight, Nat.add_sub_cancel_left]
  rcases Nat.lt_or_ge (f.shift + i) w with hlt | hge
  · cases f.mask.getLsbD i <;> simp [hlt]
  · simp [BitVec.getLsbD_of_ge x _ hge]

theorem get_eq_iff (f : Extraction w) (x y : BitVec w) :
    f.get x = f.get y ↔ x &&& f.bits = y &&& f.bits := by
  constructor
  · intro h
    rw [← put_get, ← put_get, h]
  · intro h
    rw [← get_and_bits, h, get_and_bits]

/-! ## Lists of fields -/

/-- The bits of a word that some field reads. -/
def cover : List (Extraction w) → BitVec w
  | [] => 0
  | f :: fields => f.bits ||| cover fields

/-- Values put back into their fields. -/
def assemble : List (Extraction w) → List (BitVec w) → BitVec w
  | f :: fields, v :: values => f.put v ||| assemble fields values
  | _, _ => 0

theorem assemble_get (fields : List (Extraction w)) (x : BitVec w) :
    assemble fields (fields.map (·.get x)) = x &&& cover fields := by
  induction fields with
  | nil => exact BitVec.and_zero.symm
  | cons f fields ih =>
    rw [List.map_cons, assemble, cover, ih, put_get, BitVec.and_or_distrib_left]

theorem and_or_eq_iff (x y a b : BitVec w) :
    x &&& (a ||| b) = y &&& (a ||| b) ↔ x &&& a = y &&& a ∧ x &&& b = y &&& b := by
  have left (z : BitVec w) : z &&& (a ||| b) &&& a = z &&& a := by
    ext i hi
    simp only [← BitVec.getLsbD_eq_getElem, BitVec.getLsbD_and, BitVec.getLsbD_or]
    cases a.getLsbD i <;> simp
  have right (z : BitVec w) : z &&& (a ||| b) &&& b = z &&& b := by
    ext i hi
    simp only [← BitVec.getLsbD_eq_getElem, BitVec.getLsbD_and, BitVec.getLsbD_or]
    cases b.getLsbD i <;> simp
  constructor
  · intro h
    exact ⟨by rw [← left x, h, left y], by rw [← right x, h, right y]⟩
  · rintro ⟨ha, hb⟩
    rw [BitVec.and_or_distrib_left, BitVec.and_or_distrib_left, ha, hb]

theorem agree_iff (fields : List (Extraction w)) (x y : BitVec w) :
    fields.map (·.get x) = fields.map (·.get y) ↔ x &&& cover fields = y &&& cover fields := by
  induction fields with
  | nil => simp [cover]
  | cons f fields ih =>
    rw [List.map_cons, List.map_cons, List.cons_eq_cons, ih, get_eq_iff, cover, and_or_eq_iff]

/-! ## Fields and guard -/

/-- If guard and field bits make up the whole word, two words of the guard that
agree on the field bits are the same. -/
theorem eq_of_agree {g : MaskGuard w} {x y bits : BitVec w} (hx : g.Holds x) (hy : g.Holds y)
    (full : g.mask ||| bits = BitVec.allOnes w) (h : x &&& bits = y &&& bits) : x = y := by
  have hmask : x &&& g.mask = y &&& g.mask := Eq.trans hx (Eq.symm hy)
  rw [← BitVec.and_allOnes (x := x), ← BitVec.and_allOnes (x := y), ← full]
  exact (and_or_eq_iff x y _ _).mpr ⟨hmask, h⟩

theorem assemble_of_holds {g : MaskGuard w} {x : BitVec w} (hx : g.Holds x)
    (fields : List (Extraction w)) :
    g.pattern ||| assemble fields (fields.map (·.get x)) = x &&& (g.mask ||| cover fields) := by
  unfold MaskGuard.Holds at hx
  rw [assemble_get, ← hx, BitVec.and_or_distrib_left]

end Extraction
