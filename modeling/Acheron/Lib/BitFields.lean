import Acheron.Lib.Align
import Acheron.Lib.History

/-!
# Bit-fields as a record

Fields that do not share bits can be assigned independently of each other, like
the fields of a record: after any sequence of assignments, a field holds what it
was assigned last, cut to its width.

* `get_put_of_apart`: a load after a store to another field;
* `toNat_get_putAll`: a load after any sequence of stores.
-/

namespace Layout

/-- The fields number `i` and `j` have no bit in common. -/
def Apart (l : Layout) (i j : Nat) : Prop :=
  l.start i + l.width i ≤ l.start j ∨ l.start j + l.width j ≤ l.start i

instance (l : Layout) (i j : Nat) : Decidable (l.Apart i j) :=
  inferInstanceAs (Decidable (_ ∨ _))

/-- The first `n` fields do not overlap and are within the first `w` bits. -/
def Disjoint (l : Layout) (n w : Nat) : Prop :=
  ∀ i < n, l.start i + l.width i ≤ w ∧ ∀ j < n, i ≠ j → l.Apart i j

instance (l : Layout) (n w : Nat) : Decidable (l.Disjoint n w) :=
  inferInstanceAs (Decidable (∀ i < n, _))

theorem get_put_of_apart {l : Layout} {i j : Nat} (h : l.Apart i j) {w : Nat}
    (hw : l.start j + l.width j ≤ w) (x : BitVec w) (v : BitVec (l.width i)) :
    l.get j (l.put i x v) = l.get j x := by
  unfold get
  unfold Apart at h
  ext k hk
  rw [BitVec.getElem_extractLsb', BitVec.getElem_extractLsb', getLsbD_put l i x v (by omega),
    if_neg (by omega)]

/-- A store of a number, which is cut to the width of the field. -/
def assign (l : Layout) {w : Nat} (x : BitVec w) (i v : Nat) : BitVec w :=
  l.put i x (BitVec.ofNat (l.width i) v)

/-- The raw image after the stores of numbers to some of the first `n` fields,
in the order of time. -/
def putAll (l : Layout) {n w : Nat} (x : BitVec w) (stores : List (Fin n × Nat)) : BitVec w :=
  stores.foldl (fun x s => l.assign x s.1 s.2) x

/-- What a store leaves in the field number `j`, if it is to that field. -/
def stored (l : Layout) {n : Nat} (s : Fin n × Nat) (j : Fin n) : Option Nat :=
  if s.1 = j then some (s.2 % 2 ^ l.width j) else none

theorem toNat_get_assign {l : Layout} {n w : Nat} (hd : l.Disjoint n w) (x : BitVec w)
    (s : Fin n × Nat) (j : Fin n) :
    (l.get j (l.assign x s.1 s.2)).toNat = (l.stored s j).getD (l.get j x).toNat := by
  unfold stored assign
  by_cases hij : s.1 = j
  · subst hij
    rw [if_pos rfl, get_put l s.1 (hd s.1 s.1.isLt).1, BitVec.toNat_ofNat, Option.getD_some]
  · have hne : (s.1 : Nat) ≠ j := fun h => hij (Fin.ext h)
    rw [if_neg hij, get_put_of_apart ((hd s.1 s.1.isLt).2 j j.isLt hne) (hd j j.isLt).1,
      Option.getD_none]

/-- The last store to a field wins, and the others do not matter. -/
theorem toNat_get_putAll {l : Layout} {n w : Nat} (hd : l.Disjoint n w) (x : BitVec w)
    (stores : List (Fin n × Nat)) (j : Fin n) :
    (l.get j (l.putAll x stores)).toNat =
      (History.latest l.stored stores.reverse j).getD (l.get j x).toNat :=
  History.foldl_latest (fun x j => (l.get (j : Fin n) x).toNat) l.stored
    (fun x s => toNat_get_assign hd x s j) stores x

end Layout
