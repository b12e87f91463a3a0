import Mathlib.Data.BitVec

/-!
# Mask and pattern guards

A decoder recognises a word `x` by guards of the form `x & mask == pattern`,
tried in order. Whether such a guard is satisfiable, and whether two of them
can hold of one word, depends on the constants alone, so both questions are
decidable on the table of guards:

* `satisfiable_of_holds`: a guard that holds of some word has no bit of its
  pattern outside its mask;
* `exists_both_iff`: two satisfiable guards hold of a common word exactly when
  their patterns agree on the bits both masks test;
* `holds_of_covers`: one guard can be an instance of another;
* `firstMatch_perm`: where at most one guard holds, the order is irrelevant.
-/

/-- The test `x & mask == pattern` on `w`-bit words. -/
structure MaskGuard (w : Nat) where
  mask : BitVec w
  pattern : BitVec w
deriving DecidableEq

namespace MaskGuard

variable {w : Nat} {α : Type*}

/-- The guard accepts the word `x`. -/
def Holds (g : MaskGuard w) (x : BitVec w) : Prop :=
  x &&& g.mask = g.pattern

instance (g : MaskGuard w) (x : BitVec w) : Decidable (g.Holds x) :=
  inferInstanceAs (Decidable (x &&& g.mask = g.pattern))

/-- The pattern asks for no bit that the mask removes. -/
def Satisfiable (g : MaskGuard w) : Prop :=
  g.pattern &&& g.mask = g.pattern

instance (g : MaskGuard w) : Decidable g.Satisfiable :=
  inferInstanceAs (Decidable (g.pattern &&& g.mask = g.pattern))

/-- The patterns differ on a bit that both masks test. -/
def Clash (g h : MaskGuard w) : Prop :=
  g.pattern &&& h.mask ≠ h.pattern &&& g.mask

instance (g h : MaskGuard w) : Decidable (g.Clash h) :=
  inferInstanceAs (Decidable (g.pattern &&& h.mask ≠ h.pattern &&& g.mask))

/-- Every word that `h` accepts is accepted by `g`. -/
def Covers (g h : MaskGuard w) : Prop :=
  h.mask &&& g.mask = g.mask ∧ h.pattern &&& g.mask = g.pattern

instance (g h : MaskGuard w) : Decidable (g.Covers h) :=
  inferInstanceAs (Decidable (h.mask &&& g.mask = g.mask ∧ h.pattern &&& g.mask = g.pattern))

theorem satisfiable_of_holds {g : MaskGuard w} {x : BitVec w} (hx : g.Holds x) :
    g.Satisfiable := by
  unfold Holds at hx
  unfold Satisfiable
  rw [← hx, BitVec.and_assoc, BitVec.and_self]

theorem not_holds_of_clash {g h : MaskGuard w} {x : BitVec w} (hc : g.Clash h)
    (hg : g.Holds x) : ¬ h.Holds x := by
  intro hh
  apply hc
  unfold Holds at hg hh
  calc g.pattern &&& h.mask = x &&& (g.mask &&& h.mask) := by rw [← hg, BitVec.and_assoc]
    _ = x &&& (h.mask &&& g.mask) := by rw [BitVec.and_comm g.mask]
    _ = h.pattern &&& g.mask := by rw [← hh, BitVec.and_assoc]

/-- A satisfiable guard holds of the union of its pattern with one that agrees
with it wherever both masks look. -/
theorem holds_union {g h : MaskGuard w} (sg : g.Satisfiable)
    (agree : g.pattern &&& h.mask = h.pattern &&& g.mask) : g.Holds (g.pattern ||| h.pattern) := by
  unfold Satisfiable at sg
  unfold Holds
  ext i hi
  have hs := congrArg (·.getLsbD i) sg
  have ha := congrArg (·.getLsbD i) agree
  simp only [BitVec.getLsbD_and] at hs ha
  simp only [← BitVec.getLsbD_eq_getElem, BitVec.getLsbD_and, BitVec.getLsbD_or]
  revert hs ha
  cases g.pattern.getLsbD i <;> cases h.pattern.getLsbD i <;> cases g.mask.getLsbD i <;> simp

/-- Two guards hold of a common word exactly when both are satisfiable and
their patterns agree wherever both masks look. -/
theorem exists_both_iff {g h : MaskGuard w} :
    (∃ x, g.Holds x ∧ h.Holds x) ↔ g.Satisfiable ∧ h.Satisfiable ∧ ¬ g.Clash h := by
  constructor
  · rintro ⟨x, hg, hh⟩
    exact ⟨satisfiable_of_holds hg, satisfiable_of_holds hh,
      fun hc => not_holds_of_clash hc hg hh⟩
  · rintro ⟨sg, sh, hc⟩
    have agree : g.pattern &&& h.mask = h.pattern &&& g.mask := not_not.mp hc
    refine ⟨g.pattern ||| h.pattern, holds_union sg agree, ?_⟩
    rw [BitVec.or_comm]
    exact holds_union sh agree.symm

theorem holds_of_covers {g h : MaskGuard w} {x : BitVec w} (hc : g.Covers h)
    (hh : h.Holds x) : g.Holds x := by
  unfold Holds at hh ⊢
  calc x &&& g.mask = x &&& h.mask &&& g.mask := by rw [BitVec.and_assoc, hc.1]
    _ = g.pattern := by rw [hh, hc.2]

/-- Two guards together fix every bit that `k` tests, and the way `k` asks. -/
def CoversJoint (k g h : MaskGuard w) : Prop :=
  (g.mask ||| h.mask) &&& k.mask = k.mask ∧ (g.pattern ||| h.pattern) &&& k.mask = k.pattern

instance (k g h : MaskGuard w) : Decidable (k.CoversJoint g h) :=
  inferInstanceAs (Decidable ((g.mask ||| h.mask) &&& k.mask = k.mask ∧
    (g.pattern ||| h.pattern) &&& k.mask = k.pattern))

theorem holds_of_coversJoint {k g h : MaskGuard w} {x : BitVec w} (hc : k.CoversJoint g h)
    (hg : g.Holds x) (hh : h.Holds x) : k.Holds x := by
  unfold Holds at hg hh ⊢
  calc x &&& k.mask = (x &&& (g.mask ||| h.mask)) &&& k.mask := by rw [BitVec.and_assoc, hc.1]
    _ = (g.pattern ||| h.pattern) &&& k.mask := by rw [BitVec.and_or_distrib_left, hg, hh]
    _ = k.pattern := hc.2

/-! ## Guarded tables -/

/-- One line of a decoder table: a guard and the result for the words it
accepts. -/
structure Arm (w : Nat) (α : Type*) where
  guard : MaskGuard w
  build : BitVec w → α

/-- The result of the first arm whose guard holds. -/
def firstMatch (default : α) : List (Arm w α) → BitVec w → α
  | [], _ => default
  | a :: arms, x => if a.guard.Holds x then a.build x else firstMatch default arms x

/-- No two arms of the table accept the word `x`. -/
def AtMostOne (arms : List (Arm w α)) (x : BitVec w) : Prop :=
  arms.Pairwise fun a b => ¬ (a.guard.Holds x ∧ b.guard.Holds x)

theorem firstMatch_of_none {default : α} {arms : List (Arm w α)} {x : BitVec w}
    (h : ∀ a ∈ arms, ¬ a.guard.Holds x) : firstMatch default arms x = default := by
  induction arms with
  | nil => rfl
  | cons a arms ih =>
    rw [firstMatch, if_neg (h a List.mem_cons_self)]
    exact ih fun b hb => h b (List.mem_cons_of_mem a hb)

/-- Where at most one guard holds, an accepting arm is the one that answers,
wherever it stands in the table. -/
theorem firstMatch_of_mem {default : α} {arms : List (Arm w α)} {x : BitVec w}
    (one : AtMostOne arms x) {a : Arm w α} (ha : a ∈ arms) (hx : a.guard.Holds x) :
    firstMatch default arms x = a.build x := by
  induction arms with
  | nil => simp at ha
  | cons b arms ih =>
    obtain ⟨hb, hrest⟩ := List.pairwise_cons.mp one
    rcases List.mem_cons.mp ha with rfl | hmem
    · rw [firstMatch, if_pos hx]
    · rw [firstMatch, if_neg fun hbx => hb a hmem ⟨hbx, hx⟩]
      exact ih hrest hmem

/-- Where at most one guard holds, the order of the arms is irrelevant. -/
theorem firstMatch_perm {default : α} {arms arms' : List (Arm w α)} {x : BitVec w}
    (one : AtMostOne arms x) (hp : arms.Perm arms') :
    firstMatch default arms x = firstMatch default arms' x := by
  have one' : AtMostOne arms' x :=
    (hp.pairwise_iff fun hab hba => hab hba.symm).mp one
  by_cases hex : ∃ a ∈ arms, a.guard.Holds x
  · obtain ⟨a, ha, hx⟩ := hex
    rw [firstMatch_of_mem one ha hx, firstMatch_of_mem one' (hp.mem_iff.mp ha) hx]
  · have none : ∀ a ∈ arms, ¬ a.guard.Holds x := fun a ha hx => hex ⟨a, ha, hx⟩
    rw [firstMatch_of_none none, firstMatch_of_none fun a ha => none a (hp.mem_iff.mpr ha)]

/-- An arm whose words are all taken by the arms before it can be dropped. -/
theorem firstMatch_drop {default : α} (pre : List (Arm w α)) {post : List (Arm w α)} {a : Arm w α}
    {x : BitVec w} (taken : a.guard.Holds x → ∃ b ∈ pre, b.guard.Holds x) :
    firstMatch default (pre ++ a :: post) x = firstMatch default (pre ++ post) x := by
  induction pre with
  | nil =>
    have dead : ¬ a.guard.Holds x := fun h => by simpa using taken h
    rw [List.nil_append, List.nil_append, firstMatch, if_neg dead]
  | cons b pre ih =>
    rw [List.cons_append, List.cons_append, firstMatch, firstMatch]
    by_cases hb : b.guard.Holds x
    · rw [if_pos hb, if_pos hb]
    · rw [if_neg hb, if_neg hb]
      refine ih fun ha => ?_
      obtain ⟨c, hc, hx⟩ := taken ha
      rcases List.mem_cons.mp hc with rfl | hmem
      · exact absurd hx hb
      · exact ⟨c, hmem, hx⟩

end MaskGuard
