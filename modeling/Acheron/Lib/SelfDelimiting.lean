import Mathlib.Data.List.Basic

/-!
# Self-delimiting texts

A log is a sequence of records without a separator between them. It can be taken
apart again if the text of a record tells where it ends.

* `flatMap_injective`: then the log determines its records;
* `of_stop`: such is a text that ends with a symbol which it does not contain
  before, and so are one behind an opening (`opening`) and two in a row (`pair`);
* `toDigits_injective`, `mem_toDigits`: the digits of numbers, up to base 16.
-/

namespace Delimited

variable {α β γ : Type*}

/-- What follows the text of a record can be told from it. -/
def SelfDelimiting (encode : α → List γ) : Prop :=
  ∀ a b xs ys, encode a ++ xs = encode b ++ ys → a = b ∧ xs = ys

theorem flatMap_injective {encode : α → List γ} (h : SelfDelimiting encode)
    (hne : ∀ a, encode a ≠ []) : Function.Injective (List.flatMap encode) := by
  intro as
  induction as with
  | nil =>
    intro bs heq
    cases bs with
    | nil => rfl
    | cons b bs =>
      rw [List.flatMap_nil, List.flatMap_cons] at heq
      exact absurd (List.append_eq_nil_iff.mp heq.symm).1 (hne b)
  | cons a as ih =>
    intro bs heq
    cases bs with
    | nil =>
      rw [List.flatMap_nil, List.flatMap_cons] at heq
      exact absurd (List.append_eq_nil_iff.mp heq).1 (hne a)
    | cons b bs =>
      rw [List.flatMap_cons, List.flatMap_cons] at heq
      obtain ⟨rfl, hrest⟩ := h a b _ _ heq
      rw [ih hrest]

theorem of_stop {encode : α → List γ} (hinj : Function.Injective encode) {stop : γ}
    (hstop : ∀ a, stop ∉ encode a) : SelfDelimiting fun a => encode a ++ [stop] := by
  have split : ∀ ws ws' : List γ, stop ∉ ws → stop ∉ ws' → ∀ xs ys,
      ws ++ stop :: xs = ws' ++ stop :: ys → ws = ws' ∧ xs = ys := by
    intro ws
    induction ws with
    | nil =>
      intro ws' _ hws' xs ys heq
      cases ws' with
      | nil => exact ⟨rfl, (List.cons.inj heq).2⟩
      | cons w' ws' => exact absurd (List.cons.inj heq).1 (List.ne_of_not_mem_cons hws')
    | cons w ws ih =>
      intro ws' hws hws' xs ys heq
      cases ws' with
      | nil => exact absurd (List.cons.inj heq).1.symm (List.ne_of_not_mem_cons hws)
      | cons w' ws' =>
        obtain ⟨rfl, hrest⟩ := List.cons.inj heq
        obtain ⟨rfl, htail⟩ := ih ws' (List.not_mem_of_not_mem_cons hws)
          (List.not_mem_of_not_mem_cons hws') xs ys hrest
        exact ⟨rfl, htail⟩
  intro a b xs ys heq
  rw [List.append_assoc, List.append_assoc] at heq
  obtain ⟨hab, hrest⟩ := split _ _ (hstop a) (hstop b) xs ys heq
  exact ⟨hinj hab, hrest⟩

theorem opening {encode : α → List γ} (h : SelfDelimiting encode) (front : List γ) :
    SelfDelimiting fun a => front ++ encode a := by
  intro a b xs ys heq
  rw [List.append_assoc, List.append_assoc] at heq
  exact h a b xs ys (List.append_cancel_left heq)

theorem pair {encode : α → List γ} {encode' : β → List γ} (h : SelfDelimiting encode)
    (h' : SelfDelimiting encode') :
    SelfDelimiting fun p : α × β => encode p.1 ++ encode' p.2 := by
  rintro ⟨a, a'⟩ ⟨b, b'⟩ xs ys heq
  rw [List.append_assoc, List.append_assoc] at heq
  obtain ⟨rfl, hrest⟩ := h a b _ _ heq
  obtain ⟨rfl, htail⟩ := h' a' b' _ _ hrest
  exact ⟨rfl, htail⟩

/-! ## Digits -/

theorem digitChar_injective : ∀ m < 16, ∀ n < 16, Nat.digitChar m = Nat.digitChar n → m = n := by
  decide

theorem mem_toDigits {b : Nat} (hb : 1 < b) {n : Nat} {c : Char} (h : c ∈ Nat.toDigits b n) :
    ∃ d < b, c = Nat.digitChar d := by
  induction n using Nat.strongRecOn with
  | _ n ih =>
    rcases Nat.lt_or_ge n b with hlt | hge
    · rw [Nat.toDigits_of_lt_base hlt] at h
      exact ⟨n, hlt, List.mem_singleton.mp h⟩
    · rw [Nat.toDigits_of_base_le hb hge] at h
      rcases List.mem_append.mp h with hmem | hmem
      · exact ih (n / b) (Nat.div_lt_self (by omega) hb) hmem
      · exact ⟨n % b, Nat.mod_lt n (by omega), List.mem_singleton.mp hmem⟩

theorem toDigits_injective {b : Nat} (hb : 1 < b) (hb' : b ≤ 16) :
    Function.Injective (Nat.toDigits b) := by
  intro m
  induction m using Nat.strongRecOn with
  | _ m ih =>
    intro n heq
    have short {k l : Nat} (hk : k < b) (hl : b ≤ l) : Nat.toDigits b k ≠ Nat.toDigits b l := by
      rw [Nat.toDigits_of_lt_base hk, Nat.toDigits_of_base_le hb hl]
      intro hkl
      have hlen := congrArg List.length hkl
      rw [List.length_append, List.length_singleton, List.length_singleton] at hlen
      have hnil : Nat.toDigits b (l / b) = [] := List.length_eq_zero_iff.mp (by omega)
      exact Nat.toDigits_ne_nil hnil
    rcases Nat.lt_or_ge m b with hm | hm <;> rcases Nat.lt_or_ge n b with hn | hn
    · rw [Nat.toDigits_of_lt_base hm, Nat.toDigits_of_lt_base hn] at heq
      exact digitChar_injective m (by omega) n (by omega) (List.cons.inj heq).1
    · exact absurd heq (short hm hn)
    · exact absurd heq.symm (short hn hm)
    · rw [Nat.toDigits_of_base_le hb hm, Nat.toDigits_of_base_le hb hn] at heq
      obtain ⟨hdiv, hmod⟩ := List.append_inj' heq rfl
      have hquot := ih (m / b) (Nat.div_lt_self (by omega) hb) hdiv
      have hlt (k : Nat) : k % b < 16 := Nat.lt_of_lt_of_le (Nat.mod_lt k (by omega)) hb'
      have hrem := digitChar_injective (m % b) (hlt m) (n % b) (hlt n) (List.cons.inj hmod).1
      rw [← Nat.div_add_mod m b, ← Nat.div_add_mod n b, hquot, hrem]

end Delimited
