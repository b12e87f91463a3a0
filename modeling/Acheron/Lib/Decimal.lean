import Mathlib.Algebra.Group.Nat.Defs
import Mathlib.Data.List.Basic

/-!
# Decimal text

Numbers printed in decimal between other characters, as `printf` does with
`%d`. The digits of a number end where the next character is not a digit, so
the text of two numbers can be taken apart again (`toDigits_append_inj`), and a
format determines its arguments as soon as something other than a digit follows
every directive (`render_inj`).
-/

namespace Decimal

/-! ## Digits -/

theorem isDigit_of_mem {n : Nat} {c : Char} (h : c ∈ Nat.toDigits 10 n) : c.isDigit = true :=
  Nat.isDigit_of_mem_toDigits (by decide) (by decide) h

theorem toDigits_inj {m n : Nat} (h : Nat.toDigits 10 m = Nat.toDigits 10 n) : m = n := by
  rw [← Nat.ofDigitChars_ten_toDigits (n := m), h, Nat.ofDigitChars_ten_toDigits]

/-- The text does not begin with a digit. -/
def NoDigit (cs : List Char) : Prop := ∀ c ∈ cs.head?, c.isDigit = false

theorem takeWhile_digits {ds cs : List Char} (hd : ∀ c ∈ ds, c.isDigit = true)
    (hc : NoDigit cs) : (ds ++ cs).takeWhile Char.isDigit = ds := by
  rw [List.takeWhile_append_of_pos hd]
  cases cs with
  | nil => exact List.append_nil ds
  | cons c cs =>
    have hstop : c.isDigit = false := hc c rfl
    rw [List.takeWhile_cons, hstop]
    exact List.append_nil ds

/-- A number is read back from the text that begins with it. -/
theorem toDigits_append_inj {m n : Nat} {xs ys : List Char} (hx : NoDigit xs) (hy : NoDigit ys)
    (h : Nat.toDigits 10 m ++ xs = Nat.toDigits 10 n ++ ys) : m = n ∧ xs = ys := by
  have hdigits := congrArg (List.takeWhile Char.isDigit) h
  rw [takeWhile_digits (fun _ => isDigit_of_mem) hx,
    takeWhile_digits (fun _ => isDigit_of_mem) hy] at hdigits
  rw [hdigits] at h
  exact ⟨toDigits_inj hdigits, List.append_cancel_left h⟩

/-! ## Formats -/

/-- The text of a format whose only directive is `%d`, for arguments that are
not negative. -/
def render : List Char → List Nat → List Char
  | '%' :: 'd' :: format, n :: args => Nat.toDigits 10 n ++ render format args
  | c :: format, args => c :: render format args
  | [], _ => []

/-- The number of arguments that a format takes. -/
def directives : List Char → Nat
  | '%' :: 'd' :: format => directives format + 1
  | _ :: format => directives format
  | [] => 0

/-- Every directive is followed by the end or by a character that is printed as
it stands and is not a digit. -/
def separated : List Char → Bool
  | '%' :: 'd' :: format =>
    format.head?.all (fun c => c != '%' && !c.isDigit) && separated format
  | _ :: format => separated format
  | [] => true

theorem render_cons {c : Char} {format : List Char}
    (hne : ∀ rest, c = '%' → format = 'd' :: rest → False) (args : List Nat) :
    render (c :: format) args = c :: render format args := by
  rw [render]
  intro rest _ _ _ hc hformat
  exact hne rest hc hformat

/-- What follows a directive stays what it is. -/
theorem noDigit_render {format : List Char}
    (h : format.head?.all (fun c => c != '%' && !c.isDigit) = true) (args : List Nat) :
    NoDigit (render format args) := by
  cases format with
  | nil => exact nofun
  | cons c format =>
    obtain ⟨hpercent, hdigit⟩ := Bool.and_eq_true_iff.mp h
    rw [Bool.not_eq_true'] at hdigit
    rw [render_cons fun _ hc _ => bne_iff_ne.mp hpercent hc]
    rintro _ ⟨⟩
    exact hdigit

/-- The text consists of characters of the format and of digits. -/
theorem mem_render {format : List Char} {args : List Nat} {c : Char} (h : c ∈ render format args) :
    c ∈ format ∨ c.isDigit = true := by
  fun_induction render format args with
  | case1 format n args ih =>
    rcases List.mem_append.mp h with hdigit | hrest
    · exact .inr (isDigit_of_mem hdigit)
    · exact (ih hrest).imp_left fun hc => List.mem_cons_of_mem _ (List.mem_cons_of_mem _ hc)
  | case2 c' format args hne ih =>
    rcases List.mem_cons.mp h with rfl | hrest
    · exact .inl List.mem_cons_self
    · exact (ih hrest).imp_left (List.mem_cons_of_mem c')
  | case3 => cases h

theorem render_inj {format : List Char} (hs : separated format = true) {args args' : List Nat}
    (hl : args.length = directives format) (hl' : args'.length = directives format)
    (h : render format args = render format args') : args = args' := by
  fun_induction separated format generalizing args args' with
  | case1 format ih =>
    obtain ⟨hnext, hrest⟩ := Bool.and_eq_true_iff.mp hs
    cases args with
    | nil => cases hl
    | cons n args =>
      cases args' with
      | nil => cases hl'
      | cons n' args' =>
        rw [render, render] at h
        obtain ⟨rfl, htail⟩ :=
          toDigits_append_inj (noDigit_render hnext args) (noDigit_render hnext args') h
        rw [ih hrest (Nat.succ.inj hl) (Nat.succ.inj hl') htail]
  | case2 c format hne ih =>
    rw [directives] at hl hl'
    · rw [render_cons hne, render_cons hne] at h
      exact ih hs hl hl' (List.cons.inj h).2
    · exact hne
    · exact hne
  | case3 => rw [List.length_eq_zero_iff.mp hl, List.length_eq_zero_iff.mp hl']

/-- The length of the text, for arguments of at most `k` digits. -/
theorem length_render_le {k : Nat} (hk : 0 < k) (format : List Char) {args : List Nat}
    (h : ∀ n ∈ args, n < 10 ^ k) :
    (render format args).length ≤ format.length + k * args.length := by
  fun_induction render format args with
  | case1 format n args ih =>
    have hn : (Nat.toDigits 10 n).length ≤ k :=
      (Nat.length_toDigits_le_iff (by decide) hk).mpr (h n List.mem_cons_self)
    have hrest := ih fun m hm => h m (List.mem_cons_of_mem n hm)
    rw [List.length_append]
    simp only [List.length_cons, Nat.mul_succ]
    omega
  | case2 c format args hne ih =>
    have hrest := ih h
    simp only [List.length_cons]
    omega
  | case3 => exact Nat.zero_le _

end Decimal
