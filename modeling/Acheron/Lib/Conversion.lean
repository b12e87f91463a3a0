import Acheron.Lib.Decimal
import Mathlib.Data.BitVec

/-!
# Conversions of text to numbers

`std::stoull` and `std::stoi` in base 10 and in the "C" locale. They skip
blanks, take a sign and as many digits as there are, and ignore the rest of the
text. A number that does not fit is an error, except that `stoull` accepts a
minus sign and negates modulo 2^64. What `std::to_string` writes is read back
(`stoull_showUnsigned`, `stoi_showInt`).
-/

/-- The exceptions that a conversion throws. -/
inductive ConversionError
  | invalidArgument
  | outOfRange
deriving DecidableEq, Repr

namespace Conversion

/-- `isspace`: the blank and the characters 9 to 13. -/
def isSpace (c : Char) : Bool := c.toNat == 32 || (9 ≤ c.toNat && c.toNat ≤ 13)

/-- The number that the digits stand for. -/
def value (ds : List Char) : Nat := Nat.ofDigitChars 10 ds 0

/-- Whether the text has a minus sign, and what follows its sign if it has one. -/
def scanSign : List Char → Bool × List Char
  | '-' :: cs => (true, cs)
  | '+' :: cs => (false, cs)
  | cs => (false, cs)

/-- The sign and the digits of the number that the text begins with. -/
def scan (cs : List Char) : Bool × List Char :=
  let (negative, cs) := scanSign (cs.dropWhile isSpace)
  (negative, cs.takeWhile Char.isDigit)

def stoull (s : String) : Except ConversionError (BitVec 64) :=
  let (negative, ds) := scan s.toList
  if ds = [] then .error .invalidArgument
  else if 2 ^ 64 ≤ value ds then .error .outOfRange
  else if negative then .ok (-BitVec.ofNat 64 (value ds))
  else .ok (BitVec.ofNat 64 (value ds))

def stoi (s : String) : Except ConversionError (BitVec 32) :=
  let (negative, ds) := scan s.toList
  let n : Int := if negative then -value ds else value ds
  if ds = [] then .error .invalidArgument
  else if n < -2 ^ 31 ∨ 2 ^ 31 ≤ n then .error .outOfRange
  else .ok (BitVec.ofInt 32 n)

/-- When `stoull` returns. -/
theorem stoull_isOk_iff {s : String} :
    (∃ v, stoull s = .ok v) ↔ (scan s.toList).2 ≠ [] ∧ value (scan s.toList).2 < 2 ^ 64 := by
  unfold stoull
  dsimp only
  split
  · next hnil => exact ⟨nofun, fun h => absurd hnil h.1⟩
  · next hne =>
    split
    · next hlarge => exact ⟨nofun, fun h => absurd h.2 (Nat.not_lt.mpr hlarge)⟩
    · next hfits =>
      refine ⟨fun _ => ⟨hne, Nat.not_le.mp hfits⟩, fun _ => ?_⟩
      split
      · exact ⟨_, rfl⟩
      · exact ⟨_, rfl⟩

theorem isSpace_digit {c : Char} (h : c.isDigit = true) : isSpace c = false := by
  obtain ⟨hlow, -⟩ := Char.isDigit_iff_toNat.mp h
  have hlow' : 48 ≤ c.toNat := hlow
  unfold isSpace
  simp only [Bool.or_eq_false_iff, Bool.and_eq_false_iff, beq_eq_false_iff_ne,
    decide_eq_false_iff_not]
  omega

theorem scanSign_digit {c : Char} (h : c.isDigit = true) (cs : List Char) :
    scanSign (c :: cs) = (false, c :: cs) := by
  unfold scanSign
  split
  · next heq => cases heq; cases h
  · next heq => cases heq; cases h
  · rfl

/-- A text of digits is its own number. -/
theorem scan_digits {ds : List Char} (hne : ds ≠ []) (hd : ∀ c ∈ ds, c.isDigit = true) :
    scan ds = (false, ds) := by
  obtain ⟨c, cs, rfl⟩ := List.exists_cons_of_ne_nil hne
  have hc : c.isDigit = true := hd c List.mem_cons_self
  have hall := Decimal.takeWhile_digits hd (show Decimal.NoDigit [] from nofun)
  rw [List.append_nil] at hall
  unfold scan
  rw [List.dropWhile_cons, isSpace_digit hc]
  show ((scanSign (c :: cs)).1, (scanSign (c :: cs)).2.takeWhile Char.isDigit) = _
  rw [scanSign_digit hc, hall]

/-- It is converted without a loss, or not at all. -/
theorem stoull_digits {s : String} (hne : s.toList ≠ [])
    (hd : ∀ c ∈ s.toList, c.isDigit = true) (hlt : value s.toList < 2 ^ 64) :
    stoull s = .ok (BitVec.ofNat 64 (value s.toList)) := by
  unfold stoull
  rw [scan_digits hne hd]
  dsimp only
  rw [if_neg hne, if_neg (Nat.not_le.mpr hlt)]
  rfl

/-! ## Numbers as text -/

/-- A number of 64 bits, as `std::to_string` writes it. -/
def showUnsigned (v : BitVec 64) : String := String.ofList (Nat.toDigits 10 v.toNat)

/-- The same for an `int`. -/
def showInt (v : BitVec 32) : String :=
  let ds := Nat.toDigits 10 v.toInt.natAbs
  String.ofList (if v.toInt < 0 then '-' :: ds else ds)

theorem value_toDigits (n : Nat) : value (Nat.toDigits 10 n) = n := Nat.ofDigitChars_ten_toDigits

theorem scan_toDigits (n : Nat) : scan (Nat.toDigits 10 n) = (false, Nat.toDigits 10 n) :=
  scan_digits Nat.toDigits_ne_nil fun _ => Decimal.isDigit_of_mem

theorem scan_minus (n : Nat) : scan ('-' :: Nat.toDigits 10 n) = (true, Nat.toDigits 10 n) := by
  have hall := Decimal.takeWhile_digits (fun _ => Decimal.isDigit_of_mem (n := n))
    (show Decimal.NoDigit [] from nofun)
  rw [List.append_nil] at hall
  show (true, (Nat.toDigits 10 n).takeWhile Char.isDigit) = _
  rw [hall]

/-- What is written is read back. -/
theorem stoull_showUnsigned (v : BitVec 64) : stoull (showUnsigned v) = .ok v := by
  have hlt := v.isLt
  unfold stoull showUnsigned
  rw [String.toList_ofList, scan_toDigits]
  dsimp only
  rw [if_neg Nat.toDigits_ne_nil, value_toDigits, if_neg (Nat.not_le.mpr hlt),
    if_neg Bool.false_ne_true, BitVec.ofNat_toNat, BitVec.setWidth_eq]

theorem stoi_showInt (v : BitVec 32) : stoi (showInt v) = .ok v := by
  have hlow := v.le_toInt
  have hhigh := v.toInt_lt
  -- The sign and the digits together are the number.
  have hscan : ∃ negative, scan (showInt v).toList = (negative, Nat.toDigits 10 v.toInt.natAbs) ∧
      (if negative then -(v.toInt.natAbs : Int) else v.toInt.natAbs) = v.toInt := by
    unfold showInt
    rw [String.toList_ofList]
    by_cases hneg : v.toInt < 0
    · refine ⟨true, ?_, ?_⟩
      · rw [if_pos hneg, scan_minus]
      · rw [if_pos rfl]
        omega
    · refine ⟨false, ?_, ?_⟩
      · rw [if_neg hneg, scan_toDigits]
      · rw [if_neg Bool.false_ne_true]
        omega
  obtain ⟨negative, hscan, hvalue⟩ := hscan
  unfold stoi
  rw [hscan]
  dsimp only
  rw [if_neg Nat.toDigits_ne_nil, value_toDigits, hvalue, if_neg (by omega), BitVec.ofInt_toInt]

end Conversion
