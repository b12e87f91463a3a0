import Mathlib.Data.Nat.Digits.Defs

/-!
# Input streams

The unformatted input functions of a C++ `istream` on the content of a file
that can be read without errors. A stream carries two of the state bits,
`eofbit` and `failbit`. Every function sets up a sentry first, which sets
`failbit` on a stream that is not good, and does nothing on one that has failed.

What is read are bytes, and a load of several bytes on a little-endian host is
the number with these digits (`littleEndian`).
-/

structure InputStream (α : Type) where
  content : List α
  pos : Nat := 0
  eof : Bool := false
  fail : Bool := false

namespace InputStream

variable {α : Type}

def good (s : InputStream α) : Bool := !s.eof && !s.fail

def sentry (s : InputStream α) : InputStream α :=
  if s.good then s else { s with fail := true }

/-- Up to `n` elements from the position on. Fewer than `n` are a failure. -/
def read (n : Nat) (s : InputStream α) : List α × InputStream α :=
  let s := s.sentry
  if s.fail then ([], s)
  else
    let chunk := (s.content.drop s.pos).take n
    let short := decide (chunk.length < n)
    (chunk, { s with pos := s.pos + chunk.length, eof := short, fail := short })

/-- `seekg` relative to the end. It forgets that the end was reached, but not
that a function has failed. -/
def seekEnd (off : Int) (s : InputStream α) : InputStream α :=
  let s := { s with eof := false }.sentry
  if s.fail then s
  else
    let pos := s.content.length + off
    if 0 ≤ pos then { s with pos := pos.toNat } else { s with fail := true }

/-- `tellg`. A stream that has failed is at -1. -/
def tell (s : InputStream α) : Int × InputStream α :=
  let s := s.sentry
  (if s.fail then -1 else s.pos, s)

theorem read_start (content : List α) (n : Nat) :
    ({ content := content } : InputStream α).read n =
      (content.take n, { content := content
                         pos := (content.take n).length
                         eof := decide (content.length < n)
                         fail := decide (content.length < n) }) := by
  have hshort : (content.take n).length < n ↔ content.length < n := by
    rw [List.length_take]
    omega
  unfold read sentry good
  simp only [hshort, List.drop_zero, Nat.zero_add, Bool.not_false, Bool.and_self, if_true,
    Bool.false_eq_true, if_false]

/-- The usual way to find the size of a file works if everything before it has. -/
theorem tell_seekEnd (s : InputStream α) :
    (s.seekEnd 0).tell.1 = if s.fail then -1 else (s.content.length : Int) := by
  obtain ⟨content, pos, eof, fail⟩ := s
  cases fail with
  | true => rfl
  | false =>
    have hpos : 0 ≤ (content.length : Int) + 0 := by omega
    have hseek : seekEnd 0 ⟨content, pos, eof, false⟩ =
        ⟨content, ((content.length : Int) + 0).toNat, false, false⟩ :=
      if_pos (e := (⟨content, pos, false, true⟩ : InputStream α)) hpos
    rw [hseek]
    show ((((content.length : Int) + 0).toNat : Nat) : Int) = content.length
    omega

end InputStream

/-! ## Loads -/

/-- The word of width `w` whose bytes in memory are `bytes`. -/
def littleEndian (w : Nat) (bytes : List (BitVec 8)) : BitVec w :=
  BitVec.ofNat w (Nat.ofDigits 256 (bytes.map BitVec.toNat))

theorem littleEndian_toNat {w : Nat} {bytes : List (BitVec 8)} (h : 8 * bytes.length ≤ w) :
    (littleEndian w bytes).toNat = Nat.ofDigits 256 (bytes.map BitVec.toNat) := by
  have hdigits : ∀ d ∈ bytes.map BitVec.toNat, d < 256 := by
    intro d hd
    obtain ⟨b, -, rfl⟩ := List.mem_map.mp hd
    exact b.isLt
  have hlt := Nat.ofDigits_lt_base_pow_length (by decide) hdigits
  rw [List.length_map] at hlt
  unfold littleEndian
  rw [BitVec.toNat_ofNat]
  refine Nat.mod_eq_of_lt (hlt.trans_le ?_)
  calc 256 ^ bytes.length
      = 2 ^ (8 * bytes.length) := (Nat.pow_mul 2 8 bytes.length).symm
    _ ≤ 2 ^ w := Nat.pow_le_pow_right (by decide) h
