import Acheron.ParseArgs

/-!
# The memory size

The value of `-m` is a number with a unit, as in `512M`. `parse_args` strips the
unit, leaves the number to `std::stoull`, which also takes blanks, signs and
text behind the digits, and multiplies in 64 bits.

Results:
1. `parseSize_eq`: what is parsed, by the unit and the rest of the text.
2. `sizeExact_iff`: for which texts an accepted size is the one that is written.
-/

namespace Acheron

open ArgLemmas Conversion

/-! ## 1. Units -/

/-- The units and their factors. -/
def units : List (List Char × Nat) :=
  [([], 1), (['M'], 2 ^ 20), (['m'], 2 ^ 20), (['G'], 2 ^ 30), (['g'], 2 ^ 30)]

/-- The text without its unit, and the factor of the unit. -/
def splitUnit (s : List Char) : List Char × Nat :=
  match s.getLast? with
  | none => (s, 1)
  | some last =>
    if last = 'M' ∨ last = 'm' then (s.dropLast, 2 ^ 20)
    else if last = 'G' ∨ last = 'g' then (s.dropLast, 2 ^ 30)
    else (s, 1)

/-- The text is a number with a unit and stands for `n` bytes. -/
def SizeSyntax (s : String) (n : Nat) : Prop :=
  ∃ ds, ds ≠ [] ∧ (∀ c ∈ ds, c.isDigit = true) ∧
    ∃ u ∈ units, s.toList = ds ++ u.1 ∧ n = value ds * u.2

namespace SizeLemmas

theorem splitUnit_spec (s : List Char) :
    ∃ u ∈ units, s = (splitUnit s).1 ++ u.1 ∧ (splitUnit s).2 = u.2 := by
  unfold splitUnit
  split
  · next => exact ⟨([], 1), by decide, (List.append_nil s).symm, rfl⟩
  · next last hlast =>
    have happend : s = s.dropLast ++ [last] := (List.dropLast_append_getLast? last hlast).symm
    split
    · next hM =>
      rcases hM with rfl | rfl
      · exact ⟨(['M'], 2 ^ 20), by decide, happend, rfl⟩
      · exact ⟨(['m'], 2 ^ 20), by decide, happend, rfl⟩
    · split
      · next hG =>
        rcases hG with rfl | rfl
        · exact ⟨(['G'], 2 ^ 30), by decide, happend, rfl⟩
        · exact ⟨(['g'], 2 ^ 30), by decide, happend, rfl⟩
      · exact ⟨([], 1), by decide, (List.append_nil s).symm, rfl⟩

/-- A number has no unit of its own, so its text is split where it was put
together. -/
theorem splitUnit_append {ds : List Char} (hne : ds ≠ []) (hd : ∀ c ∈ ds, c.isDigit = true)
    {u : List Char × Nat} (hu : u ∈ units) : splitUnit (ds ++ u.1) = (ds, u.2) := by
  have hconcat (c : Char) : (ds ++ [c]).getLast? = some c ∧ (ds ++ [c]).dropLast = ds :=
    ⟨List.getLast?_concat, List.dropLast_concat⟩
  simp only [units, List.mem_cons, List.not_mem_nil, or_false] at hu
  unfold splitUnit
  rcases hu with rfl | rfl | rfl | rfl | rfl
  · -- The last character is a digit, so it is not taken for a unit.
    obtain ⟨last, hlast⟩ := Option.ne_none_iff_exists'.mp (mt List.getLast?_eq_none_iff.mp hne)
    have hdigit : last.isDigit = true := hd last (List.mem_of_getLast? hlast)
    have hunit (c c' : Char) (hc : c.isDigit = false) (hc' : c'.isDigit = false) :
        ¬ (last = c ∨ last = c') := by
      rintro (rfl | rfl)
      · cases hc.symm.trans hdigit
      · cases hc'.symm.trans hdigit
    rw [List.append_nil, hlast]
    dsimp only
    rw [if_neg (hunit 'M' 'm' rfl rfl), if_neg (hunit 'G' 'g' rfl rfl)]
  · rw [(hconcat 'M').1, (hconcat 'M').2]
    rfl
  · rw [(hconcat 'm').1, (hconcat 'm').2]
    rfl
  · rw [(hconcat 'G').1, (hconcat 'G').2]
    rfl
  · rw [(hconcat 'g').1, (hconcat 'g').2]
    rfl

theorem parseSize_eq (U : Undefined) {s : String} (hs : s ≠ "") :
    parseSize U s = (stoull (String.ofList (splitUnit s.toList).1)).map
      (· * BitVec.ofNat 64 (splitUnit s.toList).2) := by
  have hne : s.toList ≠ [] := fun h => hs (String.toList_inj.mp h)
  obtain ⟨last, hlast⟩ := Option.ne_none_iff_exists'.mp (mt List.getLast?_eq_none_iff.mp hne)
  have hback : U.backOf s = last := by
    unfold Undefined.backOf
    rw [hlast, Option.getD_some]
  have hpop : U.popBackOf s = String.ofList s.toList.dropLast := if_neg hs
  unfold parseSize splitUnit
  rw [hback, hpop, hlast]
  dsimp only
  split
  · rfl
  · split
    · rfl
    · rw [String.ofList_toList]
      rfl

end SizeLemmas

open SizeLemmas

/-! ## 2. Accepted sizes -/

/-- The command line consists of `items`, the binary `bin` and `suffix`. -/
structure CommandLine (argv : List String) (items : List Item) (bin : String)
    (suffix : List String) : Prop where
  argv : argv.tail = tokens items ++ bin :: suffix
  wellFormed : ∀ item ∈ items, item.WellFormed
  binary : classify bin = .binary

/-- Wherever `s` is a value of `-m` on a command line that is accepted, it is a
number of bytes that fits into 64 bits, and if it is the last such value, then
it is the memory size. -/
def SizeExact (s : String) : Prop :=
  ∀ U argv items bin suffix config printed, CommandLine argv items bin suffix →
    s ∈ values .memory items → parseArgs U argv = .returned true config printed →
      ∃ n, SizeSyntax s n ∧ n < 2 ^ 64 ∧
        ((values .memory items).getLast? = some s → config.memorySize.toNat = n)

/-- The text is not empty, and without its unit it has no number, a number that
`std::stoull` rejects as too large, or nothing but a number whose product with
the unit is below 2^64. -/
def SizeCondition (s : String) : Prop :=
  s ≠ "" ∧ ((scan (splitUnit s.toList).1).2 = [] ∨ 2 ^ 64 ≤ value (scan (splitUnit s.toList).1).2 ∨
    ((splitUnit s.toList).1 ≠ [] ∧ (∀ c ∈ (splitUnit s.toList).1, c.isDigit = true) ∧
      value (splitUnit s.toList).1 * (splitUnit s.toList).2 < 2 ^ 64))

namespace SizeLemmas

theorem values_cons (o : ValueOption) (item : Item) (items : List Item) :
    values o (item :: items) = item.given o ++ values o items := List.flatMap_cons

theorem parsed_of_foldlM {U : Undefined} {config c : Config} {items : List Item}
    (h : items.foldlM (Item.apply U) config = .ok c) :
    ∀ s ∈ values .memory items, ∃ size, parseSize U s = .ok size := by
  induction items generalizing config with
  | nil => exact nofun
  | cons item items ih =>
    obtain ⟨c₁, happly, hrest⟩ := apply_of_foldlM h
    intro s hs
    rw [values_cons, List.mem_append] at hs
    rcases hs with hgiven | hlater
    · cases item with
      | plain name => cases hgiven
      | value o name v =>
        unfold Item.given at hgiven
        dsimp only at hgiven
        split at hgiven
        · next ho =>
          obtain rfl := List.mem_singleton.mp hgiven
          subst ho
          obtain ⟨size, hsize, -⟩ := map_eq_ok happly
          exact ⟨size, hsize⟩
        · cases hgiven
    · exact ih hrest s hlater

/-- A command line that is accepted has parsed every size on it. -/
theorem sizes_of_accepted {U : Undefined} {argv : List String} {items : List Item} {bin : String}
    {suffix : List String} {config : Config} {printed : List Printed}
    (hline : CommandLine argv items bin suffix)
    (h : parseArgs U argv = .returned true config printed) :
    (∀ s ∈ values .memory items, ∃ size, parseSize U s = .ok size) ∧
      fromLast (parseSize U) U.memorySize (values .memory items) = .ok config.memorySize := by
  unfold parseArgs at h
  rw [hline.argv, parseLoop_tokens hline.wellFormed] at h
  cases hfold : items.foldlM (Item.apply U) { memorySize := U.memorySize } with
  | error e =>
    rw [hfold] at h
    cases h
  | ok c =>
    rw [hfold] at h
    dsimp only at h
    rw [parseLoop_binary U _ c hline.binary] at h
    dsimp only at h
    split at h
    · cases h
    · cases h
      exact ⟨parsed_of_foldlM hfold, (collected_foldlM hfold).memorySize⟩

/-- The command line `-m s a`. -/
theorem commandLine_single (s : String) :
    CommandLine ["acheron", "-m", s, "a"] [.value .memory "-m" s] "a" [] where
  argv := rfl
  wellFormed := List.forall_mem_singleton.mpr (rfl : classify "-m" = .takes .memory)
  binary := rfl

theorem accepted_of_parseSize {U : Undefined} {s : String} {size : BitVec 64}
    (h : parseSize U s = .ok size) :
    parseArgs U ["acheron", "-m", s, "a"] =
      .returned true { binaryPath := "a", memorySize := size } [] := by
  have hline := commandLine_single s
  have hfold : [Item.value .memory "-m" s].foldlM (Item.apply U) { memorySize := U.memorySize } =
      .ok { memorySize := size } := by
    rw [List.foldlM_cons]
    unfold Item.apply store
    dsimp only
    rw [h]
    rfl
  unfold parseArgs
  rw [hline.argv, parseLoop_tokens hline.wellFormed, hfold]
  rfl

/-- What the command line `-m s a` shows if `SizeExact s`. -/
theorem written_of_sizeExact {s : String} (hexact : SizeExact s) {U : Undefined} {size : BitVec 64}
    (h : parseSize U s = .ok size) : ∃ n, SizeSyntax s n ∧ n < 2 ^ 64 := by
  obtain ⟨n, hn, hlt, -⟩ := hexact U _ _ _ _ _ _ (commandLine_single s)
    (List.mem_singleton.mpr rfl) (accepted_of_parseSize h)
  exact ⟨n, hn, hlt⟩

theorem number_of_sizeSyntax {s : String} {n : Nat} (h : SizeSyntax s n) (hlt : n < 2 ^ 64) :
    (splitUnit s.toList).1 ≠ [] ∧ (∀ c ∈ (splitUnit s.toList).1, c.isDigit = true) ∧
      value (splitUnit s.toList).1 * (splitUnit s.toList).2 < 2 ^ 64 := by
  obtain ⟨ds, hne, hdigits, u, hu, happend, rfl⟩ := h
  rw [happend, splitUnit_append hne hdigits hu]
  exact ⟨hne, hdigits, hlt⟩

/-- The number was accepted, so the first two cases of the condition are out. -/
theorem number_of_condition {U : Undefined} {s : String} {size : BitVec 64} (hc : SizeCondition s)
    (h : parseSize U s = .ok size) :
    (splitUnit s.toList).1 ≠ [] ∧ (∀ c ∈ (splitUnit s.toList).1, c.isDigit = true) ∧
      value (splitUnit s.toList).1 * (splitUnit s.toList).2 < 2 ^ 64 := by
  obtain ⟨hs, hcases⟩ := hc
  rw [parseSize_eq U hs] at h
  obtain ⟨v, hv, -⟩ := map_eq_ok h
  obtain ⟨hne, hfits⟩ := stoull_isOk_iff.mp ⟨v, hv⟩
  rw [String.toList_ofList] at hne hfits
  rcases hcases with hnil | hlarge | hnumber
  · exact absurd hnil hne
  · exact absurd hlarge (Nat.not_le.mpr hfits)
  · exact hnumber

/-- A number with nothing around it is multiplied without a loss. -/
theorem parseSize_number {U : Undefined} {s : String} {size : BitVec 64} (hs : s ≠ "")
    (hne : (splitUnit s.toList).1 ≠ []) (hd : ∀ c ∈ (splitUnit s.toList).1, c.isDigit = true)
    (hlt : value (splitUnit s.toList).1 * (splitUnit s.toList).2 < 2 ^ 64)
    (h : parseSize U s = .ok size) :
    size.toNat = value (splitUnit s.toList).1 * (splitUnit s.toList).2 := by
  rw [parseSize_eq U hs] at h
  obtain ⟨v, hv, rfl⟩ := map_eq_ok h
  obtain ⟨-, hfits⟩ := stoull_isOk_iff.mp ⟨v, hv⟩
  rw [String.toList_ofList, scan_digits hne hd] at hfits
  have htoList := String.toList_ofList (l := (splitUnit s.toList).1)
  rw [stoull_digits (by rwa [htoList]) (by rwa [htoList]) (by rwa [htoList]), htoList] at hv
  obtain rfl := Except.ok.inj hv
  rw [← BitVec.ofNat_mul, BitVec.toNat_ofNat, Nat.mod_eq_of_lt hlt]

/-- An empty text is what undefined behaviour makes of it. -/
theorem ne_empty_of_sizeExact {s : String} (hexact : SizeExact s) : s ≠ "" := by
  rintro rfl
  have hundefined : parseSize ⟨0, 'M', "5"⟩ "" = .ok 0x500000 := rfl
  obtain ⟨n, ⟨ds, hne, -, u, -, happend, -⟩, -⟩ := written_of_sizeExact hexact hundefined
  exact hne (List.append_eq_nil_iff.mp happend.symm).1

end SizeLemmas

/-- For every text. -/
theorem sizeExact_iff (s : String) : SizeExact s ↔ SizeCondition s := by
  constructor
  · intro hexact
    have hs := ne_empty_of_sizeExact hexact
    refine ⟨hs, ?_⟩
    by_cases hok : ∃ v, stoull (String.ofList (splitUnit s.toList).1) = .ok v
    · obtain ⟨v, hv⟩ := hok
      have hparse : parseSize sampleUndefined s =
          .ok (v * BitVec.ofNat 64 (splitUnit s.toList).2) := by
        rw [parseSize_eq _ hs, hv]
        rfl
      obtain ⟨n, hwritten, hlt⟩ := written_of_sizeExact hexact hparse
      exact .inr (.inr (number_of_sizeSyntax hwritten hlt))
    · rw [stoull_isOk_iff, String.toList_ofList, not_and_or, not_not, Nat.not_lt] at hok
      exact hok.imp_right .inl
  · intro hcond U argv items bin suffix config printed hline hmem haccepted
    obtain ⟨hsizes, hlast⟩ := sizes_of_accepted hline haccepted
    obtain ⟨size, hsize⟩ := hsizes s hmem
    obtain ⟨hne, hdigits, hlt⟩ := number_of_condition hcond hsize
    obtain ⟨u, hu, happend, hfactor⟩ := splitUnit_spec s.toList
    refine ⟨_, ⟨_, hne, hdigits, u, hu, happend, congrArg _ hfactor⟩, hlt, fun hs => ?_⟩
    unfold fromLast at hlast
    rw [hs] at hlast
    exact parseSize_number hcond.1 hne hdigits hlt hlast

/-- `-m -1` asks for 2^64 - 1 bytes. -/
theorem negative_size : ¬ ∀ s, SizeExact s := by
  intro hall
  have hparse : parseSize sampleUndefined "-1" = .ok 0xFFFFFFFFFFFFFFFF := rfl
  obtain ⟨n, ⟨ds, hne, hdigits, u, -, happend, -⟩, -⟩ := hall "-1" _ _ _ _ _ _ _
    (commandLine_single "-1") (List.mem_singleton.mpr rfl) (accepted_of_parseSize hparse)
  obtain ⟨c, cs, rfl⟩ := List.exists_cons_of_ne_nil hne
  have hsign : '-' = c := (List.cons.inj happend).1
  have hdigit := hdigits c List.mem_cons_self
  rw [← hsign] at hdigit
  cases hdigit

end Acheron
