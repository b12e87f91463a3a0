import Acheron.CallResults

/-!
# Invalidation

`tlb_invalidate_va` and `tlb_invalidate_asid` are meant to remove the entries
that translate an address and those of an address space. The first erases the
slot of one key, whatever its entry translates. The second goes by the tags of
the entries, while a lookup goes by the keys, in which the upper address bits
cover the tag.

Results:
1. `tlbInvalidateVa_iff`: in which reachable states the first operation removes
   the entries that match its arguments, and no others.
2. `tlbInvalidateAsid_iff`: in which reachable states the lookups that the
   second operation turns into misses are those for its ASID.
-/

namespace Acheron

open AliasLemmas CallLemmas TlbLemmas

/-! ## 1. By address -/

/-- The entries that `tlb_invalidate_va` leaves are those that do not match. -/
structure InvalidatesVa (m : MMUEmulator) (va : BitVec 64) (asid : BitVec 16) : Prop where
  complete : ∀ key e, (m.tlbInvalidateVa va asid).tlb.lookup key = some e → ¬ e.matches va asid
  frame : ∀ key e, m.tlb.lookup key = some e → ¬ e.matches va asid →
    (m.tlbInvalidateVa va asid).tlb.lookup key = some e

/-- The entry that `t` left behind is still there. -/
def Cached (h : List Event) (m : MMUEmulator) (t : Translation) : Prop :=
  ∃ key, key ∈ m.tlb ∧ lastFill h key = some t

/-- The region found by `t` contains `va`, and `t` was for `asid` or for the
global tag. -/
def Covers (t : Translation) (va : BitVec 64) (asid : BitVec 16) : Prop :=
  (t.asid = asid ∨ t.asid = 0xFFFF) ∧
    t.va &&& ~~~(t.region.size - 1) = va &&& ~~~(t.region.size - 1)

/-- If the region found by `t` covers the address, then `t` was for the same
page and its tag does not show in the key. If `t` has the key of the address,
then it was for the same upper address bits and the same or the global ASID. -/
structure FiledUnder (t : Translation) (va : BitVec 64) (asid : BitVec 16) : Prop where
  covered : Covers t va asid →
    SamePage t.va va ∧ (t.asid = asid ∨ va.extractLsb 63 48 ||| asid = 0xFFFF)
  keyed : tlbKey t.va t.asid = tlbKey va asid → SameOwner t va asid

namespace InvalidationLemmas

/-- What holds of every entry, by the translation that it comes from. -/
theorem forall_entry_iff {H : Host} {h : List Event} {s : System} (hr : Run H h s)
    {Q : BitVec 64 → TLBEntry → Prop} {P : Translation → Prop}
    (link : ∀ key e t d k, FilledBy h key e t d k → (Q key e ↔ P t)) :
    (∀ key e, s.mmu.tlb.lookup key = some e → Q key e) ↔ ∀ t, Cached h s.mmu t → P t := by
  constructor
  · rintro hall t ⟨key, hkey, hlast⟩
    obtain ⟨e, he⟩ := Option.isSome_iff_exists.mp (AList.lookup_isSome.mpr hkey)
    obtain ⟨t', d, k, hf⟩ := entry_filledBy hr he
    obtain rfl := Option.some.inj (hlast.symm.trans hf.last)
    exact (link key e t d k hf).mp (hall key e he)
  · intro hall key e he
    obtain ⟨t, d, k, hf⟩ := entry_filledBy hr he
    have hkey : key ∈ s.mmu.tlb := AList.lookup_isSome.mp (by rw [he]; rfl)
    exact (link key e t d k hf).mpr (hall t ⟨key, hkey, hf.last⟩)

/-- Erasing one slot removes exactly the matching entries if that slot is the
only one with a matching entry. -/
theorem invalidatesVa_iff_slots {m : MMUEmulator} {va : BitVec 64} {asid : BitVec 16} :
    InvalidatesVa m va asid ↔
      ∀ key e, m.tlb.lookup key = some e → (e.matches va asid ↔ key = tlbKey va asid) := by
  constructor
  · rintro ⟨complete, frame⟩ key e he
    constructor
    · intro hm
      by_contra hne
      refine complete key e ?_ hm
      unfold MMUEmulator.tlbInvalidateVa
      rw [AList.lookup_erase_ne hne, he]
    · rintro rfl
      by_contra hm
      have hleft := frame _ e he hm
      unfold MMUEmulator.tlbInvalidateVa at hleft
      rw [AList.lookup_erase] at hleft
      cases hleft
  · intro slots
    constructor
    · intro key e hleft hm
      have he := lookup_of_lookup_erase hleft
      obtain rfl := (slots key e he).mp hm
      unfold MMUEmulator.tlbInvalidateVa at hleft
      rw [AList.lookup_erase] at hleft
      cases hleft
    · intro key e he hm
      have hne : key ≠ tlbKey va asid := fun hk => hm ((slots key e he).mpr hk)
      unfold MMUEmulator.tlbInvalidateVa
      rw [AList.lookup_erase_ne hne, he]

/-- The condition says that the translations that cover the address are those
with its key. -/
theorem filedUnder_iff {t : Translation} {k : Nat} (hk : LeafShift k)
    (hsize : t.region.size = BitVec.twoPow 64 k) (va : BitVec 64) (asid : BitVec 16) :
    (Covers t va asid ↔ tlbKey t.va t.asid = tlbKey va asid) ↔ FiledUnder t va asid := by
  have block (hs : SameIndices t.va va) : t.va &&& ~~~(t.region.size - 1) =
      va &&& ~~~(t.region.size - 1) ↔ t.va.extractLsb 63 48 = va.extractLsb 63 48 := by
    rw [hsize]
    exact sameBlock_iff hs hk
  constructor
  · intro hiff
    constructor
    · intro hc
      obtain ⟨hs, htag⟩ := tlbKey_eq_iff.mp (hiff.mp hc)
      have hupper := (block hs).mp hc.2
      refine ⟨samePage_iff.mpr ⟨hs, hupper⟩, hc.1.imp_right fun hglobal => ?_⟩
      rw [hglobal, hupper] at htag
      rw [← htag]
      exact BitVec.or_allOnes
    · intro hkey
      have hs := (tlbKey_eq_iff.mp hkey).1
      obtain ⟨howner, hblock⟩ := hiff.mpr hkey
      exact ⟨(block hs).mp hblock, howner⟩
  · rintro ⟨covered, keyed⟩
    constructor
    · intro hc
      obtain ⟨hpage, htag⟩ := covered hc
      obtain ⟨hs, hupper⟩ := samePage_iff.mp hpage
      refine tlbKey_eq_iff.mpr ⟨hs, ?_⟩
      rw [hupper]
      rcases htag with rfl | hones
      · rfl
      · rcases hc.1 with rfl | hglobal
        · rfl
        · rw [hglobal, hones]
          exact BitVec.or_allOnes
    · intro hkey
      obtain ⟨hupper, howner⟩ := keyed hkey
      exact ⟨howner, (block (tlbKey_eq_iff.mp hkey).1).mpr hupper⟩

end InvalidationLemmas

open InvalidationLemmas

/-- In every reachable state, whatever has filled the TLB. -/
theorem tlbInvalidateVa_iff {H : Host} {h : List Event} {s : System} (hr : Run H h s)
    (va : BitVec 64) (asid : BitVec 16) :
    InvalidatesVa s.mmu va asid ↔ ∀ t, Cached h s.mmu t → FiledUnder t va asid := by
  rw [invalidatesVa_iff_slots]
  refine forall_entry_iff hr fun key e t d k hf => ?_
  have hsize : t.region.size = BitVec.twoPow 64 k := by rw [hf.region]; rfl
  have hcovers : e.matches va asid ↔ Covers t va asid := by
    rw [hf.entry]
    exact matches_newEntry
  rw [hcovers, ← hf.key]
  exact filedUnder_iff hf.shift hsize va asid

theorem tlbInvalidateVa_iff_sample :
    InvalidatesVa sampleSystem.mmu 0x0001000000001FFF 0 ↔
      ∀ t, Cached sampleHistory sampleSystem.mmu t → FiledUnder t 0x0001000000001FFF 0 :=
  tlbInvalidateVa_iff sample_run 0x0001000000001FFF 0

/-- The 1 GB block of the sample is cached for its second page. Invalidating its
third page leaves it there. -/
theorem block_survives :
    ¬ ∀ (H : Host) (h : List Event) (s : System), Run H h s →
      ∀ va asid, InvalidatesVa s.mmu va asid := by
  intro hall
  have hgone := (hall Host.masked sampleHistory sampleSystem sample_run
    0x0001000000002000 0).complete (tlbKey 0x0001000000001234 0) sampleEntry (by decide)
  revert hgone
  decide

/-! ## 2. By address space -/

/-- Immediately after `tlb_invalidate_asid`, the lookups for the ASID miss, and
those for another one hit exactly when they did before. -/
structure InvalidatesAsid (m : MMUEmulator) (a : BitVec 16) : Prop where
  complete : ∀ va, (m.tlbInvalidateAsid a).hitEntry va a = none
  frame : ∀ b, b ≠ a → ∀ va,
    ((m.tlbInvalidateAsid a).hitEntry va b).isSome = (m.hitEntry va b).isSome

/-- The upper 16 bits of the key that `t` was filed under. -/
def keyTag (t : Translation) : BitVec 16 := t.va.extractLsb 63 48 ||| t.asid

/-- For ASID 0, `t` has only zeros in the upper bits of its address and its
ASID. For another one, the ASID has a bit that the upper bits of the key of `t`
have not. -/
def TagApart (t : Translation) (a : BitVec 16) : Prop :=
  if a = 0#16 then keyTag t = 0#16 else keyTag t &&& a ≠ a

namespace InvalidationLemmas

theorem valid_of_lookup {H : Host} {h : List Event} {s : System} (hr : Run H h s) {key : BitVec 64}
    {e : TLBEntry} (he : s.mmu.tlb.lookup key = some e) : e.valid = true := by
  obtain ⟨t, d, k, hf⟩ := entry_filledBy hr he
  exact (wellFormed_of_filledBy hf).valid

/-- A lookup finds what its slot holds. -/
theorem hitEntry_iff {H : Host} {h : List Event} {s : System} (hr : Run H h s) {va : BitVec 64}
    {b : BitVec 16} {e : TLBEntry} :
    s.mmu.hitEntry va b = some e ↔ s.mmu.tlb.lookup (tlbKey va b) = some e := by
  unfold MMUEmulator.hitEntry
  rw [Option.filter_eq_some_iff]
  exact and_iff_left_of_imp (valid_of_lookup hr)

/-- Afterwards it does so unless the entry has been erased for its tag. -/
theorem hitEntry_invalidated_iff {H : Host} {h : List Event} {s : System} (hr : Run H h s)
    {a : BitVec 16} (ha : a ≠ 0xFFFF) {va : BitVec 64} {b : BitVec 16} {e : TLBEntry} :
    (s.mmu.tlbInvalidateAsid a).hitEntry va b = some e ↔
      s.mmu.tlb.lookup (tlbKey va b) = some e ∧ e.asid ≠ a := by
  have hr' : Run H (.operated (.tlbInvalidateAsid a) :: h)
      { s with mmu := s.mmu.tlbInvalidateAsid a } := hr.next (.operated _)
  refine (hitEntry_iff hr').trans ?_
  show (s.mmu.tlb.eraseIf _).lookup _ = _ ↔ _
  rw [lookup_eraseIf, Option.filter_eq_some_iff]
  refine and_congr_right fun he => ?_
  have hglobal : (a == 0xFFFF) = false := beq_false_of_ne ha
  rw [valid_of_lookup hr he, hglobal]
  simp

/-- The operation does what it is meant to do if no slot is erased under a key
that another ASID can have, and no other is left under a key that the ASID can
have. -/
theorem invalidatesAsid_iff_slots {H : Host} {h : List Event} {s : System} (hr : Run H h s)
    {a : BitVec 16} (ha : a ≠ 0xFFFF) :
    InvalidatesAsid s.mmu a ↔ ∀ key e, s.mmu.tlb.lookup key = some e →
      ((∃ va, tlbKey va a = key) → e.asid = a) ∧
        ∀ b, b ≠ a → (∃ va, tlbKey va b = key) → e.asid ≠ a := by
  constructor
  · rintro ⟨complete, frame⟩ key e he
    constructor
    · rintro ⟨va, rfl⟩
      by_contra hne
      have hhit := (hitEntry_invalidated_iff hr ha).mpr ⟨he, hne⟩
      rw [complete va] at hhit
      cases hhit
    · rintro b hb ⟨va, rfl⟩
      have hsome := frame b hb va
      rw [(hitEntry_iff hr).mpr he] at hsome
      obtain ⟨e', he'⟩ := Option.isSome_iff_exists.mp hsome
      obtain ⟨hold, hne⟩ := (hitEntry_invalidated_iff hr ha).mp he'
      obtain rfl := Option.some.inj (he.symm.trans hold)
      exact hne
  · intro slots
    constructor
    · intro va
      refine Option.eq_none_iff_forall_ne_some.mpr fun e hhit => ?_
      obtain ⟨he, hne⟩ := (hitEntry_invalidated_iff hr ha).mp hhit
      exact hne ((slots _ e he).1 ⟨va, rfl⟩)
    · intro b hb va
      rw [Bool.eq_iff_iff, Option.isSome_iff_exists, Option.isSome_iff_exists]
      refine exists_congr fun e => ?_
      rw [hitEntry_invalidated_iff hr ha, hitEntry_iff hr]
      exact and_iff_left_of_imp fun he => (slots _ e he).2 b hb ⟨va, rfl⟩

/-- The ASID is among the upper bits of its keys. -/
theorem or_asid_and (upper asid : BitVec 16) : (upper ||| asid) &&& asid = asid := by
  rw [Align.and_eq_right_iff, BitVec.or_assoc, BitVec.or_self]

/-- An ASID can have a key exactly when its bits are among the upper bits of the
key: the key itself is then such an address. -/
theorem exists_key_iff (t : Translation) (b : BitVec 16) :
    (∃ va, tlbKey va b = tlbKey t.va t.asid) ↔ keyTag t &&& b = b := by
  unfold keyTag
  constructor
  · rintro ⟨va, hkey⟩
    rw [← (tlbKey_eq_iff.mp hkey).2]
    exact or_asid_and _ _
  · intro hb
    refine ⟨tlbKey t.va t.asid, tlbKey_eq_iff.mpr ⟨tlbKey_page _ _, ?_⟩⟩
    rw [tlbKey_upper]
    exact Align.and_eq_right_iff.mp hb

/-- The condition is that of the slots, in terms of the upper bits of the key. -/
theorem tagApart_iff (t : Translation) (a : BitVec 16) :
    ((keyTag t &&& a = a → t.asid = a) ∧ ∀ b, b ≠ a → keyTag t &&& b = b → t.asid ≠ a) ↔
      TagApart t a := by
  have own : keyTag t &&& t.asid = t.asid := or_asid_and _ _
  unfold TagApart
  split
  · next ha =>
    subst ha
    constructor
    · rintro ⟨left, others⟩
      by_contra htag
      exact others (keyTag t) htag BitVec.and_self (left BitVec.and_zero)
    · intro htag
      rw [htag, BitVec.zero_and] at own
      refine ⟨fun _ => own.symm, fun b hb hbits => ?_⟩
      rw [htag, BitVec.zero_and] at hbits
      exact absurd hbits.symm hb
  · next ha =>
    constructor
    · rintro ⟨left, others⟩ hbits
      exact others 0#16 (Ne.symm ha) BitVec.and_zero (left hbits)
    · intro hbits
      refine ⟨fun h => absurd h hbits, fun _ _ _ hasid => hbits ?_⟩
      rw [← hasid]
      exact own

end InvalidationLemmas

open InvalidationLemmas

/-- In every reachable state. -/
theorem tlbInvalidateAsid_iff {H : Host} {h : List Event} {s : System} (hr : Run H h s)
    {a : BitVec 16} (ha : a ≠ 0xFFFF) :
    InvalidatesAsid s.mmu a ↔ ∀ t, Cached h s.mmu t → TagApart t a := by
  rw [invalidatesAsid_iff_slots hr ha]
  refine forall_entry_iff hr fun key e t d k hf => ?_
  have htag : e.asid = t.asid := by rw [hf.entry]; rfl
  rw [← hf.key, htag]
  simp only [exists_key_iff]
  exact tagApart_iff t a

theorem tlbInvalidateAsid_iff_sample :
    InvalidatesAsid sampleSystem.mmu 2 ↔
      ∀ t, Cached sampleHistory sampleSystem.mmu t → TagApart t 2 :=
  tlbInvalidateAsid_iff sample_run (by decide)

/-- The entry for ASID 0 and `0x0001000000001234` still serves ASID 1. -/
theorem asid_survives :
    ¬ ∀ (H : Host) (h : List Event) (s : System), Run H h s →
      ∀ a, a ≠ 0xFFFF → InvalidatesAsid s.mmu a := by
  intro hall
  have hmiss := (hall Host.masked sampleHistory sampleSystem sample_run 1 (by decide)).complete
    0x1234
  revert hmiss
  decide

end Acheron
