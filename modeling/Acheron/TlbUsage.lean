import Acheron.AddressSplit
import Acheron.TlbInvalidation

/-!
# Usages of the TLB

Two calls share a slot of the TLB when their keys agree, whatever the upper
bits of their addresses and their ASIDs are. A client can keep its calls apart:
a usage is the set of the calls that it makes. The canonical 48-bit addresses
are a usage that separates pages, with any ASID but the global one.

Results:
1. `separates_iff`: the usages for which every hit is for the page that the
   slot was filled for.
2. `invalidation_exact`: for a usage that identifies its calls, the lookups that
   an invalidation turns into misses are those it is meant for.
-/

namespace Acheron

open AliasLemmas CallLemmas InvalidationLemmas TlbLemmas TransparencyLemmas

/-! ## 1. Separation -/

/-- The calls that a client makes, by address and ASID. -/
abbrev Usage := BitVec 64 → BitVec 16 → Prop

namespace Usage

/-- All calls of the run belong to the usage. -/
def Covers (P : Usage) (h : List Event) : Prop := ∀ t, .translated t ∈ h → P t.va t.asid

/-- Calls that share a slot are for one page. -/
def Separates (P : Usage) : Prop :=
  ∀ va asid va' asid', P va asid → P va' asid' → tlbKey va asid = tlbKey va' asid' →
    SamePage va va'

/-- Calls that share a slot are for one page and one ASID. -/
def Identifies (P : Usage) : Prop :=
  ∀ va asid va' asid', P va asid → P va' asid' → tlbKey va asid = tlbKey va' asid' →
    SamePage va va' ∧ asid = asid'

/-- Calls that leave the ASID at its default. -/
def defaultAsid : Usage := fun _ asid => asid = 0#16

/-- Sign-extended 48-bit addresses, the lower half with any ASID but the global
one. -/
def canonical : Usage := fun va asid =>
  va.extractLsb 63 48 = 0#16 ∧ asid ≠ 0xFFFF ∨ va.extractLsb 63 48 = BitVec.allOnes 16

/-- The same with ASID 0 for the upper half, whose pages are global. -/
def canonicalGlobal : Usage := fun va asid =>
  va.extractLsb 63 48 = 0#16 ∧ asid ≠ 0xFFFF ∨
    va.extractLsb 63 48 = BitVec.allOnes 16 ∧ asid = 0#16

theorem Covers.of_cons {P : Usage} {ev : Event} {h : List Event} (hc : P.Covers (ev :: h)) :
    P.Covers h := fun t ht => hc t (List.mem_cons_of_mem _ ht)

theorem Identifies.separates {P : Usage} (h : P.Identifies) : P.Separates :=
  fun va asid va' asid' hP hP' hkey => (h va asid va' asid' hP hP' hkey).1

theorem defaultAsid_identifies : defaultAsid.Identifies := by
  rintro va _ va' _ rfl rfl hkey
  obtain ⟨hs, htag⟩ := tlbKey_eq_iff.mp hkey
  rw [BitVec.or_zero, BitVec.or_zero] at htag
  exact ⟨samePage_iff.mpr ⟨hs, htag⟩, rfl⟩

/-- The upper bits of a key tell the halves apart. -/
theorem canonical_upper {va va' : BitVec 64} {asid asid' : BitVec 16} (h : canonical va asid)
    (h' : canonical va' asid')
    (htag : va.extractLsb 63 48 ||| asid = va'.extractLsb 63 48 ||| asid') :
    va.extractLsb 63 48 = va'.extractLsb 63 48 := by
  rcases h with ⟨h0, hasid⟩ | h1 <;> rcases h' with ⟨h0', hasid'⟩ | h1'
  · rw [h0, h0']
  · rw [h0, h1', BitVec.zero_or, BitVec.allOnes_or] at htag
    exact absurd htag hasid
  · rw [h1, h0', BitVec.zero_or, BitVec.allOnes_or] at htag
    exact absurd htag.symm hasid'
  · rw [h1, h1']

theorem canonical_separates : canonical.Separates := by
  intro va asid va' asid' h h' hkey
  obtain ⟨hs, htag⟩ := tlbKey_eq_iff.mp hkey
  exact samePage_iff.mpr ⟨hs, canonical_upper h h' htag⟩

theorem canonical_of_global {va : BitVec 64} {asid : BitVec 16} (h : canonicalGlobal va asid) :
    canonical va asid := h.imp_right And.left

theorem canonicalGlobal_identifies : canonicalGlobal.Identifies := by
  intro va asid va' asid' h h' hkey
  obtain ⟨hs, htag⟩ := tlbKey_eq_iff.mp hkey
  have hupper := canonical_upper (canonical_of_global h) (canonical_of_global h') htag
  refine ⟨samePage_iff.mpr ⟨hs, hupper⟩, ?_⟩
  rw [hupper] at htag
  unfold canonicalGlobal at h h'
  rw [hupper] at h
  rcases h with ⟨h0, -⟩ | ⟨h1, hasid⟩ <;> rcases h' with ⟨h0', -⟩ | ⟨h1', hasid'⟩
  · rwa [h0', BitVec.zero_or, BitVec.zero_or] at htag
  · rw [h0] at h1'
    exact absurd h1' (by decide)
  · rw [h0'] at h1
    exact absurd h1 (by decide)
  · rw [hasid, hasid']

end Usage

/-- A call of a separating usage that hits does so for its own page. -/
theorem filledBy_samePage {H : Host} {P : Usage} (hP : P.Separates) {h : List Event} {s : System}
    (hr : Run H h s) (hc : P.Covers h) {va : BitVec 64} {asid : BitVec 16} (hva : P va asid)
    {e : TLBEntry} (he : s.mmu.tlb.lookup (tlbKey va asid) = some e) :
    ∃ t d k, FilledBy h (tlbKey va asid) e t d k ∧ P t.va t.asid ∧ SamePage t.va va := by
  obtain ⟨t, d, k, hf⟩ := entry_filledBy hr he
  obtain ⟨ev, hev, hfills⟩ := History.exists_mem_of_latest hf.last
  obtain ⟨rfl, -, -, hkey⟩ := fills_spec hfills
  exact ⟨t, d, k, hf, hc t hev, hP _ _ _ _ (hc t hev) hva hkey⟩

namespace UsageLemmas

/-- Both ranges are half of the address space, so every address is in one. -/
def halved : MMUEmulator := ({} : MMUEmulator).setTcr 0x10001

theorem halved_walkBase (H : Host) (va : BitVec 64) : halved.walkBase H va = some 0 := by
  have h0 : halved.vaInTtbr0 H va = true ↔ va.toNat < 2 ^ 63 := vaInTtbr0_iff (by decide) H va
  have h1 : halved.vaInTtbr1 H va = true ↔ 2 ^ 63 ≤ va.toNat := vaInTtbr1_iff (by decide) H va
  have base : MMUEmulator.tableBase 0 = 0 := by decide
  unfold MMUEmulator.walkBase MMUEmulator.selectTtbr
  rcases Nat.lt_or_ge va.toNat (2 ^ 63) with hlt | hge
  · rw [if_pos (h0.mpr hlt)]
    exact congrArg some base
  · rw [if_neg fun h => absurd (h0.mp h) (Nat.not_lt.mpr hge), if_pos (h1.mpr hge)]
    exact congrArg some base

/-- Any call can be the first, and be filed. -/
theorem exists_fill (H : Host) (va : BitVec 64) (asid : BitVec 16) :
    ∃ s t, Run H [.translated t, .operated (.setTcr 0x10001)] s ∧ t.va = va ∧ t.asid = asid ∧
      Event.fills (.translated t) (tlbKey va asid) = some t ∧
      ∀ va' asid', tlbKey va asid = tlbKey va' asid' → (s.mmu.hitEntry va' asid').isSome := by
  let mem := blockAt (firstDescriptor H 0 va)
  have start : Run H [.operated (.setTcr 0x10001)] ⟨mem, halved⟩ :=
    .next (.start rfl : Run H [] ⟨mem, {}⟩) (.operated _)
  obtain ⟨pa, f, hw⟩ := walk_blockAt (m := halved.countMiss) (halved_walkBase H va) {}
  have hcall : translateWithAttributes H mem 1 0 va asid { mmu := halved, region := {} } =
      (.returned (some pa),
        { f with mmu := f.mmu.fill 0 (tlbKey va asid) (newEntry va asid f.region) }) := by
    unfold translateWithAttributes
    rw [show halved.hitEntry va asid = none from rfl]
    dsimp only
    rw [hw]
  have room : Victim halved 0 := fun hfull => absurd (show 1024 ≤ 0 from hfull) (by decide)
  refine ⟨_, _, start.next (Step.translated (s := ⟨mem, halved⟩) room hcall), rfl, rfl,
    if_pos ⟨rfl, rfl, rfl⟩, fun va' asid' hkey => ?_⟩
  have hhit := hitEntry_fill f.mmu 0 hkey f.region
  exact Option.isSome_iff_exists.mpr ⟨_, hhit⟩

end UsageLemmas

open UsageLemmas

/-- In all runs of the usage, a call of the usage that hits does so in a slot
that was filled for its page. -/
def HitsOwnPage (H : Host) (P : Usage) : Prop :=
  ∀ h s, Run H h s → P.Covers h → ∀ va asid, P va asid → (s.mmu.hitEntry va asid).isSome →
    ∃ t, lastFill h (tlbKey va asid) = some t ∧ SamePage t.va va

/-- A client that does not separate its pages meets a hit for another page. -/
theorem separates_iff (H : Host) (P : Usage) : HitsOwnPage H P ↔ P.Separates := by
  constructor
  · intro hown va asid va' asid' hva hva' hkey
    obtain ⟨s, t, hr, rfl, rfl, hfills, hhit⟩ := exists_fill H va asid
    have hc : P.Covers [.translated t, .operated (.setTcr 0x10001)] := by
      intro t' ht'
      simp only [List.mem_cons, Event.translated.injEq, reduceCtorEq, List.not_mem_nil, or_false]
        at ht'
      rwa [ht']
    obtain ⟨t', hlast, hpage⟩ := hown _ s hr hc va' asid' hva' (hhit va' asid' hkey)
    rw [← hkey] at hlast
    obtain rfl := Option.some.inj ((History.latest_cons_some hfills).symm.trans hlast)
    exact hpage
  · intro hP h s hr hc va asid hva hhit
    obtain ⟨e, he⟩ := Option.isSome_iff_exists.mp hhit
    obtain ⟨t, d, k, hf, -, hpage⟩ := filledBy_samePage hP hr hc hva (lookup_of_hitEntry he)
    exact ⟨t, hf.last, hpage⟩

/-! ## 2. Invalidation -/

/-- What the lookups of a usage find after each of the three invalidations. -/
structure InvalidationExact (P : Usage) (m : MMUEmulator) : Prop where
  byAddress : ∀ va asid va' asid', P va asid → P va' asid' →
    (m.tlbInvalidateVa va asid).hitEntry va' asid' =
      if va &&& ~~~0xFFF#64 = va' &&& ~~~0xFFF#64 ∧ asid = asid' then none
      else m.hitEntry va' asid'
  bySpace : ∀ a va asid, P va asid →
    (m.tlbInvalidateAsid a).hitEntry va asid =
      if asid = a ∨ a = 0xFFFF then none else m.hitEntry va asid
  all : ∀ va asid, m.tlbInvalidateAll.hitEntry va asid = none

namespace UsageLemmas

theorem hitEntry_erase (m : MMUEmulator) (key va : BitVec 64) (asid : BitVec 16) :
    ({ m with tlb := m.tlb.erase key } : MMUEmulator).hitEntry va asid =
      if key = tlbKey va asid then none else m.hitEntry va asid := by
  unfold MMUEmulator.hitEntry
  dsimp only
  split
  · next hk => rw [hk, AList.lookup_erase, Option.filter_none]
  · next hk => rw [AList.lookup_erase_ne (Ne.symm hk)]

theorem tlbKey_samePage {va va' : BitVec 64} (h : SamePage va va') (asid : BitVec 16) :
    tlbKey va asid = tlbKey va' asid := by
  unfold tlbKey
  rw [show va &&& ~~~0xFFF#64 = va' &&& ~~~0xFFF#64 from h]

end UsageLemmas

/-- In every reachable state of a run of the usage. -/
theorem invalidation_exact {H : Host} {P : Usage} (hP : P.Identifies) {h : List Event} {s : System}
    (hr : Run H h s) (hc : P.Covers h) : InvalidationExact P s.mmu := by
  refine ⟨fun va asid va' asid' hva hva' => ?_, fun a va asid hva => ?_, fun _ _ => rfl⟩
  · have hkey : tlbKey va asid = tlbKey va' asid' ↔
        va &&& ~~~0xFFF#64 = va' &&& ~~~0xFFF#64 ∧ asid = asid' :=
      ⟨hP va asid va' asid' hva hva', fun ⟨hpage, hasid⟩ => hasid ▸ tlbKey_samePage hpage asid⟩
    simp only [← hkey]
    exact hitEntry_erase s.mmu (tlbKey va asid) va' asid'
  · -- The entry that the lookup finds carries the ASID of the lookup.
    have htag (e : TLBEntry) (he : s.mmu.tlb.lookup (tlbKey va asid) = some e) :
        e.asid = asid ∧ e.valid = true := by
      obtain ⟨t, d, k, hf, ht, -⟩ := filledBy_samePage hP.separates hr hc hva he
      refine ⟨?_, valid_of_lookup hr he⟩
      rw [hf.entry]
      exact (hP _ _ _ _ ht hva hf.key).2
    unfold MMUEmulator.hitEntry MMUEmulator.tlbInvalidateAsid
    dsimp only
    rw [lookup_eraseIf]
    cases he : s.mmu.tlb.lookup (tlbKey va asid) with
    | none => simp
    | some e =>
      obtain ⟨htag, hvalid⟩ := htag e he
      have herased : ((e.asid == a || a == 0xFFFF) && e.valid) = true ↔ asid = a ∨ a = 0xFFFF := by
        rw [htag, hvalid, Bool.and_true, Bool.or_eq_true, beq_iff_eq, beq_iff_eq]
      rw [Option.filter_some]
      by_cases ha : asid = a ∨ a = 0xFFFF
      · rw [if_pos ha, herased.mpr ha]
        rfl
      · rw [if_neg ha, Bool.eq_false_iff.mpr (mt herased.mp ha)]
        rfl

theorem sample_covered : Usage.defaultAsid.Covers sampleHistory := by
  unfold sampleHistory
  intro t ht
  simp only [List.mem_cons, Event.translated.injEq, reduceCtorEq, List.not_mem_nil, or_false] at ht
  rw [ht]
  rfl

theorem invalidation_exact_sample : InvalidationExact Usage.defaultAsid sampleSystem.mmu :=
  invalidation_exact Usage.defaultAsid_identifies sample_run sample_covered

end Acheron
