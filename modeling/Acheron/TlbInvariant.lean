import Acheron.MMURuns

/-!
# What the TLB holds

A slot of the TLB holds what the last translation that filled it put there
(`lastFill`). Whatever else is true of an entry is true of that translation.

Results:
1. `entry_filledBy`: every entry comes from the last fill of its slot, and that
   fill from a leaf descriptor.
2. `tlb_invariant`: the TLB stays within its size, and its entries are valid,
   aligned, within 48 bits of physical address and filed under their own key.
-/

namespace Acheron

/-! ## 1. Fills -/

/-- The translation that the event completed, if that has filled slot `key`. -/
def Event.fills (e : Event) (key : BitVec 64) : Option Translation :=
  match e with
  | .translated t =>
    if t.hit = false ∧ t.result.isSome ∧ tlbKey t.va t.asid = key then some t else none
  | _ => none

/-- The translation that filled slot `key` last. -/
def lastFill (h : List Event) (key : BitVec 64) : Option Translation :=
  History.latest Event.fills h key

/-- The entry `e` of slot `key` comes from the translation `t`, whose walk
ended in the leaf `d` of size 2^k. -/
structure FilledBy (h : List Event) (key : BitVec 64) (e : TLBEntry) (t : Translation)
    (d : PageTableDescriptor) (k : Nat) : Prop where
  last : lastFill h key = some t
  key : tlbKey t.va t.asid = key
  leaf : t.leaf = some d
  shift : LeafShift k
  region : t.region = leafRegion d (BitVec.twoPow 64 k)
  entry : e = newEntry t.va t.asid t.region

namespace TlbLemmas

theorem lookup_of_hitEntry {m : MMUEmulator} {va : BitVec 64} {asid : BitVec 16} {e : TLBEntry}
    (h : m.hitEntry va asid = some e) : m.tlb.lookup (tlbKey va asid) = some e :=
  (Option.filter_eq_some_iff.mp h).1

theorem lookup_of_lookup_erase {tlb : Tlb} {victim key : BitVec 64} {e : TLBEntry}
    (h : (tlb.erase victim).lookup key = some e) : tlb.lookup key = some e := by
  by_cases hk : key = victim
  · subst hk
    rw [AList.lookup_erase] at h
    cases h
  · rwa [AList.lookup_erase_ne hk] at h

theorem lookup_eraseIf (tlb : Tlb) (p : TLBEntry → Bool) (key : BitVec 64) :
    (tlb.eraseIf p).lookup key = (tlb.lookup key).filter fun e => !p e := by
  ext e
  rw [Option.filter_eq_some_iff, ← Option.mem_def, ← Option.mem_def, AList.mem_lookup_iff,
    AList.mem_lookup_iff]
  exact List.mem_filter

theorem lookup_of_lookup_eraseIf {tlb : Tlb} {p : TLBEntry → Bool} {key : BitVec 64} {e : TLBEntry}
    (h : (tlb.eraseIf p).lookup key = some e) : tlb.lookup key = some e := by
  rw [lookup_eraseIf] at h
  exact (Option.filter_eq_some_iff.mp h).1

/-- Invalidation and configuration add no entry. -/
theorem lookup_of_lookup_operate {m : MMUEmulator} {op : Operation} {key : BitVec 64} {e : TLBEntry}
    (h : (m.operate op).tlb.lookup key = some e) : m.tlb.lookup key = some e := by
  cases op with
  | tlbInvalidateVa va asid => exact lookup_of_lookup_erase h
  | tlbInvalidateAsid asid => exact lookup_of_lookup_eraseIf h
  | isMmuEnabled _ | getStats | resetStats => exact h
  | tlbInvalidateAll | setTtbr0 _ | setTtbr1 _ | setTcr _ => cases h

theorem lookup_fill {m : MMUEmulator} {victim slot key : BitVec 64} {new e : TLBEntry}
    (h : (m.fill victim slot new).tlb.lookup key = some e) :
    key = slot ∧ e = new ∨ key ≠ slot ∧ m.tlb.lookup key = some e := by
  unfold MMUEmulator.fill at h
  dsimp only at h
  by_cases hk : key = slot
  · subst hk
    rw [AList.lookup_insert] at h
    exact .inl ⟨rfl, (Option.some.inj h).symm⟩
  · rw [AList.lookup_insert_ne hk] at h
    split at h
    · exact .inr ⟨hk, lookup_of_lookup_erase h⟩
    · exact .inr ⟨hk, h⟩

/-- What a slot holds after a step, the step has put there, or the slot held it
before and the step has not filled it. -/
theorem lookup_step {H : Host} {s s' : System} {ev : Event} (h : Step H s ev s') {key : BitVec 64}
    {e : TLBEntry} (he : s'.mmu.tlb.lookup key = some e) :
    (ev.fills key).map (fun t => newEntry t.va t.asid t.region) = some e ∨
      ev.fills key = none ∧ s.mmu.tlb.lookup key = some e := by
  cases ev with
  | operated op =>
    cases h
    exact .inr ⟨rfl, lookup_of_lookup_operate he⟩
  | memoryChanged =>
    cases h
    exact .inr ⟨rfl, he⟩
  | translated t =>
    obtain ⟨victim, r, f, -, rfl, hregion, hhit, -, outcome⟩ := step_translated h
    unfold Event.fills
    generalize hres : t.result = result at outcome
    cases outcome with
    | hit hsome hf =>
      subst hf
      rw [hsome] at hhit
      refine .inr ⟨if_neg fun hc => ?_, he⟩
      rw [hhit] at hc
      cases hc.1
    | fault hnone hm =>
      refine .inr ⟨if_neg fun hc => ?_, ?_⟩
      · rw [hres] at hc
        cases hc.2.1
      · show s.mmu.tlb.lookup key = some e
        change f.mmu.tlb.lookup key = some e at he
        rw [hm] at he
        exact he
    | fill hnone hm =>
      rw [hnone] at hhit
      change f.mmu.tlb.lookup key = some e at he
      rw [hm] at he
      -- Either this is the slot just filled, or the eviction has spared it.
      rcases lookup_fill he with ⟨rfl, rfl⟩ | ⟨hk, hold⟩
      · left
        dsimp only
        rw [if_pos ⟨hhit, by rw [hres]; rfl, rfl⟩, Option.map_some, hregion]
      · exact .inr ⟨if_neg fun hc => hk hc.2.2.symm, hold⟩

/-- A call that misses and succeeds is a walk that ends in the leaf it fetched
last. -/
theorem miss_spec {H : Host} {s s' : System} {t : Translation}
    (h : Step H s (.translated t) s') (hmiss : t.hit = false) (hok : t.result.isSome) :
    WalkEndsIn H s.mem s.mmu t.va t.region ∧
      ∃ d k, t.leaf = some d ∧ LeafShift k ∧ t.region = leafRegion d (BitVec.twoPow 64 k) := by
  obtain ⟨victim, r, f, -, -, hregion, hhit, hleaf, outcome⟩ := step_translated h
  rw [hregion]
  generalize hres : t.result = result at outcome
  cases outcome with
  | hit hsome _ =>
    rw [hhit, hsome] at hmiss
    cases hmiss
  | fault =>
    rw [hres] at hok
    cases hok
  | fill _ _ hk _ hlast hr hends =>
    refine ⟨hends, _, _, ?_, hk, hr⟩
    rw [hleaf, hlast]
    rfl

theorem hit_spec {H : Host} {s s' : System} {t : Translation}
    (h : Step H s (.translated t) s') (hhit : t.hit = true) :
    ∃ e r, s.mmu.tlb.lookup (tlbKey t.va t.asid) = some e ∧ t.region = e.copyOut r := by
  obtain ⟨victim, r, f, -, -, hregion, hsome, -, outcome⟩ := step_translated h
  rw [hhit] at hsome
  rw [hregion]
  generalize t.result = result at outcome
  cases outcome with
  | hit he hf => exact ⟨_, r, lookup_of_hitEntry he, by rw [hf]⟩
  | fault hnone | fill hnone =>
    rw [hnone] at hsome
    cases hsome

theorem fills_spec {ev : Event} {key : BitVec 64} {t : Translation} (h : ev.fills key = some t) :
    ev = .translated t ∧ t.hit = false ∧ t.result.isSome ∧ tlbKey t.va t.asid = key := by
  cases ev with
  | translated t' =>
    unfold Event.fills at h
    dsimp only at h
    split at h
    · next hc =>
      cases h
      exact ⟨rfl, hc⟩
    · cases h
  | operated _ => cases h
  | memoryChanged => cases h

end TlbLemmas

open TlbLemmas

theorem entry_filledBy {H : Host} {h : List Event} {s : System} (hr : Run H h s)
    {key : BitVec 64} {e : TLBEntry} (he : s.mmu.tlb.lookup key = some e) :
    ∃ t d k, FilledBy h key e t d k := by
  have hlatest := hr.cache_latest (fun s key => s.mmu.tlb.lookup key)
    (fun ev key => (ev.fills key).map fun t => newEntry t.va t.asid t.region)
    (fun s key hs => by rw [hs]; rfl)
    (fun s ev s' key e hs he => (lookup_step hs he).imp_right fun ⟨hn, hold⟩ =>
      ⟨by rw [hn]; rfl, hold⟩) he
  rw [History.latest_map] at hlatest
  obtain ⟨t, hlast, hentry⟩ := Option.map_eq_some_iff.mp hlatest
  obtain ⟨ev, hev, hfills⟩ := History.exists_mem_of_latest hlast
  obtain ⟨rfl, hmiss, hok, hkey⟩ := fills_spec hfills
  have leaves := hr.forall_mem (P := fun ev => ∀ t, ev = .translated t → t.hit = false →
      t.result.isSome → ∃ d k, t.leaf = some d ∧ LeafShift k ∧
        t.region = leafRegion d (BitVec.twoPow 64 k)) fun s ev s' hs t ht hm ho =>
    (miss_spec (ht ▸ hs) hm ho).2
  obtain ⟨d, k, hleaf, hshift, hregion⟩ := leaves _ hev t rfl hmiss hok
  exact ⟨t, d, k, hlast, hkey, hleaf, hshift, hregion, hentry.symm⟩

/-! ## 2. The representation invariant -/

structure WellFormedEntry (key : BitVec 64) (e : TLBEntry) : Prop where
  valid : e.valid = true
  size : e.size = 4096 ∨ e.size = 2 * 1024 * 1024 ∨ e.size = 1024 * 1024 * 1024
  virtual : e.size.toNat ∣ e.virtualAddress.toNat
  physical : e.size.toNat ∣ e.physicalAddress.toNat
  range : e.physicalAddress.toNat + e.size.toNat ≤ 2 ^ 48
  key : ∃ va, key = (va &&& ~~~0xFFF#64) ||| (e.asid.setWidth 64 <<< 48) ∧
    va &&& ~~~(e.size - 1) = e.virtualAddress

structure TlbInvariant (tlb : Tlb) : Prop where
  bound : tlb.entries.length ≤ 1024
  entries : ∀ key e, tlb.lookup key = some e → WellFormedEntry key e

namespace TlbLemmas

theorem shift_lt {k : Nat} (h : LeafShift k) : 12 ≤ k ∧ k ≤ 30 := by
  unfold LeafShift at h
  omega

theorem leaf_size {k : Nat} (h : LeafShift k) :
    BitVec.twoPow 64 k = 4096 ∨ BitVec.twoPow 64 k = 2 * 1024 * 1024 ∨
      BitVec.twoPow 64 k = 1024 * 1024 * 1024 := by
  rcases h with rfl | rfl | rfl
  · exact .inl (by decide)
  · exact .inr (.inl (by decide))
  · exact .inr (.inr (by decide))

/-- An aligned block that starts below 2^48 ends at or below 2^48. -/
theorem block_range {x k : Nat} (hx : x < 2 ^ 48) (hk : k ≤ 30) :
    x / 2 ^ k * 2 ^ k + 2 ^ k ≤ 2 ^ 48 := by
  have hsplit : 2 ^ 48 = 2 ^ (48 - k) * 2 ^ k := by
    rw [← Nat.pow_add]
    congr 1
    omega
  have hq : x / 2 ^ k < 2 ^ (48 - k) :=
    Nat.div_lt_of_lt_mul (by rw [Nat.mul_comm, ← hsplit]; exact hx)
  calc x / 2 ^ k * 2 ^ k + 2 ^ k
      = (x / 2 ^ k + 1) * 2 ^ k := (Nat.succ_mul _ _).symm
    _ ≤ 2 ^ (48 - k) * 2 ^ k := Nat.mul_le_mul_right _ hq
    _ = 2 ^ 48 := hsplit.symm

theorem size_toNat {k : Nat} (h : LeafShift k) : (BitVec.twoPow 64 k).toNat = 2 ^ k := by
  have hk := shift_lt h
  exact BitVec.toNat_twoPow_of_lt (by omega)

/-- A leaf is an aligned block of the 48-bit physical address space. -/
theorem leafBase_range (d : PageTableDescriptor) {k : Nat} (h : LeafShift k) :
    2 ^ k ∣ (leafRegion d (BitVec.twoPow 64 k)).baseAddress.toNat ∧
      (leafRegion d (BitVec.twoPow 64 k)).baseAddress.toNat + 2 ^ k ≤ 2 ^ 48 := by
  obtain ⟨-, hk30⟩ := shift_lt h
  have hout : d.getOutputAddress.toNat < 2 ^ 48 := by
    have := d.outputAddr.isLt
    rw [d.getOutputAddress_toNat]
    omega
  unfold leafRegion
  rw [Align.toNat_base _ (by omega)]
  exact ⟨Nat.dvd_mul_left _ _, block_range hout hk30⟩

theorem wellFormed_of_filledBy {h : List Event} {key : BitVec 64} {e : TLBEntry} {t : Translation}
    {d : PageTableDescriptor} {k : Nat} (hf : FilledBy h key e t d k) : WellFormedEntry key e := by
  obtain ⟨-, hkey, -, hshift, hregion, hentry⟩ := hf
  obtain ⟨-, hk30⟩ := shift_lt hshift
  obtain ⟨haligned, hrange⟩ := leafBase_range d hshift
  have hsize : e.size = BitVec.twoPow 64 k := by rw [hentry, hregion]; rfl
  have hsizeNat : e.size.toNat = 2 ^ k := by rw [hsize, size_toNat hshift]
  have hvirtual : e.virtualAddress = t.va &&& ~~~(BitVec.twoPow 64 k - 1) := by
    rw [hentry, hregion]
    rfl
  have hphysical : e.physicalAddress = (leafRegion d (BitVec.twoPow 64 k)).baseAddress := by
    rw [hentry, hregion]
    exact Align.base_base _ _
  refine ⟨by rw [hentry]; rfl, hsize ▸ leaf_size hshift, ?_, ?_, ?_, t.va, ?_, ?_⟩
  · rw [hsizeNat, hvirtual, Align.toNat_base t.va (by omega)]
    exact Nat.dvd_mul_left _ _
  · rw [hsizeNat, hphysical]
    exact haligned
  · rw [hsizeNat, hphysical]
    exact hrange
  · rw [← hkey, hentry]
    rfl
  · rw [hsize, hvirtual]

/-! ### The bound -/

theorem length_keys (tlb : Tlb) : tlb.keys.length = tlb.entries.length := List.length_map ..

theorem length_erase_le (tlb : Tlb) (key : BitVec 64) :
    (tlb.erase key).entries.length ≤ tlb.entries.length := by
  rw [← length_keys, ← length_keys, AList.keys_erase]
  exact List.length_erase_le

theorem length_erase_lt {tlb : Tlb} {key : BitVec 64} (h : key ∈ tlb) :
    (tlb.erase key).entries.length < tlb.entries.length := by
  have hmem : key ∈ tlb.keys := AList.mem_keys.mp h
  have hpos := List.length_pos_of_mem hmem
  rw [← length_keys, ← length_keys, AList.keys_erase, List.length_erase_of_mem hmem]
  omega

theorem length_insert_le (tlb : Tlb) (key : BitVec 64) (e : TLBEntry) :
    (tlb.insert key e).entries.length ≤ tlb.entries.length + 1 := by
  rw [← length_keys, ← length_keys, AList.keys_insert, List.length_cons]
  exact Nat.succ_le_succ List.length_erase_le

/-- A full TLB makes room before it takes an entry. -/
theorem length_fill {m : MMUEmulator} {victim key : BitVec 64} {e : TLBEntry}
    (hv : Victim m victim) (hm : m.tlb.entries.length ≤ tlbSize) :
    (m.fill victim key e).tlb.entries.length ≤ tlbSize := by
  unfold MMUEmulator.fill
  dsimp only
  split
  · next hfull =>
    have hroom := length_erase_lt (hv hfull)
    have := length_insert_le (m.tlb.erase victim) key e
    omega
  · next hfree =>
    have := length_insert_le m.tlb key e
    omega

theorem length_operate (m : MMUEmulator) (op : Operation) :
    (m.operate op).tlb.entries.length ≤ m.tlb.entries.length := by
  cases op with
  | tlbInvalidateVa va asid => exact length_erase_le _ _
  | tlbInvalidateAsid asid => exact List.length_filter_le _ _
  | isMmuEnabled _ | getStats | resetStats => exact Nat.le_refl _
  | tlbInvalidateAll | setTtbr0 _ | setTtbr1 _ | setTcr _ => exact Nat.zero_le _

theorem length_step {H : Host} {s s' : System} {ev : Event} (h : Step H s ev s')
    (hs : s.mmu.tlb.entries.length ≤ tlbSize) : s'.mmu.tlb.entries.length ≤ tlbSize := by
  cases ev with
  | operated op =>
    cases h
    exact (length_operate s.mmu op).trans hs
  | memoryChanged =>
    cases h
    exact hs
  | translated t =>
    obtain ⟨victim, r, f, hv, rfl, -, -, -, outcome⟩ := step_translated h
    show f.mmu.tlb.entries.length ≤ tlbSize
    generalize t.result = result at outcome
    cases outcome with
    | hit _ hf => subst hf; exact hs
    | fault _ hm => rw [hm]; exact hs
    | fill _ hm => rw [hm]; exact length_fill hv hs

end TlbLemmas

/-- In every reachable state, whatever the descriptors were and are and
whichever entries were evicted. -/
theorem tlb_invariant {H : Host} {h : List Event} {s : System} (hr : Run H h s) :
    TlbInvariant s.mmu.tlb := by
  constructor
  · refine hr.invariant (P := fun _ s => s.mmu.tlb.entries.length ≤ tlbSize) ?_ ?_
    · intro s hs
      rw [hs]
      exact Nat.zero_le _
    · intro h s e s' _ ih hs
      exact length_step hs ih
  · intro key e he
    obtain ⟨t, d, k, hf⟩ := entry_filledBy hr he
    exact wellFormed_of_filledBy hf

theorem tlb_invariant_sample : TlbInvariant sampleSystem.mmu.tlb := tlb_invariant sample_run

end Acheron
