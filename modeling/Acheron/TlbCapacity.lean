import Acheron.TlbInvalidation
import Acheron.Lib.BoundedCache

/-!
# The room in the TLB

The TLB holds at most 1024 entries. A run tells what a TLB with room for
everything would hold (`idealTlb`): what has been filled and not invalidated
since. The 1024 entries that there are come from that one.

Results:
1. `tlb_run`: a run of the emulator is a run of a cache with room for 1024
   entries.
2. `tlb_capacity`: the TLB holds a part of what one with room for everything
   would, and all of it as long as that has never been more than 1024 entries.
3. `small_working_set`: with calls under at most 1024 keys there is no miss but
   for a key that is new or has been invalidated.
-/

namespace Acheron

open BoundedCache InvalidationLemmas TlbLemmas

/-! ## 1. The TLB as a cache -/

def Tlb.content (tlb : Tlb) : Content (BitVec 64) TLBEntry := fun key => tlb.lookup key

/-- The entries that an operation removes. -/
def Operation.drops : Operation → BitVec 64 → TLBEntry → Bool
  | tlbInvalidateVa va asid => fun key _ => key == tlbKey va asid
  | tlbInvalidateAsid asid => fun _ e => (e.asid == asid || asid == 0xFFFF) && e.valid
  | tlbInvalidateAll | setTtbr0 _ | setTtbr1 _ | setTcr _ => fun _ _ => true
  | isMmuEnabled _ | getStats | resetStats => fun _ _ => false

/-- What an event does to a cache. Calls that hit or fault do nothing. -/
def Event.cacheOp : Event → Op (BitVec 64) TLBEntry
  | translated t =>
    if t.hit = false ∧ t.result.isSome then
      .put (tlbKey t.va t.asid) (newEntry t.va t.asid t.region)
    else .drop fun _ _ => false
  | operated op => .drop op.drops
  | memoryChanged => .drop fun _ _ => false

/-- What a TLB with room for everything holds after the run `h`. -/
def idealTlb (h : List Event) : Content (BitVec 64) TLBEntry := content (h.map Event.cacheOp)

namespace CapacityLemmas

theorem drop_nothing (c : Content (BitVec 64) TLBEntry) : c.drop (fun _ _ => false) = c :=
  funext fun _ => c.drop_keep fun _ => rfl

theorem cacheOp_fill {t : Translation} (h : t.hit = false ∧ t.result.isSome) :
    Event.cacheOp (.translated t) = .put (tlbKey t.va t.asid) (newEntry t.va t.asid t.region) :=
  if_pos h

theorem cacheOp_silent {t : Translation} (h : ¬ (t.hit = false ∧ t.result.isSome)) :
    Event.cacheOp (.translated t) = .drop fun _ _ => false :=
  if_neg h

theorem held_content (tlb : Tlb) : (held tlb.content).encard = tlb.entries.length := by
  have hkeys : held tlb.content = (tlb.keys.toFinset : Set (BitVec 64)) := by
    ext key
    rw [Finset.mem_coe, List.mem_toFinset]
    exact AList.lookup_isSome
  rw [hkeys, Set.encard_coe_eq_coe_finsetCard, List.toFinset_card_of_nodup tlb.keys_nodup,
    length_keys]

theorem content_operate (m : MMUEmulator) (op : Operation) :
    (m.operate op).tlb.content = m.tlb.content.drop op.drops := by
  funext key
  cases op with
  | tlbInvalidateVa va asid =>
    show (m.tlb.erase (tlbKey va asid)).lookup key = _
    by_cases hk : key = tlbKey va asid
    · subst hk
      rw [AList.lookup_erase]
      exact (Content.drop_lose _ fun _ => beq_self_eq_true _).symm
    · rw [AList.lookup_erase_ne hk]
      have hkept (e : TLBEntry) : Operation.drops (.tlbInvalidateVa va asid) key e = false :=
        beq_false_of_ne hk
      exact (m.tlb.content.drop_keep hkept).symm
  | tlbInvalidateAsid asid => exact lookup_eraseIf m.tlb _ key
  | tlbInvalidateAll | setTtbr0 _ | setTtbr1 _ | setTcr _ =>
    exact (Content.drop_lose _ fun _ => rfl).symm
  | isMmuEnabled _ | getStats | resetStats =>
    exact (Content.drop_keep _ fun _ => rfl).symm

/-- Other slots keep their entries, but for the victim of a full TLB. -/
theorem lookup_fill_ne (m : MMUEmulator) (victim : BitVec 64) {key key' : BitVec 64}
    (hk : key' ≠ key) (new : TLBEntry) :
    (m.fill victim key new).tlb.lookup key' = m.tlb.lookup key' ∨
      (m.fill victim key new).tlb.lookup key' = none ∧ tlbSize ≤ m.tlb.entries.length := by
  unfold MMUEmulator.fill
  dsimp only
  rw [AList.lookup_insert_ne hk]
  split
  · next hfull =>
    by_cases hv : key' = victim
    · subst hv
      exact .inr ⟨AList.lookup_erase _ _, hfull⟩
    · exact .inl (AList.lookup_erase_ne hv)
  · exact .inl rfl

/-- A call that returns fills the empty slot of its key, or does nothing. -/
theorem step_translated_content {H : Host} {h : List Event} {s s' : System} {t : Translation}
    (hr : Run H h s) (hs : Step H s (.translated t) s') :
    BoundedCache.Step tlbSize s.mmu.tlb.content (Event.cacheOp (.translated t))
      s'.mmu.tlb.content := by
  obtain ⟨victim, r, f, -, rfl, hregion, hhit, -, outcome⟩ := step_translated hs
  show BoundedCache.Step tlbSize s.mmu.tlb.content _ f.mmu.tlb.content
  generalize hres : t.result = result at outcome
  cases outcome with
  | hit hsome hf =>
    rw [hsome] at hhit
    have hc : ¬ (t.hit = false ∧ t.result.isSome) := fun hc => by
      rw [hhit] at hc
      cases hc.1
    rw [cacheOp_silent hc, hf]
    exact .drop (drop_nothing _).symm
  | fault _ hm =>
    have hc : ¬ (t.hit = false ∧ t.result.isSome) := fun hc => by
      rw [hres] at hc
      cases hc.2
    rw [cacheOp_silent hc, hm]
    exact .drop (drop_nothing _).symm
  | fill hnone hm =>
    rw [hnone] at hhit
    -- A miss finds nothing in its slot, since all entries are valid.
    have habsent : s.mmu.tlb.lookup (tlbKey t.va t.asid) = none :=
      Option.eq_none_iff_forall_ne_some.mpr fun e he => by
        cases hnone.symm.trans ((hitEntry_iff hr).mpr he)
    rw [cacheOp_fill ⟨hhit, by rw [hres]; rfl⟩, hregion, hm]
    refine .put habsent (AList.lookup_insert _) fun key' hk => ?_
    refine (lookup_fill_ne s.mmu victim hk _).imp_right fun hlost => ⟨hlost.1, ?_⟩
    rw [held_content]
    exact_mod_cast hlost.2

end CapacityLemmas

open CapacityLemmas

/-- Every step of a run, whatever is evicted, is one of a cache with room for
1024 entries. -/
theorem tlb_run {H : Host} {h : List Event} {s : System} (hr : Run H h s) :
    BoundedCache.Run tlbSize (h.map Event.cacheOp) s.mmu.tlb.content := by
  induction hr with
  | start hs =>
    refine .start ?_
    rw [hs]
    rfl
  | @next h s s' ev hr hs ih =>
    refine ih.next ?_
    cases ev with
    | translated t => exact step_translated_content hr hs
    | operated op =>
      cases hs
      exact .drop (content_operate s.mmu op)
    | memoryChanged =>
      cases hs
      exact .drop (drop_nothing _).symm

/-! ## 2. Capacity -/

/-- The keys that calls were made under. -/
def usedKeys (h : List Event) : Set (BitVec 64) :=
  {key | ∃ t, .translated t ∈ h ∧ tlbKey t.va t.asid = key}

namespace CapacityLemmas

theorem put_of_cacheOp {ev : Event} {key : BitVec 64} {e : TLBEntry} (h : ev.cacheOp = .put key e) :
    ∃ t, ev = .translated t ∧ (t.hit = false ∧ t.result.isSome) ∧ tlbKey t.va t.asid = key ∧
      newEntry t.va t.asid t.region = e := by
  cases ev with
  | translated t =>
    by_cases hc : t.hit = false ∧ t.result.isSome
    · rw [cacheOp_fill hc] at h
      cases h
      exact ⟨t, rfl, hc, rfl, rfl⟩
    · rw [cacheOp_silent hc] at h
      cases h
  | operated op => cases h
  | memoryChanged => cases h

theorem held_idealTlb_subset (h : List Event) : held (idealTlb h) ⊆ usedKeys h := by
  intro key hkey
  obtain ⟨e, hput⟩ := held_content_subset _ hkey
  obtain ⟨ev, hev, hop⟩ := List.mem_map.mp hput
  obtain ⟨t, rfl, -, hkey, -⟩ := put_of_cacheOp hop
  exact ⟨t, hev, hkey⟩

/-- Under at most 1024 keys there is always room. -/
theorem room_of_usedKeys {h : List Event} (hkeys : (usedKeys h).encard ≤ tlbSize) :
    ∀ h', h' <:+ h → (held (idealTlb h')).encard ≤ tlbSize := by
  intro h' hsuffix
  refine (Set.encard_le_encard ?_).trans hkeys
  refine (held_idealTlb_subset h').trans ?_
  rintro key ⟨t, ht, hkey⟩
  exact ⟨t, hsuffix.subset ht, hkey⟩

/-- The sample uses one key. -/
theorem sample_usedKeys : (usedKeys sampleHistory).encard ≤ tlbSize := by
  have hone : usedKeys sampleHistory ⊆ {tlbKey 0x0001000000001234 0} := by
    rintro key ⟨t, ht, rfl⟩
    simp only [sampleHistory, List.mem_cons, List.not_mem_nil, or_false, reduceCtorEq] at ht
    cases ht
    rfl
  refine (Set.encard_le_encard hone).trans ?_
  rw [Set.encard_singleton]
  exact_mod_cast (by decide : 1 ≤ tlbSize)

/-- As long as there has been room, nothing is lost. -/
theorem lookup_eq_ideal {H : Host} {h : List Event} {s : System} (hr : Run H h s)
    (hroom : ∀ h', h' <:+ h → (held (idealTlb h')).encard ≤ tlbSize) (key : BitVec 64) :
    s.mmu.tlb.lookup key = idealTlb h key := by
  refine congrFun (eq_content (tlb_run hr) fun ops hops => ?_) key
  obtain ⟨h', hsuffix, rfl⟩ := List.suffix_map_iff.mp hops
  exact hroom h' hsuffix

end CapacityLemmas

/-- Whatever is evicted, and whatever the descriptors are. -/
theorem tlb_capacity {H : Host} {h : List Event} {s : System} (hr : Run H h s) :
    (∀ key e, s.mmu.tlb.lookup key = some e → idealTlb h key = some e) ∧
      ((∀ h', h' <:+ h → (held (idealTlb h')).encard ≤ tlbSize) →
        ∀ key, s.mmu.tlb.lookup key = idealTlb h key) :=
  ⟨fun key e he => sub_content (tlb_run hr) key e he, lookup_eq_ideal hr⟩

theorem tlb_capacity_sample :
    (∀ key e, sampleSystem.mmu.tlb.lookup key = some e → idealTlb sampleHistory key = some e) ∧
      ∀ key, sampleSystem.mmu.tlb.lookup key = idealTlb sampleHistory key :=
  ⟨(tlb_capacity sample_run).1, (tlb_capacity sample_run).2 (room_of_usedKeys sample_usedKeys)⟩

/-- The call `t` has filled slot `key`, and of the events since, `newer`, none
has filled it again or removed its entry. -/
structure Resident (newer : List Event) (t : Translation) (key : BitVec 64) : Prop where
  filled : t.hit = false ∧ t.result.isSome
  filed : tlbKey t.va t.asid = key
  newest : ∀ t', .translated t' ∈ newer → t'.hit = false ∧ t'.result.isSome →
    tlbKey t'.va t'.asid ≠ key
  kept : ∀ op, .operated op ∈ newer → op.drops key (newEntry t.va t.asid t.region) = false

namespace CapacityLemmas

theorem keeps_iff {ev : Event} {key : BitVec 64} {e : TLBEntry} :
    ev.cacheOp.Keeps key e ↔
      (∀ t, ev = .translated t → t.hit = false ∧ t.result.isSome → tlbKey t.va t.asid ≠ key) ∧
        ∀ op, ev = .operated op → op.drops key e = false := by
  cases ev with
  | translated t =>
    by_cases hc : t.hit = false ∧ t.result.isSome
    · rw [cacheOp_fill hc]
      refine ⟨fun hne => ⟨?_, (fun _ h => by cases h)⟩, fun hkeeps => hkeeps.1 t rfl hc⟩
      rintro _ ⟨⟩ -
      exact hne
    · rw [cacheOp_silent hc]
      refine ⟨fun _ => ⟨?_, (fun _ h => by cases h)⟩, fun _ => rfl⟩
      rintro _ ⟨⟩ hfill
      exact absurd hfill hc
  | operated op =>
    refine ⟨fun hdrop => ⟨(fun _ h => by cases h), ?_⟩, fun hkeeps => hkeeps.2 op rfl⟩
    rintro _ ⟨⟩
    exact hdrop
  | memoryChanged =>
    exact ⟨fun _ => ⟨(fun _ h => by cases h), (fun _ h => by cases h)⟩, fun _ => rfl⟩

theorem idealTlb_isSome_iff {h : List Event} {key : BitVec 64} :
    (idealTlb h key).isSome ↔
      ∃ newer older t, h = newer ++ .translated t :: older ∧ Resident newer t key := by
  rw [Option.isSome_iff_exists]
  unfold idealTlb
  simp only [content_eq_some_iff]
  constructor
  · rintro ⟨e, ops, ops', hmap, hkeeps⟩
    obtain ⟨newer, rest, rfl, rfl, hrest⟩ := List.map_eq_append_iff.mp hmap
    obtain ⟨ev, older, rfl, hput, rfl⟩ := List.map_eq_cons_iff.mp hrest
    obtain ⟨t, rfl, hfilled, hkey, rfl⟩ := put_of_cacheOp hput
    have each (ev : Event) (hev : ev ∈ newer) := keeps_iff.mp (hkeeps _ (List.mem_map_of_mem hev))
    exact ⟨newer, older, t, rfl, hfilled, hkey, fun t' ht' => (each _ ht').1 t' rfl,
      fun op hop => (each _ hop).2 op rfl⟩
  · rintro ⟨newer, older, t, rfl, hfilled, rfl, hnewest, hkept⟩
    refine ⟨newEntry t.va t.asid t.region, newer.map Event.cacheOp, older.map Event.cacheOp, ?_, ?_⟩
    · rw [List.map_append, List.map_cons, cacheOp_fill hfilled]
    · intro op hop
      obtain ⟨ev, hev, rfl⟩ := List.mem_map.mp hop
      refine keeps_iff.mpr ⟨?_, ?_⟩
      · rintro t' rfl
        exact hnewest t' hev
      · rintro op rfl
        exact hkept op hev

end CapacityLemmas

open CapacityLemmas

/-- With calls under at most 1024 keys there are no misses for lack of room: a
call hits exactly when one before it has filled the slot of its key and no
invalidation has removed the entry since. -/
theorem small_working_set {H : Host} {h : List Event} {s : System} (hr : Run H h s)
    (hkeys : (usedKeys h).encard ≤ tlbSize) (va : BitVec 64) (asid : BitVec 16) :
    (s.mmu.hitEntry va asid).isSome ↔
      ∃ newer older t, h = newer ++ .translated t :: older ∧
        Resident newer t (tlbKey va asid) := by
  have hlookup := lookup_eq_ideal hr (room_of_usedKeys hkeys) (tlbKey va asid)
  rw [← idealTlb_isSome_iff, ← hlookup, Option.isSome_iff_exists, Option.isSome_iff_exists]
  exact exists_congr fun e => hitEntry_iff hr

/-- One key is used, and the page of the call is still there. -/
theorem small_working_set_sample :
    (sampleSystem.mmu.hitEntry 0x0001000000001FFF 0).isSome ↔
      ∃ newer older t, sampleHistory = newer ++ .translated t :: older ∧
        Resident newer t (tlbKey 0x0001000000001FFF 0) :=
  small_working_set sample_run sample_usedKeys _ _

end Acheron
