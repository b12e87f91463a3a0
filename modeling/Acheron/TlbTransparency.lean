import Acheron.TlbAliasing

/-!
# The TLB against the walk

The TLB is meant to be transparent: a call should return what the table walk
would return in its place. The descriptors may change in a run, as long as the
TLB is flushed right afterwards; the registers flush it themselves.

Results:
1. `coherent_of_run`: every entry is what the walk would find again for the call
   that filled it.
2. `tlb_transparent`: a call returns what the walk would return, provided that
   on a hit the walks of the two calls start from the same table.
3. `tlb_transparent_sharp`: any two calls that break this condition meet in some
   run in which the second is answered wrongly.
-/

namespace Acheron

open AliasLemmas TlbLemmas WalkLemmas

/-! ## 1. Coherence -/

/-- The descriptors change only immediately before the TLB is flushed. -/
def MemoryFlushed (h : List Event) : Prop :=
  h.IsChain fun newer older =>
    older = .memoryChanged → newer = .operated .tlbInvalidateAll

/-- If the call hits, then the call that filled the slot is for an address
whose walk now starts from the same table. -/
def HitsOwnTable (H : Host) (h : List Event) (m : MMUEmulator) (va : BitVec 64)
    (asid : BitVec 16) : Prop :=
  (m.hitEntry va asid).isSome →
    ∀ t, lastFill h (tlbKey va asid) = some t → m.walkBase H t.va = m.walkBase H va

/-- Every entry is what the walk would still find for the call that filled it. -/
def Coherent (H : Host) (h : List Event) (s : System) : Prop :=
  ∀ key e, s.mmu.tlb.lookup key = some e →
    ∀ t, lastFill h key = some t → WalkEndsIn H s.mem s.mmu t.va t.region

namespace TransparencyLemmas

/-- What follows a change of the descriptors is a flush. -/
theorem flush_of_changed {ev : Event} {h : List Event} (hf : MemoryFlushed (ev :: h))
    (hhead : h.head? = some .memoryChanged) : ev = .operated .tlbInvalidateAll := by
  cases h with
  | nil => cases hhead
  | cons older rest =>
    cases hhead
    exact (List.isChain_cons_cons.mp hf).1 rfl

/-- A leaf translates every address that the walk brings to it. -/
theorem walkReturns_of_walkEndsIn {H : Host} {mem : Memory} {m : MMUEmulator} {va va' : BitVec 64}
    {region : MemoryRegion} (hs : SameIndices va va') (hb : m.walkBase H va = m.walkBase H va')
    (h : WalkEndsIn H mem m va region) :
    WalkReturns H mem m va' (some (region.baseAddress + (va' &&& (region.size - 1)))) := by
  obtain ⟨fuel, pa, g, hw, rfl⟩ := h
  obtain ⟨g', hw', -⟩ := walkPageTables_uniform hs hb {} hw
  exact ⟨fuel, congrArg Prod.fst hw'⟩

theorem walkEndsIn_congr {H : Host} {mem : Memory} {m m' : MMUEmulator} {va : BitVec 64}
    {region : MemoryRegion} (hb : m.walkBase H va = m'.walkBase H va)
    (h : WalkEndsIn H mem m va region) : WalkEndsIn H mem m' va region := by
  obtain ⟨fuel, pa, g, hw, hregion⟩ := h
  obtain ⟨g', hw', hregion'⟩ := walkPageTables_uniform rfl hb {} hw
  exact ⟨fuel, _, g', hw', hregion'.trans hregion⟩

/-- An operation that touches a register leaves no entry behind. -/
theorem walkBase_operate {m : MMUEmulator} {op : Operation} {key : BitVec 64} {e : TLBEntry}
    (h : (m.operate op).tlb.lookup key = some e) (H : Host) (va : BitVec 64) :
    (m.operate op).walkBase H va = m.walkBase H va := by
  cases op with
  | setTtbr0 _ | setTtbr1 _ | setTcr _ => cases h
  | _ => rfl

theorem walkBase_translated {H : Host} {s s' : System} {t : Translation}
    (h : Step H s (.translated t) s') (va : BitVec 64) :
    s'.mem = s.mem ∧ s'.mmu.walkBase H va = s.mmu.walkBase H va := by
  obtain ⟨hmem, h0, h1, htcr⟩ := translated_registers h
  exact ⟨hmem, MMUEmulator.walkBase_congr h0 h1 htcr H va⟩

theorem walkEndsIn_of_fills {H : Host} {s s' : System} {ev : Event} (h : Step H s ev s')
    {key : BitVec 64} {t : Translation} (hf : ev.fills key = some t) :
    WalkEndsIn H s.mem s.mmu t.va t.region := by
  obtain ⟨rfl, hmiss, hok, -⟩ := fills_spec hf
  exact (miss_spec h hmiss hok).1

/-- Every step keeps coherence except a change of the descriptors. -/
theorem coherent_step {H : Host} {h : List Event} {s s' : System} {ev : Event}
    (hs : Step H s ev s') (hev : ev ≠ .memoryChanged) (hc : Coherent H h s) :
    Coherent H (ev :: h) s' := by
  intro key e he t ht
  cases ev with
  | memoryChanged => exact absurd rfl hev
  | operated op =>
    cases hs
    have hold := hc key e (lookup_of_lookup_operate he) t ht
    exact walkEndsIn_congr (walkBase_operate he H t.va).symm hold
  | translated t' =>
    obtain ⟨hmem, hbase⟩ := walkBase_translated hs t.va
    rw [hmem]
    refine walkEndsIn_congr hbase.symm ?_
    cases hfills : (Event.translated t').fills key with
    | some new =>
      -- The slot was filled just now, by the walk of this very call.
      have hlast := History.latest_cons_some (h := h) hfills
      cases hlast.symm.trans ht
      exact walkEndsIn_of_fills hs hfills
    | none =>
      rcases lookup_step hs he with hnew | ⟨-, hold⟩
      · rw [hfills] at hnew
        cases hnew
      · exact hc key e hold t ((History.latest_cons_none hfills).symm.trans ht)

/-- Right after a change of the descriptors coherence is lost, until the flush. -/
theorem coherent_of_run {H : Host} {h : List Event} {s : System} (hr : Run H h s)
    (hflushed : MemoryFlushed h) : h.head? = some .memoryChanged ∨ Coherent H h s := by
  revert hflushed
  refine hr.invariant (P := fun h s =>
    MemoryFlushed h → h.head? = some .memoryChanged ∨ Coherent H h s) ?_ ?_
  · intro s hs _
    right
    intro key e he
    rw [hs] at he
    cases he
  · intro h s ev s' _ ih hs hflushed
    by_cases hev : ev = .memoryChanged
    · exact .inl (congrArg some hev)
    · right
      rcases ih hflushed.of_cons with hhead | hc
      · obtain rfl := flush_of_changed hflushed hhead
        cases hs
        intro key e he
        cases he
      · exact coherent_step hs hev hc

end TransparencyLemmas

open TransparencyLemmas

/-! ## 2. Transparency -/

/-- A call returns what the walk returns, in every run that flushes the TLB
when the descriptors change. -/
theorem tlb_transparent {H : Host} {h : List Event} {s s' : System} {t : Translation}
    (hr : Run H h s) (hflushed : MemoryFlushed (.translated t :: h))
    (hs : Step H s (.translated t) s') (hown : HitsOwnTable H h s.mmu t.va t.asid) :
    WalkReturns H s.mem s.mmu t.va t.result := by
  obtain ⟨victim, r, f, -, -, -, -, -, outcome⟩ := step_translated hs
  generalize t.result = result at outcome
  cases outcome with
  | fault _ _ hwalk => exact hwalk
  | fill _ _ _ _ _ _ hends => exact walkReturns_of_walkEndsIn rfl rfl hends
  | @hit _ e he _ =>
    -- The entry still is what the walk of its own call finds, and that walk and
    -- the one for `t.va` meet in the same leaf.
    have hc : Coherent H h s := by
      refine (coherent_of_run hr hflushed.of_cons).resolve_left fun hhead => ?_
      cases flush_of_changed hflushed hhead
    obtain ⟨t₀, d, k, hf⟩ := entry_filledBy hr (lookup_of_hitEntry he)
    have hends := hc _ _ (lookup_of_hitEntry he) t₀ hf.last
    have hbase := hown (by rw [he]; rfl) t₀ hf.last
    have hwalk := walkReturns_of_walkEndsIn (tlbKey_eq_iff.mp hf.key).1 hbase hends
    have hphysical : e.physicalAddress = t₀.region.baseAddress := by
      rw [hf.entry, hf.region]
      exact Align.base_base _ _
    have hsize : e.size = t₀.region.size := by rw [hf.entry]; rfl
    rw [hphysical, hsize]
    exact hwalk

/-- Looking the same page up again. -/
theorem tlb_transparent_sample :
    WalkReturns Host.masked sampleMemory sampleSystem.mmu 0x0001000000001234 (some 0x1234) := by
  have hlast : lastFill sampleHistory (tlbKey 0x0001000000001234 0) = some sampleTranslation := by
    decide
  refine tlb_transparent sample_run ?_ sample_again fun _ t ht => ?_
  · simp [MemoryFlushed, sampleHistory]
  · cases hlast.symm.trans ht
    rfl

/-- The lower half of the address space is not mapped, but ASID 1 gets an
answer for `0x1234`, from the table of the upper half. -/
theorem tlb_not_transparent :
    ¬ ∀ (H : Host) (h : List Event) (s s' : System) (t : Translation), Run H h s →
      MemoryFlushed (.translated t :: h) → Step H s (.translated t) s' →
      WalkReturns H s.mem s.mmu t.va t.result := by
  intro hall
  have he : sampleSystem.mmu.hitEntry 0x1234 1 = some sampleEntry := by decide
  have hflushed (t : Translation) : MemoryFlushed (.translated t :: sampleHistory) := by
    simp [MemoryFlushed, sampleHistory]
  have hcall := hall Host.masked sampleHistory sampleSystem _ _ sample_run (hflushed _)
    (hit_step Host.masked sample_victim he {})
  have hwalk : WalkReturns Host.masked sampleMemory sampleSystem.mmu 0x1234 none :=
    ⟨1, by decide⟩
  cases walkReturns_unique hcall hwalk

/-! ## 3. Sharpness -/

/-- The descriptor of a 1 GB block at `addr`, and nothing else. -/
def blockAt (addr : BitVec 64) : Memory := fun a => if a = addr then 1 else 0

/-- A new emulator with the registers of `m`. -/
def MMUEmulator.configured (m : MMUEmulator) : MMUEmulator :=
  ((({} : MMUEmulator).setTcr m.tcr).setTtbr0 m.ttbr0).setTtbr1 m.ttbr1

namespace TransparencyLemmas

/-- The descriptor that the walk for `va` fetches first in the table `base`. -/
def firstDescriptor (H : Host) (base va : BitVec 64) : BitVec 64 :=
  base + (H.shr va (39 - ((0 : Nat) : Int) * 9) &&& 0x1FF) * 8

theorem walk_blockAt {H : Host} {m : MMUEmulator} {va base : BitVec 64}
    (hb : m.walkBase H va = some base) (r : MemoryRegion) :
    ∃ pa f, walkPageTables H (blockAt (firstDescriptor H base va)) 1 va { mmu := m, region := r } =
      (.returned (some pa), f) := by
  obtain ⟨f, -, -, -, heq⟩ := walkPageTables_start H va m r
  have hdesc : blockAt (firstDescriptor H base va) (firstDescriptor H base va) = 1 := if_pos rfl
  rw [heq, hb]
  dsimp only
  unfold walkLevel
  dsimp only
  unfold firstDescriptor at hdesc ⊢
  rw [hdesc]
  exact ⟨_, _, rfl⟩

theorem walkReturns_none {H : Host} {mem : Memory} {m : MMUEmulator} {va : BitVec 64}
    (h : ∀ base, m.walkBase H va = some base → mem (firstDescriptor H base va) = 0) :
    WalkReturns H mem m va none := by
  obtain ⟨f, -, -, -, heq⟩ := walkPageTables_start H va m {}
  refine ⟨1, ?_⟩
  rw [heq]
  cases hb : m.walkBase H va with
  | none => rfl
  | some base =>
    have hdesc := h base hb
    dsimp only
    unfold walkLevel
    dsimp only
    unfold firstDescriptor at hdesc
    rw [hdesc]
    rfl

/-- Where the walk for `va` finds its block, the walk from another table does
not. -/
theorem walkReturns_none_of_other_table {H : Host} {m : MMUEmulator} {va va' base : BitVec 64}
    (hs : SameIndices va va') (hb' : m.walkBase H va' ≠ some base) :
    WalkReturns H (blockAt (firstDescriptor H base va)) m va' none := by
  refine walkReturns_none fun base' hbase' => if_neg fun haddr => ?_
  unfold firstDescriptor at haddr
  rw [index_congr H H hs (Nat.zero_le 3)] at haddr
  exact hb' (hbase'.trans (congrArg some (add_right_cancel haddr)))

theorem hitEntry_fill (m : MMUEmulator) (victim : BitVec 64) {va va' : BitVec 64}
    {asid asid' : BitVec 16} (hkey : tlbKey va asid = tlbKey va' asid') (r : MemoryRegion) :
    (m.fill victim (tlbKey va asid) (newEntry va asid r)).hitEntry va' asid' =
      some (newEntry va asid r) := by
  rw [hkey]
  exact Option.filter_eq_some_iff.mpr ⟨AList.lookup_insert _, rfl⟩

end TransparencyLemmas

open TransparencyLemmas

/-- The condition of transparency cannot be weakened: whatever the registers,
two calls with the same key whose walks start from different tables, the first
from the table `base`, meet in a run in which the second is answered wrongly. -/
theorem tlb_transparent_sharp (H : Host) (m : MMUEmulator) {va va' base : BitVec 64}
    {asid asid' : BitVec 16} (hkey : tlbKey va asid = tlbKey va' asid')
    (hb : m.walkBase H va = some base) (hb' : m.walkBase H va' ≠ some base) :
    ∃ h s s' t, Run H h s ∧ MemoryFlushed (.translated t :: h) ∧ Step H s (.translated t) s' ∧
      s.mmu.tcr = m.tcr ∧ s.mmu.ttbr0 = m.ttbr0 ∧ s.mmu.ttbr1 = m.ttbr1 ∧
      t.va = va' ∧ t.asid = asid' ∧ ¬ WalkReturns H s.mem s.mmu t.va t.result := by
  let mem := blockAt (firstDescriptor H base va)
  have start : Run H [.operated (.setTtbr1 m.ttbr1), .operated (.setTtbr0 m.ttbr0),
      .operated (.setTcr m.tcr)] ⟨mem, m.configured⟩ :=
    .next (.next (.next (.start rfl : Run H [] ⟨mem, {}⟩) (.operated _)) (.operated _))
      (.operated _)
  -- The first call misses and is filed under the key that the second looks up.
  obtain ⟨pa, f, hw⟩ := walk_blockAt (m := m.configured.countMiss) hb {}
  have outcome := walkPageTables_outcome H mem 1 va m.configured.countMiss {}
  rw [hw] at outcome
  have hf : f.mmu = m.configured.countMiss.countWalk := by
    cases outcome with
    | leaf _ _ hm => exact hm
  have hmiss : m.configured.hitEntry va asid = none := rfl
  have hcall : translateWithAttributes H mem 1 0 va asid { mmu := m.configured, region := {} } =
      (.returned (some pa),
        { f with mmu := f.mmu.fill 0 (tlbKey va asid) (newEntry va asid f.region) }) := by
    unfold translateWithAttributes
    rw [hmiss]
    dsimp only
    rw [hw]
  have room : Victim m.configured 0 := fun hfull => absurd (show 1024 ≤ 0 from hfull) (by decide)
  have first := start.next (Step.translated (s := ⟨mem, m.configured⟩) room hcall)
  -- The second call hits it.
  have hhit := hitEntry_fill f.mmu 0 hkey f.region
  have second := hit_step H (s := ⟨mem, f.mmu.fill 0 (tlbKey va asid) (newEntry va asid f.region)⟩)
    (fun _ => AList.lookup_isSome.mp (by rw [lookup_of_hitEntry hhit]; rfl)) hhit {}
  refine ⟨_, _, _, _, first, ?_, second, ?_, ?_, ?_, rfl, rfl, fun hret => ?_⟩
  · simp [MemoryFlushed]
  · rw [hf]
    rfl
  · rw [hf]
    rfl
  · rw [hf]
    rfl
  · have hnone : WalkReturns H mem
        (f.mmu.fill 0 (tlbKey va asid) (newEntry va asid f.region)) va' none := by
      rw [hf]
      exact walkReturns_none_of_other_table (tlbKey_eq_iff.mp hkey).1 hb'
    cases walkReturns_unique hret hnone

end Acheron
