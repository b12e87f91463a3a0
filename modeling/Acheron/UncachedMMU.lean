import Acheron.LeafPath
import Acheron.Shifts
import Acheron.TlbUsage

/-!
# The emulator without a TLB

What the emulator is for: every call walks the tables that the registers and
the memory hold at that moment. This machine has no TLB and no counters. The
emulator refines it for a client that separates its pages, flushes the TLB
between a change of the descriptors and its next call, and has range boundaries
between pages. A client sees the address and the six fields of the region that
hits and walks write. The other two are written by a walk only.

Results:
1. `coherent_of_flushed`: after a flush the TLB agrees with the tables, until
   these are changed again.
2. `refines_uncached`: the runs of such a client are runs of the machine without
   a TLB.
3. `tlb_unobservable`: what such a client is told depends on the registers and
   the memory only, not on what has been called, evicted or invalidated before.
-/

namespace Acheron

open CallLemmas InvalidationLemmas SplitLemmas TlbLemmas TransparencyLemmas

/-! ## 1. The machine -/

structure UncachedMMU where
  mem : Memory
  ttbr0 : BitVec 64 := 0
  ttbr1 : BitVec 64 := 0
  tcr : BitVec 64 := 0

namespace UncachedMMU

/-- An emulator with these registers and an empty TLB. -/
def emulator (u : UncachedMMU) : MMUEmulator :=
  { ttbr0 := u.ttbr0
    ttbr1 := u.ttbr1
    tcr := u.tcr }

def operate (u : UncachedMMU) : Operation → UncachedMMU
  | .setTtbr0 ttbr0 => { u with ttbr0 := ttbr0 }
  | .setTtbr1 ttbr1 => { u with ttbr1 := ttbr1 }
  | .setTcr tcr => { u with tcr := tcr }
  | _ => u

end UncachedMMU

/-- The fields of a region that a call writes, whether it hits or walks. -/
structure Mapping where
  baseAddress : BitVec 64
  size : BitVec 64
  type : MemoryType
  ap : AccessPermission
  uxn : Bool
  pxn : Bool
deriving DecidableEq, Repr

def MemoryRegion.mapping (r : MemoryRegion) : Mapping :=
  { baseAddress := r.baseAddress
    size := r.size
    type := r.type
    ap := r.ap
    uxn := r.uxn
    pxn := r.pxn }

/-- What a call tells: the address, and how it is mapped if there is one. -/
structure Answer where
  result : Option (BitVec 64)
  mapping : Option Mapping
deriving DecidableEq, Repr

def answer (result : Option (BitVec 64)) (region : MemoryRegion) : Answer :=
  { result := result
    mapping := result.map fun _ => region.mapping }

/-- The events, as the client sees them. -/
inductive Seen
  | called (va : BitVec 64) (a : Answer)
  | operated (op : Operation)
  | memoryChanged

def Event.seen : Event → Seen
  | translated t => .called t.va (answer t.result t.region)
  | operated op => .operated op
  | memoryChanged => .memoryChanged

/-- One step. A call is the table walk, and tells what the walk has found. -/
inductive UncachedStep (H : Host) : UncachedMMU → Seen → UncachedMMU → Prop
  | called {u : UncachedMMU} {fuel : Nat} {va : BitVec 64} {r : MemoryRegion}
      {result : Option (BitVec 64)} {f : Frame} :
      walkPageTables H u.mem fuel va { mmu := u.emulator, region := r } = (.returned result, f) →
      UncachedStep H u (.called va (answer result f.region)) u
  | operated {u : UncachedMMU} (op : Operation) : UncachedStep H u (.operated op) (u.operate op)
  | memoryChanged {u : UncachedMMU} (mem : Memory) :
      UncachedStep H u .memoryChanged { u with mem := mem }

abbrev UncachedRun (H : Host) : List Seen → UncachedMMU → Prop :=
  History.Reach (fun u => u.ttbr0 = 0 ∧ u.ttbr1 = 0 ∧ u.tcr = 0) (UncachedStep H)

/-- What is left of a system without the TLB and the counters. -/
def System.uncached (s : System) : UncachedMMU :=
  { mem := s.mem
    ttbr0 := s.mmu.ttbr0
    ttbr1 := s.mmu.ttbr1
    tcr := s.mmu.tcr }

/-! ## 2. The clients -/

/-- The operations that leave no entry in the TLB. The registers flush it too,
and so does the ASID that stands for all. -/
def Operation.flushes : Operation → Bool
  | tlbInvalidateAsid asid => asid == 0xFFFF
  | tlbInvalidateAll | setTtbr0 _ | setTtbr1 _ | setTcr _ => true
  | tlbInvalidateVa _ _ | isMmuEnabled _ | getStats | resetStats => false

def Event.isFlush : Event → Bool
  | operated op => op.flushes
  | _ => false

/-- The descriptors are what they were when the TLB was flushed last. -/
def Flushed (h : List Event) : Prop := .memoryChanged ∉ History.since Event.isFlush h

/-- Both ranges have a boundary that is a multiple of the page size. -/
structure PageGranular (m : MMUEmulator) : Prop where
  t0sz : 1 ≤ m.getT0sz.toNat ∧ m.getT0sz.toNat ≤ 52
  t1sz : 1 ≤ m.getT1sz.toNat ∧ m.getT1sz.toNat ≤ 52

/-- After the run `h` the client may call for `va` under `asid`. -/
structure Ready (P : Usage) (h : List Event) (va : BitVec 64) (asid : BitVec 16) : Prop where
  usage : P va asid
  flushed : Flushed h
  granular : PageGranular (configuredBy h)

/-- The client has made every call when it was ready for it. -/
def Disciplined (P : Usage) (h : List Event) : Prop :=
  ∀ t older, .translated t :: older <:+ h → Ready P older t.va t.asid

theorem disciplined_cons_iff {P : Usage} {ev : Event} {h : List Event} :
    Disciplined P (ev :: h) ↔
      (∀ t, ev = .translated t → Ready P h t.va t.asid) ∧ Disciplined P h := by
  constructor
  · intro hd
    refine ⟨?_, fun t older ht => hd t older (ht.trans (List.suffix_cons ev h))⟩
    rintro t rfl
    exact hd t h (List.suffix_refl _)
  · rintro ⟨hready, hd⟩ t older ht
    rcases List.suffix_cons_iff.mp ht with heq | hold
    · cases heq
      exact hready t rfl
    · exact hd t older hold

theorem Disciplined.covers {P : Usage} {h : List Event} (hd : Disciplined P h) : P.Covers h := by
  intro t ht
  obtain ⟨newer, older, rfl⟩ := List.append_of_mem ht
  exact (hd t older (List.suffix_append newer _)).usage

namespace UncachedLemmas

theorem walkBase_uncached (s : System) (H : Host) (va : BitVec 64) :
    s.mmu.walkBase H va = s.uncached.emulator.walkBase H va :=
  MMUEmulator.walkBase_congr rfl rfl rfl H va

/-- A boundary that is a multiple of the page size does not divide a page. -/
theorem lt_boundary_iff {x y tsz : Nat} (hpage : x / 2 ^ 12 = y / 2 ^ 12) (hle : tsz ≤ 52) :
    x < 2 ^ (64 - tsz) ↔ y < 2 ^ (64 - tsz) := by
  have hsplit : 2 ^ (64 - tsz) = 2 ^ (52 - tsz) * 2 ^ 12 := by
    rw [← Nat.pow_add]
    congr 1
    omega
  rw [hsplit, ← Nat.div_lt_iff_lt_mul (by decide), hpage, Nat.div_lt_iff_lt_mul (by decide)]

theorem div_of_samePage {va va' : BitVec 64} (h : SamePage va va') :
    va.toNat / 2 ^ 12 = va'.toNat / 2 ^ 12 := by
  have hpage : 0xFFF#64 = BitVec.twoPow 64 12 - 1 := by decide
  unfold SamePage at h
  rw [hpage] at h
  exact (Align.base_eq_iff va va' (by decide)).mp h

theorem walkBase_samePage {m : MMUEmulator} (hg : PageGranular m) (H : Host) {va va' : BitVec 64}
    (hpage : SamePage va va') : m.walkBase H va = m.walkBase H va' := by
  have hdiv := div_of_samePage hpage
  have h0 : m.vaInTtbr0 H va = m.vaInTtbr0 H va' := by
    rw [Bool.eq_iff_iff, vaInTtbr0_iff hg.t0sz.1, vaInTtbr0_iff hg.t0sz.1]
    exact lt_boundary_iff hdiv hg.t0sz.2
  have h1 : m.vaInTtbr1 H va = m.vaInTtbr1 H va' := by
    rw [Bool.eq_iff_iff, vaInTtbr1_iff hg.t1sz.1, vaInTtbr1_iff hg.t1sz.1, ← Nat.not_lt,
      ← Nat.not_lt]
    exact not_congr (lt_boundary_iff hdiv hg.t1sz.2)
  unfold MMUEmulator.walkBase MMUEmulator.selectTtbr
  rw [h0, h1]

theorem granular_of_configured {H : Host} {h : List Event} {s : System} (hr : Run H h s)
    (hg : PageGranular (configuredBy h)) : PageGranular s.mmu := by
  have htcr : s.mmu.tcr = (configuredBy h).tcr := register_eq hr .tcr
  have h0 : s.mmu.getT0sz = (configuredBy h).getT0sz := by
    unfold MMUEmulator.getT0sz
    rw [htcr]
  have h1 : s.mmu.getT1sz = (configuredBy h).getT1sz := by
    unfold MMUEmulator.getT1sz
    rw [htcr]
  exact ⟨h0 ▸ hg.t0sz, h1 ▸ hg.t1sz⟩

theorem lookup_flushed {H : Host} {h : List Event} {s : System} (hr : Run H h s) {op : Operation}
    (hf : op.flushes = true) (key : BitVec 64) : (s.mmu.operate op).tlb.lookup key = none := by
  cases op with
  | tlbInvalidateAsid asid =>
    obtain rfl : asid = 0xFFFF := eq_of_beq hf
    show (s.mmu.tlb.eraseIf _).lookup key = none
    rw [lookup_eraseIf]
    cases he : s.mmu.tlb.lookup key with
    | none => rfl
    | some e =>
      -- All entries are valid, so this one is erased.
      rw [Option.filter_some, valid_of_lookup hr he, beq_self_eq_true, Bool.or_true, Bool.and_true]
      rfl
  | tlbInvalidateAll | setTtbr0 _ | setTtbr1 _ | setTcr _ => rfl
  | tlbInvalidateVa _ _ | isMmuEnabled _ | getStats | resetStats => cases hf

theorem flushed_of_flush {ev : Event} (hev : ev.isFlush = true) (h : List Event) :
    Flushed (ev :: h) := by
  unfold Flushed
  rw [History.since_cons_reset hev]
  exact List.not_mem_nil

theorem flushed_cons {ev : Event} {h : List Event} (hf : Flushed h) (hev : ev ≠ .memoryChanged) :
    Flushed (ev :: h) := by
  cases hflush : ev.isFlush with
  | true => exact flushed_of_flush hflush h
  | false =>
    unfold Flushed
    rw [History.since_cons_keep hflush, List.mem_cons, not_or]
    exact ⟨hev.symm, hf⟩

theorem flushed_of_cons {ev : Event} {h : List Event} (hev : ev.isFlush = false)
    (hf : Flushed (ev :: h)) : ev ≠ .memoryChanged ∧ Flushed h := by
  unfold Flushed at hf
  rw [History.since_cons_keep hev, List.mem_cons, not_or] at hf
  exact ⟨Ne.symm hf.1, hf.2⟩

end UncachedLemmas

open UncachedLemmas

/-- Whatever has happened before the flush. -/
theorem coherent_of_flushed {H : Host} {h : List Event} {s : System} (hr : Run H h s)
    (hf : Flushed h) : Coherent H h s := by
  induction hr with
  | start hs =>
    intro key e he
    rw [hs] at he
    cases he
  | @next h s s' ev hr hs ih =>
    cases hev : ev.isFlush with
    | false =>
      obtain ⟨hne, hold⟩ := flushed_of_cons hev hf
      exact coherent_step hs hne (ih hold)
    | true =>
      cases ev with
      | operated op =>
        cases hs
        intro key e he
        cases (lookup_flushed hr hev key).symm.trans he
      | translated _ | memoryChanged => cases hev

/-- What a call leaves of the caller's region `r`, where the walk ends in `w`: a hit
does not write two of the fields. -/
def WrittenFrom (w r region : MemoryRegion) : Prop :=
  region = w ∨ region = { w with contiguous := r.contiguous, shareable := r.shareable }

/-- What a call on the caller's region `r` may return and leave in that region,
by the walk for its address. -/
inductive UncachedCall (H : Host) (u : UncachedMMU) (va : BitVec 64) (r : MemoryRegion) :
    Option (BitVec 64) → MemoryRegion → Prop
  | fault {region : MemoryRegion} :
      WalkReturns H u.mem u.emulator va none → UncachedCall H u va r none region
  | success {w region : MemoryRegion} :
      WalkEndsIn H u.mem u.emulator va w → WrittenFrom w r region →
      UncachedCall H u va r (some (w.baseAddress + (va &&& (w.size - 1)))) region

/-- A call of the client, whether it hits or not, is a call without a TLB. -/
theorem call_uncached {H : Host} {P : Usage} (hP : P.Separates) {h : List Event} {s : System}
    (hr : Run H h s) (hc : P.Covers h) {va : BitVec 64} {asid : BitVec 16}
    (hready : Ready P h va asid) {fuel : Nat} {victim : BitVec 64} {r : MemoryRegion}
    {result : Option (BitVec 64)} {f : Frame}
    (hw : translateWithAttributes H s.mem fuel victim va asid { mmu := s.mmu, region := r } =
      (.returned result, f)) : UncachedCall H s.uncached va r result f.region := by
  have outcome := translate_outcome H s.mem fuel victim va asid s.mmu r
  rw [hw] at outcome
  cases outcome with
  | fault _ _ hwalk =>
    obtain ⟨fuel, hwalk⟩ := hwalk
    exact .fault (walkReturns_of_walk (walkBase_uncached s H va) hwalk)
  | fill _ _ _ _ _ _ hends =>
    exact .success (walkEndsIn_congr (walkBase_uncached s H va) hends) (.inl rfl)
  | @hit _ e he hf =>
    -- The entry was filled for this page, and still is what the walk finds there.
    have hlookup := lookup_of_hitEntry he
    obtain ⟨t₀, d, k, hfill, -, hpage⟩ := filledBy_samePage hP hr hc hready.usage hlookup
    have hcoherent := coherent_of_flushed hr hready.flushed
    have hg : PageGranular s.mmu := granular_of_configured hr hready.granular
    have hends := walkEndsIn_uniform (samePage_iff.mp hpage).1 (walkBase_samePage hg H hpage)
      (hcoherent _ e hlookup t₀ hfill.last)
    have hmapping := copyOut_newEntry t₀.va t₀.asid hfill.region r
    rw [← hfill.entry] at hmapping
    have hregion : e.copyOut r =
        { t₀.region with contiguous := r.contiguous, shareable := r.shareable } :=
      region_eq_iff.mpr ⟨⟨hmapping.baseAddress, hmapping.size, hmapping.type, hmapping.ap,
        hmapping.uxn, hmapping.pxn⟩, rfl, rfl⟩
    have haddress : e.physicalAddress = t₀.region.baseAddress := hmapping.baseAddress
    have hsize : e.size = t₀.region.size := hmapping.size
    rw [haddress, hsize, hf]
    exact .success (walkEndsIn_congr (walkBase_uncached s H va) hends) (.inr hregion)

namespace UncachedLemmas

/-- The walk of a call that succeeds, with the address that it returns. -/
theorem walk_of_endsIn {H : Host} {mem : Memory} {m : MMUEmulator} {va : BitVec 64}
    {w : MemoryRegion} (h : WalkEndsIn H mem m va w) :
    ∃ fuel f, walkPageTables H mem fuel va { mmu := m, region := {} } =
      (.returned (some (w.baseAddress + (va &&& (w.size - 1)))), f) ∧ f.region = w := by
  have hreturns := walkReturns_of_walkEndsIn rfl rfl h
  obtain ⟨fuel, pa, f, hw, hregion⟩ := h
  have hpa := walkReturns_unique hreturns ⟨fuel, congrArg Prod.fst hw⟩
  rw [← hpa] at hw
  exact ⟨fuel, f, hw, hregion⟩

theorem mapping_of_written {w r region : MemoryRegion} (h : WrittenFrom w r region) :
    region.mapping = w.mapping := by
  rcases h with rfl | rfl <;> rfl

/-- What the client sees of a call is what it sees of the walk. -/
theorem step_of_call {H : Host} {u : UncachedMMU} {va : BitVec 64} {r region : MemoryRegion}
    {result : Option (BitVec 64)} (h : UncachedCall H u va r result region) :
    UncachedStep H u (.called va (answer result region)) u := by
  cases h with
  | fault hwalk =>
    obtain ⟨fuel, hwalk⟩ := hwalk
    cases hw : walkPageTables H u.mem fuel va { mmu := u.emulator, region := {} } with
    | mk c f =>
      rw [hw] at hwalk
      obtain rfl : c = .returned none := hwalk
      exact .called hw
  | @success w _ hends hregion =>
    obtain ⟨fuel, f, hw, rfl⟩ := walk_of_endsIn hends
    have hstep := UncachedStep.called hw
    unfold answer at hstep ⊢
    rw [mapping_of_written hregion]
    exact hstep

/-- The other operations do to the registers what they do without a TLB. -/
theorem uncached_operate (s : System) (op : Operation) :
    System.uncached { s with mmu := s.mmu.operate op } = s.uncached.operate op := by
  cases op <;> rfl

end UncachedLemmas

open UncachedLemmas

/-! ## 3. Refinement -/

/-- Whatever is evicted. -/
theorem refines_uncached {H : Host} {P : Usage} (hP : P.Separates) {h : List Event} {s : System}
    (hr : Run H h s) (hd : Disciplined P h) : UncachedRun H (h.map Event.seen) s.uncached := by
  refine hr.simulate System.uncached Event.seen (fun _ _ hd => (disciplined_cons_iff.mp hd).2) ?_ ?_ hd
  · intro s hs
    unfold System.uncached
    rw [hs]
    exact ⟨rfl, rfl, rfl⟩
  · intro h s ev s' hr hd hs
    cases ev with
    | translated t =>
      obtain ⟨hmem, h0, h1, htcr⟩ := translated_registers hs
      have hsame : s'.uncached = s.uncached := by
        unfold System.uncached
        rw [hmem, h0, h1, htcr]
      obtain ⟨hready, hold⟩ := disciplined_cons_iff.mp hd
      rw [hsame]
      cases hs with
      | translated _ hw => exact step_of_call (call_uncached hP hr hold.covers (hready _ rfl) hw)
    | operated op =>
      cases hs
      rw [uncached_operate]
      exact .operated op
    | memoryChanged =>
      cases hs
      exact .memoryChanged _

/-- A miss after the tables have changed. -/
def remapTranslation : Translation :=
  { sampleTranslation with
    region := leafRegion ⟨0x1⟩ 0x40000000
    leaf := some ⟨0x1⟩ }

def remapEntry : TLBEntry := newEntry 0x0001000000001234 0 remapTranslation.region

/-- The same call again. -/
def remapAgain : Translation :=
  { remapTranslation with
    region := remapEntry.copyOut {}
    hit := true
    leaf := none }

/-- The client of the sample writes the tables anew, in two steps, and sets the
register again, which flushes the TLB. -/
def remapped : List Event :=
  .operated (.setTtbr1 0x10000) :: .memoryChanged :: .memoryChanged :: sampleHistory

def remapHistory : List Event := .translated remapAgain :: .translated remapTranslation :: remapped

def remapSystem : System :=
  { mem := changedMemory
    mmu := (translate Host.masked changedMemory 1 0 0x0001000000001234 0
      (sampleSystem.mmu.setTtbr1 0x10000)).2 }

namespace UncachedLemmas

theorem remap_start :
    Run Host.masked remapped ⟨changedMemory, sampleSystem.mmu.setTtbr1 0x10000⟩ :=
  ((sample_run.next (.memoryChanged fun _ => 0)).next (.memoryChanged changedMemory)).next
    (.operated (.setTtbr1 0x10000))

theorem remap_call :
    translateWithAttributes Host.masked changedMemory 1 0 0x0001000000001234 0
      { mmu := sampleSystem.mmu.setTtbr1 0x10000, region := {} } =
        (.returned (some 0x1234), { mmu := remapSystem.mmu
                                    region := remapTranslation.region
                                    fetched := [0x10000]
                                    shifts := [48, 48, 39] }) := rfl

theorem remap_miss : Run Host.masked (.translated remapTranslation :: remapped) remapSystem := by
  have victim : Victim (sampleSystem.mmu.setTtbr1 0x10000) 0 := fun hfull => absurd hfull (by decide)
  exact remap_start.next
    (Step.translated (s := ⟨changedMemory, sampleSystem.mmu.setTtbr1 0x10000⟩) victim remap_call)

theorem remap_hit : remapSystem.mmu.hitEntry 0x0001000000001234 0 = some remapEntry := by decide

theorem remap_run :
    Run Host.masked remapHistory { remapSystem with mmu := remapSystem.mmu.countHit } := by
  have victim : Victim remapSystem.mmu 0 := fun hfull => absurd hfull (by decide)
  exact remap_miss.next (hit_step Host.masked (s := remapSystem) victim remap_hit {})

/-- The client leaves the ASID at its default, and the ranges as in the sample. -/
theorem ready_of_flushed {h : List Event} (hf : Flushed h) (htcr : lastSet h .tcr = 0x100010)
    (va : BitVec 64) : Ready Usage.defaultAsid h va 0 := by
  have h0 : (configuredBy h).getT0sz = 16 :=
    congrArg (fun tcr : BitVec 64 => (tcr &&& 0x3F).setWidth 8) htcr
  have h1 : (configuredBy h).getT1sz = 16 :=
    congrArg (fun tcr : BitVec 64 => ((tcr >>> 16) &&& 0x3F).setWidth 8) htcr
  refine ⟨rfl, hf, ?_, ?_⟩
  · rw [h0]
    decide
  · rw [h1]
    decide

theorem remapped_flushed : Flushed remapped := flushed_of_flush rfl _

theorem remapped_ready (va : BitVec 64) : Ready Usage.defaultAsid remapped va 0 :=
  ready_of_flushed remapped_flushed rfl va

theorem remapAgain_ready (va : BitVec 64) :
    Ready Usage.defaultAsid (.translated remapTranslation :: remapped) va 0 :=
  ready_of_flushed (flushed_cons remapped_flushed (by nofun)) rfl va

/-- After the flush the client may call again. -/
theorem remap_disciplined : Disciplined Usage.defaultAsid remapHistory := by
  have hsilent {ev : Event} {h : List Event} (hev : ∀ t, ev ≠ .translated t)
      (hd : Disciplined Usage.defaultAsid h) : Disciplined Usage.defaultAsid (ev :: h) :=
    disciplined_cons_iff.mpr ⟨fun t ht => absurd ht (hev t), hd⟩
  have hcall {t : Translation} {h : List Event} (hready : Ready Usage.defaultAsid h t.va t.asid)
      (hd : Disciplined Usage.defaultAsid h) :
      Disciplined Usage.defaultAsid (.translated t :: h) := by
    refine disciplined_cons_iff.mpr ⟨?_, hd⟩
    rintro _ ⟨⟩
    exact hready
  have hempty : Disciplined Usage.defaultAsid [] := fun t older ht => by
    cases List.suffix_nil.mp ht
  have hset : Flushed [.operated (.setTtbr1 0x10000), .operated (.setTcr 0x100010)] :=
    flushed_of_flush rfl _
  have hstart : Disciplined Usage.defaultAsid sampleHistory :=
    hcall (ready_of_flushed hset rfl _) (hsilent (fun _ => nofun) (hsilent (fun _ => nofun) hempty))
  have hremapped : Disciplined Usage.defaultAsid remapped :=
    hsilent (fun _ => nofun) (hsilent (fun _ => nofun) (hsilent (fun _ => nofun) hstart))
  exact hcall (remapAgain_ready _) (hcall (remapped_ready _) hremapped)

end UncachedLemmas

theorem refines_uncached_sample :
    UncachedRun Host.masked (remapHistory.map Event.seen)
      (System.uncached { remapSystem with mmu := remapSystem.mmu.countHit }) :=
  refines_uncached Usage.defaultAsid_identifies.separates remap_run remap_disciplined

/-! ## 4. What the client is told -/

/-- The region has the flags that the walk for `va` would set. -/
def Prepared (H : Host) (u : UncachedMMU) (va : BitVec 64) (r : MemoryRegion) : Prop :=
  ∀ w, WalkEndsIn H u.mem u.emulator va w → r.contiguous = w.contiguous ∧ r.shareable = w.shareable

/-- Two calls for `va`, on the regions `r` and `r'`, have told the same: in all
fields if neither hit could leave a wrong flag behind. -/
structure SameAnswer (H : Host) (u : UncachedMMU) (va : BitVec 64) (r r' : MemoryRegion)
    (result result' : Option (BitVec 64)) (region region' : MemoryRegion) : Prop where
  answer : answer result region = answer result' region'
  region : result.isSome → Prepared H u va r → Prepared H u va r' → region = region'

namespace UncachedLemmas

/-- A call on a prepared region reports the region of the walk. -/
theorem region_of_prepared {H : Host} {u : UncachedMMU} {va : BitVec 64} {r w region : MemoryRegion}
    (hends : WalkEndsIn H u.mem u.emulator va w) (h : WrittenFrom w r region)
    (hr : Prepared H u va r) : region = w := by
  obtain ⟨hcontiguous, hshareable⟩ := hr w hends
  rcases h with rfl | rfl
  · rfl
  · rw [hcontiguous, hshareable]

/-- Without a TLB a call for an address has one answer. -/
theorem sameAnswer_of_uncached {H : Host} {u : UncachedMMU} {va : BitVec 64}
    {r r' region region' : MemoryRegion} {result result' : Option (BitVec 64)}
    (h : UncachedCall H u va r result region) (h' : UncachedCall H u va r' result' region') :
    SameAnswer H u va r r' result result' region region' := by
  cases h with
  | fault hwalk =>
    cases h' with
    | fault => exact ⟨rfl, nofun⟩
    | success hends' =>
      cases walkReturns_unique hwalk (walkReturns_of_walkEndsIn rfl rfl hends')
  | @success w _ hends hregion =>
    cases h' with
    | fault hwalk' => cases walkReturns_unique hwalk' (walkReturns_of_walkEndsIn rfl rfl hends)
    | success hends' hregion' =>
      obtain rfl := walkEndsIn_unique hends hends'
      refine ⟨?_, fun _ hr hr' => ?_⟩
      · unfold answer
        rw [mapping_of_written hregion, mapping_of_written hregion']
      · rw [region_of_prepared hends hregion hr, region_of_prepared hends' hregion' hr']

end UncachedLemmas

/-- Two clients, with histories of their own and under any ASIDs, are told the
same about an address where the registers and the memory are the same. -/
theorem tlb_unobservable {H : Host} {P P' : Usage} (hP : P.Separates) (hP' : P'.Separates)
    {h h' : List Event} {s s' : System} (hr : Run H h s) (hr' : Run H h' s') (hc : P.Covers h)
    (hc' : P'.Covers h') {va : BitVec 64} {asid asid' : BitVec 16} (hready : Ready P h va asid)
    (hready' : Ready P' h' va asid') (hsame : s.uncached = s'.uncached)
    {fuel fuel' : Nat} {victim victim' : BitVec 64} {r r' : MemoryRegion}
    {result result' : Option (BitVec 64)} {f f' : Frame}
    (hw : translateWithAttributes H s.mem fuel victim va asid { mmu := s.mmu, region := r } =
      (.returned result, f))
    (hw' : translateWithAttributes H s'.mem fuel' victim' va asid' { mmu := s'.mmu, region := r' } =
      (.returned result', f')) :
    SameAnswer H s.uncached va r r' result result' f.region f'.region := by
  have hcall' := call_uncached hP' hr' hc' hready' hw'
  rw [← hsame] at hcall'
  exact sameAnswer_of_uncached (call_uncached hP hr hc hready hw) hcall'

/-- The miss of the sample, and the hit on what it has left behind. -/
theorem tlb_unobservable_sample :
    SameAnswer Host.masked remapSystem.uncached 0x0001000000001234 {} { contiguous := true }
      (some 0x1234) (some 0x1234) remapTranslation.region
      (remapEntry.copyOut { contiguous := true }) := by
  have hcovers := (disciplined_cons_iff.mp remap_disciplined).2.covers
  have hcovers' : Usage.defaultAsid.Covers remapped := hcovers.of_cons
  exact tlb_unobservable Usage.defaultAsid_identifies.separates
    Usage.defaultAsid_identifies.separates remap_start remap_miss hcovers' hcovers
    (remapped_ready _) (remapAgain_ready _) rfl remap_call
    (translate_of_hit remap_hit Host.masked changedMemory 0 0 { contiguous := true })

end Acheron
