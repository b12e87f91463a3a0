import Acheron.Walk
import Acheron.Lib.History

/-!
# Runs of the MMU emulator

A run starts from a new emulator and takes one public operation after the
other. Between two operations the descriptors in memory may change.

Results:
1. `translate_outcome`: a translation that returns is a hit, a fault or a fill.
2. `translate_step`: every call of `translate` that returns is a step of a run.
3. `stats_account`: the counters account for every translation.
-/

namespace Acheron

/-! ## 1. One translation -/

/-- The walk for `va` on the emulator `m` succeeds, in a leaf that `region`
describes. -/
def WalkEndsIn (H : Host) (mem : Memory) (m : MMUEmulator) (va : BitVec 64)
    (region : MemoryRegion) : Prop :=
  ∃ fuel pa g, walkPageTables H mem fuel va { mmu := m, region := {} } =
    (.returned (some pa), g) ∧ g.region = region

/-- What a call for `va` and `asid` can do, started on the emulator `m` with
the caller's region `r`. -/
inductive TranslateOutcome (H : Host) (mem : Memory) (victim va : BitVec 64) (asid : BitVec 16)
    (m : MMUEmulator) (r : MemoryRegion) : Call (Option (BitVec 64)) × Frame → Prop
  | running {f : Frame} : TranslateOutcome H mem victim va asid m r (.running, f)
  | hit {f : Frame} {e : TLBEntry} :
      m.hitEntry va asid = some e →
      f = { mmu := m.countHit, region := e.copyOut r } →
      TranslateOutcome H mem victim va asid m r
        (.returned (some (e.physicalAddress + (va &&& (e.size - 1)))), f)
  | fault {f : Frame} :
      m.hitEntry va asid = none →
      f.mmu = m.countMiss.countWalk.countFault →
      WalkReturns H mem m va none →
      TranslateOutcome H mem victim va asid m r (.returned none, f)
  | fill {f : Frame} {level k : Nat} {addr : BitVec 64} :
      m.hitEntry va asid = none →
      f.mmu = m.countMiss.countWalk.fill victim (tlbKey va asid) (newEntry va asid f.region) →
      LeafShift k → leafSize level = some (BitVec.twoPow 64 k) →
      f.fetched.getLast? = some addr →
      f.region = leafRegion ⟨mem addr⟩ (BitVec.twoPow 64 k) →
      WalkEndsIn H mem m va f.region →
      TranslateOutcome H mem victim va asid m r
        (.returned (some (f.region.baseAddress + (va &&& (f.region.size - 1)))), f)

/-- A call that can hit looks at nothing but the TLB. -/
theorem translate_of_hit {m : MMUEmulator} {va : BitVec 64} {asid : BitVec 16} {e : TLBEntry}
    (he : m.hitEntry va asid = some e) (H : Host) (mem : Memory) (fuel : Nat) (victim : BitVec 64)
    (r : MemoryRegion) :
    translateWithAttributes H mem fuel victim va asid { mmu := m, region := r } =
      (.returned (some (e.physicalAddress + (va &&& (e.size - 1)))),
        { mmu := m.countHit, region := e.copyOut r }) := by
  unfold translateWithAttributes
  rw [he]

theorem translate_outcome (H : Host) (mem : Memory) (fuel : Nat) (victim va : BitVec 64)
    (asid : BitVec 16) (m : MMUEmulator) (r : MemoryRegion) :
    TranslateOutcome H mem victim va asid m r
      (translateWithAttributes H mem fuel victim va asid { mmu := m, region := r }) := by
  unfold translateWithAttributes
  dsimp only
  split
  · next e he => exact .hit he rfl
  · next hmiss =>
    have outcome := walkPageTables_outcome H mem fuel va m.countMiss r
    have base : m.countMiss.walkBase H va = m.walkBase H va := rfl
    split
    · next pa f hw =>
      rw [hw] at outcome
      obtain ⟨g, hg, hregion⟩ := walkPageTables_uniform rfl base {} hw
      cases outcome with
      | leaf hk hsize hm hlast hr =>
        exact .fill (f := { f with mmu := f.mmu.fill victim (tlbKey va asid) (newEntry va asid _) })
          hmiss (by rw [← hm]) hk hsize hlast hr ⟨fuel, _, g, hg, hregion⟩
    · next res f hne hw =>
      rw [hw] at outcome
      cases outcome with
      | running => exact .running
      | fault hm hr =>
        exact .fault hmiss hm (walkReturns_of_walk base (congrArg Prod.fst hw))
      | leaf => exact absurd rfl (hne _)

/-! ## 2. Runs -/

structure System where
  mem : Memory
  mmu : MMUEmulator

/-- A completed call of `translate` or `translate_with_attributes`: the
arguments, what it returns and leaves in the region, and, for the statements,
whether it was a hit and which descriptor its walk fetched last. -/
structure Translation where
  va : BitVec 64
  asid : BitVec 16
  result : Option (BitVec 64)
  region : MemoryRegion
  hit : Bool
  leaf : Option PageTableDescriptor
deriving DecidableEq

/-- The record of a call that found `m` and ended in `(.returned result, f)`. -/
def Translation.of (mem : Memory) (m : MMUEmulator) (va : BitVec 64) (asid : BitVec 16)
    (result : Option (BitVec 64)) (f : Frame) : Translation :=
  { va := va
    asid := asid
    result := result
    region := f.region
    hit := (m.hitEntry va asid).isSome
    leaf := f.fetched.getLast?.map fun addr => ⟨mem addr⟩ }

/-- The other public operations. -/
inductive Operation
  | tlbInvalidateVa (va : BitVec 64) (asid : BitVec 16)
  | tlbInvalidateAsid (asid : BitVec 16)
  | tlbInvalidateAll
  | setTtbr0 (ttbr0 : BitVec 64)
  | setTtbr1 (ttbr1 : BitVec 64)
  | setTcr (tcr : BitVec 64)
  | isMmuEnabled (sctlr : BitVec 64)
  | getStats
  | resetStats
deriving DecidableEq

def MMUEmulator.operate (m : MMUEmulator) : Operation → MMUEmulator
  | .tlbInvalidateVa va asid => m.tlbInvalidateVa va asid
  | .tlbInvalidateAsid asid => m.tlbInvalidateAsid asid
  | .tlbInvalidateAll => m.tlbInvalidateAll
  | .setTtbr0 ttbr0 => m.setTtbr0 ttbr0
  | .setTtbr1 ttbr1 => m.setTtbr1 ttbr1
  | .setTcr tcr => m.setTcr tcr
  | .isMmuEnabled _ => m
  | .getStats => m
  | .resetStats => m.resetStats

inductive Event
  | translated (t : Translation)
  | operated (op : Operation)
  | memoryChanged
deriving DecidableEq

/-- What an eviction may pick, should there be one: any entry. -/
def Victim (m : MMUEmulator) (victim : BitVec 64) : Prop :=
  tlbSize ≤ m.tlb.entries.length → victim ∈ m.tlb

/-- One step of a run. A call that does not return takes none. -/
inductive Step (H : Host) : System → Event → System → Prop
  | translated {s : System} {fuel : Nat} {victim va : BitVec 64} {asid : BitVec 16}
      {r : MemoryRegion} {result : Option (BitVec 64)} {f : Frame} :
      Victim s.mmu victim →
      translateWithAttributes H s.mem fuel victim va asid { mmu := s.mmu, region := r } =
        (.returned result, f) →
      Step H s (.translated (Translation.of s.mem s.mmu va asid result f)) { s with mmu := f.mmu }
  | operated {s : System} (op : Operation) :
      Step H s (.operated op) { s with mmu := s.mmu.operate op }
  | memoryChanged {s : System} (mem : Memory) : Step H s .memoryChanged { s with mem := mem }

/-- The run `h`, the most recent event first, leads from a new emulator to `s`. -/
abbrev Run (H : Host) : List Event → System → Prop :=
  History.Reach (fun s => s.mmu = {}) (Step H)

/-- A call of `translate` is a step: that of `translate_with_attributes` on a
region of its own. -/
theorem translate_step {H : Host} {s : System} {fuel : Nat} {victim va : BitVec 64}
    {asid : BitVec 16} {result : Option (BitVec 64)} {m : MMUEmulator} (hv : Victim s.mmu victim)
    (h : translate H s.mem fuel victim va asid s.mmu = (.returned result, m)) :
    ∃ t, t.va = va ∧ t.asid = asid ∧ t.result = result ∧
      Step H s (.translated t) { s with mmu := m } := by
  cases hw : translateWithAttributes H s.mem fuel victim va asid { mmu := s.mmu, region := {} } with
  | mk c f =>
    unfold translate at h
    rw [hw] at h
    cases h
    exact ⟨_, rfl, rfl, rfl, .translated hv hw⟩

/-- The steps of a translation, by their outcome. -/
theorem step_translated {H : Host} {s s' : System} {t : Translation}
    (h : Step H s (.translated t) s') :
    ∃ victim r f, Victim s.mmu victim ∧ s' = { s with mmu := f.mmu } ∧ t.region = f.region ∧
      t.hit = (s.mmu.hitEntry t.va t.asid).isSome ∧
      t.leaf = f.fetched.getLast?.map (fun addr => ⟨s.mem addr⟩) ∧
      TranslateOutcome H s.mem victim t.va t.asid s.mmu r (.returned t.result, f) := by
  cases h with
  | @translated fuel victim va asid r result f hv hw =>
    refine ⟨victim, r, f, hv, rfl, rfl, rfl, rfl, ?_⟩
    have outcome := translate_outcome H s.mem fuel victim va asid s.mmu r
    rw [hw] at outcome
    exact outcome

/-- A translation leaves the memory and the registers alone. -/
theorem translated_registers {H : Host} {s s' : System} {t : Translation}
    (h : Step H s (.translated t) s') :
    s'.mem = s.mem ∧ s'.mmu.ttbr0 = s.mmu.ttbr0 ∧ s'.mmu.ttbr1 = s.mmu.ttbr1 ∧
      s'.mmu.tcr = s.mmu.tcr := by
  obtain ⟨victim, r, f, -, rfl, -, -, -, outcome⟩ := step_translated h
  refine ⟨rfl, ?_⟩
  show f.mmu.ttbr0 = s.mmu.ttbr0 ∧ f.mmu.ttbr1 = s.mmu.ttbr1 ∧ f.mmu.tcr = s.mmu.tcr
  generalize t.result = result at outcome
  cases outcome with
  | hit _ hf => subst hf; exact ⟨rfl, rfl, rfl⟩
  | fault _ hm => rw [hm]; exact ⟨rfl, rfl, rfl⟩
  | fill _ hm => rw [hm]; exact ⟨rfl, rfl, rfl⟩

/-- A call that can hit is a step, whatever region it is given. -/
theorem hit_step (H : Host) {s : System} {victim va : BitVec 64} {asid : BitVec 16} {e : TLBEntry}
    (hv : Victim s.mmu victim) (he : s.mmu.hitEntry va asid = some e) (r : MemoryRegion) :
    Step H s (.translated { va := va
                            asid := asid
                            result := some (e.physicalAddress + (va &&& (e.size - 1)))
                            region := e.copyOut r
                            hit := true
                            leaf := none })
      { s with mmu := s.mmu.countHit } := by
  have hstep := Step.translated hv (translate_of_hit he H s.mem 0 victim r)
  unfold Translation.of at hstep
  rw [he] at hstep
  exact hstep

/-! ## 3. A run

Both halves of the address space are 48 bits wide, and only the upper half is
mapped: by a 1 GB block that EL0 may read, and by one that is denied to EL0 and
never executable. -/

def sampleMemory : Memory := fun addr =>
  if addr = 0x10000 then 0x21
  else if addr = 0x10008 then 0x0060000000000001
  else 0

def sampleTranslation : Translation :=
  { va := 0x0001000000001234
    asid := 0
    result := some 0x1234
    region := leafRegion ⟨0x21⟩ 0x40000000
    hit := false
    leaf := some ⟨0x21⟩ }

def sampleEntry : TLBEntry := newEntry 0x0001000000001234 0 sampleTranslation.region

/-- The same call again. -/
def sampleAgain : Translation :=
  { sampleTranslation with
    region := sampleEntry.copyOut {}
    hit := true
    leaf := none }

def sampleHistory : List Event :=
  [.translated sampleTranslation, .operated (.setTtbr1 0x10000), .operated (.setTcr 0x100010)]

def sampleMMU : MMUEmulator := (({} : MMUEmulator).setTcr 0x100010).setTtbr1 0x10000

def sampleSystem : System :=
  { mem := sampleMemory
    mmu := (translate Host.masked sampleMemory 1 0 0x0001000000001234 0 sampleMMU).2 }

theorem sample_victim : Victim sampleSystem.mmu 0 := fun hfull => absurd hfull (by decide)

theorem sample_run : Run Host.masked sampleHistory sampleSystem := by
  have start : Run Host.masked [.operated (.setTtbr1 0x10000), .operated (.setTcr 0x100010)]
      ⟨sampleMemory, sampleMMU⟩ :=
    .next (.next (.start rfl : Run Host.masked [] ⟨sampleMemory, {}⟩) (.operated _)) (.operated _)
  have victim : Victim sampleMMU 0 := fun hfull => absurd hfull (by decide)
  have call : translateWithAttributes Host.masked sampleMemory 1 0 0x0001000000001234 0
      { mmu := sampleMMU, region := {} } =
        (.returned (some 0x1234), { mmu := sampleSystem.mmu
                                    region := leafRegion ⟨0x21⟩ 0x40000000
                                    fetched := [0x10000]
                                    shifts := [48, 48, 39] }) := rfl
  exact start.next (Step.translated (s := ⟨sampleMemory, sampleMMU⟩) victim call)

theorem sample_again : Step Host.masked sampleSystem (.translated sampleAgain)
    { sampleSystem with mmu := sampleSystem.mmu.countHit } := by
  have he : sampleSystem.mmu.hitEntry 0x0001000000001234 0 = some sampleEntry := by decide
  exact hit_step Host.masked sample_victim he {}

/-- The tables with other rights for the first block, and without the second. -/
def changedMemory : Memory := fun addr => if addr = 0x10000 then 0x1 else 0

/-! ## 4. Statistics -/

def Event.isCall : Event → Bool
  | .translated _ => true
  | _ => false

/-- The event is a call that returned `nullopt`. -/
def Event.isFault : Event → Bool
  | .translated t => t.result.isNone
  | _ => false

def Event.isReset (e : Event) : Bool := e == .operated .resetStats

/-- The counters of a run, since the emulator was new or they were reset. They
count modulo 2^64. -/
structure StatsAccount (h : List Event) (stats : Stats) : Prop where
  calls : stats.tlbHits + stats.tlbMisses =
    BitVec.ofNat 64 ((History.since Event.isReset h).countP Event.isCall)
  walks : stats.pageWalks = stats.tlbMisses
  faults : stats.translationFaults =
    BitVec.ofNat 64 ((History.since Event.isReset h).countP Event.isFault)

namespace RunLemmas

/-- What a translation adds to the counters: one hit, or one miss and one walk;
and one fault if it returns nothing. -/
theorem stats_translated {H : Host} {s s' : System} {t : Translation}
    (h : Step H s (.translated t) s') :
    ∃ hit miss : BitVec 64, hit + miss = 1 ∧
      s'.mmu.stats.tlbHits = s.mmu.stats.tlbHits + hit ∧
      s'.mmu.stats.tlbMisses = s.mmu.stats.tlbMisses + miss ∧
      s'.mmu.stats.pageWalks = s.mmu.stats.pageWalks + miss ∧
      s'.mmu.stats.translationFaults =
        s.mmu.stats.translationFaults + if t.result.isNone then 1 else 0 := by
  obtain ⟨victim, r, f, -, rfl, -, -, -, outcome⟩ := step_translated h
  generalize hres : t.result = result at outcome
  cases outcome with
  | hit he hf =>
    subst hf
    exact ⟨1, 0, rfl, rfl, (BitVec.add_zero _).symm, (BitVec.add_zero _).symm,
      (BitVec.add_zero _).symm⟩
  | fault _ hm _ =>
    refine ⟨0, 1, rfl, ?_⟩
    rw [hm]
    exact ⟨(BitVec.add_zero _).symm, rfl, rfl, rfl⟩
  | fill _ hm =>
    refine ⟨0, 1, rfl, ?_⟩
    rw [hm]
    exact ⟨(BitVec.add_zero _).symm, rfl, rfl, (BitVec.add_zero _).symm⟩

theorem stats_operate {m : MMUEmulator} {op : Operation} (h : op ≠ .resetStats) :
    (m.operate op).stats = m.stats := by
  cases op with
  | resetStats => exact absurd rfl h
  | _ => rfl

/-- Nothing but a call and a reset changes a counter. -/
theorem stats_silent {H : Host} {s s' : System} {e : Event} (h : Step H s e s')
    (hc : e.isCall = false) (hr : e.isReset = false) : s'.mmu.stats = s.mmu.stats := by
  cases h with
  | translated _ _ => cases hc
  | operated op =>
    refine stats_operate fun hop => ?_
    rw [hop] at hr
    cases hr
  | memoryChanged _ => rfl

theorem stats_reset {H : Host} {s s' : System} {e : Event} (h : Step H s e s')
    (hr : e.isReset = true) : s'.mmu.stats = {} := by
  have he : e = .operated .resetStats := eq_of_beq hr
  subst he
  cases h
  rfl

/-- A quantity `c` of the counters that every call satisfying `p` increases by
one and no other call changes is the number of these calls. -/
theorem stats_count {H : Host} (c : Stats → BitVec 64) (p : Event → Bool) (zero : c {} = 0)
    (calls : ∀ s t s', Step H s (.translated t) s' →
      c s'.mmu.stats = c s.mmu.stats + if p (.translated t) then 1 else 0)
    (others : ∀ e, e.isCall = false → p e = false) {h : List Event} {s : System}
    (hr : Run H h s) :
    c s.mmu.stats = BitVec.ofNat 64 ((History.since Event.isReset h).countP p) := by
  refine hr.count_since (fun s => c s.mmu.stats) p Event.isReset ?_ ?_ ?_ ?_
  · intro s hs
    rw [hs]
    exact zero
  · intro s e s' hs he
    rw [stats_reset hs he]
    exact zero
  · intro s e s' hs he hp
    cases e with
    | translated t => rw [calls s t s' hs, if_pos hp]
    | operated op => rw [others _ rfl] at hp; cases hp
    | memoryChanged => rw [others _ rfl] at hp; cases hp
  · intro s e s' hs he hp
    cases e with
    | translated t => rw [calls s t s' hs, hp]; exact BitVec.add_zero _
    | operated op => rw [stats_silent hs rfl he]
    | memoryChanged => rw [stats_silent hs rfl he]

/-- A walk follows every miss. -/
theorem stats_walks {H : Host} {h : List Event} {s : System} (hr : Run H h s) :
    s.mmu.stats.pageWalks = s.mmu.stats.tlbMisses := by
  refine hr.invariant (P := fun _ s => s.mmu.stats.pageWalks = s.mmu.stats.tlbMisses) ?_ ?_
  · intro s hs
    rw [hs]
  · intro h s e s' _ ih hs
    cases hres : e.isReset with
    | true => rw [stats_reset hs hres]
    | false =>
      cases e with
      | translated t =>
        obtain ⟨hit, miss, -, -, hmiss, hwalk, -⟩ := stats_translated hs
        rw [hmiss, hwalk, ih]
      | operated op => rw [stats_silent hs rfl hres, ih]
      | memoryChanged => rw [stats_silent hs rfl hres, ih]

end RunLemmas

open RunLemmas

/-- Every call is a hit or a miss, every miss is a walk, and every call that
returns nothing is a fault. No other operation changes a counter, except the
reset. -/
theorem stats_account {H : Host} {h : List Event} {s : System} (hr : Run H h s) :
    StatsAccount h s.mmu.stats ∧
      ∀ e s', Step H s e s' → e.isCall = false → e.isReset = false →
        s'.mmu.stats = s.mmu.stats := by
  refine ⟨⟨?_, stats_walks hr, ?_⟩, fun e s' hs => stats_silent hs⟩
  · refine stats_count (fun st => st.tlbHits + st.tlbMisses) Event.isCall rfl ?_ ?_ hr
    · intro s t s' hs
      obtain ⟨hit, miss, hone, hhit, hmiss, -, -⟩ := stats_translated hs
      calc s'.mmu.stats.tlbHits + s'.mmu.stats.tlbMisses
          = s.mmu.stats.tlbHits + s.mmu.stats.tlbMisses + (hit + miss) := by
            rw [hhit, hmiss]
            ac_rfl
        _ = s.mmu.stats.tlbHits + s.mmu.stats.tlbMisses + 1 := by rw [hone]
    · intro e he
      exact he
  · refine stats_count Stats.translationFaults Event.isFault rfl ?_ ?_ hr
    · intro s t s' hs
      obtain ⟨_, _, -, -, -, -, hfault⟩ := stats_translated hs
      exact hfault
    · intro e he
      cases e with
      | translated _ => cases he
      | operated _ => rfl
      | memoryChanged => rfl

/-- A hit and a fault since the counters were reset. -/
def statsHistory : List Event :=
  .translated { va := 0x1234, asid := 0, result := none, region := {}, hit := false,
                leaf := some ⟨0⟩ } ::
    .translated sampleAgain :: .operated .resetStats :: sampleHistory

def statsMMU : MMUEmulator := (sampleSystem.mmu.resetStats.countHit.countMiss.countWalk).countFault

namespace RunLemmas

theorem stats_run : Run Host.masked statsHistory { sampleSystem with mmu := statsMMU } := by
  have he : sampleSystem.mmu.resetStats.hitEntry 0x0001000000001234 0 = some sampleEntry := by decide
  have again := (sample_run.next (.operated .resetStats)).next
    (hit_step Host.masked (s := ⟨sampleMemory, sampleSystem.mmu.resetStats⟩) sample_victim he {})
  -- The lower half is not mapped.
  have call : translateWithAttributes Host.masked sampleMemory 1 0 0x1234 0
      { mmu := sampleSystem.mmu.resetStats.countHit, region := {} } =
        (.returned none, { mmu := statsMMU
                           region := {}
                           fetched := [0]
                           shifts := [48, 39] }) := rfl
  exact again.next (Step.translated (s := ⟨sampleMemory, sampleSystem.mmu.resetStats.countHit⟩)
    sample_victim call)

end RunLemmas

theorem stats_account_sample :
    StatsAccount statsHistory { tlbHits := 1, tlbMisses := 1, pageWalks := 1,
                                translationFaults := 1 } :=
  (stats_account stats_run).1

end Acheron
