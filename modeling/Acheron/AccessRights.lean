import Acheron.TlbInvariant

/-!
# Access rights

What a translation tells its caller about the rights to a page, against what
the leaf descriptor of the page says.

Results:
1. `rights_of_call`: on both paths of a call the rights are those that the
   decoder reads off one leaf, that of the walk or that of the last fill.
2. `never_widens_iff`: they are not wider than the leaf's exactly when the leaf
   does not have the permissions 0b000 and no execute-never bit.
-/

namespace Acheron

open TlbLemmas

/-- The leaf behind a call: that of its walk, or that of the walk that filled
the slot it hits. -/
def leafBehind (h : List Event) (t : Translation) : Option PageTableDescriptor :=
  if t.hit then (lastFill h (tlbKey t.va t.asid)).bind (·.leaf) else t.leaf

def PageTableDescriptor.uxn (d : PageTableDescriptor) : Bool := d.value.getLsbD 54
def PageTableDescriptor.pxn (d : PageTableDescriptor) : Bool := d.value.getLsbD 53

/-- The leaf denies EL0 all access. -/
def PageTableDescriptor.DeniesEL0 (d : PageTableDescriptor) : Prop := d.ap = 0b000 ∨ d.ap = 0b100

/-- The region does not grant what the leaf denies. -/
structure NeverWidens (d : PageTableDescriptor) (region : MemoryRegion) : Prop where
  ap : d.DeniesEL0 → region.ap ≠ .el0Ro ∧ region.ap ≠ .el0Rw
  uxn : d.uxn = true → region.uxn = true
  pxn : d.pxn = true → region.pxn = true

theorem rights_of_call {H : Host} {h : List Event} {s s' : System} {t : Translation}
    (hr : Run H h s) (hs : Step H s (.translated t) s') (hok : t.result.isSome) :
    ∃ d, leafBehind h t = some d ∧ t.region.ap = decodePermissions (d.ap.setWidth 8) ∧
      t.region.uxn = false ∧ t.region.pxn = false := by
  unfold leafBehind
  cases hhit : t.hit with
  | false =>
    obtain ⟨-, d, k, hleaf, -, hregion⟩ := miss_spec hs hhit hok
    rw [hregion]
    exact ⟨d, hleaf, rfl, rfl, rfl⟩
  | true =>
    obtain ⟨e, r, he, hregion⟩ := hit_spec hs hhit
    obtain ⟨t₀, d, k, hf⟩ := entry_filledBy hr he
    refine ⟨d, ?_, ?_⟩
    · rw [if_pos rfl, hf.last]
      exact hf.leaf
    · rw [hregion, hf.entry, hf.region]
      exact ⟨rfl, rfl, rfl⟩

/-- Of the two codes without access for EL0, the decoder takes 0b000 for one
that EL0 may read and write: `EL1_RW` and `EL0_RW` are the same value. -/
theorem decodePermissions_denied (ap : BitVec 3) :
    (ap = 0b000 ∨ ap = 0b100 → decodePermissions (ap.setWidth 8) ≠ .el0Ro ∧
      decodePermissions (ap.setWidth 8) ≠ .el0Rw) ↔ ap ≠ 0b000 := by
  revert ap
  decide

theorem never_widens_iff {H : Host} {h : List Event} {s s' : System} {t : Translation}
    (hr : Run H h s) (hs : Step H s (.translated t) s') (hok : t.result.isSome) :
    ∃ d, leafBehind h t = some d ∧
      (NeverWidens d t.region ↔ d.ap ≠ 0b000 ∧ d.uxn = false ∧ d.pxn = false) := by
  obtain ⟨d, hd, hap, huxn, hpxn⟩ := rights_of_call hr hs hok
  refine ⟨d, hd, ?_⟩
  constructor
  · intro hw
    have hdenied := hw.ap
    rw [hap] at hdenied
    refine ⟨(decodePermissions_denied d.ap).mp hdenied, ?_, ?_⟩
    · exact Bool.eq_false_iff.mpr fun hx => by rw [hw.uxn hx] at huxn; cases huxn
    · exact Bool.eq_false_iff.mpr fun hx => by rw [hw.pxn hx] at hpxn; cases hpxn
  · rintro ⟨hne, hu, hp⟩
    refine ⟨?_, fun hx => ?_, fun hx => ?_⟩
    · rw [hap]
      exact (decodePermissions_denied d.ap).mpr hne
    · rw [hu] at hx
      cases hx
    · rw [hp] at hx
      cases hx

/-- The sample page is read-only for EL0, and stays so on a hit. -/
theorem never_widens_iff_sample :
    ∃ d, leafBehind sampleHistory sampleAgain = some d ∧
      (NeverWidens d sampleAgain.region ↔ d.ap ≠ 0b000 ∧ d.uxn = false ∧ d.pxn = false) :=
  never_widens_iff sample_run sample_again rfl

/-- A block that is denied to EL0 and never executable comes out as readable,
writable and executable for everyone. -/
theorem denied_block_exposed :
    ¬ ∀ (H : Host) (h : List Event) (s s' : System) (t : Translation) (d : PageTableDescriptor),
      Run H h s → Step H s (.translated t) s' → t.result.isSome → leafBehind h t = some d →
      NeverWidens d t.region := by
  intro hall
  have hcall : translateWithAttributes Host.masked sampleMemory 1 0 0x0001008000000000 0
      { mmu := sampleSystem.mmu, region := {} } = (.returned (some 0), _) := rfl
  have hstep := Step.translated (s := sampleSystem) sample_victim hcall
  have hwide := (hall Host.masked sampleHistory sampleSystem _ _ ⟨0x0060000000000001⟩ sample_run
    hstep rfl rfl).ap (.inl rfl)
  exact hwide.2 rfl

end Acheron
