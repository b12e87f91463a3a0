import Acheron.AccessRights
import Acheron.TableBuilding
import Acheron.TlbUsage

/-!
# Which attributes are ever reported

The memory type comes from a field of three bits, but the decoder also has a
case for the index 0x44, which these cannot hold. Four of the eight memory types
are therefore dead, and so are the execute-never bits. All other attributes are
reported in some run.

Results:
1. `reports_leafBehind`: on both paths a call reports one leaf, that of its walk
   or that of the last fill of its slot.
2. `reported_iff`: the memory types and permissions that calls report.
-/

namespace Acheron

open BuildingLemmas CallLemmas TlbLemmas UsageLemmas

/-! ## 1. The leaf behind a call -/

theorem reports_leafBehind {H : Host} {h : List Event} {s s' : System} {t : Translation}
    (hr : Run H h s) (hs : Step H s (.translated t) s') (hok : t.result.isSome) :
    ∃ d k, leafBehind h t = some d ∧ LeafShift k ∧
      SameMapping t.region (leafRegion d (BitVec.twoPow 64 k)) := by
  unfold leafBehind
  cases hhit : t.hit with
  | false =>
    obtain ⟨-, d, k, hleaf, hshift, hregion⟩ := miss_spec hs hhit hok
    rw [hregion]
    exact ⟨d, k, hleaf, hshift, rfl, rfl, rfl, rfl, rfl, rfl⟩
  | true =>
    obtain ⟨e, r, he, hregion⟩ := hit_spec hs hhit
    obtain ⟨t₀, d, k, hf⟩ := entry_filledBy hr he
    have hmapping := copyOut_newEntry t₀.va t₀.asid hf.region r
    rw [← hf.entry, ← hregion, hf.region] at hmapping
    refine ⟨d, k, ?_, hf.shift, hmapping⟩
    rw [if_pos rfl, hf.last]
    exact hf.leaf

/-! ## 2. Attributes -/

/-- The types that the decoder returns for an index of three bits. -/
def liveMemoryTypes : List MemoryType := [.deviceNGnRnE, .deviceNGnRE, .normalNC, .normal]

/-- Some call in some run reports these attributes. -/
def Reported (H : Host) (type : MemoryType) (ap : AccessPermission) (uxn pxn : Bool) : Prop :=
  ∃ h s t, Run H (.translated t :: h) s ∧ t.result.isSome ∧ t.region.type = type ∧
    t.region.ap = ap ∧ t.region.uxn = uxn ∧ t.region.pxn = pxn

namespace ReportLemmas

theorem decodeMemoryType_live (attrIndex : BitVec 3) :
    decodeMemoryType (attrIndex.setWidth 8) ∈ liveMemoryTypes := by
  revert attrIndex
  decide

/-- An index for each live type, and a code for each permission. -/
theorem exists_codes {type : MemoryType} (h : type ∈ liveMemoryTypes) (ap : AccessPermission) :
    ∃ a : LeafAttributes, decodeMemoryType (a.attrIndex.setWidth 8) = type ∧
      decodePermissions (a.ap.setWidth 8) = ap := by
  have hap : ∃ code : BitVec 3, decodePermissions (code.setWidth 8) = ap := by
    cases ap with
    | b00 => exact ⟨0b100, by decide⟩
    | b01 => exact ⟨0b001, by decide⟩
    | b10 => exact ⟨0b010, by decide⟩
  have htype : ∃ index : BitVec 3, decodeMemoryType (index.setWidth 8) = type := by
    cases type with
    | deviceNGnRnE => exact ⟨0, by decide⟩
    | deviceNGnRE => exact ⟨1, by decide⟩
    | normalNC => exact ⟨4, by decide⟩
    | normal => exact ⟨7, by decide⟩
    | deviceNGRE | deviceGRE | normalWB | normalWT => simp [liveMemoryTypes] at h
  obtain ⟨code, hcode⟩ := hap
  obtain ⟨index, hindex⟩ := htype
  exact ⟨⟨0, code, index⟩, hindex, hcode⟩

/-- A run whose only call is answered by a leaf with the given attributes. -/
theorem reported_of_attributes (H : Host) (a : LeafAttributes) :
    Reported H (decodeMemoryType (a.attrIndex.setWidth 8)) (decodePermissions (a.ap.setWidth 8))
      false false := by
  let mem : Memory := fun addr => if addr = slotIn H 0 0 0 then (leafDescriptor a 0).value else 0
  have start : Run H [.operated (.setTcr 0x10001)] ⟨mem, halved⟩ :=
    .next (.start rfl : Run H [] ⟨mem, {}⟩) (.operated _)
  have hmaps : MapsTo H mem 0 (fun _ => 0) 0 a 0 := ⟨nofun, nofun, if_pos rfl⟩
  have hmiss : halved.hitEntry 0 0 = none := rfl
  obtain ⟨hleaf, hbuilt⟩ := leafAt_of_mapsTo hmaps rfl
  obtain ⟨hresult, hregion⟩ := answers_of_leafAt hleaf (halved_walkBase H 0) hmiss Nat.one_pos 0 {}
  rw [hbuilt] at hresult hregion
  cases hcall : translateWithAttributes H mem 1 0 0 0 { mmu := halved, region := {} } with
  | mk c f =>
    rw [hcall] at hresult hregion
    dsimp only at hresult hregion
    rw [hresult] at hcall
    have room : Victim halved 0 := fun hfull => absurd (show 1024 ≤ 0 from hfull) (by decide)
    have hrun := start.next (Step.translated (s := ⟨mem, halved⟩) room hcall)
    refine ⟨_, _, _, hrun, rfl, ?_⟩
    unfold Translation.of
    dsimp only
    rw [hregion]
    exact ⟨rfl, rfl, rfl, rfl⟩

end ReportLemmas

open ReportLemmas

theorem reported_iff (H : Host) (type : MemoryType) (ap : AccessPermission) (uxn pxn : Bool) :
    Reported H type ap uxn pxn ↔ type ∈ liveMemoryTypes ∧ uxn = false ∧ pxn = false := by
  constructor
  · rintro ⟨h, s, t, hr, hok, rfl, -, rfl, rfl⟩
    obtain ⟨s₀, hr₀, hs⟩ := hr.last
    obtain ⟨d, k, -, -, hmapping⟩ := reports_leafBehind hr₀ hs hok
    rw [hmapping.type, hmapping.uxn, hmapping.pxn]
    exact ⟨decodeMemoryType_live d.attrIndex, rfl, rfl⟩
  · rintro ⟨htype, rfl, rfl⟩
    obtain ⟨a, rfl, rfl⟩ := exists_codes htype ap
    exact reported_of_attributes H a

end Acheron
