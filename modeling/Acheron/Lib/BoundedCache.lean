import Acheron.Lib.History
import Mathlib.Data.Set.Card

/-!
# Caches with limited room

A cache is a partial map whose slots are filled and dropped. With room for
everything its content is a function of what has been done to it (`content`).
With room for `n` entries it may lose others when it is full and a new one
comes, whichever it chooses.

* `sub_content`: a cache with limited room holds part of what it would hold with
  room for everything;
* `eq_content`: it holds all of it, as long as that has never been more than `n`
  entries;
* `content_eq_some_iff`: an entry is there if it was put there and none of the
  operations since has replaced or dropped it;
* `held_content_subset`: only slots that have been filled are held.
-/

namespace BoundedCache

open History

variable {κ β : Type*}

abbrev Content (κ β : Type*) := κ → Option β

def held (c : Content κ β) : Set κ := {k | (c k).isSome}

/-- A slot is filled, or entries are dropped for another reason than room. -/
inductive Op (κ β : Type*)
  | put (k : κ) (b : β)
  | drop (p : κ → β → Bool)

/-- The entries that `p` does not drop. -/
def Content.drop (c : Content κ β) (p : κ → β → Bool) : Content κ β :=
  fun k => (c k).filter fun b => !p k b

theorem Content.drop_keep (c : Content κ β) {p : κ → β → Bool} {k : κ}
    (h : ∀ b, p k b = false) : c.drop p k = c k := by
  unfold Content.drop
  cases c k with
  | none => rfl
  | some b => exact Option.filter_some_pos (by rw [h b]; rfl)

theorem Content.drop_lose (c : Content κ β) {p : κ → β → Bool} {k : κ}
    (h : ∀ b, p k b = true) : c.drop p k = none :=
  Option.filter_eq_none_iff.mpr fun b _ hb => by
    rw [h b] at hb
    cases hb

/-- One operation on a cache with room for `n` entries. A slot is filled when it
is empty, which may lose any other entry, but only if there is no room. -/
inductive Step (n : ℕ) (c : Content κ β) : Op κ β → Content κ β → Prop
  | put {k : κ} {b : β} {c' : Content κ β} :
      c k = none → c' k = some b →
      (∀ k', k' ≠ k → c' k' = c k' ∨ c' k' = none ∧ n ≤ (held c).encard) →
      Step n c (.put k b) c'
  | drop {p : κ → β → Bool} {c' : Content κ β} : c' = c.drop p → Step n c (.drop p) c'

/-- What a cache with room for `n` entries can hold after the operations `ops`,
the most recent first. -/
abbrev Run (n : ℕ) : List (Op κ β) → Content κ β → Prop :=
  Reach (fun c => c = fun _ => none) (Step n)

def Sub (c d : Content κ β) : Prop := ∀ k b, c k = some b → d k = some b

theorem Sub.drop {c d : Content κ β} (h : Sub c d) (p : κ → β → Bool) :
    Sub (c.drop p) (d.drop p) := by
  intro k b hb
  obtain ⟨hc, hp⟩ := Option.filter_eq_some_iff.mp hb
  exact Option.filter_eq_some_iff.mpr ⟨h k b hc, hp⟩

variable [DecidableEq κ]

/-- One operation on a cache with room for everything. -/
def Op.apply (c : Content κ β) : Op κ β → Content κ β
  | put k b => Function.update c k (some b)
  | drop p => c.drop p

@[simp] theorem Op.apply_put_self (c : Content κ β) (k : κ) (b : β) :
    (put k b).apply c k = some b := Function.update_self ..

theorem Op.apply_put_ne (c : Content κ β) {k k' : κ} (h : k' ≠ k) (b : β) :
    (put k b).apply c k' = c k' := Function.update_of_ne h ..

/-- What a cache with room for everything holds after the operations `ops`, the
most recent first. -/
def content : List (Op κ β) → Content κ β
  | [] => fun _ => none
  | op :: ops => op.apply (content ops)

/-- Losing entries does not matter for being a part. -/
theorem Step.sub {n : ℕ} {c c' d : Content κ β} {op : Op κ β} (hs : Step n c op c')
    (h : Sub c d) : Sub c' (op.apply d) := by
  cases hs with
  | @put k b _ _ hput hothers =>
    intro k' b' hb'
    by_cases hk : k' = k
    · subst hk
      rw [Op.apply_put_self]
      exact hput.symm.trans hb'
    · rw [Op.apply_put_ne d hk]
      rcases hothers k' hk with hsame | ⟨hlost, -⟩
      · exact h k' b' (hsame.symm.trans hb')
      · cases hlost.symm.trans hb'
  | drop hdrop =>
    subst hdrop
    exact h.drop _

theorem sub_content {n : ℕ} {ops : List (Op κ β)} {c : Content κ β} (hr : Run n ops c) :
    Sub c (content ops) := by
  refine hr.invariant (P := fun ops c => Sub c (content ops)) ?_ ?_
  · rintro c rfl k b hb
    cases hb
  · intro ops c op c' _ ih hs
    exact hs.sub ih

theorem held_put (c : Content κ β) (k : κ) (b : β) :
    held ((Op.put k b).apply c) = insert k (held c) := by
  ext k'
  by_cases hk : k' = k
  · subst hk
    simp [held]
  · simp [held, hk, Op.apply_put_ne c hk]

/-- With room for one more there is no loss. -/
theorem Step.eq_apply {n : ℕ} {c c' : Content κ β} {op : Op κ β} (hs : Step n c op c')
    (hroom : (held (op.apply c)).encard ≤ n) : c' = op.apply c := by
  cases hs with
  | @put k b _ hnone hput hothers =>
    have hnew : k ∉ held c := by
      intro hk
      have hsome : (c k).isSome = true := hk
      rw [hnone] at hsome
      cases hsome
    rw [held_put, Set.encard_insert_of_notMem hnew] at hroom
    have hfree : ¬ (n : ℕ∞) ≤ (held c).encard := fun hfull => by
      have hle := (add_le_add_left hfull 1).trans hroom
      exact absurd hle (by exact_mod_cast Nat.not_succ_le_self n)
    funext k'
    by_cases hk : k' = k
    · subst hk
      rw [Op.apply_put_self]
      exact hput
    · rw [Op.apply_put_ne c hk]
      exact (hothers k' hk).resolve_right fun hlost => hfree hlost.2
  | drop hdrop => exact hdrop

theorem eq_content {n : ℕ} {ops : List (Op κ β)} {c : Content κ β} (hr : Run n ops c)
    (hroom : ∀ ops', ops' <:+ ops → (held (content ops')).encard ≤ n) : c = content ops := by
  revert hroom
  refine hr.invariant (P := fun ops c =>
    (∀ ops', ops' <:+ ops → (held (content ops')).encard ≤ n) → c = content ops) ?_ ?_
  · intro c hc _
    exact hc
  · intro ops c op c' _ ih hs hroom
    have hc := ih fun ops' hsuffix => hroom ops' (hsuffix.trans (List.suffix_cons op ops))
    subst hc
    exact hs.eq_apply (hroom _ (List.suffix_refl _))

/-- The operation leaves the entry `b` of slot `k` alone. -/
def Op.Keeps (k : κ) (b : β) : Op κ β → Prop
  | put k' _ => k' ≠ k
  | drop p => p k b = false

theorem Op.apply_keeps {op : Op κ β} {k : κ} {b : β} (h : op.Keeps k b) {c : Content κ β}
    (hb : c k = some b) : op.apply c k = some b := by
  cases op with
  | put k' b' => rw [apply_put_ne c (Ne.symm h), hb]
  | drop p =>
    have hp : p k b = false := h
    exact Option.filter_eq_some_iff.mpr ⟨hb, by rw [hp]; rfl⟩

/-- Where an entry comes from: an operation has just put it there, or kept it. -/
theorem Op.apply_eq_some {op : Op κ β} {c : Content κ β} {k : κ} {b : β}
    (h : op.apply c k = some b) : op = put k b ∨ op.Keeps k b ∧ c k = some b := by
  cases op with
  | put k' b' =>
    by_cases hk : k = k'
    · subst hk
      rw [apply_put_self] at h
      cases h
      exact .inl rfl
    · rw [apply_put_ne c hk] at h
      exact .inr ⟨Ne.symm hk, h⟩
  | drop p =>
    obtain ⟨hb, hp⟩ := Option.filter_eq_some_iff.mp h
    exact .inr ⟨Bool.not_eq_true' _ |>.mp hp, hb⟩

theorem content_eq_some_iff {ops : List (Op κ β)} {k : κ} {b : β} :
    content ops k = some b ↔
      ∃ newer older, ops = newer ++ .put k b :: older ∧ ∀ op ∈ newer, op.Keeps k b := by
  constructor
  · intro h
    induction ops with
    | nil => cases h
    | cons op ops ih =>
      rcases Op.apply_eq_some h with rfl | ⟨hkeeps, hold⟩
      · exact ⟨[], ops, rfl, nofun⟩
      · obtain ⟨newer, older, rfl, hnewer⟩ := ih hold
        exact ⟨op :: newer, older, rfl, List.forall_mem_cons.mpr ⟨hkeeps, hnewer⟩⟩
  · rintro ⟨newer, older, rfl, hnewer⟩
    induction newer with
    | nil => exact Op.apply_put_self _ k b
    | cons op newer ih =>
      obtain ⟨hkeeps, hrest⟩ := List.forall_mem_cons.mp hnewer
      exact Op.apply_keeps hkeeps (ih hrest)

theorem held_content_subset (ops : List (Op κ β)) :
    held (content ops) ⊆ {k | ∃ b, Op.put k b ∈ ops} := by
  induction ops with
  | nil =>
    intro k hk
    cases hk
  | cons op ops ih =>
    intro k hk
    cases op with
    | put k' b =>
      rw [content, held_put] at hk
      rcases hk with rfl | hold
      · exact ⟨b, List.mem_cons_self⟩
      · obtain ⟨b', hb'⟩ := ih hold
        exact ⟨b', List.mem_cons_of_mem _ hb'⟩
    | drop p =>
      obtain ⟨b, hb⟩ := Option.isSome_iff_exists.mp hk
      have hold := (Option.filter_eq_some_iff.mp hb).1
      obtain ⟨b', hb'⟩ := ih (Option.isSome_iff_exists.mpr ⟨b, hold⟩)
      exact ⟨b', List.mem_cons_of_mem _ hb'⟩

end BoundedCache
