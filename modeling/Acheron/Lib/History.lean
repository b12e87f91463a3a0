import Mathlib.Data.List.Induction
import Mathlib.Data.Nat.Cast.Defs

/-!
# Histories of a transition system

A run is recorded as its list of events, the most recent first. Statements
about "the last event that wrote slot `k`" or "the events since the last reset"
are then functions of the history, and each is proved once from what one step
does:

* `Reach.invariant`: a property kept by every step holds in every reached state;
* `foldl_latest`: a store in which every step either writes a slot or leaves it
  holds in each slot the value written last;
* `Reach.store_latest`: the same for the runs of a step relation;
* `Reach.cache_latest`: a lossy store, which may drop a slot at any step, holds
  in each slot that is left the value written last;
* `Reach.forall_mem`: what every step's event satisfies, every event of a run
  satisfies;
* `Reach.simulate`: a system whose steps are, as far as they can be seen, steps of
  an abstract one refines it;
* `Reach.count_since`: a counter that some events reset and others increase by
  one is the number of the latter since the last of the former.
-/

namespace History

variable {σ ε κ β M : Type*}

/-- The states that a run from an initial state reaches, with the events of the
run, the most recent first. -/
inductive Reach (init : σ → Prop) (step : σ → ε → σ → Prop) : List ε → σ → Prop
  | start {s : σ} : init s → Reach init step [] s
  | next {h : List ε} {s s' : σ} {e : ε} :
      Reach init step h s → step s e s' → Reach init step (e :: h) s'

variable {init : σ → Prop} {step : σ → ε → σ → Prop}

/-- A run with an event ends in a step. -/
theorem Reach.last {h : List ε} {s' : σ} {e : ε} (hr : Reach init step (e :: h) s') :
    ∃ s, Reach init step h s ∧ step s e s' := by
  cases hr with
  | next hr hs => exact ⟨_, hr, hs⟩

/-- The invariant rule, for a property of the history and the state. -/
theorem Reach.invariant {P : List ε → σ → Prop} (base : ∀ s, init s → P [] s)
    (keep : ∀ h s e s', Reach init step h s → P h s → step s e s' → P (e :: h) s')
    {h : List ε} {s : σ} (hr : Reach init step h s) : P h s := by
  induction hr with
  | start hi => exact base _ hi
  | next hr hs ih => exact keep _ _ _ _ hr ih hs

theorem Reach.forall_mem {P : ε → Prop} (one : ∀ s e s', step s e s' → P e)
    {h : List ε} {s : σ} (hr : Reach init step h s) : ∀ e ∈ h, P e := by
  induction hr with
  | start _ => exact nofun
  | next _ hs ih => exact List.forall_mem_cons.mpr ⟨one _ _ _ hs, ih⟩

/-- The simulation rule, for what is `seen` of the events. The steps have to be
matched only in runs that satisfy `ok`, which a run has to do from its start on. -/
theorem Reach.simulate {τ ε' : Type*} {init' : τ → Prop} {step' : τ → ε' → τ → Prop} (abs : σ → τ)
    (seen : ε → ε') {ok : List ε → Prop} (older : ∀ e h, ok (e :: h) → ok h)
    (base : ∀ s, init s → init' (abs s))
    (one : ∀ h s e s', Reach init step h s → ok (e :: h) → step s e s' →
      step' (abs s) (seen e) (abs s'))
    {h : List ε} {s : σ} (hr : Reach init step h s) (hok : ok h) :
    Reach init' step' (h.map seen) (abs s) := by
  induction hr with
  | start hi => exact .start (base _ hi)
  | next hr hs ih => exact .next (ih (older _ _ hok)) (one _ _ _ _ hr hok hs)

/-! ## Stores -/

/-- The value that the most recent event of the history put into slot `k`. -/
def latest (writes : ε → κ → Option β) (h : List ε) (k : κ) : Option β :=
  h.findSome? fun e => writes e k

theorem latest_cons_some {writes : ε → κ → Option β} {e : ε} {h : List ε} {k : κ} {b : β}
    (hw : writes e k = some b) : latest writes (e :: h) k = some b := by
  simp [latest, hw]

theorem latest_cons_none {writes : ε → κ → Option β} {e : ε} {h : List ε} {k : κ}
    (hw : writes e k = none) : latest writes (e :: h) k = latest writes h k := by
  simp [latest, hw]

/-- What a slot holds after one more event, for a store without losses. -/
theorem latest_cons_getD (writes : ε → κ → Option β) (e : ε) (h : List ε) (k : κ) (b : β) :
    (latest writes (e :: h) k).getD b = (writes e k).getD ((latest writes h k).getD b) := by
  cases hw : writes e k with
  | none => rw [latest_cons_none hw, Option.getD_none]
  | some b' => rw [latest_cons_some hw, Option.getD_some, Option.getD_some]

/-- What was written last was written by some event of the history. -/
theorem exists_mem_of_latest {writes : ε → κ → Option β} {h : List ε} {k : κ} {b : β}
    (hl : latest writes h k = some b) : ∃ e ∈ h, writes e k = some b :=
  List.exists_of_findSome?_eq_some hl

theorem latest_map {γ : Type*} (writes : ε → κ → Option β) (f : β → γ) (h : List ε) (k : κ) :
    latest (fun e k => (writes e k).map f) h k = (latest writes h k).map f :=
  (List.map_findSome? ..).symm

/-- A store whose every step either writes slot `k` or leaves it alone holds in
slot `k` the value written last, or what it held at the start. Here the run is
a fold, so its events come in the order of time. -/
theorem foldl_latest {apply : σ → ε → σ} (read : σ → κ → β) (writes : ε → κ → Option β)
    {k : κ} (one : ∀ s e, read (apply s e) k = (writes e k).getD (read s k)) (es : List ε) (s : σ) :
    read (es.foldl apply s) k = (latest writes es.reverse k).getD (read s k) := by
  induction es using List.reverseRecOn with
  | nil => rfl
  | append_singleton es e ih =>
    rw [List.foldl_append, List.foldl_cons, List.foldl_nil, one, ih, List.reverse_append,
      List.reverse_singleton, List.singleton_append, latest_cons_getD]

theorem Reach.store_latest (read : σ → κ → β) (writes : ε → κ → Option β) {k : κ} {b : β}
    (base : ∀ s, init s → read s k = b)
    (one : ∀ s e s', step s e s' → read s' k = (writes e k).getD (read s k))
    {h : List ε} {s : σ} (hr : Reach init step h s) :
    read s k = (latest writes h k).getD b := by
  induction hr with
  | start hi => exact base _ hi
  | next _ hs ih => rw [one _ _ _ hs, ih, latest_cons_getD]

/-- A lossy store: if whatever slot `k` holds after a step was either written by
that step, or held before and not overwritten, then whatever slot `k` holds is
the value written last. -/
theorem Reach.cache_latest (read : σ → κ → Option β) (writes : ε → κ → Option β)
    (base : ∀ s k, init s → read s k = none)
    (keep : ∀ s e s' k b, step s e s' → read s' k = some b →
      writes e k = some b ∨ writes e k = none ∧ read s k = some b)
    {h : List ε} {s : σ} (hr : Reach init step h s) {k : κ} {b : β} (hb : read s k = some b) :
    latest writes h k = some b := by
  induction hr generalizing b with
  | start hi => rw [base _ k hi] at hb; cases hb
  | next _ hs ih =>
    rcases keep _ _ _ k b hs hb with hw | ⟨hw, hold⟩
    · exact latest_cons_some hw
    · rw [latest_cons_none hw]
      exact ih hold

/-! ## Counters -/

/-- The part of a history after its last reset. -/
def since (reset : ε → Bool) (h : List ε) : List ε :=
  h.takeWhile fun e => !reset e

@[simp] theorem since_nil (reset : ε → Bool) : since reset [] = [] := rfl

theorem since_cons_reset {reset : ε → Bool} {e : ε} {h : List ε} (he : reset e = true) :
    since reset (e :: h) = [] := by
  simp [since, he]

theorem since_cons_keep {reset : ε → Bool} {e : ε} {h : List ε} (he : reset e = false) :
    since reset (e :: h) = e :: since reset h := by
  simp [since, he]

/-- A counter that starts at zero, that the reset events set to zero and that
the events satisfying `p` increase by one, the others leaving it alone, is the
number of the latter since the last reset, in whatever arithmetic it counts. -/
theorem Reach.count_since [AddMonoidWithOne M] (counter : σ → M) (p reset : ε → Bool)
    (base : ∀ s, init s → counter s = 0)
    (zero : ∀ s e s', step s e s' → reset e = true → counter s' = 0)
    (count : ∀ s e s', step s e s' → reset e = false → p e = true → counter s' = counter s + 1)
    (skip : ∀ s e s', step s e s' → reset e = false → p e = false → counter s' = counter s)
    {h : List ε} {s : σ} (hr : Reach init step h s) :
    counter s = ((since reset h).countP p : ℕ) := by
  induction hr with
  | start hi => simpa using base _ hi
  | @next h s s' e _ hs ih =>
    cases he : reset e with
    | true => rw [zero _ _ _ hs he, since_cons_reset he, List.countP_nil, Nat.cast_zero]
    | false =>
      rw [since_cons_keep he]
      cases hp : p e with
      | true => rw [count _ _ _ hs he hp, ih, List.countP_cons_of_pos hp, Nat.cast_succ]
      | false => rw [skip _ _ _ hs he hp, ih, List.countP_cons_of_neg (by simp [hp])]

end History
