import Mathlib.Data.List.Basic

/-!
# Event loops

A loop waits for an event, handles it and goes on, unless the event was one that
ends the loop. Its effect is that of a fold over the events up to that one.

* `run_eq`: the fold, and whether the loop is still running.
-/

namespace EventLoop

variable {σ ε : Type*}

/-- A loop that waits for its next event, or has ended. -/
inductive Status (σ : Type*)
  | running (s : σ)
  | ended (s : σ)
deriving Repr

namespace Status

def state : Status σ → σ
  | running s => s
  | ended s => s

def isRunning : Status σ → Bool
  | running _ => true
  | ended _ => false

end Status

/-- The loop after the events `es`, or as many of them as it takes. -/
def run (handle : σ → ε → σ) (ends : ε → Bool) (s : σ) : List ε → Status σ
  | [] => .running s
  | e :: es => if ends e then .ended (handle s e) else run handle ends (handle s e) es

/-- The events that the loop takes: those up to the first that ends it. -/
def taken (ends : ε → Bool) : List ε → List ε
  | [] => []
  | e :: es => if ends e then [e] else e :: taken ends es

theorem run_eq (handle : σ → ε → σ) (ends : ε → Bool) (s : σ) (es : List ε) :
    (run handle ends s es).state = (taken ends es).foldl handle s ∧
      ((run handle ends s es).isRunning = true ↔ ∀ e ∈ es, ends e = false) := by
  induction es generalizing s with
  | nil => exact ⟨rfl, fun _ => nofun, fun _ => rfl⟩
  | cons e es ih =>
    unfold run taken
    cases he : ends e with
    | true =>
      refine ⟨rfl, ?_, fun hall => ?_⟩
      · intro h
        cases h
      · cases he.symm.trans (hall e List.mem_cons_self)
    | false =>
      refine ⟨(ih (handle s e)).1, (ih (handle s e)).2.trans ?_⟩
      rw [List.forall_mem_cons]
      exact (and_iff_right he).symm

end EventLoop
