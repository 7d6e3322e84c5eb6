import AxelarMonitor.Lib.FifoLoop
import Mathlib.Algebra.Ring.Nat

/-!
Weights on the commands and results of a ring. When every answer weighs less
than its command and the commands issued for a result weigh less than the
result, a run can take only as many steps as its load and its feedings pay for.
-/

namespace FifoLoop

variable {σ C R E : Type*} {m : Machine σ C R E}

structure Weights (C R : Type*) where
  cmd : C → Nat
  result : R → Nat

namespace Weights

variable (w : Weights C R)

def load (s : Loop σ C R) : Nat := (s.results.map w.result).sum + (s.cmds.map w.cmd).sum

/-- What the event consumes outweighs what it produces. -/
def Pays : Event C R → Prop
  | .fed => True
  | .answered cmd out => (out.map w.result).sum < w.cmd cmd
  | .handled msg out => (out.map w.cmd).sum < w.result msg

end Weights

def Event.isFed : Event C R → Bool
  | .fed => true
  | _ => false

def feeds (trace : List (Transition σ C R)) : Nat := trace.countP (fun x => x.event.isFed)

theorem Weights.load_step (w : Weights C R) {s t : Loop σ C R} {e : Event C R}
    (hstep : Step m s e t) (hpays : w.Pays e) :
    1 + w.load t ≤ w.load s + if e.isFed then w.cmd m.feed + 1 else 0 := by
  cases hstep with
  | feed st cmds results =>
      simp only [load, Event.isFed, List.map_append, List.sum_append, List.map_cons,
        List.map_nil, List.sum_cons, List.sum_nil, if_true]
      omega
  | answer env st cmd cmds results out hexec =>
      simp only [Pays] at hpays
      simp only [load, Event.isFed, List.map_append, List.sum_append, List.map_cons,
        List.sum_cons, Bool.false_eq_true, if_false]
      omega
  | handle st st' msg cmds out results hhandle =>
      simp only [Pays] at hpays
      simp only [load, Event.isFed, List.map_append, List.sum_append, List.map_cons,
        List.sum_cons, Bool.false_eq_true, if_false]
      omega

/-- The length of a run is bounded by what it starts with and is fed. -/
theorem Run.length_add_load_le (w : Weights C R) {s t : Loop σ C R}
    {trace : List (Transition σ C R)} (hrun : Run m s trace t)
    (hpays : ∀ x ∈ trace, w.Pays x.event) :
    trace.length + w.load t ≤ w.load s + feeds trace * (w.cmd m.feed + 1) := by
  induction hrun with
  | nil => simp
  | @snoc trace s e t hrun hstep ih =>
      have hbefore := ih (fun x hx => hpays x (List.mem_append_left _ hx))
      have hlast := w.load_step hstep
        (hpays ⟨s, e⟩ (List.mem_append_right _ List.mem_cons_self))
      have hfeeds : feeds (trace ++ [⟨s, e⟩]) * (w.cmd m.feed + 1) =
          feeds trace * (w.cmd m.feed + 1) + if e.isFed then w.cmd m.feed + 1 else 0 := by
        unfold feeds
        rw [List.countP_append, Nat.add_mul, List.countP_singleton]
        cases e.isFed <;> simp
      rw [hfeeds, List.length_append, List.length_singleton]
      omega

/-- A command that is never fed is answered or queued as often as it was there
at the start or issued since. -/
theorem Run.count_answered [DecidableEq C] {start s : Loop σ C R}
    {trace : List (Transition σ C R)} (hrun : Run m start trace s) {c : C}
    (hfeed : c ≠ m.feed) :
    ((answers trace).map Prod.fst).count c + s.cmds.count c =
      start.cmds.count c + (issued trace).count c := by
  induction hrun with
  | nil => simp
  | @snoc trace s e t hrun hstep ih =>
      rw [answers_snoc, issued_snoc, List.map_append, List.count_append, List.count_append]
      cases hstep with
      | feed st cmds results =>
          simpa [List.count_singleton, Ne.symm hfeed] using ih
      | answer env st cmd cmds results out hexec =>
          simp only [List.count_cons] at ih
          simp only [answer?_answered, Option.toList_some, List.map_cons, List.map_nil,
            List.count_singleton, issued_answered, List.count_nil, Nat.add_zero]
          omega
      | handle st st' msg cmds out results hhandle =>
          simp only at ih
          simp only [answer?_handled, Option.toList_none, List.map_nil, List.count_nil,
            issued_handled, List.count_append]
          omega

end FifoLoop
