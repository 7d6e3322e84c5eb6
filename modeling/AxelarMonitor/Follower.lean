import Mathlib.Data.List.Basic
import Mathlib.Tactic.Cases

/-!
A follower of a growing chain, free of queues and threads. It knows the last
height it has settled and the tip it was last told of, and keeps the requests
it has sent in the order in which their replies arrive. A reply settles its
height or sends the request once more. What the follower is for: while it is
behind the tip, exactly one request is outstanding, for the next height.
-/

namespace AxelarMonitor

structure Follower where
  processed : Nat
  tip : Nat
  pending : List Nat

namespace Follower

inductive Move where
  | announced (h : Nat)
  | retried
  | settled (h : Nat)

def start : Follower := ⟨0, 0, []⟩

/-- A tip is announced. The follower starts at the first tip it hears of; later
it sends a request only if it had settled the old tip. -/
def announce (f : Follower) (h : Nat) : Follower :=
  if f.processed = 0 then ⟨h - 1, h, f.pending ++ [h]⟩
  else if f.tip < h ∧ f.tip = f.processed then ⟨f.processed, h, f.pending ++ [f.processed + 1]⟩
  else ⟨f.processed, h, f.pending⟩

inductive Step : Follower → Move → Follower → Prop
  | announced (f : Follower) (h : Nat) : Step f (.announced h) (f.announce h)
  | retried (p t x : Nat) (rest : List Nat) :
      Step ⟨p, t, x :: rest⟩ .retried ⟨p, t, rest ++ [x]⟩
  | settled (p t x : Nat) (rest : List Nat) :
      Step ⟨p, t, x :: rest⟩ (.settled x) ⟨x, t, rest ++ if x < t then [x + 1] else []⟩

/-- Runs whose every move is allowed in the configuration it is made in. -/
inductive Run (allowed : Follower → Move → Prop) : List Move → Follower → Prop
  | nil : Run allowed [] start
  | snoc {moves f mv g} (hrun : Run allowed moves f) (hallowed : allowed f mv)
      (hstep : Step f mv g) : Run allowed (moves ++ [mv]) g

def Move.announced? : Move → Option Nat
  | .announced h => some h
  | _ => none

def Move.settled? : Move → Option Nat
  | .settled h => some h
  | _ => none

def announcements (moves : List Move) : List Nat := moves.filterMap Move.announced?

def settledHeights (moves : List Move) : List Nat := moves.filterMap Move.settled?

@[simp] theorem announcements_snoc (moves : List Move) (mv : Move) :
    announcements (moves ++ [mv]) = announcements moves ++ mv.announced?.toList := by
  unfold announcements
  cases mv <;> simp [Move.announced?]

@[simp] theorem settledHeights_snoc (moves : List Move) (mv : Move) :
    settledHeights (moves ++ [mv]) = settledHeights moves ++ mv.settled?.toList := by
  unfold settledHeights
  cases mv <;> simp [Move.settled?]

/-- The follower has started at `first` and is in step with the chain. -/
structure InStep (first : Nat) (moves : List Move) (f : Follower) : Prop where
  started : 1 ≤ f.processed
  bounded : f.processed ≤ f.tip
  pending_eq : f.pending = if f.processed < f.tip then [f.processed + 1] else []
  settled_eq : settledHeights moves = List.range' first (f.processed + 1 - first)
  first_le : first ≤ f.processed + 1
  tip_announced : f.tip ∈ announcements moves

theorem InStep.step {first : Nat} {moves : List Move} {f g : Follower} {mv : Move}
    (hin : InStep first moves f) (hstep : Step f mv g)
    (hup : ∀ h, mv = .announced h → f.tip ≤ h) : InStep first (moves ++ [mv]) g := by
  obtain ⟨hstarted, hbounded, hpending, hsettled, hfirst, htip⟩ := hin
  cases hstep with
  | announced f h =>
      have hle : f.tip ≤ h := hup h rfl
      have hne : f.processed ≠ 0 := by omega
      unfold announce
      rw [if_neg hne]
      split_ifs with hcond
      · obtain ⟨hlt, heq⟩ := hcond
        refine ⟨hstarted, by simp only; omega, ?_, ?_, hfirst, ?_⟩
        · have hidle : ¬ f.processed < f.tip := by omega
          have hahead : f.processed < h := by omega
          simp [hpending, hidle, hahead]
        · simpa [Move.settled?] using hsettled
        · simp [Move.announced?]
      · refine ⟨hstarted, by simp only; omega, ?_, ?_, hfirst, ?_⟩
        · have hiff : f.processed < f.tip ↔ f.processed < h := by omega
          simp [hpending, hiff]
        · simpa [Move.settled?] using hsettled
        · simp [Move.announced?]
  | retried p t x rest =>
      simp only at hstarted hbounded hpending hsettled hfirst htip
      split_ifs at hpending with hlt
      obtain ⟨rfl, rfl⟩ := List.cons.inj hpending
      refine ⟨hstarted, hbounded, ?_, ?_, hfirst, ?_⟩
      · simp [hlt]
      · simpa [Move.settled?] using hsettled
      · simpa [Move.announced?] using htip
  | settled p t x rest =>
      simp only at hstarted hbounded hpending hsettled hfirst htip
      split_ifs at hpending with hlt
      obtain ⟨rfl, rfl⟩ := List.cons.inj hpending
      refine ⟨by simp only; omega, by simp only; omega, by simp, ?_, by simp only; omega, ?_⟩
      · have hlen : p + 1 + 1 - first = (p + 1 - first) + 1 := by omega
        have hlast : first + (p + 1 - first) = p + 1 := by omega
        simp [Move.settled?, hsettled, hlen, List.range'_concat, hlast]
      · simpa [Move.announced?] using htip

/-- With nondecreasing announcements of at least two, a follower that has heard
of a tip is in step with the chain; before that it has done nothing. -/
theorem run_inStep {allowed : Follower → Move → Prop} {moves : List Move} {f : Follower}
    (hrun : Run allowed moves f) (hsorted : (announcements moves).Pairwise (· ≤ ·))
    (htwo : ∀ h ∈ announcements moves, 2 ≤ h) :
    (announcements moves = [] ∧ settledHeights moves = [] ∧ f = start) ∨
      ∃ first rest, announcements moves = first :: rest ∧ InStep first moves f := by
  induction hrun with
  | nil => exact Or.inl ⟨rfl, rfl, rfl⟩
  | @snoc moves f mv g hrun hallowed hstep ih =>
      rw [announcements_snoc] at hsorted htwo
      have hsorted' := List.pairwise_append.mp hsorted
      have htwo' : ∀ h ∈ announcements moves, 2 ≤ h :=
        fun h hh => htwo h (List.mem_append_left _ hh)
      rcases ih hsorted'.1 htwo' with ⟨hnone, hidle, rfl⟩ | ⟨first, rest, hfirst, hin⟩
      · cases hstep with
        | announced _ h =>
            right
            have h2 : 2 ≤ h := htwo h (by simp [Move.announced?])
            refine ⟨h, [], by simp [hnone, Move.announced?], ?_⟩
            have hlt : h - 1 < h := by omega
            have hnext : h - 1 + 1 = h := by omega
            refine ⟨?_, ?_, ?_, ?_, ?_, ?_⟩ <;> simp only [announce, start, if_pos]
            · omega
            · omega
            · simp [hlt, hnext]
            · simp [Move.settled?, hidle, hnext]
            · omega
            · simp [Move.announced?]
      · right
        refine ⟨first, rest ++ mv.announced?.toList, by simp [hfirst], hin.step hstep ?_⟩
        rintro h rfl
        exact hsorted'.2.2 f.tip hin.tip_announced h (by simp [Move.announced?])

/-- The move sends a second request while one is outstanding. -/
def Doubles (f : Follower) (mv : Move) : Prop :=
  ∃ h, mv = .announced h ∧ f.pending ≠ [] ∧
    (f.processed = 0 ∨ (f.tip < h ∧ f.tip = f.processed))

/-- At most one request, for the height after all those settled. -/
structure Single (moves : List Move) (f : Follower) : Prop where
  pending_le : f.pending = [] ∨ f.pending = [f.processed + 1]
  increasing : (settledHeights moves).Pairwise (· < ·)
  settled_range : ∀ h ∈ settledHeights moves, 1 ≤ h ∧ h ≤ f.processed

theorem Single.step {moves : List Move} {f g : Follower} {mv : Move}
    (hone : Single moves f) (hstep : Step f mv g) (hallowed : ¬ Doubles f mv)
    (hpos : ∀ h, mv = .announced h → 1 ≤ h) : Single (moves ++ [mv]) g := by
  obtain ⟨hpending, hincreasing, hrange⟩ := hone
  cases hstep with
  | announced f h =>
      have h1 : 1 ≤ h := hpos h rfl
      have hsettled : settledHeights (moves ++ [.announced h]) = settledHeights moves := by
        simp [Move.settled?]
      unfold announce
      split_ifs with hzero hcond
      · have hidle : f.pending = [] := by
          by_contra hbusy
          exact hallowed ⟨h, rfl, hbusy, Or.inl hzero⟩
        refine ⟨Or.inr ?_, by rwa [hsettled], ?_⟩
        · have hnext : h - 1 + 1 = h := by omega
          simp [hidle, hnext]
        · intro k hk
          rw [hsettled] at hk
          have := hrange k hk
          omega
      · have hidle : f.pending = [] := by
          by_contra hbusy
          exact hallowed ⟨h, rfl, hbusy, Or.inr hcond⟩
        exact ⟨Or.inr (by simp [hidle]), by rwa [hsettled], by rwa [hsettled]⟩
      · exact ⟨hpending, by rwa [hsettled], by rwa [hsettled]⟩
  | retried p t x rest =>
      have hsettled : settledHeights (moves ++ [.retried]) = settledHeights moves := by
        simp [Move.settled?]
      have hx : x = p + 1 ∧ rest = [] := by simpa using hpending
      exact ⟨Or.inr (by simp [hx]), by rwa [hsettled], by rwa [hsettled]⟩
  | settled p t x rest =>
      have hsettled : settledHeights (moves ++ [.settled x]) = settledHeights moves ++ [x] := by
        simp [Move.settled?]
      have hx : x = p + 1 ∧ rest = [] := by simpa using hpending
      obtain ⟨rfl, rfl⟩ := hx
      refine ⟨?_, ?_, ?_⟩
      · by_cases hlt : p + 1 < t <;> simp [hlt]
      · rw [hsettled, List.pairwise_append]
        refine ⟨hincreasing, List.pairwise_singleton _ _, ?_⟩
        intro k hk m hm
        rw [List.mem_singleton] at hm
        have := (hrange k hk).2
        simp only at this
        omega
      · intro k hk
        rw [hsettled, List.mem_append, List.mem_singleton] at hk
        rcases hk with hk | rfl
        · have := hrange k hk
          simp only at this
          simp only
          omega
        · simp only
          omega

/-- Without a doubling announcement the heights are settled in increasing
order, whatever tips are announced. -/
theorem run_single {moves : List Move} {f : Follower}
    (hrun : Run (fun f mv => ¬ Doubles f mv) moves f)
    (hpos : ∀ h ∈ announcements moves, 1 ≤ h) : Single moves f := by
  induction hrun with
  | nil => exact ⟨Or.inl rfl, List.Pairwise.nil, by simp [settledHeights]⟩
  | @snoc moves f mv g hrun hallowed hstep ih =>
      rw [announcements_snoc] at hpos
      refine (ih (fun h hh => hpos h (List.mem_append_left _ hh))).step hstep hallowed ?_
      rintro h rfl
      exact hpos h (by simp [Move.announced?])

end Follower

end AxelarMonitor
