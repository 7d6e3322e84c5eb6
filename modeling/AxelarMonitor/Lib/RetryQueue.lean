import Mathlib.Data.List.Pairwise
import Mathlib.Data.List.Perm.Subperm

/-!
A queue of requests in which a failed one goes to the end with one more try. A
gate goes round among them; each time it comes to the front it lets in one new
request at most. Whatever fails, no two requests ever have the same number of
tries, so that a bound on the tries bounds the queue.
-/

namespace RetryQueue

/-- A request is born at the turn of the gate that lets it in. -/
inductive Ticket where
  | gate
  | request (born tries : Nat)
  deriving DecidableEq

def Ticket.request? : Ticket → Option (Nat × Nat)
  | .gate => none
  | .request born tries => some (born, tries)

def Ticket.born? (x : Ticket) : Option Nat := x.request?.map Prod.fst

/-- The requests of a queue with the tries they have behind them. -/
def entries (queue : List Ticket) : List (Nat × Nat) := queue.filterMap Ticket.request?

theorem mem_entries {queue : List Ticket} {born tries : Nat} :
    (born, tries) ∈ entries queue ↔ .request born tries ∈ queue := by
  rw [entries, List.mem_filterMap]
  constructor
  · rintro ⟨x, hx, heq⟩
    cases x with
    | gate => cases heq
    | request _ _ =>
        cases heq
        exact hx
  · intro hmem
    exact ⟨_, hmem, rfl⟩

/-- A request is tried anew at every turn, and given up after the last try. -/
def Ticket.OnTime (most turn : Nat) : Ticket → Prop
  | .gate => True
  | .request born tries => born ≤ turn ∧ turn ≤ born + tries ∧ tries ≤ most

/-- What holds of a ticket and one behind it: what is behind the gate has had
its try for this turn, and the older of two requests has more tries, by two at
least when it has been overtaken. -/
def Ticket.Before (turn : Nat) : Ticket → Ticket → Prop
  | .gate, .gate => False
  | .gate, .request born tries => turn < born + tries
  | .request _ _, .gate => True
  | .request born tries, .request born' tries' =>
      born < born' ∧ tries' < tries ∨ born' < born ∧ tries + 1 < tries'

structure Orderly (most turn : Nat) (queue : List Ticket) : Prop where
  onTime : ∀ x ∈ queue, x.OnTime most turn
  ordered : queue.Pairwise (Ticket.Before turn)

variable {most turn born tries : Nat} {queue rest : List Ticket}

theorem orderly_nil : Orderly most turn [] := by
  constructor
  · intro x hx
    cases hx
  · exact List.Pairwise.nil

theorem Orderly.sublist (h : Orderly most turn queue) (hsub : rest.Sublist queue) :
    Orderly most turn rest :=
  ⟨fun x hx => h.onTime x (hsub.subset hx), h.ordered.sublist hsub⟩

theorem Orderly.tail {x : Ticket} (h : Orderly most turn (x :: rest)) : Orderly most turn rest :=
  h.sublist (List.sublist_cons_self x rest)

/-- A ticket joins behind all others. -/
theorem Orderly.join {x : Ticket} (h : Orderly most turn queue) (hx : x.OnTime most turn)
    (hbefore : ∀ y ∈ queue, y.Before turn x) : Orderly most turn (queue ++ [x]) := by
  constructor
  · intro y hy
    rcases List.mem_append.mp hy with hy | hy
    · exact h.onTime y hy
    · rw [List.mem_singleton.mp hy]
      exact hx
  · rw [List.pairwise_append]
    refine ⟨h.ordered, List.pairwise_singleton _ _, ?_⟩
    intro y hy z hz
    rw [List.mem_singleton.mp hz]
    exact hbefore y hy

/-- A request that fails goes to the end with one more try. -/
theorem Orderly.retry (h : Orderly most turn (.request born tries :: rest))
    (hmore : tries < most) : Orderly most turn (rest ++ [.request born (tries + 1)]) := by
  have htime : born ≤ turn ∧ turn ≤ born + tries ∧ tries ≤ most := h.onTime _ List.mem_cons_self
  have hfront := (List.pairwise_cons.mp h.ordered).1
  refine h.tail.join ⟨htime.1, by omega, hmore⟩ ?_
  intro y hy
  have hrel := hfront y hy
  cases y with
  | gate =>
      show turn < born + (tries + 1)
      omega
  | request b n =>
      -- the older one stays ahead in tries, on whichever side it is
      rcases hrel with ⟨hold, htries⟩ | ⟨hnew, htries⟩
      · exact Or.inr ⟨hold, Nat.succ_lt_succ htries⟩
      · exact Or.inl ⟨hnew, htries⟩

theorem Orderly.no_gate_behind (h : Orderly most turn (.gate :: rest)) : .gate ∉ rest := by
  intro hmem
  exact List.rel_of_pairwise_cons h.ordered hmem

/-- A gate joins where there is none. -/
theorem Orderly.join_gate (h : Orderly most turn queue) (hnone : .gate ∉ queue) :
    Orderly most turn (queue ++ [.gate]) := by
  refine h.join trivial ?_
  intro y hy
  cases y with
  | gate => exact hnone hy
  | request b n => trivial

/-- The gate takes its turn: what is left has been tried in it. -/
theorem Orderly.pass (h : Orderly most turn (.gate :: rest)) : Orderly most (turn + 1) rest := by
  have hfront := (List.pairwise_cons.mp h.ordered).1
  constructor
  · intro y hy
    have hrel := hfront y hy
    have htime := h.tail.onTime y hy
    cases y with
    | gate => trivial
    | request b n => exact ⟨Nat.le_succ_of_le htime.1, hrel, htime.2.2⟩
  · refine h.tail.ordered.imp_of_mem ?_
    intro x y hx _ hrel
    cases x with
    | gate => exact absurd hx h.no_gate_behind
    | request b n =>
        cases y with
        | gate => trivial
        | request b' n' => exact hrel

/-- The turn lets in a new request. -/
theorem Orderly.letIn (h : Orderly most turn (.gate :: rest)) :
    Orderly most (turn + 1) (rest ++ [.request (turn + 1) 0]) := by
  have hfront := (List.pairwise_cons.mp h.ordered).1
  refine h.pass.join ⟨Nat.le_refl _, Nat.le_refl _, Nat.zero_le most⟩ ?_
  intro y hy
  have hrel := hfront y hy
  have htime := h.tail.onTime y hy
  cases y with
  | gate => exact absurd hy h.no_gate_behind
  | request b n =>
      have hborn : b ≤ turn := htime.1
      have htried : turn < b + n := hrel
      exact Or.inl ⟨by omega, by omega⟩

/-- Of two requests one is older and has more tries. -/
def Apart (p q : Nat × Nat) : Prop := p.1 < q.1 ∧ q.2 < p.2 ∨ q.1 < p.1 ∧ p.2 < q.2

instance : Std.Symm Apart := ⟨fun _ _ hapart => hapart.symm⟩

theorem Orderly.entries_apart (h : Orderly most turn queue) :
    (entries queue).Pairwise Apart := by
  refine List.Pairwise.filterMap Ticket.request? ?_ h.ordered
  intro x y hrel p hp q hq
  cases x with
  | gate => cases hp
  | request b n =>
      cases y with
      | gate => cases hq
      | request b' n' =>
          cases hp
          cases hq
          exact hrel.imp id (fun hnew => ⟨hnew.1, Nat.lt_of_succ_lt hnew.2⟩)

/-- Of two requests the older one has more tries behind it. -/
theorem Orderly.older_tried_more (h : Orderly most turn queue) {p q : Nat × Nat}
    (hp : p ∈ entries queue) (hq : q ∈ entries queue) (holder : p.1 < q.1) : q.2 < p.2 := by
  have hne : p ≠ q := fun heq => Nat.lt_irrefl _ (heq ▸ holder)
  rcases h.entries_apart.forall hp hq hne with ⟨-, htries⟩ | ⟨hnewer, -⟩
  · exact htries
  · exact absurd hnewer (Nat.lt_asymm holder)

theorem Orderly.tries_nodup (h : Orderly most turn queue) :
    ((entries queue).map Prod.snd).Nodup := by
  rw [List.Nodup, List.pairwise_map]
  refine h.entries_apart.imp ?_
  rintro p q (⟨-, htries⟩ | ⟨-, htries⟩)
  · exact Nat.ne_of_gt htries
  · exact Nat.ne_of_lt htries

theorem Orderly.length_entries_le (h : Orderly most turn queue) :
    (entries queue).length ≤ most + 1 := by
  have hsub : (entries queue).map Prod.snd ⊆ List.range (most + 1) := by
    intro n hn
    obtain ⟨⟨b, n⟩, hmem, rfl⟩ := List.mem_map.mp hn
    have htime := h.onTime _ (mem_entries.mp hmem)
    exact List.mem_range.mpr (Nat.lt_succ_of_le htime.2.2)
  have hlen := (List.subperm_of_subset h.tries_nodup hsub).length_le
  rwa [List.length_map, List.length_range] at hlen

theorem Orderly.length_le (h : Orderly most turn queue) : queue.length ≤ most + 2 := by
  have hgates : queue.length ≤ (entries queue).length + 1 := by
    have hordered := h.ordered
    clear h
    induction queue with
    | nil => exact Nat.zero_le _
    | cons x rest ih =>
        cases x with
        | request b n => exact Nat.succ_le_succ (ih hordered.tail)
        | gate =>
            -- behind the gate there are requests only
            have hall : (entries rest).length = rest.length := by
              rw [entries, List.length_filterMap_eq_countP, List.countP_eq_length]
              intro y hy
              cases y with
              | gate => exact absurd (List.rel_of_pairwise_cons hordered hy) id
              | request b n => rfl
            exact Nat.succ_le_succ (Nat.le_of_eq hall.symm)
  have hentries := h.length_entries_le
  omega

end RetryQueue
