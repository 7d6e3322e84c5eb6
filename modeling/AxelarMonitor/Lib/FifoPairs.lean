import AxelarMonitor.Lib.FifoLoop
import Mathlib.Data.List.Forall2

/-!
Two loops side by side under one schedule. Where related messages take related
states to related states with related commands, related answers keep the loops
together: related commands wait on both sides, and where one of them can go on,
so can the other.
-/

namespace FifoLoop

variable {σ τ C D R S E F : Type*}

/-- The same worker moves on both sides, and related answers come in. -/
inductive Abreast (Q : R → S → Prop) : Event C R → Event D S → Prop
  | fed : Abreast Q .fed .fed
  | answered (cmd : C) (cmd' : D) (out : List R) (out' : List S)
      (hout : List.Forall₂ Q out out') : Abreast Q (.answered cmd out) (.answered cmd' out')
  | handled (msg : R) (msg' : S) (out : List C) (out' : List D) :
      Abreast Q (.handled msg out) (.handled msg' out')

/-- Events whose commands and whose messages are related. -/
inductive Matched (K : C → D → Prop) (Q : R → S → Prop) : Event C R → Event D S → Prop
  | fed : Matched K Q .fed .fed
  | answered (cmd : C) (cmd' : D) (out : List R) (out' : List S) (hcmd : K cmd cmd')
      (hout : List.Forall₂ Q out out') : Matched K Q (.answered cmd out) (.answered cmd' out')
  | handled (msg : R) (msg' : S) (out : List C) (out' : List D) (hmsg : Q msg msg')
      (hout : List.Forall₂ K out out') : Matched K Q (.handled msg out) (.handled msg' out')

/-- A test for events abreast, from a test for related results. -/
def Event.abreast (q : R → S → Bool) : Event C R → Event D S → Bool
  | .fed, .fed => true
  | .answered _ out, .answered _ out' => decide (List.Forall₂ (fun r s => q r s = true) out out')
  | .handled _ _, .handled _ _ => true
  | _, _ => false

structure Together (P : σ → τ → Prop) (K : C → D → Prop) (Q : R → S → Prop) (s : Loop σ C R)
    (t : Loop τ D S) : Prop where
  state : P s.state t.state
  cmds : List.Forall₂ K s.cmds t.cmds
  results : List.Forall₂ Q s.results t.results

/-- Handling keeps related states related, asks for related commands, and fails
on both sides or on neither. Nothing is assumed about how commands are answered. -/
structure Machine.Coupled (m : Machine σ C R E) (n : Machine τ D S F) (P : σ → τ → Prop)
    (K : C → D → Prop) (Q : R → S → Prop) : Prop where
  feed_rel : K m.feed n.feed
  handle_rel : ∀ {msg msg' st st'}, Q msg msg' → P st st' →
    Option.Rel (fun r r' => P r.1 r'.1 ∧ List.Forall₂ K r.2 r'.2) (m.handle msg st)
      (n.handle msg' st')

variable {m : Machine σ C R E} {n : Machine τ D S F} {P : σ → τ → Prop} {K : C → D → Prop}
  {Q : R → S → Prop}

theorem abreast_of_test {q : R → S → Bool} (hq : ∀ r s, q r s = true → Q r s) {e : Event C R}
    {f : Event D S} (h : e.abreast q f = true) : Abreast Q e f := by
  cases e with
  | fed =>
      cases f with
      | fed => exact .fed
      | answered cmd out => cases h
      | handled msg out => cases h
  | answered cmd out =>
      cases f with
      | fed => cases h
      | answered cmd' out' => exact .answered cmd cmd' out out' ((of_decide_eq_true h).imp hq)
      | handled msg out => cases h
  | handled msg out =>
      cases f with
      | fed => cases h
      | answered cmd' out' => cases h
      | handled msg' out' => exact .handled msg msg' out out'

theorem Machine.Coupled.step (hc : m.Coupled n P K Q) {s s' : Loop σ C R} {t t' : Loop τ D S}
    {e : Event C R} {f : Event D S} (h : Together P K Q s t) (hs : Step m s e s')
    (ht : Step n t f t') (habreast : Abreast Q e f) :
    Together P K Q s' t' ∧ Matched K Q e f := by
  obtain ⟨hstate, hcmds, hresults⟩ := h
  cases habreast with
  | fed =>
      cases hs
      cases ht
      exact ⟨⟨hstate, List.rel_append hcmds (.cons hc.feed_rel .nil), hresults⟩, .fed⟩
  | answered cmd cmd' out out' hout =>
      cases hs
      cases ht
      obtain ⟨hcmd, hrest⟩ := List.forall₂_cons.mp hcmds
      exact ⟨⟨hstate, hrest, List.rel_append hresults hout⟩,
        .answered cmd cmd' out out' hcmd hout⟩
  | handled msg msg' out out' =>
      cases hs with
      | handle st st₁ _ cmds _ results hhandle =>
          cases ht with
          | handle st' st₁' _ cmds' _ results' hhandle' =>
              obtain ⟨hmsg, hrest⟩ := List.forall₂_cons.mp hresults
              have hrel := hc.handle_rel hmsg hstate
              rw [hhandle, hhandle'] at hrel
              cases hrel with
              | some hnext =>
                  obtain ⟨hnext, hout⟩ := hnext
                  exact ⟨⟨hnext, List.rel_append hcmds hout, hrest⟩,
                    .handled msg msg' out out' hmsg hout⟩

theorem forall₂_concat {α β : Type*} {A : α → β → Prop} {xs : List α} {ys : List β} {x : α}
    {y : β} : List.Forall₂ A (xs ++ [x]) (ys ++ [y]) ↔ List.Forall₂ A xs ys ∧ A x y := by
  rw [← List.forall₂_reverse_iff, List.reverse_append, List.reverse_append,
    List.reverse_singleton, List.reverse_singleton, List.singleton_append, List.singleton_append,
    List.forall₂_cons, List.forall₂_reverse_iff, and_comm]

theorem map_eq_of_forall₂ {α β γ : Type*} {A : α → β → Prop} {f : α → γ} {g : β → γ}
    (hfg : ∀ x y, A x y → f x = g y) {xs : List α} {ys : List β} (h : List.Forall₂ A xs ys) :
    xs.map f = ys.map g := by
  rw [← List.forall₂_eq_eq_eq, List.forall₂_map_left_iff, List.forall₂_map_right_iff]
  exact h.imp hfg

/-- Two runs abreast go through related configurations and matched events. -/
theorem Machine.Coupled.run (hc : m.Coupled n P K Q) {a s : Loop σ C R} {b t : Loop τ D S}
    {trace : List (Transition σ C R)} {trace' : List (Transition τ D S)}
    (hstart : Together P K Q a b) (hrun : Run m a trace s) (hrun' : Run n b trace' t)
    (habreast : List.Forall₂ (fun x y => Abreast Q x.event y.event) trace trace') :
    Together P K Q s t ∧ List.Forall₂ (fun x y =>
      Together P K Q x.before y.before ∧ Matched K Q x.event y.event) trace trace' := by
  induction hrun generalizing trace' t with
  | nil =>
      cases hrun' with
      | nil => exact ⟨hstart, .nil⟩
      | snoc _ _ => exact absurd habreast.length_eq (by simp)
  | @snoc trace s e s' hrun hstep ih =>
      cases hrun' with
      | nil => exact absurd habreast.length_eq (by simp)
      | @snoc trace' t f t' hrun' hstep' =>
          obtain ⟨hearlier, hlast⟩ := forall₂_concat.mp habreast
          obtain ⟨hbefore, hmatched⟩ := ih hrun' hearlier
          obtain ⟨hafter, hevents⟩ := hc.step hbefore hstep hstep' hlast
          exact ⟨hafter, forall₂_concat.mpr ⟨hmatched, hbefore, hevents⟩⟩

/-- Matched events ask for related commands. -/
theorem issued_of_matched {trace : List (Transition σ C R)} {trace' : List (Transition τ D S)}
    (h : List.Forall₂ (fun x y => Matched K Q x.event y.event) trace trace') :
    List.Forall₂ K (issued trace) (issued trace') := by
  have hevent {e : Event C R} {f : Event D S} (h : Matched K Q e f) :
      List.Forall₂ K e.issued f.issued := by
    cases h with
    | fed => exact .nil
    | answered => exact .nil
    | handled _ _ _ _ _ hout => exact hout
  exact List.rel_flatMap h (fun _ _ hmatched => hevent hmatched)

/-- The next message can be handled on both sides or on neither. -/
theorem Machine.Coupled.handles_iff (hc : m.Coupled n P K Q) {s : Loop σ C R} {t : Loop τ D S}
    (h : Together P K Q s t) :
    (∃ msg out u, Step m s (.handled msg out) u) ↔ ∃ msg out u, Step n t (.handled msg out) u := by
  obtain ⟨st, cmds, results⟩ := s
  obtain ⟨st', cmds', results'⟩ := t
  obtain ⟨hstate, -, hresults⟩ := h
  cases hresults with
  | nil =>
      constructor
      · rintro ⟨_, _, _, hstep⟩
        cases hstep
      · rintro ⟨_, _, _, hstep⟩
        cases hstep
  | @cons msg msg' rest rest' hmsg hrest =>
      have hrel := hc.handle_rel hmsg hstate
      constructor
      · rintro ⟨_, out, u, hstep⟩
        cases hstep with
        | handle _ st₁ _ _ _ _ hhandle =>
            rw [hhandle] at hrel
            generalize hnext : n.handle msg' st' = next at hrel
            cases hrel with
            | some hr => exact ⟨msg', _, _, .handle st' _ msg' cmds' _ rest' hnext⟩
      · rintro ⟨_, out, u, hstep⟩
        cases hstep with
        | handle _ st₁ _ _ _ _ hhandle =>
            rw [hhandle] at hrel
            generalize hnext : m.handle msg st = next at hrel
            cases hrel with
            | some hr => exact ⟨msg, _, _, .handle st _ msg cmds _ rest hnext⟩

end FifoLoop
