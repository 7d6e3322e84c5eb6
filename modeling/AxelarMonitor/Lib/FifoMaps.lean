import AxelarMonitor.Lib.FifoLoop

/-!
Maps between loops. A map of states along which handling commutes carries the
runs of one machine to runs of another over the same queues.
-/

namespace FifoLoop

variable {σ τ C R E : Type*}

def Loop.map (f : σ → τ) (s : Loop σ C R) : Loop τ C R := ⟨f s.state, s.cmds, s.results⟩

def Transition.map (f : σ → τ) (x : Transition σ C R) : Transition τ C R :=
  ⟨x.before.map f, x.event⟩

/-- `f` forgets nothing that the handling of a message depends on. -/
structure Machine.Hom (m : Machine σ C R E) (n : Machine τ C R E) (f : σ → τ) : Prop where
  feed_eq : n.feed = m.feed
  exec_eq : ∀ env cmd, n.exec env cmd = m.exec env cmd
  handle_eq : ∀ msg st, n.handle msg (f st) = (m.handle msg st).map (fun r => (f r.1, r.2))

variable {m : Machine σ C R E} {n : Machine τ C R E} {f : σ → τ}

theorem Step.map (hf : m.Hom n f) {s t : Loop σ C R} {e : Event C R} (h : Step m s e t) :
    Step n (s.map f) e (t.map f) := by
  cases h with
  | feed st cmds results =>
      have hstep : Step n ⟨f st, cmds, results⟩ .fed ⟨f st, cmds ++ [n.feed], results⟩ :=
        .feed (f st) cmds results
      rwa [hf.feed_eq] at hstep
  | answer env st cmd cmds results out hexec =>
      exact .answer env (f st) cmd cmds results out (by rw [hf.exec_eq, hexec])
  | handle st st' msg cmds out results hhandle =>
      exact .handle (f st) (f st') msg cmds out results (by rw [hf.handle_eq, hhandle]; rfl)

theorem Run.map (hf : m.Hom n f) {start s : Loop σ C R} {trace : List (Transition σ C R)}
    (hrun : Run m start trace s) :
    Run n (start.map f) (trace.map (Transition.map f)) (s.map f) := by
  induction hrun with
  | nil => exact .nil
  | snoc _ hstep ih =>
      rw [List.map_append]
      exact ih.snoc (hstep.map hf)

/-- The image can do nothing that the machine itself cannot. -/
theorem Step.lift (hf : m.Hom n f) {s : Loop σ C R} {u : Loop τ C R} {e : Event C R}
    (h : Step n (s.map f) e u) : ∃ t, Step m s e t ∧ u = t.map f := by
  obtain ⟨st, cmds, results⟩ := s
  generalize hs : Loop.map f ⟨st, cmds, results⟩ = s' at h
  cases h with
  | feed st' cmds' results' =>
      cases hs
      refine ⟨_, .feed st cmds results, ?_⟩
      rw [Loop.map, hf.feed_eq]
  | answer env st' cmd cmds' results' out hexec =>
      cases hs
      exact ⟨_, .answer env st cmd cmds' results out (by rw [← hf.exec_eq, hexec]), rfl⟩
  | handle st' st'' msg cmds' out results' hhandle =>
      cases hs
      rw [hf.handle_eq, Option.map_eq_some_iff] at hhandle
      obtain ⟨⟨next, out'⟩, hnext, heq⟩ := hhandle
      cases heq
      exact ⟨_, .handle st next msg cmds out' results' hnext, rfl⟩

theorem Run.lift (hf : m.Hom n f) {start : Loop σ C R} {u : Loop τ C R}
    {trace : List (Transition τ C R)} (hrun : Run n (start.map f) trace u) :
    ∃ trace' s, Run m start trace' s ∧ trace = trace'.map (Transition.map f) ∧ u = s.map f := by
  induction hrun with
  | nil => exact ⟨[], start, .nil, rfl, rfl⟩
  | @snoc trace v e u hrun hstep ih =>
      obtain ⟨trace', s, hrun', rfl, rfl⟩ := ih
      obtain ⟨t, hstep', rfl⟩ := hstep.lift hf
      refine ⟨_, t, hrun'.snoc hstep', ?_, rfl⟩
      rw [List.map_append]
      rfl

end FifoLoop
