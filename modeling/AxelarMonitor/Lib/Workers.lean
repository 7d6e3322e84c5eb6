import AxelarMonitor.Lib.FifoLoop

/-!
The ring of two workers at the grain of single sends. The answering worker
sends its results one at a time, the handling worker its commands, and it
shows an observation of its state once the last command of a message is sent;
between any two of these steps the feeder may send and an onlooker may look.

A worker that fails is gone. When the answering worker is gone its queue is
closed and the next send to it fails the sender; the program ends with the
handling worker.
-/

namespace FifoLoop

variable {σ C R E ω : Type*}

/-- As `Step`, except that a fed command may land anywhere in the queue. -/
inductive LooseStep (m : Machine σ C R E) : Loop σ C R → Event C R → Loop σ C R → Prop
  | feed (st : σ) (front back : List C) (results : List R) :
      LooseStep m ⟨st, front ++ back, results⟩ .fed ⟨st, front ++ m.feed :: back, results⟩
  | work {s e t} (hstep : Step m s e t) : LooseStep m s e t

inductive LooseRun (m : Machine σ C R E) (start : Loop σ C R) :
    List (Transition σ C R) → Loop σ C R → Prop
  | nil : LooseRun m start [] start
  | snoc {trace s e t} (hrun : LooseRun m start trace s) (hstep : LooseStep m s e t) :
      LooseRun m start (trace ++ [⟨s, e⟩]) t

section Loose

variable {m : Machine σ C R E} {s t : Loop σ C R}

theorem LooseStep.answered {cmd : C} {out : List R}
    (h : LooseStep m s (.answered cmd out) t) : Step m s (.answered cmd out) t := by
  cases h with
  | work hstep => exact hstep

theorem LooseStep.handled {msg : R} {out : List C}
    (h : LooseStep m s (.handled msg out) t) : Step m s (.handled msg out) t := by
  cases h with
  | work hstep => exact hstep

theorem LooseStep.state_fed (h : LooseStep m s .fed t) : t.state = s.state := by
  cases h with
  | feed => rfl
  | work hstep => exact hstep.state_fed

/-- A probe that is blind to the fed command does not see where it lands. -/
theorem Probe.view_loose_fed {β : Type*} (p : Probe C R β) (hblind : p.ofCmd m.feed = none)
    (h : LooseStep m s .fed t) : p.view t = p.view s := by
  cases h with
  | feed st front back results => simp [Probe.view, hblind]
  | work hstep => rw [p.view_fed hstep, hblind, Option.toList_none, List.append_nil]

theorem LooseRun.handled_append_results {start : Loop σ C R} {trace : List (Transition σ C R)}
    (hrun : LooseRun m start trace s) :
    handledMsgs trace ++ s.results = start.results ++ (answers trace).flatMap Prod.snd := by
  induction hrun with
  | nil => simp
  | @snoc trace s e t hrun hstep ih =>
      cases hstep with
      | feed => simpa using ih
      | work hstep =>
          -- one ordinary step, appended to what was sent and handled before
          have hone := (Run.nil.snoc hstep : Run m s _ t).handled_append_results
          rw [List.nil_append] at hone
          have hsent : answers (trace ++ [⟨s, e⟩]) = answers trace ++ answers [⟨s, e⟩] := by
            simp [answers]
          rw [handledMsgs_append, List.append_assoc, hone, ← List.append_assoc, ih, hsent,
            List.flatMap_append, List.append_assoc]

end Loose

structure Workers (σ C R ω : Type*) where
  state : σ
  shown : ω
  /-- From taking a message until the observation after it is shown. -/
  replying : Bool
  unsent : List C
  cmds : List C
  answering : List R
  results : List R
  feeding : Bool
  serving : Bool
  up : Bool

inductive Label (C R ω : Type*) where
  | event (e : Event C R)
  | quiet
  | looked (seen : ω)

def Label.event? : Label C R ω → Option (Event C R)
  | .event e => some e
  | _ => none

def Label.look? : Label C R ω → Option ω
  | .looked seen => some seen
  | _ => none

def events (labels : List (Label C R ω)) : List (Event C R) := labels.filterMap Label.event?

/-- What onlookers have seen, in order. -/
def looks (labels : List (Label C R ω)) : List ω := labels.filterMap Label.look?

@[simp] theorem events_snoc (labels : List (Label C R ω)) (l : Label C R ω) :
    events (labels ++ [l]) = events labels ++ l.event?.toList := by
  unfold events
  rw [List.filterMap_append]
  cases h : l.event? <;> simp [h]

@[simp] theorem looks_snoc (labels : List (Label C R ω)) (l : Label C R ω) :
    looks (labels ++ [l]) = looks labels ++ l.look?.toList := by
  unfold looks
  rw [List.filterMap_append]
  cases h : l.look? <;> simp [h]

inductive WorkerStep (m : Machine σ C R E) (observe : σ → ω) :
    Workers σ C R ω → Label C R ω → Workers σ C R ω → Prop
  | feed (w : Workers σ C R ω) (hup : w.up) (hfeeding : w.feeding) (hserving : w.serving) :
      WorkerStep m observe w (.event .fed) { w with cmds := w.cmds ++ [m.feed] }
  | feederFails (w : Workers σ C R ω) (hup : w.up) (hfeeding : w.feeding)
      (hgone : w.serving = false) : WorkerStep m observe w .quiet { w with feeding := false }
  | receiveCmd (w : Workers σ C R ω) (env : E) (cmd : C) (cmds : List C) (out : List R)
      (hup : w.up) (hserving : w.serving) (hidle : w.answering = [])
      (hcmds : w.cmds = cmd :: cmds) (hexec : m.exec env cmd = some out) :
      WorkerStep m observe w (.event (.answered cmd out))
        { w with cmds := cmds, answering := out }
  | answererFails (w : Workers σ C R ω) (env : E) (cmd : C) (cmds : List C)
      (hup : w.up) (hserving : w.serving) (hidle : w.answering = [])
      (hcmds : w.cmds = cmd :: cmds) (hexec : m.exec env cmd = none) :
      WorkerStep m observe w .quiet { w with cmds := [], serving := false }
  | sendResult (w : Workers σ C R ω) (r : R) (rest : List R) (hup : w.up)
      (hanswering : w.answering = r :: rest) :
      WorkerStep m observe w .quiet { w with answering := rest, results := w.results ++ [r] }
  | receiveMsg (w : Workers σ C R ω) (msg : R) (results : List R) (st : σ) (out : List C)
      (hup : w.up) (hidle : w.replying = false) (hresults : w.results = msg :: results)
      (hhandle : m.handle msg w.state = some (st, out)) :
      WorkerStep m observe w (.event (.handled msg out))
        { w with state := st, replying := true, unsent := out, results := results }
  | handlerFails (w : Workers σ C R ω) (msg : R) (results : List R) (hup : w.up)
      (hidle : w.replying = false) (hresults : w.results = msg :: results)
      (hhandle : m.handle msg w.state = none) :
      WorkerStep m observe w .quiet { w with up := false }
  | sendCmd (w : Workers σ C R ω) (cmd : C) (rest : List C) (hup : w.up)
      (hserving : w.serving) (hunsent : w.unsent = cmd :: rest) :
      WorkerStep m observe w .quiet { w with unsent := rest, cmds := w.cmds ++ [cmd] }
  | sendFails (w : Workers σ C R ω) (cmd : C) (rest : List C) (hup : w.up)
      (hgone : w.serving = false) (hunsent : w.unsent = cmd :: rest) :
      WorkerStep m observe w .quiet { w with up := false }
  | publish (w : Workers σ C R ω) (hup : w.up) (hreplying : w.replying)
      (hsent : w.unsent = []) :
      WorkerStep m observe w .quiet { w with shown := observe w.state, replying := false }
  | look (w : Workers σ C R ω) (hup : w.up) : WorkerStep m observe w (.looked w.shown) w

inductive WorkerRun (m : Machine σ C R E) (observe : σ → ω) (start : Workers σ C R ω) :
    List (Label C R ω) → Workers σ C R ω → Prop
  | nil : WorkerRun m observe start [] start
  | snoc {labels w l w'} (hrun : WorkerRun m observe start labels w)
      (hstep : WorkerStep m observe w l w') : WorkerRun m observe start (labels ++ [l]) w'

/-- The loop that the workers run: what is being sent counts as sent. The
commands are compared only while somebody is there to take them. -/
structure Runs (w : Workers σ C R ω) (s : Loop σ C R) : Prop where
  state_eq : s.state = w.state
  results_eq : s.results = w.results ++ w.answering
  cmds_eq : w.serving → s.cmds = w.cmds ++ w.unsent
  unsent_idle : w.replying = false → w.unsent = []

variable {m : Machine σ C R E} {observe : σ → ω} {w w' : Workers σ C R ω} {s : Loop σ C R}

/-- An event of the workers is a step of the loop, all else leaves it alone. -/
theorem WorkerStep.refines {l : Label C R ω} (hstep : WorkerStep m observe w l w')
    (hruns : Runs w s) :
    (∃ e t, l = .event e ∧ LooseStep m s e t ∧ Runs w' t) ∨ l.event? = none ∧ Runs w' s := by
  obtain ⟨hstate, hresults, hcmds, hidle⟩ := hruns
  obtain ⟨st, cmds, results⟩ := s
  simp only at hstate hresults hcmds
  cases hstep with
  | feed hup hfeeding hserving =>
      obtain rfl := hcmds hserving
      refine Or.inl ⟨_, _, rfl, .feed st w.cmds w.unsent results, hstate, hresults, ?_, hidle⟩
      intro _
      simp
  | receiveCmd env cmd rest out hup hserving hanswering hqueue hexec =>
      obtain rfl := hcmds hserving
      have htake : Step m ⟨st, w.cmds ++ w.unsent, results⟩ (.answered cmd out)
          ⟨st, rest ++ w.unsent, results ++ out⟩ := by
        rw [hqueue]
        exact .answer env st cmd _ results out hexec
      refine Or.inl ⟨_, _, rfl, .work htake, hstate, ?_, fun _ => rfl, hidle⟩
      simp [hresults, hanswering]
  | receiveMsg msg rest st' out hup hquiet hqueue hhandle =>
      subst hstate
      have htake : Step m ⟨w.state, cmds, results⟩ (.handled msg out)
          ⟨st', cmds ++ out, rest ++ w.answering⟩ := by
        rw [hresults, hqueue]
        exact .handle w.state st' msg cmds out _ hhandle
      refine Or.inl ⟨_, _, rfl, .work htake, rfl, rfl, ?_, by simp⟩
      intro hserving
      simp [hcmds hserving, hidle hquiet]
  | sendResult r rest hup hanswering =>
      refine Or.inr ⟨rfl, hstate, ?_, hcmds, hidle⟩
      simp [hresults, hanswering]
  | sendCmd cmd rest hup hserving hunsent =>
      refine Or.inr ⟨rfl, hstate, hresults, ?_, ?_⟩
      · intro _
        simp [hcmds hserving, hunsent]
      · intro hquiet
        rw [hidle hquiet] at hunsent
        cases hunsent
  | publish hup hreplying hsent => exact Or.inr ⟨rfl, hstate, hresults, hcmds, fun _ => hsent⟩
  | answererFails => exact Or.inr ⟨rfl, hstate, hresults, by simp, hidle⟩
  | _ => exact Or.inr ⟨rfl, hstate, hresults, hcmds, hidle⟩

/-- What can be seen by looking now and then at a value that takes the given
ones in turn: some are seen repeatedly, some never. -/
inductive Sampled : List ω → List ω → Prop
  | nil : Sampled [] []
  | skip {seen values : List ω} (o : ω) (h : Sampled seen values) : Sampled seen (values ++ [o])
  | look {seen values : List ω} {o : ω} (h : Sampled seen (values ++ [o])) :
      Sampled (seen ++ [o]) (values ++ [o])

namespace Sampled

variable {seen values : List ω}

theorem append (h : Sampled seen values) (more : List ω) : Sampled seen (values ++ more) := by
  induction more generalizing values with
  | nil => simpa using h
  | cons o more ih => simpa using ih (h.skip o)

theorem subset (h : Sampled seen values) : seen ⊆ values := by
  induction h with
  | nil => exact List.Subset.refl _
  | skip o _ ih => exact fun a ha => List.mem_append_left _ (ih ha)
  | look _ ih =>
      intro a ha
      rcases List.mem_append.mp ha with hold | hnew
      · exact ih hold
      · exact List.mem_append_right _ hnew

/-- A value that only grows is only ever seen to grow. -/
theorem pairwise {r : ω → ω → Prop} (hrefl : ∀ o, r o o) (h : Sampled seen values)
    (hvalues : values.Pairwise r) : seen.Pairwise r := by
  induction h with
  | nil => exact List.Pairwise.nil
  | skip o _ ih => exact ih (List.pairwise_append.mp hvalues).1
  | @look seen values o h ih =>
      refine List.pairwise_append.mpr ⟨ih hvalues, List.pairwise_singleton _ _, ?_⟩
      intro a ha b hb
      obtain rfl := List.mem_singleton.mp hb
      rcases List.mem_append.mp (h.subset ha) with hold | hlast
      · exact (List.pairwise_append.mp hvalues).2.2 a hold b hb
      · obtain rfl := List.mem_singleton.mp hlast
        exact hrefl a

end Sampled

/-- The states of the loop along a run, the last one included. -/
def visited (trace : List (Transition σ C R)) (s : Loop σ C R) : List σ :=
  trace.map (fun x => x.before.state) ++ [s.state]

@[simp] theorem visited_snoc (trace : List (Transition σ C R)) (s t : Loop σ C R)
    (e : Event C R) : visited (trace ++ [⟨s, e⟩]) t = visited trace s ++ [t.state] := by
  simp [visited]

/-- Nothing that is handled takes an observation back. -/
theorem LooseRun.visited_pairwise {r : σ → σ → Prop} {start : Loop σ C R}
    {trace : List (Transition σ C R)} (hrun : LooseRun m start trace s) (hrefl : ∀ st, r st st)
    (htrans : ∀ a b c, r a b → r b c → r a c)
    (hgrow : ∀ earlier u msg out later v, trace = earlier ++ ⟨u, .handled msg out⟩ :: later →
      LooseRun m start earlier u → Step m u (.handled msg out) v → r u.state v.state) :
    (visited trace s).Pairwise r := by
  induction hrun with
  | nil => exact List.pairwise_singleton _ _
  | @snoc trace u e v hrun hstep ih =>
      have hprior := ih (fun earlier x msg out later y hsplit =>
        hgrow earlier x msg out (later ++ [⟨u, e⟩]) y (by simp [hsplit]))
      have hlast : r u.state v.state := by
        cases e with
        | fed =>
            rw [hstep.state_fed]
            exact hrefl _
        | answered cmd out =>
            rw [hstep.answered.state_answered]
            exact hrefl _
        | handled msg out => exact hgrow trace u msg out [] v rfl hrun hstep.handled
      rw [visited_snoc]
      refine List.pairwise_append.mpr ⟨hprior, List.pairwise_singleton _ _, ?_⟩
      intro a ha b hb
      obtain rfl := List.mem_singleton.mp hb
      apply htrans a u.state _ _ hlast
      rcases List.mem_append.mp ha with hold | hnow
      · exact (List.pairwise_append.mp hprior).2.2 a hold _ List.mem_cons_self
      · obtain rfl := List.mem_singleton.mp hnow
        exact hrefl _

/-- Only the end of a reply changes what is shown, and then to the present
state. -/
theorem WorkerStep.shows {l : Label C R ω} (hstep : WorkerStep m observe w l w') :
    (l.look? = none ∧ w'.shown = w.shown) ∨ (l = .looked w.shown ∧ w' = w) ∨
      (l = .quiet ∧ w'.shown = observe w.state) := by
  cases hstep with
  | look hup => exact Or.inr (Or.inl ⟨rfl, rfl⟩)
  | publish hup hreplying hsent => exact Or.inr (Or.inr ⟨rfl, rfl⟩)
  | _ => exact Or.inl ⟨rfl, rfl⟩

/-- A run of the loop with the same events, whose states are what is shown. -/
structure Refines (m : Machine σ C R E) (observe : σ → ω) (s₀ : Loop σ C R)
    (labels : List (Label C R ω)) (w : Workers σ C R ω) (trace : List (Transition σ C R))
    (s : Loop σ C R) : Prop where
  run : LooseRun m s₀ trace s
  events_eq : trace.map Transition.event = events labels
  runs : Runs w s
  shown : ∃ before after, (visited trace s).map observe = before ++ w.shown :: after ∧
    Sampled (looks labels) (before ++ [w.shown])

theorem Refines.sampled {s₀ : Loop σ C R} {labels : List (Label C R ω)}
    {trace : List (Transition σ C R)} (h : Refines m observe s₀ labels w trace s) :
    Sampled (looks labels) ((visited trace s).map observe) := by
  obtain ⟨before, after, hvisited, hsampled⟩ := h.shown
  rw [hvisited]
  simpa using hsampled.append after

theorem Refines.step {s₀ : Loop σ C R} {labels : List (Label C R ω)} {l : Label C R ω}
    {trace : List (Transition σ C R)} (h : Refines m observe s₀ labels w trace s)
    (hstep : WorkerStep m observe w l w') :
    ∃ trace' t, Refines m observe s₀ (labels ++ [l]) w' trace' t := by
  obtain ⟨before, after, hvisited, hsampled⟩ := h.shown
  rcases hstep.refines h.runs with ⟨e, t, rfl, hnext, hruns⟩ | ⟨hnone, hruns⟩
  · have hshown : w'.shown = w.shown := by
      rcases hstep.shows with ⟨-, hsame⟩ | ⟨hlook, -⟩ | ⟨hquiet, -⟩
      · exact hsame
      · cases hlook
      · cases hquiet
    refine ⟨_, t, h.run.snoc hnext, ?_, hruns, before, after ++ [observe t.state], ?_, ?_⟩
    · simp [h.events_eq, Label.event?]
    · simp [hvisited, hshown]
    · simpa [hshown, Label.look?] using hsampled
  · refine ⟨trace, s, h.run, by simp [h.events_eq, hnone], hruns, ?_⟩
    rcases hstep.shows with ⟨hlook, hsame⟩ | ⟨rfl, rfl⟩ | ⟨rfl, hpublished⟩
    · refine ⟨before, after, by rw [hvisited, hsame], ?_⟩
      simpa [hsame, hlook] using hsampled
    · exact ⟨before, after, hvisited, by simpa [Label.look?] using hsampled.look⟩
    · -- the state shown now is the last one visited
      refine ⟨(trace.map (fun x => x.before.state)).map observe, [], ?_, ?_⟩
      · rw [hpublished, ← h.runs.state_eq]
        simp [visited]
      · have hall := h.sampled
        rw [visited, h.runs.state_eq] at hall
        simpa [hpublished, Label.look?] using hall

/-- Every run of the workers is a run of the loop with the same events, and
onlookers see observations of its states, in order. -/
theorem WorkerRun.refines {start : Workers σ C R ω} {labels : List (Label C R ω)}
    {s₀ : Loop σ C R} (hrun : WorkerRun m observe start labels w) (hstart : Runs start s₀)
    (hshown : start.shown = observe start.state) :
    ∃ trace s, Refines m observe s₀ labels w trace s := by
  induction hrun with
  | nil =>
      refine ⟨[], s₀, .nil, rfl, hstart, [], [], ?_, .skip _ .nil⟩
      simp [visited, hshown, hstart.state_eq]
  | snoc _ hstep ih =>
      obtain ⟨trace, s, h⟩ := ih
      exact h.step hstep

/-- What is shown is at most one message old. -/
theorem WorkerRun.shown_current {start : Workers σ C R ω} {labels : List (Label C R ω)}
    (hrun : WorkerRun m observe start labels w) (hshown : start.shown = observe start.state)
    (hidle : start.replying = false) :
    (w.replying = false → w.shown = observe w.state) ∧
      (w.replying → ∃ prior msg out sent, m.handle msg prior = some (w.state, out) ∧
        w.shown = observe prior ∧ out = sent ++ w.unsent) := by
  induction hrun with
  | nil => simp [hshown, hidle]
  | @snoc labels w l w' hrun hstep ih =>
      obtain ⟨hnow, hlate⟩ := ih
      cases hstep with
      | receiveMsg msg results st out hup hquiet hresults hhandle =>
          refine ⟨by simp, fun _ => ⟨w.state, msg, out, [], hhandle, hnow hquiet, rfl⟩⟩
      | sendCmd cmd rest hup hserving hunsent =>
          refine ⟨hnow, fun hreplying => ?_⟩
          obtain ⟨prior, msg, out, sent, hhandle, hprior, hout⟩ := hlate hreplying
          refine ⟨prior, msg, out, sent ++ [cmd], hhandle, hprior, ?_⟩
          simpa [hunsent] using hout
      | publish hup hreplying hsent => exact ⟨fun _ => rfl, by simp⟩
      | _ => exact ⟨hnow, hlate⟩

inductive Choice (E : Type*) where
  | feeder
  | answerer (env : E)
  | handler
  | onlooker

/-- The next step of the chosen party, if it has one. -/
def Machine.actSingly (m : Machine σ C R E) (observe : σ → ω) (w : Workers σ C R ω) :
    Choice E → Option (Label C R ω × Workers σ C R ω)
  | .feeder =>
      if w.up && w.feeding then
        if w.serving then some (.event .fed, { w with cmds := w.cmds ++ [m.feed] })
        else some (.quiet, { w with feeding := false })
      else none
  | .answerer env =>
      if w.up then
        match w.answering with
        | r :: rest => some (.quiet, { w with answering := rest, results := w.results ++ [r] })
        | [] =>
            match w.serving, w.cmds with
            | true, cmd :: cmds =>
                match m.exec env cmd with
                | some out =>
                    some (.event (.answered cmd out), { w with cmds := cmds, answering := out })
                | none => some (.quiet, { w with cmds := [], serving := false })
            | _, _ => none
      else none
  | .handler =>
      if w.up then
        match w.unsent with
        | cmd :: rest =>
            if w.serving then some (.quiet, { w with unsent := rest, cmds := w.cmds ++ [cmd] })
            else some (.quiet, { w with up := false })
        | [] =>
            if w.replying then
              some (.quiet, { w with shown := observe w.state, replying := false })
            else
              match w.results with
              | [] => none
              | msg :: results =>
                  match m.handle msg w.state with
                  | some (st, out) =>
                      some (.event (.handled msg out),
                        { w with state := st, replying := true, unsent := out, results := results })
                  | none => some (.quiet, { w with up := false })
      else none
  | .onlooker => if w.up then some (.looked w.shown, w) else none

def Machine.replaySingly (m : Machine σ C R E) (observe : σ → ω) :
    Workers σ C R ω → List (Choice E) → Option (List (Label C R ω) × Workers σ C R ω)
  | w, [] => some ([], w)
  | w, c :: rest =>
      match m.actSingly observe w c with
      | none => none
      | some (l, w') => (m.replaySingly observe w' rest).map (fun r => (l :: r.1, r.2))

theorem actSingly_step {c : Choice E} {l : Label C R ω}
    (h : m.actSingly observe w c = some (l, w')) : WorkerStep m observe w l w' := by
  cases c with
  | feeder =>
      simp only [Machine.actSingly, Bool.and_eq_true] at h
      split_ifs at h with halive hserving
      · cases h
        exact .feed w halive.1 halive.2 hserving
      · cases h
        exact .feederFails w halive.1 halive.2 (Bool.not_eq_true _ ▸ hserving)
  | answerer env =>
      simp only [Machine.actSingly] at h
      split_ifs at h with hup
      split at h
      · cases h
        exact .sendResult w _ _ hup ‹_›
      · split at h
        · split at h
          · cases h
            exact .receiveCmd w env _ _ _ hup ‹_› ‹_› ‹_› ‹_›
          · cases h
            exact .answererFails w env _ _ hup ‹_› ‹_› ‹_› ‹_›
        · cases h
  | handler =>
      simp only [Machine.actSingly] at h
      split at h
      · next hup =>
        split at h
        · next cmd rest hunsent =>
          split_ifs at h with hserving
          · cases h
            exact .sendCmd w cmd rest hup hserving hunsent
          · cases h
            exact .sendFails w cmd rest hup (Bool.not_eq_true _ ▸ hserving) hunsent
        · next hsent =>
          split at h
          · next hreplying =>
            cases h
            exact .publish w hup hreplying hsent
          · next hquiet =>
            have hidle : w.replying = false := Bool.not_eq_true _ ▸ hquiet
            split at h
            · cases h
            · next msg results hresults =>
              split at h
              · cases h
                exact .receiveMsg w msg results _ _ hup hidle hresults ‹_›
              · cases h
                exact .handlerFails w msg results hup hidle hresults ‹_›
      · cases h
  | onlooker =>
      simp only [Machine.actSingly] at h
      split_ifs at h with hup
      cases h
      exact .look w hup

theorem WorkerRun.append {start u : Workers σ C R ω} {first second : List (Label C R ω)}
    (hfirst : WorkerRun m observe start first u) (hsecond : WorkerRun m observe u second w) :
    WorkerRun m observe start (first ++ second) w := by
  induction hsecond with
  | nil => simpa using hfirst
  | snoc _ hstep ih =>
      rw [← List.append_assoc]
      exact ih.snoc hstep

theorem replaySingly_run {choices : List (Choice E)} {labels : List (Label C R ω)}
    (h : m.replaySingly observe w choices = some (labels, w')) :
    WorkerRun m observe w labels w' := by
  induction choices generalizing w labels with
  | nil =>
      simp only [Machine.replaySingly, Option.some.injEq, Prod.mk.injEq] at h
      obtain ⟨rfl, rfl⟩ := h
      exact .nil
  | cons c rest ih =>
      simp only [Machine.replaySingly] at h
      split at h
      · cases h
      · next l u hact =>
        simp only [Option.map_eq_some_iff, Prod.mk.injEq] at h
        obtain ⟨⟨tail, last⟩, hrest, rfl, rfl⟩ := h
        have hone : WorkerRun m observe w [l] u := WorkerRun.nil.snoc (actSingly_step hact)
        simpa using hone.append (ih hrest)

end FifoLoop
