import AxelarMonitor.Lib.Workers

/-!
The ring of workers after its answering worker has failed. Nothing tells the
handling worker: it goes on with the results that are left and then waits for
more. Whether the program ends is a matter of those results alone, since only
a command that has to be sent makes the outage felt.
-/

namespace FifoLoop

variable {σ C R E ω : Type*} {m : Machine σ C R E} {observe : σ → ω} {w w' : Workers σ C R ω}

def handledOf (labels : List (Label C R ω)) : List R :=
  (events labels).filterMap Event.handledMsg?

theorem handledOf_snoc (labels : List (Label C R ω)) (l : Label C R ω) :
    handledOf (labels ++ [l]) =
      handledOf labels ++ (l.event?.bind Event.handledMsg?).toList := by
  unfold handledOf
  rw [events_snoc, List.filterMap_append]
  cases l.event? with
  | none => rfl
  | some e => cases h : e.handledMsg? <;> simp [h]

/-- The answering worker is gone and has left no answer half sent. -/
structure Gone (w : Workers σ C R ω) : Prop where
  serving_eq : w.serving = false
  answering_eq : w.answering = []

/-- Every message is handled, and none asks for a command. -/
def Machine.survives (m : Machine σ C R E) : σ → List R → Bool
  | _, [] => true
  | st, msg :: rest =>
      match m.handle msg st with
      | some (st', []) => m.survives st' rest
      | _ => false

theorem WorkerStep.gone {l : Label C R ω} (hstep : WorkerStep m observe w l w') (hgone : Gone w) :
    Gone w' := by
  obtain ⟨hserving, hanswering⟩ := hgone
  cases hstep with
  | sendResult r rest hup hmore =>
      rw [hanswering] at hmore
      cases hmore
  | receiveCmd _ _ _ _ _ hup => rw [hserving] at hup; cases hup
  | answererFails => exact ⟨rfl, hanswering⟩
  | _ => exact ⟨hserving, hanswering⟩

theorem WorkerRun.gone {labels : List (Label C R ω)} (hrun : WorkerRun m observe w labels w')
    (hgone : Gone w) : Gone w' := by
  induction hrun with
  | nil => exact hgone
  | snoc _ hstep ih => exact hstep.gone ih

/-- At some step of the run the answering worker takes `cmd` and fails over it, in
the environment `env`, with nothing half sent. -/
def FailsOver (m : Machine σ C R E) (observe : σ → ω) (start : Workers σ C R ω)
    (labels : List (Label C R ω)) (w : Workers σ C R ω) (env : E) (cmd : C) : Prop :=
  ∃ earlier later u cmds, labels = earlier ++ .quiet :: later ∧
    WorkerRun m observe start earlier u ∧ u.serving ∧ u.answering = [] ∧ u.cmds = cmd :: cmds ∧
    m.exec env cmd = none ∧ WorkerRun m observe { u with cmds := [], serving := false } later w

section FailsOver

variable {start : Workers σ C R ω} {labels : List (Label C R ω)}

theorem FailsOver.exec_eq_none {env : E} {cmd : C}
    (h : FailsOver m observe start labels w env cmd) : m.exec env cmd = none := by
  obtain ⟨_, _, _, _, _, _, _, _, _, hexec, _⟩ := h
  exact hexec

theorem FailsOver.gone {env : E} {cmd : C} (h : FailsOver m observe start labels w env cmd) :
    Gone w := by
  obtain ⟨_, _, _, _, _, _, _, hidle, _, _, hafter⟩ := h
  exact hafter.gone ⟨rfl, hidle⟩

/-- A worker that is gone has failed over one of its commands. -/
theorem WorkerRun.failsOver (hrun : WorkerRun m observe start labels w) (hstart : start.serving)
    (hdown : w.serving = false) : ∃ env cmd, FailsOver m observe start labels w env cmd := by
  induction hrun with
  | nil =>
      rw [hstart] at hdown
      cases hdown
  | @snoc labels w l w' hrun hstep ih =>
      cases hserving : w.serving with
      | false =>
          obtain ⟨env, cmd, earlier, later, u, cmds, rfl, hbefore, hup, hidle, hcmds, hexec,
            hafter⟩ := ih hserving
          exact ⟨env, cmd, earlier, later ++ [l], u, cmds, by simp, hbefore, hup, hidle, hcmds,
            hexec, hafter.snoc hstep⟩
      | true =>
          cases hstep with
          | answererFails env cmd cmds hup hup' hidle hcmds hexec =>
              exact ⟨env, cmd, labels, [], w, cmds, rfl, hrun, hup', hidle, hcmds, hexec, .nil⟩
          | _ =>
              have hsame : w.serving = false := hdown
              rw [hserving] at hsame
              cases hsame

theorem WorkerRun.gone_of_down (hrun : WorkerRun m observe start labels w)
    (hstart : start.serving) (hdown : w.serving = false) : Gone w := by
  obtain ⟨env, cmd, hfails⟩ := hrun.failsOver hstart hdown
  exact hfails.gone

end FailsOver

/-- Only the results that were left are ever handled, in their order. -/
theorem WorkerRun.handled_left {labels : List (Label C R ω)}
    (hrun : WorkerRun m observe w labels w') (hgone : Gone w) :
    handledOf labels ++ w'.results = w.results := by
  induction hrun with
  | nil => rfl
  | @snoc labels u l u' hrun hstep ih =>
      obtain ⟨hserving, hanswering⟩ := hrun.gone hgone
      rw [handledOf_snoc, ← ih]
      cases hstep with
      | receiveMsg msg results st out hup hidle hresults hhandle =>
          simp [hresults, Label.event?]
      | receiveCmd _ _ _ _ _ hup =>
          rw [hserving] at hup
          cases hup
      | sendResult r rest hup hmore =>
          rw [hanswering] at hmore
          cases hmore
      | _ => simp [Label.event?]

/-- Nothing is left to handle, to send or to show. -/
structure Frozen (w : Workers σ C R ω) : Prop extends Gone w where
  results_eq : w.results = []
  unsent_eq : w.unsent = []
  replying_eq : w.replying = false

theorem Frozen.step {l : Label C R ω} (hfrozen : Frozen w) (hstep : WorkerStep m observe w l w') :
    Frozen w' ∧ w'.state = w.state ∧ w'.shown = w.shown ∧ w'.up = w.up ∧
      ∀ seen, l = .looked seen → seen = w.shown := by
  obtain ⟨⟨hserving, hanswering⟩, hresults, hunsent, hreplying⟩ := hfrozen
  have hstays (feeding : Bool) (cmds : List C) :
      Frozen { w with feeding := feeding, cmds := cmds } :=
    ⟨⟨hserving, hanswering⟩, hresults, hunsent, hreplying⟩
  cases hstep with
  | look hup =>
      refine ⟨hstays _ _, rfl, rfl, rfl, ?_⟩
      intro seen hseen
      cases hseen
      rfl
  | feederFails => exact ⟨hstays _ _, rfl, rfl, rfl, by simp⟩
  | feed hup hfeeding hup' => exact absurd (hserving.symm.trans hup') (by simp)
  | receiveCmd _ _ _ _ _ hup' => exact absurd (hserving.symm.trans hup') (by simp)
  | answererFails _ _ _ _ hup' => exact absurd (hserving.symm.trans hup') (by simp)
  | sendResult _ _ _ hmore => exact absurd (hanswering.symm.trans hmore) (by simp)
  | receiveMsg _ _ _ _ _ _ hmore => exact absurd (hresults.symm.trans hmore) (by simp)
  | handlerFails _ _ _ _ hmore => exact absurd (hresults.symm.trans hmore) (by simp)
  | sendCmd _ _ _ _ hmore => exact absurd (hunsent.symm.trans hmore) (by simp)
  | sendFails _ _ _ _ hmore => exact absurd (hunsent.symm.trans hmore) (by simp)
  | publish _ hup' => exact absurd (hreplying.symm.trans hup') (by simp)

/-- From then on nothing changes, and every look sees the same. -/
theorem WorkerRun.frozen {labels : List (Label C R ω)} (hrun : WorkerRun m observe w labels w')
    (hfrozen : Frozen w) :
    Frozen w' ∧ w'.state = w.state ∧ w'.shown = w.shown ∧ w'.up = w.up ∧
      ∀ seen ∈ looks labels, seen = w.shown := by
  induction hrun with
  | nil => exact ⟨hfrozen, rfl, rfl, rfl, by simp [looks]⟩
  | @snoc labels u l u' hrun hstep ih =>
      obtain ⟨hu, hstate, hshown, hup, hlooks⟩ := ih
      obtain ⟨hu', hstate', hshown', hup', hlook⟩ := hu.step hstep
      refine ⟨hu', hstate'.trans hstate, hshown'.trans hshown, hup'.trans hup, ?_⟩
      intro seen hseen
      rw [looks_snoc, List.mem_append] at hseen
      rcases hseen with hold | hnew
      · exact hlooks seen hold
      · rw [← hshown]
        apply hlook
        cases l with
        | looked o => simpa [Label.look?, eq_comm] using hnew
        | _ => simp [Label.look?] at hnew

/-- No command is waiting to be sent, and none will be. -/
def Survives (m : Machine σ C R E) (w : Workers σ C R ω) : Prop :=
  w.unsent = [] ∧ m.survives w.state w.results

theorem Survives.step {l : Label C R ω} (hsurvives : Survives m w) (hgone : Gone w)
    (hstep : WorkerStep m observe w l w') : Survives m w' ∧ w'.up = w.up := by
  obtain ⟨hunsent, hleft⟩ := hsurvives
  obtain ⟨hserving, hanswering⟩ := hgone
  cases hstep with
  | receiveMsg msg results st out hup hidle hresults hhandle =>
      rw [hresults, Machine.survives, hhandle] at hleft
      cases out with
      | nil => exact ⟨⟨rfl, hleft⟩, rfl⟩
      | cons cmd rest => cases hleft
  | handlerFails msg results hup hidle hresults hhandle =>
      rw [hresults, Machine.survives, hhandle] at hleft
      cases hleft
  | sendCmd cmd rest hup hup' hmore =>
      rw [hunsent] at hmore
      cases hmore
  | sendFails cmd rest hup hdown hmore =>
      rw [hunsent] at hmore
      cases hmore
  | receiveCmd _ _ _ _ _ hup =>
      rw [hserving] at hup
      cases hup
  | sendResult r rest hup hmore =>
      rw [hanswering] at hmore
      cases hmore
  | _ => exact ⟨⟨hunsent, hleft⟩, rfl⟩

/-- Some way of going on ends the program. -/
def CanEnd (m : Machine σ C R E) (observe : σ → ω) (w : Workers σ C R ω) : Prop :=
  ∃ labels w', WorkerRun m observe w labels w' ∧ w'.up = false

theorem CanEnd.of_step {l : Label C R ω} (hstep : WorkerStep m observe w l w')
    (h : CanEnd m observe w') : CanEnd m observe w := by
  obtain ⟨labels, v, hrun, hdown⟩ := h
  exact ⟨[l] ++ labels, v, (WorkerRun.nil.snoc hstep).append hrun, hdown⟩

theorem canEnd_of_unsent (hup : w.up) (hgone : Gone w) (hunsent : w.unsent ≠ []) :
    CanEnd m observe w := by
  obtain ⟨cmd, rest, hunsent⟩ := List.exists_cons_of_ne_nil hunsent
  exact ⟨_, _, WorkerRun.nil.snoc (.sendFails w cmd rest hup hgone.serving_eq hunsent), rfl⟩

theorem canEnd_of_results (hup : w.up) (hgone : Gone w) (hunsent : w.unsent = [])
    (hidle : w.replying = false) (hleft : m.survives w.state w.results = false) :
    CanEnd m observe w := by
  generalize hresults : w.results = results at hleft
  induction results generalizing w with
  | nil => cases hleft
  | cons msg rest ih =>
      cases hhandle : m.handle msg w.state with
      | none =>
          have hfails : WorkerStep m observe w .quiet { w with up := false } :=
            .handlerFails w msg rest hup hidle hresults hhandle
          exact ⟨_, _, WorkerRun.nil.snoc hfails, rfl⟩
      | some r =>
          obtain ⟨st, out⟩ := r
          apply CanEnd.of_step (.receiveMsg w msg rest st out hup hidle hresults hhandle)
          have hgone' :
              Gone { w with state := st, replying := true, unsent := out, results := rest } :=
            ⟨hgone.serving_eq, hgone.answering_eq⟩
          cases out with
          | cons cmd out => exact canEnd_of_unsent hup hgone' (by simp)
          | nil =>
              apply CanEnd.of_step (.publish ⟨st, w.shown, true, [], w.cmds, w.answering, rest,
                w.feeding, w.serving, w.up⟩ hup rfl rfl)
              rw [Machine.survives, hhandle] at hleft
              exact @ih ⟨st, observe st, false, [], w.cmds, w.answering, rest, w.feeding, w.serving,
                w.up⟩ hup ⟨hgone.serving_eq, hgone.answering_eq⟩ rfl rfl rfl hleft

/-- The program goes on for ever, whatever happens, exactly when no message that
is left fails or asks for a command. -/
theorem stays_up_iff (hup : w.up) (hgone : Gone w) :
    (∀ labels w', WorkerRun m observe w labels w' → w'.up) ↔ Survives m w := by
  constructor
  · intro hstays
    by_contra hnot
    have hend : CanEnd m observe w := by
      by_cases hunsent : w.unsent = []
      · have hleft : m.survives w.state w.results = false := by
          by_contra hleft
          exact hnot ⟨hunsent, Bool.not_eq_false _ ▸ hleft⟩
        cases hreplying : w.replying with
        | false => exact canEnd_of_results hup hgone hunsent hreplying hleft
        | true =>
            apply CanEnd.of_step (.publish w hup hreplying hunsent)
            exact canEnd_of_results hup ⟨hgone.serving_eq, hgone.answering_eq⟩ hunsent rfl hleft
      · exact canEnd_of_unsent hup hgone hunsent
    obtain ⟨labels, w', hrun, hdown⟩ := hend
    rw [hstays labels w' hrun] at hdown
    cases hdown
  · intro hsurvives labels w' hrun
    have hkept : Survives m w' ∧ w'.up = w.up := by
      induction hrun with
      | nil => exact ⟨hsurvives, rfl⟩
      | snoc hrun hstep ih =>
          obtain ⟨hu, hupu⟩ := ih
          obtain ⟨hu', hupu'⟩ := hu.step (hrun.gone hgone) hstep
          exact ⟨hu', hupu'.trans hupu⟩
    rw [hkept.2, hup]

end FifoLoop
