import Mathlib.Data.List.Basic
import Mathlib.Tactic.Cases

/-!
Two workers in a ring. One takes the oldest command of a FIFO queue and
appends its results to a second FIFO queue; the other takes the oldest result,
updates its state and appends new commands to the first queue. A third party
appends one fixed command at any time. The two queues together form one
pipeline: an answer takes the place of its command, so nothing overtakes.

A probe reads the tokens it is interested in off both queues in pipeline
order. Where answers keep the probed value, the probed list changes only when
a result is handled: its oldest token leaves and new ones join at the end.
-/

namespace FifoLoop

variable {σ C R E β : Type*}

structure Loop (σ C R : Type*) where
  state : σ
  cmds : List C
  results : List R

/-- `exec` answers a command in an environment, `handle` consumes a result.
Both are partial: `none` means that the worker fails at this input. -/
structure Machine (σ C R E : Type*) where
  feed : C
  exec : E → C → Option (List R)
  handle : R → σ → Option (σ × List C)

inductive Event (C R : Type*) where
  | fed
  | answered (cmd : C) (out : List R)
  | handled (msg : R) (out : List C)

inductive Step (m : Machine σ C R E) : Loop σ C R → Event C R → Loop σ C R → Prop
  | feed (st : σ) (cmds : List C) (results : List R) :
      Step m ⟨st, cmds, results⟩ .fed ⟨st, cmds ++ [m.feed], results⟩
  | answer (env : E) (st : σ) (cmd : C) (cmds : List C) (results out : List R)
      (hexec : m.exec env cmd = some out) :
      Step m ⟨st, cmd :: cmds, results⟩ (.answered cmd out) ⟨st, cmds, results ++ out⟩
  | handle (st st' : σ) (msg : R) (cmds out : List C) (results : List R)
      (hhandle : m.handle msg st = some (st', out)) :
      Step m ⟨st, cmds, msg :: results⟩ (.handled msg out) ⟨st', cmds ++ out, results⟩

/-- One step of a run, with the configuration it was taken in. -/
structure Transition (σ C R : Type*) where
  before : Loop σ C R
  event : Event C R

inductive Run (m : Machine σ C R E) (start : Loop σ C R) :
    List (Transition σ C R) → Loop σ C R → Prop
  | nil : Run m start [] start
  | snoc {trace s e t} (hrun : Run m start trace s) (hstep : Step m s e t) :
      Run m start (trace ++ [⟨s, e⟩]) t

variable {m : Machine σ C R E}

theorem Run.append {s t u : Loop σ C R} {first second : List (Transition σ C R)}
    (hfirst : Run m s first t) (hsecond : Run m t second u) :
    Run m s (first ++ second) u := by
  induction hsecond with
  | nil => simpa using hfirst
  | snoc _ hstep ih =>
      rw [← List.append_assoc]
      exact ih.snoc hstep

/-- Every transition of a run starts in a configuration that the run's own
beginning reaches. -/
theorem Run.before_reached {s t : Loop σ C R} {trace : List (Transition σ C R)}
    (hrun : Run m s trace t) {earlier later : List (Transition σ C R)}
    {x : Transition σ C R} (hsplit : trace = earlier ++ x :: later) :
    Run m s earlier x.before ∧ ∃ u, Step m x.before x.event u ∧ Run m u later t := by
  induction hrun generalizing later with
  | nil => simp at hsplit
  | @snoc trace a e b hearlier hstep ih =>
      rcases List.eq_nil_or_concat later with rfl | ⟨rest, last, rfl⟩
      · obtain ⟨rfl, hlast⟩ := List.append_inj' hsplit rfl
        obtain rfl : (⟨a, e⟩ : Transition σ C R) = x := by simpa using hlast
        exact ⟨hearlier, b, hstep, .nil⟩
      · have hcons : trace ++ [⟨a, e⟩] = (earlier ++ x :: rest) ++ [last] := by
          simpa using hsplit
        obtain ⟨rfl, hlast⟩ := List.append_inj' hcons rfl
        obtain rfl : (⟨a, e⟩ : Transition σ C R) = last := by simpa using hlast
        obtain ⟨hreach, u, hfirst, hrest⟩ := ih rfl
        refine ⟨hreach, u, hfirst, ?_⟩
        simpa using hrest.snoc hstep

inductive Action (E : Type*) where
  | feed
  | answer (env : E)
  | handle

/-- The step a scheduler's choice leads to, when the chosen worker has input
and does not fail on it. -/
def Machine.act (m : Machine σ C R E) : Loop σ C R → Action E → Option (Event C R × Loop σ C R)
  | ⟨st, cmds, results⟩, .feed => some (.fed, ⟨st, cmds ++ [m.feed], results⟩)
  | ⟨_, [], _⟩, .answer _ => none
  | ⟨st, cmd :: cmds, results⟩, .answer env =>
      (m.exec env cmd).map (fun out => (.answered cmd out, ⟨st, cmds, results ++ out⟩))
  | ⟨_, _, []⟩, .handle => none
  | ⟨st, cmds, msg :: results⟩, .handle =>
      (m.handle msg st).map (fun r => (.handled msg r.2, ⟨r.1, cmds ++ r.2, results⟩))

def Machine.replay (m : Machine σ C R E) :
    Loop σ C R → List (Action E) → Option (List (Transition σ C R) × Loop σ C R)
  | s, [] => some ([], s)
  | s, a :: rest =>
      match m.act s a with
      | none => none
      | some (e, t) => (m.replay t rest).map (fun r => (⟨s, e⟩ :: r.1, r.2))

theorem act_step {s t : Loop σ C R} {a : Action E} {e : Event C R}
    (h : m.act s a = some (e, t)) : Step m s e t := by
  obtain ⟨st, cmds, results⟩ := s
  cases a with
  | feed =>
      simp only [Machine.act, Option.some.injEq, Prod.mk.injEq] at h
      obtain ⟨rfl, rfl⟩ := h
      exact .feed st cmds results
  | answer env =>
      cases cmds with
      | nil => simp [Machine.act] at h
      | cons cmd cmds =>
          simp only [Machine.act, Option.map_eq_some_iff, Prod.mk.injEq] at h
          obtain ⟨out, hexec, rfl, rfl⟩ := h
          exact .answer env st cmd cmds results out hexec
  | handle =>
      cases results with
      | nil => simp [Machine.act] at h
      | cons msg results =>
          simp only [Machine.act, Option.map_eq_some_iff, Prod.mk.injEq] at h
          obtain ⟨⟨st', out⟩, hhandle, rfl, rfl⟩ := h
          exact .handle st st' msg cmds out results hhandle

theorem replay_run {s t : Loop σ C R} {actions : List (Action E)}
    {trace : List (Transition σ C R)} (h : m.replay s actions = some (trace, t)) :
    Run m s trace t := by
  induction actions generalizing s trace with
  | nil =>
      simp only [Machine.replay, Option.some.injEq, Prod.mk.injEq] at h
      obtain ⟨rfl, rfl⟩ := h
      exact .nil
  | cons a rest ih =>
      simp only [Machine.replay] at h
      split at h
      · cases h
      · next e u hact =>
        simp only [Option.map_eq_some_iff, Prod.mk.injEq] at h
        obtain ⟨⟨tail, last⟩, hrest, rfl, rfl⟩ := h
        have hone : Run m s [⟨s, e⟩] u := Run.nil.snoc (act_step hact)
        simpa using hone.append (ih hrest)

def Event.handledMsg? : Event C R → Option R
  | .handled msg _ => some msg
  | _ => none

def Event.issued : Event C R → List C
  | .handled _ out => out
  | _ => []

def Event.answer? : Event C R → Option (C × List R)
  | .answered cmd out => some (cmd, out)
  | _ => none

def handledMsgs (trace : List (Transition σ C R)) : List R :=
  trace.filterMap (fun x => x.event.handledMsg?)

def issued (trace : List (Transition σ C R)) : List C :=
  trace.flatMap (fun x => x.event.issued)

def answers (trace : List (Transition σ C R)) : List (C × List R) :=
  trace.filterMap (fun x => x.event.answer?)

@[simp] theorem handledMsgs_nil : handledMsgs ([] : List (Transition σ C R)) = [] := rfl

@[simp] theorem issued_nil : issued ([] : List (Transition σ C R)) = [] := rfl

@[simp] theorem answers_nil : answers ([] : List (Transition σ C R)) = [] := rfl

@[simp] theorem handledMsgs_snoc (trace : List (Transition σ C R)) (x : Transition σ C R) :
    handledMsgs (trace ++ [x]) = handledMsgs trace ++ x.event.handledMsg?.toList := by
  unfold handledMsgs
  rw [List.filterMap_append]
  cases h : x.event.handledMsg? <;> simp [h]

/-- What is read off the handled messages grows with the message of the step. -/
theorem filterMap_handledMsgs_snoc (f : R → Option β) (trace : List (Transition σ C R))
    (x : Transition σ C R) :
    (handledMsgs (trace ++ [x])).filterMap f =
      (handledMsgs trace).filterMap f ++ (x.event.handledMsg?.bind f).toList := by
  rw [handledMsgs_snoc, List.filterMap_append]
  cases x.event.handledMsg? with
  | none => rfl
  | some msg => cases h : f msg <;> simp [h]

@[simp] theorem issued_snoc (trace : List (Transition σ C R)) (x : Transition σ C R) :
    issued (trace ++ [x]) = issued trace ++ x.event.issued := by
  simp [issued]

@[simp] theorem answers_snoc (trace : List (Transition σ C R)) (x : Transition σ C R) :
    answers (trace ++ [x]) = answers trace ++ x.event.answer?.toList := by
  unfold answers
  rw [List.filterMap_append]
  cases h : x.event.answer? <;> simp [h]

theorem mem_handledMsgs {trace : List (Transition σ C R)} {msg : R}
    (h : msg ∈ handledMsgs trace) :
    ∃ earlier s out later, trace = earlier ++ ⟨s, .handled msg out⟩ :: later := by
  obtain ⟨⟨s, e⟩, hx, hmsg⟩ := List.mem_filterMap.mp h
  obtain ⟨earlier, later, hsplit⟩ := List.append_of_mem hx
  cases e with
  | handled msg' out =>
      cases hmsg
      exact ⟨earlier, s, out, later, hsplit⟩
  | _ => cases hmsg

theorem mem_answers {trace : List (Transition σ C R)} {cmd : C} {out : List R}
    (h : (cmd, out) ∈ answers trace) : ∃ x ∈ trace, x.event = .answered cmd out := by
  obtain ⟨⟨s, e⟩, hx, hanswer⟩ := List.mem_filterMap.mp h
  cases e with
  | answered cmd' out' =>
      cases hanswer
      exact ⟨_, hx, rfl⟩
  | _ => cases hanswer

theorem handledMsgs_append (first second : List (Transition σ C R)) :
    handledMsgs (first ++ second) = handledMsgs first ++ handledMsgs second :=
  List.filterMap_append

@[simp] theorem handledMsg?_fed : (Event.fed : Event C R).handledMsg? = none := rfl

@[simp] theorem handledMsg?_answered (cmd : C) (out : List R) :
    (Event.answered cmd out).handledMsg? = none := rfl

@[simp] theorem handledMsg?_handled (msg : R) (out : List C) :
    (Event.handled msg out).handledMsg? = some msg := rfl

theorem mem_handledMsgs_last (trace : List (Transition σ C R)) (s : Loop σ C R) (msg : R)
    (out : List C) : msg ∈ handledMsgs (trace ++ [⟨s, .handled msg out⟩]) := by
  rw [handledMsgs_snoc]
  exact List.mem_append_right _ List.mem_cons_self

@[simp] theorem issued_fed : (Event.fed : Event C R).issued = [] := rfl

@[simp] theorem issued_answered (cmd : C) (out : List R) :
    (Event.answered cmd out).issued = [] := rfl

@[simp] theorem issued_handled (msg : R) (out : List C) :
    (Event.handled msg out).issued = out := rfl

@[simp] theorem answer?_fed : (Event.fed : Event C R).answer? = none := rfl

@[simp] theorem answer?_answered (cmd : C) (out : List R) :
    (Event.answered cmd out).answer? = some (cmd, out) := rfl

@[simp] theorem answer?_handled (msg : R) (out : List C) :
    (Event.handled msg out).answer? = none := rfl

structure Probe (C R β : Type*) where
  ofCmd : C → Option β
  ofResult : R → Option β

/-- The probed tokens of both queues, oldest first. -/
def Probe.view (p : Probe C R β) (s : Loop σ C R) : List β :=
  s.results.filterMap p.ofResult ++ s.cmds.filterMap p.ofCmd

/-- An answer that carries the probed value of its command, no more and no
less. Feeding and handling keep every probe in this sense. -/
def Probe.Keeps (p : Probe C R β) : Event C R → Prop
  | .answered cmd out => out.filterMap p.ofResult = (p.ofCmd cmd).toList
  | _ => True

theorem Probe.view_fed (p : Probe C R β) {s t : Loop σ C R} (h : Step m s .fed t) :
    p.view t = p.view s ++ (p.ofCmd m.feed).toList := by
  cases h with
  | feed st cmds results =>
      cases hfeed : p.ofCmd m.feed <;> simp [Probe.view, hfeed]

theorem Probe.view_answered (p : Probe C R β) {s t : Loop σ C R} {cmd : C} {out : List R}
    (h : Step m s (.answered cmd out) t) (hkeep : p.Keeps (.answered cmd out)) :
    p.view t = p.view s := by
  cases h with
  | answer env st cmd cmds results out hexec =>
      simp only [Probe.Keeps] at hkeep
      cases hcmd : p.ofCmd cmd <;> simp [Probe.view, hkeep, hcmd]

/-- An answer that keeps nothing still leaves the tokens around it in place. -/
theorem Probe.view_replaced (p : Probe C R β) {s t : Loop σ C R} {cmd : C} {out : List R}
    (h : Step m s (.answered cmd out) t) :
    ∃ rest, p.view s = s.results.filterMap p.ofResult ++ (p.ofCmd cmd).toList ++ rest ∧
      p.view t = s.results.filterMap p.ofResult ++ out.filterMap p.ofResult ++ rest := by
  cases h with
  | answer env st cmd cmds results out hexec =>
      refine ⟨cmds.filterMap p.ofCmd, ?_, ?_⟩
      · cases hcmd : p.ofCmd cmd <;> simp [Probe.view, hcmd]
      · simp [Probe.view]

theorem Probe.view_handled (p : Probe C R β) {s t : Loop σ C R} {msg : R} {out : List C}
    (h : Step m s (.handled msg out) t) :
    ∃ rest, p.view s = (p.ofResult msg).toList ++ rest ∧
      p.view t = rest ++ out.filterMap p.ofCmd := by
  cases h with
  | handle st st' msg cmds out results hhandle =>
      refine ⟨results.filterMap p.ofResult ++ cmds.filterMap p.ofCmd, ?_, ?_⟩
      · cases hmsg : p.ofResult msg <;> simp [Probe.view, hmsg]
      · simp [Probe.view]

theorem Step.state_fed {s t : Loop σ C R} (h : Step m s .fed t) : t.state = s.state := by
  cases h
  rfl

theorem Step.state_answered {s t : Loop σ C R} {cmd : C} {out : List R}
    (h : Step m s (.answered cmd out) t) : t.state = s.state := by
  cases h
  rfl

theorem Step.handle_eq {s t : Loop σ C R} {msg : R} {out : List C}
    (h : Step m s (.handled msg out) t) : m.handle msg s.state = some (t.state, out) := by
  cases h
  assumption

theorem Step.exec_eq {s t : Loop σ C R} {cmd : C} {out : List R}
    (h : Step m s (.answered cmd out) t) : ∃ env, m.exec env cmd = some out := by
  cases h with
  | answer env _ _ _ _ _ hexec => exact ⟨env, hexec⟩

/-- The results handled so far and those still waiting are, in order, all the
results that were ever sent. -/
theorem Run.handled_append_results {start s : Loop σ C R} {trace : List (Transition σ C R)}
    (hrun : Run m start trace s) :
    handledMsgs trace ++ s.results = start.results ++ (answers trace).flatMap Prod.snd := by
  induction hrun with
  | nil => simp
  | @snoc trace s e t hrun hstep ih =>
      cases hstep with
      | feed => simpa using ih
      | answer env st cmd cmds results out hexec =>
          have hsent : handledMsgs trace ++ (results ++ out) =
              start.results ++ ((answers trace).flatMap Prod.snd ++ out) := by
            rw [← List.append_assoc, ih, List.append_assoc]
          simpa using hsent
      | handle => simpa using ih

theorem Run.answers_exec {start s : Loop σ C R} {trace : List (Transition σ C R)}
    (hrun : Run m start trace s) {cmd : C} {out : List R} (h : (cmd, out) ∈ answers trace) :
    ∃ env, m.exec env cmd = some out := by
  induction hrun with
  | nil => simp at h
  | snoc hrun hstep ih =>
      rw [answers_snoc, List.mem_append] at h
      rcases h with h | h
      · exact ih h
      · cases hstep with
        | feed => simp at h
        | handle => simp at h
        | answer env st c cmds results o hexec =>
            simp only [answer?_answered, Option.toList_some, List.mem_singleton,
              Prod.mk.injEq] at h
            obtain ⟨rfl, rfl⟩ := h
            exact ⟨env, hexec⟩

/-- Every handled message was the answer to some command. -/
theorem Run.handled_answered {start s : Loop σ C R} {trace : List (Transition σ C R)}
    (hrun : Run m start trace s) (hempty : start.results = []) {msg : R}
    (h : msg ∈ handledMsgs trace) :
    ∃ x ∈ trace, ∃ env cmd out, x.event = .answered cmd out ∧ m.exec env cmd = some out ∧
      msg ∈ out := by
  have hsent : msg ∈ (answers trace).flatMap Prod.snd := by
    have hfifo := hrun.handled_append_results
    rw [hempty, List.nil_append] at hfifo
    rw [← hfifo]
    exact List.mem_append_left _ h
  obtain ⟨⟨cmd, out⟩, hanswer, hout⟩ := List.mem_flatMap.mp hsent
  obtain ⟨env, hexec⟩ := hrun.answers_exec hanswer
  obtain ⟨x, hx, hevent⟩ := mem_answers hanswer
  exact ⟨x, hx, env, cmd, out, hevent, hexec, hout⟩

/-- The waiting results with the commands they answer. -/
def waiting (trace : List (Transition σ C R)) : List (C × R) :=
  ((answers trace).flatMap (fun a => a.2.map (fun r => (a.1, r)))).drop
    (handledMsgs trace).length

theorem waiting_results {start s : Loop σ C R} {trace : List (Transition σ C R)}
    (hrun : Run m start trace s) (hempty : start.results = []) :
    (waiting trace).map Prod.snd = s.results := by
  have hfifo := hrun.handled_append_results
  have hall : ((answers trace).flatMap (fun a => a.2.map (fun r => (a.1, r)))).map Prod.snd =
      (answers trace).flatMap Prod.snd := by
    simp [List.map_flatMap, Function.comp_def]
  rw [hempty, List.nil_append] at hfifo
  rw [waiting, List.map_drop, hall, ← hfifo, List.drop_left]

/-- A waiting result is an answer to the command it is listed with. -/
theorem Run.waiting_sent {start s : Loop σ C R} {trace : List (Transition σ C R)}
    (hrun : Run m start trace s) :
    ∀ a ∈ waiting trace, ∃ env sent, m.exec env a.1 = some sent ∧ a.2 ∈ sent := by
  intro a ha
  obtain ⟨⟨cmd, sent⟩, hmem, hpair⟩ := List.mem_flatMap.mp (List.mem_of_mem_drop ha)
  obtain ⟨r, hr, rfl⟩ := List.mem_map.mp hpair
  obtain ⟨env, hexec⟩ := hrun.answers_exec hmem
  exact ⟨env, sent, hexec, hr⟩

/-- The requests a run has not yet seen settled: those of the waiting results,
then those still queued. -/
def requests (f : C → Option β) (trace : List (Transition σ C R)) (s : Loop σ C R) : List β :=
  (waiting trace).filterMap (fun a => f a.1) ++ s.cmds.filterMap f

theorem requests_fed (f : C → Option β) {s t : Loop σ C R} {trace : List (Transition σ C R)}
    (h : Step m s .fed t) :
    requests f (trace ++ [⟨s, .fed⟩]) t = requests f trace s ++ (f m.feed).toList := by
  cases h with
  | feed st cmds results =>
      have hwaiting : waiting (trace ++ [⟨⟨st, cmds, results⟩, .fed⟩]) = waiting trace := by
        simp [waiting]
      cases hfeed : f m.feed <;> simp [requests, hwaiting, hfeed]

theorem requests_answered (f : C → Option β) {start s t : Loop σ C R}
    {trace : List (Transition σ C R)} {cmd : C} {out : List R}
    (hrun : Run m start trace s) (hempty : start.results = [])
    (h : Step m s (.answered cmd out) t) (hone : f cmd = none ∨ out.length = 1) :
    requests f (trace ++ [⟨s, .answered cmd out⟩]) t = requests f trace s := by
  have hle : (handledMsgs trace).length ≤
      ((answers trace).flatMap (fun a => a.2.map (fun r => (a.1, r)))).length := by
    have hfifo := congrArg List.length hrun.handled_append_results
    simp only [hempty, List.nil_append, List.length_append, List.length_flatMap] at hfifo
    simp only [List.length_flatMap, List.length_map]
    omega
  have hwaiting : waiting (trace ++ [⟨s, .answered cmd out⟩]) =
      waiting trace ++ out.map (fun r => (cmd, r)) := by
    simp [waiting, List.drop_append_of_le_length hle]
  have hout : (out.map (fun r => (cmd, r))).filterMap (fun a => f a.1) = (f cmd).toList := by
    rcases hone with hnone | hlen
    · simp [List.filterMap_map, hnone]
    · obtain ⟨r, rfl⟩ := List.length_eq_one_iff.mp hlen
      cases hcmd : f cmd <;> simp [hcmd]
  cases h with
  | answer env st cmd cmds results out hexec =>
      rw [requests, hwaiting, List.filterMap_append, hout]
      cases hcmd : f cmd <;> simp [requests, hcmd]

/-- Handling settles the oldest request, which is that of the command the
message answers, and adds the requests of the issued commands. -/
theorem requests_handled (f : C → Option β) {start s t : Loop σ C R}
    {trace : List (Transition σ C R)} {msg : R} {out : List C}
    (hrun : Run m start trace s) (hempty : start.results = [])
    (h : Step m s (.handled msg out) t) :
    ∃ cmd rest, (∃ env sent, m.exec env cmd = some sent ∧ msg ∈ sent) ∧
      requests f trace s = (f cmd).toList ++ rest ∧
      requests f (trace ++ [⟨s, .handled msg out⟩]) t = rest ++ out.filterMap f := by
  have hresults := waiting_results hrun hempty
  have hsent := hrun.waiting_sent
  have hdrop : waiting (trace ++ [⟨s, .handled msg out⟩]) = (waiting trace).drop 1 := by
    simp [waiting, List.drop_drop]
  cases h with
  | handle st st' msg cmds out results hhandle =>
      cases hw : waiting trace with
      | nil => simp [hw] at hresults
      | cons a rest =>
          obtain ⟨cmd, r⟩ := a
          simp only [hw, List.map_cons, List.cons.injEq] at hresults
          obtain ⟨rfl, -⟩ := hresults
          refine ⟨cmd, rest.filterMap (fun a => f a.1) ++ cmds.filterMap f,
            hsent (cmd, r) (by simp [hw]), ?_, ?_⟩
          · cases hcmd : f cmd <;> simp [requests, hw, hcmd]
          · simp [requests, hdrop, hw]

end FifoLoop
