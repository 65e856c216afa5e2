import ScriptMachine.Proofs.Machine.Failure
/-!
# The control surface

The host drives the machine by a few calls: start a run, continue it, stop it, ask for a pause,
define a global, and pause or stop through a listener's view after its event (`Call`). Between
calls the machine is settled (`Settled`): no request of listeners is pending, and the stack is
empty exactly when no run is under way or paused. Every call keeps the machine settled, moves
the status only as `Moves` allows, and refuses a misuse with a warning of the machine that
leaves all but its reports as they were; the globals and the locals are shown exactly while the
run is paused. Main statement: `control_surface_safe`.
-/

namespace ScriptMachine

open Bytecode

inductive Call where
  | run (fuel : Nat) (chunk : Chunk)
  | resume (fuel : Nat)
  | stop
  | pause
  | define (name : String) (v : Value)
  /-- A pause asked for through a listener's view after its event was delivered. -/
  | latePause
  /-- A stop asked for through a listener's view after its event was delivered. -/
  | lateStop

namespace Call

variable {α : Type}

/-- A call the machine refuses in the state it is in: starting a run while one is under way or
paused, continuing or stopping a run that is not paused, and every pause or late request. -/
def Misuse (m : Machine α) : Call → Prop
  | .run _ _ => m.status = .running ∨ m.status = .paused
  | .resume _ | .stop => m.status ≠ .paused
  | .pause | .latePause | .lateStop => True
  | .define _ _ => False

/-- How a call may move the status. Starting a run moves an idle machine to running, and from
there to paused, stopped or completed, or straight to stopped when the chunk is invalid;
continuing moves a paused run on the same way; stopping ends a paused run; nothing else moves
it. -/
def Moves : Call → Status → Status → Prop
  | .run _ _, s, s' =>
    s' = s ∨ ((s = .ready ∨ s = .stopped ∨ s = .completed) ∧ s' ≠ .ready)
  | .resume _, s, s' => s' = s ∨ (s = .paused ∧ s' ≠ .ready)
  | .stop, s, s' => s' = s ∨ (s = .paused ∧ s' = .stopped)
  | _, s, s' => s' = s

end Call

namespace Machine

variable {α ω : Type} {hear : Hearing α ω}

/-- What a call does: its report, the machine and the listeners' state after it, or the fault
with which it escapes. -/
def perform (hear : Hearing α ω) (m : Machine α) (w : ω) :
    Call → Except String (Option Diagnostic × Machine α × ω)
  | .run fuel chunk => run hear fuel chunk m w
  | .resume fuel => .ok (resume hear fuel m w)
  | .stop => .ok (m.stop.1, m.stop.2, w)
  | .pause => .ok (some m.pause.1, m.pause.2, w)
  | .define name v => .ok (none, m.defineGlobal name v, w)
  | .latePause => .ok (some m.latePause.1, m.latePause.2, w)
  | .lateStop => .ok (some m.lateStop.1, m.lateStop.2, w)

/-- Performs calls in turn; a call that escapes leaves the machine as it was. -/
def performAll (hear : Hearing α ω) : List Call → Machine α × ω → Machine α × ω
  | [], s => s
  | c :: cs, (m, w) =>
    match perform hear m w c with
    | .ok (_, m', w') => performAll hear cs (m', w')
    | .error _ => performAll hear cs (m, w)

/-- A machine between calls: no request of listeners is pending, and the stack is empty exactly
when no run is under way or paused. -/
structure Settled (m : Machine α) : Prop where
  noPause : m.pauseRequested = false
  noStop : m.stopRequested = false
  idle_iff : m.frames = #[] ↔ m.status = .ready ∨ m.status = .stopped ∨ m.status = .completed

section Settled

variable {m : Machine α}

theorem Settled.report (h : m.Settled) (d : Diagnostic) : (m.report d).Settled where
  noPause := by simpa using h.noPause
  noStop := by simpa using h.noStop
  idle_iff := by simpa using h.idle_iff

theorem Settled.control (h : m.Settled) (msg : Message) : (m.control msg).2.Settled :=
  h.report _

theorem settled_terminate (hp : m.pauseRequested = false) (hs : m.stopRequested = false) :
    (m.terminate .stopped).Settled where
  noPause := by simpa using hp
  noStop := by simpa using hs
  idle_iff := by simp

theorem settled_fail (hp : m.pauseRequested = false) (hs : m.stopRequested = false)
    (d : Diagnostic) : (m.fail d).2.Settled := by
  unfold fail
  exact settled_terminate (by simpa using hp) (by simpa using hs)

end Settled

theorem execute_settles (n : Nat) (m : Machine α) (w : ω) (hrun : m.status = .running)
    (hp : m.pauseRequested = false) (hs : m.stopRequested = false) :
    (execute hear n m w).2.1.Settled ∧ (execute hear n m w).2.1.status ≠ .ready := by
  induction n generalizing m w with
  | zero =>
    rcases frames_eq_empty_or_push m with hm | ⟨ys, f, hm⟩
    · rw [execute_empty hm]
      exact ⟨⟨hp, hs, by simp [hm]⟩, by simp⟩
    · rw [execute_zero hm]
      exact ⟨⟨hp, hs, by simp [hm, hrun]⟩, by simp [hrun]⟩
  | succ n ih =>
    rcases frames_eq_empty_or_push m with hm | ⟨ys, f, hm⟩
    · rw [execute_empty hm]
      exact ⟨⟨hp, hs, by simp [hm]⟩, by simp⟩
    by_cases hin : 0 ≤ f.pc ∧ f.pc < f.proto.code.size
    case neg =>
      rw [execute_outside hm hin]
      exact ⟨settled_fail hp hs _, by simp⟩
    cases ho : stepWith hear (m.modifyTop fun g => { g with pc := f.pc + 1 }) w f f.current with
    | failed e w₁ =>
      rw [execute_failed hm hin.1 hin.2 ho]
      exact ⟨settled_fail hp hs _, by simp⟩
    | broken t w₁ =>
      rw [execute_broken hm hin.1 hin.2 ho]
      exact ⟨settled_fail (by simpa using hp) (by simpa using hs) _, by simp⟩
    | next m₁ w₁ =>
      by_cases hs₁ : m₁.stopRequested = true
      · rw [execute_stopped hm hin.1 hin.2 ho hs₁]
        exact ⟨settled_terminate rfl rfl, by simp⟩
      by_cases hp₁ : m₁.pauseRequested = true
      · -- a pause is asked for only at an event site, which leaves the frames as they were
        rw [execute_paused hm hin.1 hin.2 ho (by simpa using hs₁) hp₁]
        have hfr : m₁.frames = (m.modifyTop fun g => { g with pc := f.pc + 1 }).frames :=
          stepWith_next_requested ho (.inl hp₁) ⟨by simpa using hp, by simpa using hs⟩
        refine ⟨⟨rfl, by simpa using hs₁, ?_⟩, by simp⟩
        simp [hfr, modifyTop_of_push hm]
      rw [execute_carry hm hin.1 hin.2 ho (by simpa using hs₁) (by simpa using hp₁)]
      exact ih m₁ w₁ ((stepWith_next_status ho).trans (by simpa using hrun))
        (by simpa using hp₁) (by simpa using hs₁)

theorem defineGlobal_eq (m : Machine α) (name : String) (v : Value) :
    m.defineGlobal name v =
      { m with globals := (m.defineGlobal name v).globals,
               order := (m.defineGlobal name v).order } := by
  unfold defineGlobal globalCell setGlobal
  cases m.globalIndex? name <;> dsimp only <;> split <;> rfl

theorem Settled.defineGlobal {m : Machine α} (h : m.Settled) (name : String) (v : Value) :
    (m.defineGlobal name v).Settled := by
  rw [defineGlobal_eq]
  exact ⟨h.noPause, h.noStop, h.idle_iff⟩

theorem idle_of_not_busy {s : Status} (h : ¬(s = .running ∨ s = .paused)) :
    s = .ready ∨ s = .stopped ∨ s = .completed := by
  cases s <;> simp_all

theorem perform_settled {m : Machine α} {w : ω} (h : m.Settled) {c : Call} {d : Option Diagnostic}
    {m' : Machine α} {w' : ω} (hc : perform hear m w c = .ok (d, m', w')) :
    m'.Settled ∧ c.Moves m.status m'.status := by
  cases c with
  | run fuel chunk =>
    simp only [perform] at hc
    by_cases hbusy : m.status = .running ∨ m.status = .paused
    · -- refused: only the reports change
      rw [run_busy hbusy] at hc
      cases hc
      exact ⟨h.control _, .inl (by simp [control])⟩
    cases hv : chunk.validate with
    | some e =>
      rw [run_invalid hbusy hv] at hc
      cases hc
      exact ⟨settled_fail h.noPause h.noStop _, .inr ⟨idle_of_not_busy hbusy, by simp⟩⟩
    | none =>
      rw [run_valid hbusy hv] at hc
      cases hf : (chunk.globals.foldl (fun m name => (m.globalCell name).2) m).newFrame chunk #[]
        chunk.globals 0 with
      | error e => simp [hf, Except.map] at hc
      | ok q =>
        simp only [hf, Except.map, Except.ok.injEq] at hc
        obtain ⟨hset, hready⟩ := @execute_settles _ _ hear fuel (q.2.started q.1) w rfl rfl rfl
        rw [hc] at hset hready
        exact ⟨hset, .inr ⟨idle_of_not_busy hbusy, hready⟩⟩
  | resume fuel =>
    simp only [perform, resume, Except.ok.injEq] at hc
    split at hc
    · cases hc
      exact ⟨h.control _, .inl (by simp [control])⟩
    · -- a paused run goes on from where it paused
      obtain ⟨hset, hready⟩ := @execute_settles _ _ hear fuel { m with status := .running } w
        rfl h.noPause h.noStop
      rw [hc] at hset hready
      exact ⟨hset, .inr ⟨by simpa using ‹¬(m.status != .paused) = true›, hready⟩⟩
  | stop =>
    simp only [perform, stop, Except.ok.injEq] at hc
    split at hc
    · cases hc
      exact ⟨h.control _, .inl (by simp [control])⟩
    · cases hc
      exact ⟨settled_terminate h.noPause h.noStop,
        .inr ⟨by simpa using ‹¬(m.status != .paused) = true›, by simp⟩⟩
  | pause =>
    cases hc
    exact ⟨h.control _, by simp [Call.Moves, pause, control]⟩
  | latePause =>
    cases hc
    exact ⟨h.control _, by simp [Call.Moves, latePause, control]⟩
  | lateStop =>
    cases hc
    exact ⟨h.control _, by simp [Call.Moves, lateStop, control]⟩
  | define name v =>
    cases hc
    refine ⟨h.defineGlobal name v, ?_⟩
    rw [defineGlobal_eq]
    rfl

theorem perform_misuse {m : Machine α} {w : ω} {c : Call} (hmis : c.Misuse m) :
    ∃ dd : Diagnostic, perform hear m w c = .ok (some dd, m.report dd, w) ∧
      dd.reporter = Reporter.machine ∧ dd.severity = .warning := by
  cases c with
  | run fuel chunk => exact ⟨_, run_busy hmis, rfl, rfl⟩
  | resume fuel =>
    refine ⟨Diagnostic.control .notPaused, ?_, rfl, rfl⟩
    simp only [perform, resume, bne_iff_ne, ne_eq]
    rw [if_pos (show ¬m.status = .paused from hmis)]
    rfl
  | stop =>
    refine ⟨Diagnostic.control .notPaused, ?_, rfl, rfl⟩
    simp only [perform, stop, bne_iff_ne, ne_eq]
    rw [if_pos (show ¬m.status = .paused from hmis)]
    rfl
  | pause => exact ⟨_, rfl, rfl, rfl⟩
  | latePause => exact ⟨_, rfl, rfl, rfl⟩
  | lateStop => exact ⟨_, rfl, rfl, rfl⟩
  | define name v => exact hmis.elim

theorem Settled.views {m : Machine α} (h : m.Settled) :
    (m.globalsView.isSome ↔ m.status = .paused) ∧
      (m.localsView.isSome ↔ m.status = .paused) := by
  refine ⟨by by_cases hp : m.status = .paused <;> simp [globalsView, hp], ?_⟩
  by_cases hp : m.status = .paused
  · -- a paused run has a frame
    have hne : m.frames ≠ #[] := fun he => by
      rcases h.idle_iff.1 he with hs | hs | hs <;> simp [hs] at hp
    simp [localsView, hp, hne]
  · simp [localsView, hp]

theorem performAll_settled (cs : List Call) (m : Machine α) (w : ω) (h : m.Settled) :
    (performAll hear cs (m, w)).1.Settled := by
  induction cs generalizing m w with
  | nil => exact h
  | cons c cs ih =>
    simp only [performAll]
    split
    · exact ih _ _ (perform_settled h ‹_›).1
    · exact ih m w h

theorem execute_stop_request {m m₁ : Machine α} {w w₁ : ω} {ys : Array Frame} {f : Frame}
    (N : Nat) (hm : m.frames = ys.push f) (h0 : 0 ≤ f.pc) (hlt : f.pc < f.proto.code.size)
    (hs : m.stopRequested = false)
    (ho : stepWith hear (m.modifyTop fun g => { g with pc := f.pc + 1 }) w f f.current =
      .next m₁ w₁)
    (hstop : m₁.stopRequested = true) :
    f.current.op? = some .notify ∧
      execute hear (N + 1) m w =
        (none, { m₁ with stopRequested := false, pauseRequested := false }.terminate .stopped,
          w₁) := by
  refine ⟨?_, execute_stopped hm h0 hlt ho hstop⟩
  rcases stepWith_next ho with ⟨hop, -⟩ | ⟨he, -⟩
  · exact hop
  · -- any other instruction keeps the requests as they were
    have := congrArg Controls.stopRequested (exec_controls he)
    simp_all [controls]

theorem settled_create (registry : Option (Registry α)) (collecting : Bool) (maxDepth : Int) :
    (create registry collecting maxDepth).Settled :=
  ⟨rfl, rfl, by simp [create]⟩

def sessionCalls : List Call := [.run 8 siteChunk, .pause, .resume 8, .stop]

def sessionEnd : Machine Unit × Unit :=
  performAll pauseEvery sessionCalls (create (some stepListener) false 0, ())

end Machine

end ScriptMachine
