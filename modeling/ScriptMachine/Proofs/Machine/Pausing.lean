import Mathlib
import ScriptMachine.Proofs.Machine.Controls
/-!
# Pausing is transparent

A listener may ask the run to pause after the event it hears. The run then stops just past the
event site, and continuing it carries on from there. Main statement: `pausing_transparent`. A
run that is continued each time it pauses ends as the same run with the pause requests left
out: the same printed text, events heard, globals, machine and report. Each pause is an exact
checkpoint: the paused machine, set running again, is the one the run without pauses reaches at
that point (`execute_checkpoint`).
-/

namespace ScriptMachine

def Hearing.dropPauses {α ω : Type} (hear : Hearing α ω) : Hearing α ω :=
  fun l e sc w => (hear l e sc w).map fun (w, r) => (w, { r with pause := false })

namespace Machine

open Bytecode

variable {α ω : Type} {hear : Hearing α ω}

theorem foldlM_map_comm {ε σ τ β : Type} (φ : σ → τ) {F : σ → β → Except ε σ}
    {G : τ → β → Except ε τ} (hstep : ∀ s b, G (φ s) b = (F s b).map φ) :
    ∀ (l : List β) (s : σ), l.foldlM G (φ s) = (l.foldlM F s).map φ
  | [], s => rfl
  | b :: l, s => by
    simp only [List.foldlM_cons, hstep]
    cases F s b with
    | error e => rfl
    | ok s' => exact foldlM_map_comm φ hstep l s'

theorem dispatch_dropPauses (m : Machine α) (w : ω) (n : Notification) :
    m.dispatch hear.dropPauses w n =
      (m.dispatch hear w n).map fun (m', w') =>
        ({ m' with pauseRequested := m.pauseRequested }, w') := by
  unfold dispatch deliver
  cases hasKindCode m.registry n.kind with
  | error t => rfl
  | ok listened =>
    cases listened
    · rfl
    dsimp only
    cases m.eventOf ((Kind.ofCode? n.kind).getD .assignment) n with
    | error e => cases e <;> rfl
    | ok ev? =>
      cases ev? with
      | none => rfl
      | some ev =>
        -- each listener's step agrees, up to the pause request, with its step that may pause
        refine foldlM_map_comm
          (fun p : Machine α × ω => ({ p.1 with pauseRequested := m.pauseRequested }, p.2))
          ?_ _ (m, w)
        rintro ⟨m', w'⟩ l
        simp only [Hearing.dropPauses]
        cases hear l ev m.scene w' with
        | error t => rfl
        | ok p => simp [Except.map]

/-- An outcome with the pause request of its machine set to `b`. -/
def Outcome.withPause (b : Bool) : Outcome α ω → Outcome α ω
  | .next m w => .next { m with pauseRequested := b } w
  | o => o

theorem stepWith_dropPauses (m : Machine α) (w : ω) (f : Frame) (i : Instruction) :
    stepWith hear.dropPauses m w f i = (stepWith hear m w f i).withPause m.pauseRequested := by
  unfold stepWith
  split
  · split
    · rw [dispatch_dropPauses]
      cases m.dispatch hear w _ with
      | error e => rfl
      | ok p => rfl
    · rfl
  · cases he : m.exec i with
    | ok m' =>
      have hp : m'.pauseRequested = m.pauseRequested :=
        congrArg Controls.pauseRequested (exec_controls he)
      simp only [Outcome.withPause, ← hp]
    | error e => cases e <;> rfl

/-- The innermost frame stands just past an event site. -/
def AfterEventSite (m : Machine α) : Prop :=
  ∃ (ys : Array Frame) (f : Frame), m.frames = ys.push f ∧
    ({ f with pc := f.pc - 1 } : Frame).current.op? = some .notify

/-- A run pauses only just past an event site, asking for nothing more; and the paused machine,
set running again, is the machine the run without pauses reaches after as many instructions.
A run that does not pause is the run without pauses. -/
theorem execute_checkpoint (n : Nat) (m : Machine α) (w : ω) (hrun : m.status = .running)
    (hp : m.pauseRequested = false) {d : Option Diagnostic} {p : Machine α} {w' : ω}
    (h : execute hear n m w = (d, p, w')) :
    (p.status = .paused → d = none ∧ p.pauseRequested = false ∧ p.AfterEventSite ∧
      ∃ j ≤ n, ∀ k, execute hear.dropPauses (k + j) m w =
        execute hear.dropPauses k { p with status := .running } w') ∧
    (p.status ≠ .paused → execute hear.dropPauses n m w = (d, p, w')) := by
  induction n generalizing m w with
  | zero =>
    rcases frames_eq_empty_or_push m with hm | ⟨ys, f, hm⟩
    · rw [execute_empty hm] at h
      cases h
      exact ⟨fun hs => by simp at hs, fun _ => execute_empty hm⟩
    · rw [execute_zero hm] at h
      cases h
      exact ⟨fun hs => by simp [hrun] at hs, fun _ => execute_zero hm⟩
  | succ n ih =>
    rcases frames_eq_empty_or_push m with hm | ⟨ys, f, hm⟩
    · rw [execute_empty hm] at h
      cases h
      exact ⟨fun hs => by simp at hs, fun _ => execute_empty hm⟩
    by_cases hin : 0 ≤ f.pc ∧ f.pc < f.proto.code.size
    case neg =>
      rw [execute_outside hm hin] at h
      cases h
      exact ⟨fun hs => by simp at hs, fun _ => execute_outside hm hin⟩
    -- without pause requests the instruction ends the same way, its request dropped
    have quiet : stepWith hear.dropPauses (m.modifyTop fun g => { g with pc := f.pc + 1 }) w f
        f.current =
          (stepWith hear (m.modifyTop fun g => { g with pc := f.pc + 1 }) w f f.current).withPause
            false := by
      rw [stepWith_dropPauses, pauseRequested_modifyTop, hp]
    cases ho : stepWith hear (m.modifyTop fun g => { g with pc := f.pc + 1 }) w f f.current with
    | failed e w₁ =>
      rw [execute_failed hm hin.1 hin.2 ho] at h
      cases h
      rw [ho] at quiet
      exact ⟨fun hs => by simp at hs, fun _ => execute_failed hm hin.1 hin.2 quiet⟩
    | broken t w₁ =>
      rw [execute_broken hm hin.1 hin.2 ho] at h
      cases h
      rw [ho] at quiet
      exact ⟨fun hs => by simp at hs, fun _ => execute_broken hm hin.1 hin.2 quiet⟩
    | next m₁ w₁ =>
      replace quiet : stepWith hear.dropPauses (m.modifyTop fun g => { g with pc := f.pc + 1 }) w f
          f.current = .next { m₁ with pauseRequested := false } w₁ := by
        rw [quiet, ho]
        rfl
      have hst : m₁.status = .running := (stepWith_next_status ho).trans (by simpa using hrun)
      by_cases hs : m₁.stopRequested = true
      · -- a stop request ends both runs the same way
        rw [execute_stopped hm hin.1 hin.2 ho hs] at h
        cases h
        have hq := execute_stopped (n := n) hm hin.1 hin.2 quiet hs
        exact ⟨fun hps => by simp at hps, fun _ => hq⟩
      have carry : ∀ N, execute hear.dropPauses (N + 1) m w =
          execute hear.dropPauses N { m₁ with pauseRequested := false } w₁ := fun N =>
        execute_carry hm hin.1 hin.2 quiet (by simpa using hs) rfl
      by_cases hpq : m₁.pauseRequested = true
      · -- the run pauses here: one instruction in, just past the event site
        rw [execute_paused hm hin.1 hin.2 ho (by simpa using hs) hpq] at h
        cases h
        refine ⟨fun _ => ⟨rfl, rfl, ?_, 1, by omega, fun k => ?_⟩,
          fun hps => by simp at hps⟩
        · rcases stepWith_next ho with ⟨hop, n', -, hd⟩ | ⟨he, -⟩
          · obtain ⟨a, b, rfl⟩ := dispatch_asked hd
            refine ⟨ys, { f with pc := f.pc + 1 }, ?_, ?_⟩
            · simp [modifyTop_of_push hm]
            · simpa [Frame.current] using hop
          · have := congrArg Controls.pauseRequested (exec_controls he)
            simp_all [controls]
        · rw [carry]
          congr 2
      · -- the run carries on from the same machine in both
        have hm₁ : { m₁ with pauseRequested := false } = m₁ := by
          cases m₁
          simp_all
        rw [execute_carry hm hin.1 hin.2 ho (by simpa using hs) (by simpa using hpq)] at h
        obtain ⟨ih₁, ih₂⟩ := ih m₁ w₁ hst (by simpa using hpq) h
        refine ⟨fun hps => ?_, fun hps => by rw [carry, hm₁, ih₂ hps]⟩
        obtain ⟨hd, hpp, hafter, j, hj, hk⟩ := ih₁ hps
        refine ⟨hd, hpp, hafter, j + 1, by omega, fun k => ?_⟩
        rw [← Nat.add_assoc, carry, hm₁, hk]

theorem execute_add_of_ended (n k : Nat) (m : Machine α) (w : ω) (hrun : m.status = .running)
    {r : Option Diagnostic × Machine α × ω} (h : execute hear n m w = r)
    (hend : r.2.1.status ≠ .running) : execute hear (n + k) m w = r := by
  induction n generalizing m w with
  | zero =>
    rcases frames_eq_empty_or_push m with hm | ⟨ys, f, hm⟩
    · rw [execute_empty hm] at h ⊢
      exact h
    · rw [execute_zero hm] at h
      subst h
      exact absurd hrun hend
  | succ n ih =>
    rcases frames_eq_empty_or_push m with hm | ⟨ys, f, hm⟩
    · rw [execute_empty hm] at h ⊢
      exact h
    rw [Nat.add_right_comm]
    by_cases hin : 0 ≤ f.pc ∧ f.pc < f.proto.code.size
    case neg =>
      rw [execute_outside hm hin] at h ⊢
      exact h
    -- every way a turn ends the run ignores the fuel left; carrying on is the induction
    cases ho : stepWith hear (m.modifyTop fun g => { g with pc := f.pc + 1 }) w f f.current with
    | failed e w₁ =>
      rw [execute_failed hm hin.1 hin.2 ho] at h ⊢
      exact h
    | broken t w₁ =>
      rw [execute_broken hm hin.1 hin.2 ho] at h ⊢
      exact h
    | next m₁ w₁ =>
      by_cases hs : m₁.stopRequested = true
      · rw [execute_stopped hm hin.1 hin.2 ho hs] at h ⊢
        exact h
      by_cases hpq : m₁.pauseRequested = true
      · rw [execute_paused hm hin.1 hin.2 ho (by simpa using hs) hpq] at h ⊢
        exact h
      rw [execute_carry hm hin.1 hin.2 ho (by simpa using hs) (by simpa using hpq)] at h ⊢
      exact ih m₁ w₁ ((stepWith_next_status ho).trans (by simpa using hrun)) h

/-- Continues a run each time it comes back paused, with the fuel of each continuation in turn,
until it comes back otherwise or the fuels run out. -/
def continuing (hear : Hearing α ω) :
    List Nat → Option Diagnostic × Machine α × ω → Option Diagnostic × Machine α × ω
  | [], r => r
  | n :: ns, r =>
    if r.2.1.status = .paused then continuing hear ns (resume hear n r.2.1 r.2.2) else r

theorem execute_continuing (ns : List Nat) (n : Nat) (m : Machine α) (w : ω)
    (hrun : m.status = .running) (hp : m.pauseRequested = false) :
    (∀ i r, continuing hear (ns.take i) (execute hear n m w) = r →
      r.2.1.status = .paused → r.1 = none ∧ r.2.1.AfterEventSite) ∧
    (∀ r, continuing hear ns (execute hear n m w) = r →
      r.2.1.status ≠ .paused → ∃ N ≤ n + ns.sum, execute hear.dropPauses N m w = r) := by
  induction ns generalizing n m w with
  | nil =>
    rcases h : execute hear n m w with ⟨d, p, w'⟩
    obtain ⟨hpaused, hquiet⟩ := execute_checkpoint n m w hrun hp h
    refine ⟨fun i r hr hps => ?_, fun r hr hps => ?_⟩
    · simp only [List.take_nil, continuing] at hr
      subst hr
      obtain ⟨hd, -, hafter, -⟩ := hpaused hps
      exact ⟨hd, hafter⟩
    · simp only [continuing] at hr
      subst hr
      exact ⟨n, by simp, hquiet hps⟩
  | cons n₁ ns ih =>
    rcases h : execute hear n m w with ⟨d, p, w'⟩
    obtain ⟨hpaused, hquiet⟩ := execute_checkpoint n m w hrun hp h
    by_cases hps : p.status = .paused
    case neg =>
      -- the run did not pause, so no continuation is made
      have hstay : ∀ l, continuing hear l (d, p, w') = (d, p, w') := by
        rintro (_ | ⟨_, _⟩) <;> simp [continuing, hps]
      refine ⟨fun i r hr => ?_, fun r hr _ => ?_⟩
      · rw [hstay] at hr
        subst hr
        exact fun h => absurd h hps
      · rw [hstay] at hr
        subst hr
        exact ⟨n, by omega, hquiet hps⟩
    -- the run paused at a checkpoint: continuing it is running from the checkpoint
    obtain ⟨hd, hpp, hafter, j, hj, hk⟩ := hpaused hps
    have hres : resume hear n₁ p w' = execute hear n₁ { p with status := .running } w' := by
      simp [resume, hps]
    have hcont : ∀ l, continuing hear (n₁ :: l) (d, p, w') =
        continuing hear l (execute hear n₁ { p with status := .running } w') := by
      intro l
      simp [continuing, hps, hres]
    obtain ⟨ih₁, ih₂⟩ := ih n₁ { p with status := .running } w' rfl hpp
    refine ⟨fun i r hr => ?_, fun r hr hend => ?_⟩
    · cases i with
      | zero =>
        simp only [List.take_zero, continuing] at hr
        subst hr
        exact fun _ => ⟨hd, hafter⟩
      | succ i =>
        rw [List.take_succ_cons, hcont] at hr
        exact ih₁ i r hr
    · rw [hcont] at hr
      obtain ⟨N, hN, hexec⟩ := ih₂ r hr hend
      refine ⟨N + j, by simp only [List.sum_cons]; omega, ?_⟩
      rw [hk, hexec]

theorem continuing_of_not_paused (l : List Nat) {r : Option Diagnostic × Machine α × ω}
    (h : r.2.1.status ≠ .paused) : continuing hear l r = r := by
  cases l <;> simp [continuing, h]

/-- Pausing is transparent. Start a chunk on a machine that is not paused, and continue the run
each time it comes back paused: every pause stands just past an event site with nothing
reported, and once the run no longer comes back paused it is the run in which the listeners
never ask to pause, at some fuel no greater than the fuel given in all. That run, when it has
ended, ends the same with any more fuel. -/
theorem pausing_transparent (n : Nat) (ns : List Nat) (chunk : Chunk) (m : Machine α) (w : ω)
    (hidle : m.status ≠ .paused) :
    (∀ i r, (run hear n chunk m w).map (continuing hear (ns.take i)) = .ok r →
      r.2.1.status = .paused → r.1 = none ∧ r.2.1.AfterEventSite) ∧
    (∀ r, (run hear n chunk m w).map (continuing hear ns) = .ok r → r.2.1.status ≠ .paused →
      ∃ N ≤ n + ns.sum, run hear.dropPauses N chunk m w = .ok r ∧
        (r.2.1.status ≠ .running → ∀ k, run hear.dropPauses (N + k) chunk m w = .ok r)) := by
  rcases run_cases chunk m w hidle with
    ⟨r₀, hr₀, hrun⟩ | ⟨e, hrun⟩ | ⟨m₀, hrun₀, hp₀, hrun⟩
  · -- the run ends at once, the same way without pauses and with any fuel
    refine ⟨fun i r hr hps => ?_, fun r hr _ => ?_⟩
    · simp only [hrun, Except.map, Except.ok.injEq, continuing_of_not_paused _ hr₀] at hr
      subst hr
      exact absurd hps hr₀
    · simp only [hrun, Except.map, Except.ok.injEq, continuing_of_not_paused _ hr₀] at hr
      subst hr
      exact ⟨0, Nat.zero_le _, hrun _ _, fun _ k => hrun _ _⟩
  · simp only [hrun, Except.map]
    exact ⟨fun i r hr => (by cases hr), fun r hr => (by cases hr)⟩
  · -- the run executes: continuing it is the execution without pauses
    obtain ⟨hpauses, hend⟩ := @execute_continuing _ _ hear ns n m₀ w hrun₀ hp₀
    simp only [hrun, Except.map, Except.ok.injEq]
    refine ⟨hpauses, fun r hr hps => ?_⟩
    obtain ⟨N, hN, hexec⟩ := hend r hr hps
    refine ⟨N, hN, by rw [hexec], fun hended k => ?_⟩
    rw [execute_add_of_ended N k m₀ w hrun₀ hexec hended]

/-- Started on a new machine whose listener pauses at every event, the chunk with one site
pauses at it, and continued once it completes: pausing is transparent for that run. -/
theorem pausing_transparent_site :
    (create (some stepListener) false 0 : Machine Unit).status ≠ .paused ∧
    (run pauseEvery 8 siteChunk (create (some stepListener) false 0) ()).toOption.map
      (·.2.1.status) = some .paused ∧
    ((run pauseEvery 8 siteChunk (create (some stepListener) false 0) ()).map
      (continuing pauseEvery [8])).toOption.map (·.2.1.status) = some .completed ∧
    ((∀ i r, (run pauseEvery 8 siteChunk (create (some stepListener) false 0) ()).map
        (continuing pauseEvery ([8].take i)) = .ok r →
        r.2.1.status = .paused → r.1 = none ∧ r.2.1.AfterEventSite) ∧
      (∀ r, (run pauseEvery 8 siteChunk (create (some stepListener) false 0) ()).map
        (continuing pauseEvery [8]) = .ok r → r.2.1.status ≠ .paused →
        ∃ N ≤ 8 + [8].sum,
          run pauseEvery.dropPauses N siteChunk (create (some stepListener) false 0) () = .ok r ∧
          (r.2.1.status ≠ .running → ∀ k,
            run pauseEvery.dropPauses (N + k) siteChunk (create (some stepListener) false 0) () =
              .ok r))) :=
  ⟨by decide, by decide +kernel, by decide +kernel,
    pausing_transparent 8 [8] siteChunk (create (some stepListener) false 0) () (by decide)⟩

end Machine

end ScriptMachine
