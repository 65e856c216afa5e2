import ScriptMachine.Proofs.Machine.Controls
/-!
# A failing instruction stops the run cleanly

Every report a run makes is made at one instruction of a machine the run reached, and the
instruction has no effect: the run ends with that machine as it was, the report kept and the
stack unwound, so each cell still open on a register is closed over the register's value and
every effect of earlier instructions stays. The report is fatal and names the function of the
innermost frame; a runtime error is located at the failing instruction itself. Main statement:
`failure_stops_cleanly`. Starting a run and continuing one both hand the machine to
`execute`, so it covers both.
-/

namespace ScriptMachine

namespace Machine

open Bytecode

variable {α ω : Type} {hear : Hearing α ω}

section Ending

variable {m : Machine α} {ys : Array Frame} {f : Frame}

theorem cells_closeCells_congr {m' : Machine α} (h : m.cells = m'.cells) (f : Frame) :
    (m.closeCells f).cells = (m'.closeCells f).cells := by
  unfold closeCells
  induction f.opened generalizing m m' with
  | nil => exact h
  | cons p ps ih =>
    obtain ⟨r, c⟩ := p
    exact ih (by dsimp only; rw [h])

theorem cells_foldr_closeCells_congr {m' : Machine α} (h : m.cells = m'.cells) (fs : List Frame) :
    (fs.foldr (fun f m => m.closeCells f) m).cells =
      (fs.foldr (fun f m => m.closeCells f) m').cells := by
  induction fs with
  | nil => exact h
  | cons g gs ih => exact cells_closeCells_congr ih g

theorem closeCells_withPc (q : Int) : m.closeCells { f with pc := q } = m.closeCells f := rfl

theorem terminate_modifyTop_pc (hm : m.frames = ys.push f) (q : Int) (s : Status) :
    (m.modifyTop fun g => { g with pc := q }).terminate s = m.terminate s := by
  -- closing a frame's cells reads its registers and its open cells, never its index
  have hcells : ((m.modifyTop fun g => { g with pc := q }).terminate s).cells =
      (m.terminate s).cells := by
    simp only [terminate, modifyTop_of_push hm, hm, ← Array.foldr_toList, Array.toList_push,
      List.foldr_append, List.foldr_cons, List.foldr_nil, closeCells_withPc]
    apply cells_foldr_closeCells_congr
    exact cells_closeCells_congr (by rfl) f
  rw [terminate_eq, terminate_eq (m := m), hcells, modifyTop_of_push hm]

theorem report_modifyTop (d : Diagnostic) (g : Frame → Frame) :
    (m.modifyTop g).report d = (m.report d).modifyTop g := by
  unfold report modifyTop
  by_cases hc : m.collecting <;> by_cases he : m.frames.isEmpty <;> simp [hc, he]

end Ending

/-- How a run that reported `d` ended at frame `f` of machine `m`, before the instruction:
the report is fatal and names the frame's function, a runtime error of the instruction is
blamed on the instruction itself, and the run ends with `m` as it was, the report kept and the
run stopped. -/
structure StopsAt (hear : Hearing α ω) (m : Machine α) (w : ω) (f : Frame) (d : Diagnostic)
    (p : Machine α) : Prop where
  fatal : d.severity = .fatal
  module : d.module = f.proto.name
  blamed : ∀ e w₁, 0 ≤ f.pc → f.pc < f.proto.code.size →
    stepWith hear (m.modifyTop fun g => { g with pc := f.pc + 1 }) w f f.current =
      .failed e w₁ → d = f.blame e
  stopped : p = (m.report d).terminate .stopped

section Turn

variable {m : Machine α} {w : ω} {ys : Array Frame} {f : Frame}

theorem stopsAt_fail (hm : m.frames = ys.push f) (d₀ : Diagnostic)
    (hblamed : ∀ e w₁, 0 ≤ f.pc → f.pc < f.proto.code.size →
      stepWith hear (m.modifyTop fun g => { g with pc := f.pc + 1 }) w f f.current =
        .failed e w₁ → d₀ = e) :
    StopsAt hear m w f (m.fail d₀).1 (m.fail d₀).2 where
  fatal := by simp [fail_of_push hm, Frame.blame]
  module := by simp [fail_of_push hm, Frame.blame]
  blamed e w₁ h0 hlt ho := by rw [fail_of_push hm, hblamed e w₁ h0 hlt ho]
  stopped := by rw [fail_of_push hm]

theorem execute_succ_report (hm : m.frames = ys.push f) {N : Nat} {d : Diagnostic}
    {p : Machine α} {w' : ω} (h : execute hear (N + 1) m w = (some d, p, w')) :
    StopsAt hear m w f d p ∨
    ∃ (m₁ : Machine α) (w₁ : ω),
      (∀ j, execute hear (j + 1) m w = execute hear j m₁ w₁) ∧
      execute hear N m₁ w₁ = (some d, p, w') := by
  by_cases hin : 0 ≤ f.pc ∧ f.pc < f.proto.code.size
  case neg =>
    -- an instruction index outside the code: no instruction runs
    rw [execute_outside hm hin] at h
    cases h
    exact .inl (stopsAt_fail hm _ fun _ _ h0 hlt => absurd ⟨h0, hlt⟩ hin)
  cases ho : stepWith hear (m.modifyTop fun g => { g with pc := f.pc + 1 }) w f f.current with
  | failed e w₁ =>
    rw [execute_failed hm hin.1 hin.2 ho] at h
    cases h
    refine .inl (stopsAt_fail hm e fun e' w₂ _ _ ho' => ?_)
    rw [ho] at ho'
    cases ho'
    rfl
  | broken t w₁ =>
    -- a fault is located past the instruction, at the frame as the instruction left it
    rw [execute_broken hm hin.1 hin.2 ho] at h
    cases h
    have hm₁ : (m.modifyTop fun g => { g with pc := f.pc + 1 }).frames =
        ys.push { f with pc := f.pc + 1 } := by
      rw [modifyTop_of_push hm]
    rw [fail_of_push hm₁]
    exact .inl
      { fatal := by simp [Frame.blame]
        module := by simp [Frame.blame]
        blamed := fun e w₂ _ _ ho' => by
          rw [ho] at ho'
          cases ho'
        stopped := by
          rw [report_modifyTop, terminate_modifyTop_pc (by simpa using hm)] }
  | next m₁ w₁ =>
    -- requests end the run with no report; otherwise the run carries on
    by_cases hs : m₁.stopRequested = true
    · rw [execute_stopped hm hin.1 hin.2 ho hs] at h
      cases h
    by_cases hp : m₁.pauseRequested = true
    · rw [execute_paused hm hin.1 hin.2 ho (by simpa using hs) hp] at h
      cases h
    have hcarry := fun j => execute_carry (n := j) hm hin.1 hin.2 ho (by simpa using hs)
      (by simpa using hp)
    rw [hcarry] at h
    exact .inr ⟨m₁, w₁, hcarry, h⟩

end Turn

theorem execute_report (n : Nat) (m : Machine α) (w : ω) {d : Diagnostic} {p : Machine α}
    {w' : ω} (h : execute hear n m w = (some d, p, w')) :
    ∃ k < n, ∃ (mk : Machine α) (wk : ω) (ys : Array Frame) (f : Frame),
      (∀ j, execute hear (j + k) m w = execute hear j mk wk) ∧ mk.frames = ys.push f ∧
      StopsAt hear mk wk f d p := by
  induction n generalizing m w with
  | zero =>
    rcases frames_eq_empty_or_push m with hm | ⟨ys, f, hm⟩
    · rw [execute_empty hm] at h
      cases h
    · rw [execute_zero hm] at h
      cases h
  | succ n ih =>
    rcases frames_eq_empty_or_push m with hm | ⟨ys, f, hm⟩
    · rw [execute_empty hm] at h
      cases h
    rcases execute_succ_report hm h with hstop | ⟨m₁, w₁, hcarry, h₁⟩
    · exact ⟨0, by omega, m, w, ys, f, fun j => rfl, hm, hstop⟩
    · obtain ⟨k, hk, mk, wk, ys', f', hreach, hmk, hstop⟩ := ih m₁ w₁ h₁
      refine ⟨k + 1, by omega, mk, wk, ys', f', fun j => ?_, hmk, hstop⟩
      rw [← Nat.add_assoc, hcarry, hreach]

/-- A failing instruction has no effect and leaves the machine cleanly stopped. Every report `d`
of a run is made at the innermost frame `f` of a machine `mk` the run reached after `k`
instructions. The report is fatal and names `f`'s function, and a runtime error of `f`'s
instruction is reported located at that instruction. The run ends stopped with no frames,
every cell opened on a register of a frame of `mk` closed, and all else as `mk` had it: the
globals, the heap and the printed text, with every effect of earlier instructions, and the
report kept. -/
theorem failure_stops_cleanly (n : Nat) (m : Machine α) (w : ω) {d : Diagnostic}
    {p : Machine α} {w' : ω} (h : execute hear n m w = (some d, p, w')) :
    ∃ k < n, ∃ (mk : Machine α) (wk : ω) (ys : Array Frame) (f : Frame),
      (∀ j, execute hear (j + k) m w = execute hear j mk wk) ∧ mk.frames = ys.push f ∧
      d.severity = .fatal ∧ d.module = f.proto.name ∧
      (∀ e w₁, 0 ≤ f.pc → f.pc < f.proto.code.size →
        stepWith hear (mk.modifyTop fun g => { g with pc := f.pc + 1 }) wk f f.current =
          .failed e w₁ → d = f.blame e) ∧
      p = (mk.report d).terminate .stopped ∧ p.status = .stopped ∧ p.frames = #[] ∧
      ∀ g ∈ mk.frames, ∀ r c, (r, c) ∈ g.opened → c < mk.cells.size → IsClosed p c := by
  obtain ⟨k, hk, mk, wk, ys, f, hreach, hmk, hstop⟩ := execute_report n m w h
  refine ⟨k, hk, mk, wk, ys, f, hreach, hmk, hstop.fatal, hstop.module, hstop.blamed,
    hstop.stopped, by simp [hstop.stopped], by simp [hstop.stopped], ?_⟩
  intro g hg r c hmem hc
  rw [hstop.stopped]
  exact terminate_closes (by simpa using hg) hmem (by simpa using hc)

/-- Calling a register that holds no function fails, and the run stops cleanly there. -/
theorem failure_stops_cleanly_call_none :
    ∃ (d : Diagnostic) (p : Machine Unit),
      execute (fun _ _ _ w => .ok (w, {})) 1
        ({ frames := #[{ id := 0, proto := { name := "main", registers := 1, code := #[⟨29⟩] },
                          captures := #[], links := #[], registers := #[.none] }],
           status := .running } : Machine Unit) () = (some d, p, ()) ∧
      ∃ k < 1, ∃ (mk : Machine Unit) (wk : Unit) (ys : Array Frame) (f : Frame),
        (∀ j, execute (fun _ _ _ w => .ok (w, {})) (j + k)
          ({ frames := #[{ id := 0, proto := { name := "main", registers := 1, code := #[⟨29⟩] },
                            captures := #[], links := #[], registers := #[.none] }],
             status := .running } : Machine Unit) () =
          execute (fun _ _ _ w => .ok (w, {})) j mk wk) ∧ mk.frames = ys.push f ∧
        d.severity = .fatal ∧ d.module = f.proto.name ∧
        (∀ e w₁, 0 ≤ f.pc → f.pc < f.proto.code.size →
          stepWith (fun _ _ _ w => .ok (w, {})) (mk.modifyTop fun g => { g with pc := f.pc + 1 })
            wk f f.current = .failed e w₁ → d = f.blame e) ∧
        p = (mk.report d).terminate .stopped ∧ p.status = .stopped ∧ p.frames = #[] ∧
        ∀ g ∈ mk.frames, ∀ r c, (r, c) ∈ g.opened → c < mk.cells.size → IsClosed p c :=
  ⟨_, _, rfl, failure_stops_cleanly 1 _ () rfl⟩

/-! ## Faults met by the host's calls -/

section Faults

variable {m : Machine α} {w : ω} {chunk : Chunk} {n : Nat}

@[simp] theorem severity_fail (d : Diagnostic) : (m.fail d).1.severity = .fatal := by
  unfold fail
  split <;> rfl

theorem execute_report_stopped {d : Diagnostic} {p : Machine α} {w' : ω}
    (h : execute hear n m w = (some d, p, w')) :
    d.severity = .fatal ∧ p.status = .stopped ∧ p.frames = #[] := by
  obtain ⟨_, _, _, _, _, _, _, _, hstop⟩ := execute_report n m w h
  exact ⟨hstop.fatal, by simp [hstop.stopped], by simp [hstop.stopped]⟩

theorem newFrame_eq_error {proto : Chunk} {caps : Array Nat} {links : Array String} {res : Nat}
    {t : String} :
    m.newFrame proto caps links res = .error t ↔
      max proto.registers proto.params < 0 ∧ t = frameFault := by
  unfold newFrame
  dsimp only
  split
  · simp_all [eq_comm]
  · simp only [reduceCtorEq, false_iff, not_and]
    omega

theorem mapM_eq_error_iff {ε β γ : Type} (g : β → Except ε γ) :
    ∀ l : List β, (∃ t, l.mapM g = .error t) ↔ ∃ x ∈ l, ∃ t, g x = .error t
  | [] => by simp [List.mapM_nil, pure, Except.pure]
  | x :: l => by
    rw [List.mapM_cons]
    cases hx : g x with
    | error t => simp [bind, Except.bind, hx]
    | ok y =>
      have ih := mapM_eq_error_iff g l
      cases hl : l.mapM g with
      | error t => simp_all [bind, Except.bind]
      | ok ys => simp_all [bind, Except.bind, pure, Except.pure]

theorem localVars_fault_iff :
    (∃ t, m.localVars = .error t) ↔ ∃ f, m.frames.back? = some f ∧
      ∃ l ∈ f.proto.localsAt f.pc,
        ¬(0 ≤ l.register ∧ l.register.toNat < f.registers.size) := by
  unfold localVars
  cases m.frames.back? with
  | none => simp
  | some f =>
    simp only [mapM_eq_error_iff, Option.some.injEq, exists_eq_left']
    refine exists_congr fun l => and_congr_right fun _ => ?_
    by_cases hr : 0 ≤ l.register ∧ l.register.toNat < f.registers.size <;> simp [elementOr, hr]

theorem run_eq_error {t : String} :
    run hear n chunk m w = .error t ↔
      ¬(m.status = .running ∨ m.status = .paused) ∧ chunk.validate = none ∧
        max chunk.registers chunk.params < 0 ∧ t = frameFault := by
  by_cases hbusy : m.status = .running ∨ m.status = .paused
  · simp [run_busy hbusy, hbusy]
  cases hv : chunk.validate with
  | some e => simp [run_invalid hbusy hv]
  | none =>
    rw [run_valid hbusy hv]
    cases hf : (chunk.globals.foldl (fun m name => (m.globalCell name).2) m).newFrame chunk #[]
      chunk.globals 0 with
    | error e =>
      obtain ⟨hneg, rfl⟩ := newFrame_eq_error.1 hf
      simp only [Except.map, Except.error.injEq]
      exact ⟨fun ht => ⟨hbusy, trivial, hneg, ht.symm⟩, fun h => h.2.2.2.symm⟩
    | ok q =>
      have hok : ¬max chunk.registers chunk.params < 0 := fun hneg =>
        nomatch hf.symm.trans (newFrame_eq_error.2 ⟨hneg, rfl⟩)
      simp [Except.map, hok]

theorem run_report {d : Diagnostic} {p : Machine α} {w' : ω}
    (h : run hear n chunk m w = .ok (some d, p, w')) :
    d = Diagnostic.control .busy ∨
      (d.severity = .fatal ∧ p.status = .stopped ∧ p.frames = #[]) := by
  by_cases hbusy : m.status = .running ∨ m.status = .paused
  · rw [run_busy hbusy] at h
    cases h
    exact .inl rfl
  cases hv : chunk.validate with
  | some e =>
    rw [run_invalid hbusy hv] at h
    cases h
    exact .inr ⟨severity_fail _, status_fail _, frames_fail _⟩
  | none =>
    rw [run_valid hbusy hv] at h
    cases hf : (chunk.globals.foldl (fun m name => (m.globalCell name).2) m).newFrame chunk #[]
      chunk.globals 0 with
    | error e => simp [hf, Except.map] at h
    | ok q =>
      simp only [hf, Except.map, Except.ok.injEq] at h
      exact .inr (execute_report_stopped h)

theorem resume_report {d : Diagnostic} {p : Machine α} {w' : ω}
    (h : resume hear n m w = (some d, p, w')) :
    d = Diagnostic.control .notPaused ∨
      (d.severity = .fatal ∧ p.status = .stopped ∧ p.frames = #[]) := by
  unfold resume at h
  split at h
  · cases h
    exact .inl rfl
  · exact .inr (execute_report_stopped h)

end Faults

end Machine

end ScriptMachine
