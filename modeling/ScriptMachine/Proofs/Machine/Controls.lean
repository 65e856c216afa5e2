import ScriptMachine.Machine.Run
/-!
# What an instruction leaves alone

An instruction works on the program's data only: the heap, the globals, the frames, the cells
and the printed text. The registry, the machine's settings, the reports it keeps, the status of
the run and the requests of listeners stay as they were (`exec_controls`): like every view that
the data does not change (`DataBlind`), they are kept by each step. Delivering an event
changes nothing but the requests (`dispatch_asked`). The lemmas at the end take one turn of the
run loop apart (`execute_turn`) and say how a run starts (`run_cases`).
-/

namespace ScriptMachine

open Bytecode

def Frame.current (f : Frame) : Instruction := f.proto.code.getD f.pc.toNat default

def Frame.blame (f : Frame) (d : Diagnostic) : Diagnostic :=
  { d with span := f.proto.spanAt f.pc, module := f.proto.name, severity := .fatal }

/-- The fault of a frame whose instruction index lies outside its code. -/
def Frame.outsideFault (f : Frame) : Diagnostic :=
  if f.proto.code.size ≤ f.pc then
    Machine.invalidBytecode ("fell off the end of " ++ f.proto.name)
  else Machine.invalidBytecode (indexFault f.pc f.proto.code.size)

namespace Machine

variable {α ω : Type}

section Except

variable {ε β γ : Type}

@[simp] theorem bind_eq_ok {x : Except ε β} {f : β → Except ε γ} {c : γ} :
    x >>= f = .ok c ↔ ∃ b, x = .ok b ∧ f b = .ok c := by
  cases x <;> simp [bind, Except.bind]

@[simp] theorem pure_eq_ok {b b' : β} : (pure b : Except ε β) = .ok b' ↔ b' = b := by
  simp [pure, Except.pure, eq_comm]

@[simp] theorem mapError_eq_ok {ε' : Type} {x : Except ε β} {f : ε → ε'} {b : β} :
    x.mapError f = .ok b ↔ x = .ok b := by
  -- by cases on the constructor, so that no equation of the library's definition is needed
  cases x with
  | error e => exact ⟨fun h => (by cases h), fun h => (by cases h)⟩
  | ok a => exact ⟨fun h => (by cases h; rfl), fun h => (by cases h; rfl)⟩

@[simp] theorem throw_eq_ok {e : ε} {b : β} : (throw e : Except ε β) = .ok b ↔ False := by
  simp [throw, throwThe, MonadExceptOf.throw]

end Except

theorem foldlM_rel {ε σ β : Type} (R : σ → σ → Prop) (refl : ∀ s, R s s)
    (trans : ∀ s₁ s₂ s₃, R s₁ s₂ → R s₂ s₃ → R s₁ s₃)
    {f : σ → β → Except ε σ}
    (hf : ∀ s b s', f s b = .ok s' → R s s') :
    ∀ (l : List β) (s s' : σ), l.foldlM f s = .ok s' → R s s'
  | [], s, s', h => by cases h; exact refl s
  | b :: l, s, s', h => by
    obtain ⟨s₁, h₁, h₂⟩ := bind_eq_ok.1 h
    exact trans _ _ _ (hf s b s₁ h₁) (foldlM_rel R refl trans hf l s₁ s' h₂)

theorem foldlM_keeps {ε σ β γ : Type} (g : σ → γ) {f : σ → β → Except ε σ}
    (hf : ∀ s b s', f s b = .ok s' → g s' = g s) (l : List β) (s s' : σ)
    (h : l.foldlM f s = .ok s') : g s' = g s :=
  foldlM_rel (fun s s' => g s' = g s) (fun _ => rfl) (fun _ _ _ h₁ h₂ => h₂.trans h₁)
    hf l s s' h

/-! ## Views that the data of a run leaves alone -/

/-- A view of a machine that its data does not change: the frames, the heap, the cells, the
printed text and the numbering of frames. -/
structure DataBlind {β : Type} (g : Machine α → β) : Prop where
  frames (m : Machine α) (fs : Array Frame) : g { m with frames := fs } = g m
  heap (m : Machine α) (h : Heap) : g { m with heap := h } = g m
  cells (m : Machine α) (cs : Array Cell) : g { m with cells := cs } = g m
  output (m : Machine α) (s : String) : g { m with output := s } = g m
  nextFrame (m : Machine α) (n : Nat) : g { m with nextFrame := n } = g m

namespace DataBlind

variable {β : Type} {g : Machine α → β} {m m' : Machine α}

theorem modifyTop (hg : DataBlind g) (t : Frame → Frame) : g (m.modifyTop t) = g m := by
  unfold Machine.modifyTop
  split
  · rfl
  · exact hg.frames _ _

theorem closeCells (hg : DataBlind g) (f : Frame) : g (m.closeCells f) = g m := by
  unfold Machine.closeCells
  generalize m = m₀
  induction f.opened generalizing m₀ with
  | nil => rfl
  | cons p ps ih => exact (ih _).trans (hg.cells _ _)

theorem ret (hg : DataBlind g) (v : Value) : g (m.ret v) = g m := by
  have popped : g { m.closeCells m.top with frames := (m.closeCells m.top).frames.pop } = g m :=
    (hg.frames _ _).trans (hg.closeCells _)
  unfold Machine.ret
  dsimp only
  split
  · exact popped
  · rw [hg.modifyTop]
    exact popped

theorem setReg (hg : DataBlind g) {r : Int} {v : Value} (h : m.setReg r v = .ok m') :
    g m' = g m := by
  obtain ⟨_, -, h⟩ := bind_eq_ok.1 h
  cases h
  exact hg.modifyTop _

theorem capture (hg : DataBlind g) {r : Int} {c : Nat} (h : m.capture r = .ok (c, m')) :
    g m' = g m := by
  obtain ⟨_, -, h⟩ := bind_eq_ok.1 h
  dsimp only at h
  split at h <;> cases h
  · rfl
  · rw [hg.modifyTop, hg.cells]

theorem newFrame (hg : DataBlind g) {p : Chunk} {caps : Array Nat} {links : Array String}
    {res : Nat} {f : Frame} (h : m.newFrame p caps links res = .ok (f, m')) : g m' = g m := by
  unfold Machine.newFrame at h
  dsimp only at h
  split at h
  · cases h
  · cases h
    exact hg.nextFrame _ _

theorem callNative (hg : DataBlind g) {name : String} {args : Array Value} {v : Value}
    (h : m.callNative name args = .ok (v, m')) : g m' = g m := by
  have hprint : ∀ (m : Machine α) s, g (m.print s) = g m := fun m _ => hg.output m _
  unfold Machine.callNative at h
  dsimp only at h
  repeat' split at h
  all_goals simp only [bind_eq_ok, pure_eq_ok, throw_eq_ok, Prod.mk.injEq] at h
  all_goals grind [hg.heap]

theorem call (hg : DataBlind g) {base argc : Nat} (h : m.call base argc = .ok m') :
    g m' = g m := by
  unfold Machine.call at h
  dsimp only at h
  obtain ⟨callee, -, h⟩ := bind_eq_ok.1 h
  split at h
  · obtain ⟨args, -, h⟩ := bind_eq_ok.1 h
    obtain ⟨⟨v, m₁⟩, h₁, h₂⟩ := bind_eq_ok.1 h
    rw [hg.setReg h₂, hg.callNative h₁]
  · obtain ⟨args, -, h⟩ := bind_eq_ok.1 h
    split at h
    · simp at h
    split at h
    · simp at h
    obtain ⟨⟨f, m₁⟩, h₁, h₂⟩ := bind_eq_ok.1 h
    cases pure_eq_ok.1 h₂
    exact (hg.frames _ _).trans (hg.newFrame (mapError_eq_ok.1 h₁))
  · simp at h

theorem makeClosure (hg : DataBlind g) {a idx : Nat} (h : m.makeClosure a idx = .ok m') :
    g m' = g m := by
  unfold Machine.makeClosure at h
  dsimp only at h
  obtain ⟨proto, -, h⟩ := bind_eq_ok.1 h
  obtain ⟨⟨cells, m₁⟩, hfold, h⟩ := bind_eq_ok.1 h
  rw [hg.setReg h, hg.heap]
  rw [← Array.foldlM_toList] at hfold
  -- every captured variable either reuses a cell or opens one on the innermost frame
  refine foldlM_keeps (fun acc : Array Nat × Machine α => g acc.2) ?_ _ _ _ hfold
  rintro ⟨cells, m₂⟩ c acc' hstep
  dsimp only at hstep ⊢
  split at hstep
  · obtain ⟨⟨cell, m₃⟩, h₃, h₄⟩ := bind_eq_ok.1 hstep
    cases pure_eq_ok.1 h₄
    exact hg.capture h₃
  · obtain ⟨cell, -, h₄⟩ := bind_eq_ok.1 hstep
    cases pure_eq_ok.1 h₄
    rfl

theorem forLoop (hg : DataBlind g) {a : Nat} {sbx : Int} (h : m.forLoop a sbx = .ok m') :
    g m' = g m := by
  unfold Machine.forLoop at h
  simp only [bind_eq_ok] at h
  obtain ⟨_, _, _, _, _, _, m₁, h₁, h⟩ := h
  rw [← hg.setReg h₁]
  split at h
  · simp only [bind_eq_ok] at h
    obtain ⟨_, _, m₂, h₂, h₃⟩ := h
    cases pure_eq_ok.1 h₃
    rw [Machine.jumpBy, hg.modifyTop, hg.setReg h₂]
  · cases pure_eq_ok.1 h
    rfl

end DataBlind

structure Controls (α : Type) where
  registry : Option (Registry α)
  collecting : Bool
  diagnostics : Array Diagnostic
  maxDepth : Nat
  status : Status
  pauseRequested : Bool
  stopRequested : Bool

/-- The registry, the settings, the reports, the status and the requests of a machine. -/
def controls (m : Machine α) : Controls α :=
  ⟨m.registry, m.collecting, m.diagnostics, m.maxDepth, m.status, m.pauseRequested,
    m.stopRequested⟩

section Keeps

variable {m m' : Machine α}

theorem controls_dataBlind : DataBlind (controls : Machine α → Controls α) :=
  ⟨fun _ _ => rfl, fun _ _ => rfl, fun _ _ => rfl, fun _ _ => rfl, fun _ _ => rfl⟩

@[simp] theorem controls_modifyTop (g : Frame → Frame) :
    (m.modifyTop g).controls = m.controls :=
  controls_dataBlind.modifyTop g

@[simp] theorem status_modifyTop (g : Frame → Frame) : (m.modifyTop g).status = m.status :=
  congrArg Controls.status (controls_modifyTop g)

@[simp] theorem pauseRequested_modifyTop (g : Frame → Frame) :
    (m.modifyTop g).pauseRequested = m.pauseRequested :=
  congrArg Controls.pauseRequested (controls_modifyTop g)

@[simp] theorem stopRequested_modifyTop (g : Frame → Frame) :
    (m.modifyTop g).stopRequested = m.stopRequested :=
  congrArg Controls.stopRequested (controls_modifyTop g)

@[simp] theorem controls_jumpBy (d : Int) : (m.jumpBy d).controls = m.controls :=
  controls_modifyTop _

@[simp] theorem controls_print (s : String) : (m.print s).controls = m.controls := rfl

@[simp] theorem controls_withHeap (h : Heap) : { m with heap := h }.controls = m.controls := rfl

@[simp] theorem controls_withCells (c : Array Cell) :
    { m with cells := c }.controls = m.controls := rfl

@[simp] theorem controls_withFrames (fs : Array Frame) :
    { m with frames := fs }.controls = m.controls := rfl

@[simp] theorem controls_withNextFrame (n : Nat) :
    { m with nextFrame := n }.controls = m.controls := rfl

@[simp] theorem controls_setGlobal (i : Nat) (v : Value) :
    (m.setGlobal i v).controls = m.controls := by
  unfold setGlobal
  split <;> rfl

@[simp] theorem controls_globalCell (name : String) :
    (m.globalCell name).2.controls = m.controls := by
  unfold globalCell
  split <;> rfl

@[simp] theorem controls_closeCells (f : Frame) : (m.closeCells f).controls = m.controls :=
  controls_dataBlind.closeCells f

@[simp] theorem controls_ret (v : Value) : (m.ret v).controls = m.controls :=
  controls_dataBlind.ret v

theorem controls_setReg {r : Int} {v : Value} (h : m.setReg r v = .ok m') :
    m'.controls = m.controls :=
  controls_dataBlind.setReg h

/-- Every instruction keeps the registry, the settings, the reports, the status of the run and
the requests of listeners. -/
theorem exec_controls {i : Instruction} (h : m.exec i = .ok m') : m'.controls = m.controls := by
  unfold exec at h
  dsimp only at h
  split at h
  · simp at h
  rename_i op _
  cases op <;> dsimp only at h
  case loadNil => exact foldlM_keeps controls (fun _ _ _ hs => controls_setReg hs) _ _ _ h
  case ret =>
    split at h <;> simp only [bind_eq_ok, pure_eq_ok] at h <;> obtain ⟨_, _, rfl⟩ := h <;>
      exact controls_ret _
  case call => exact controls_dataBlind.call h
  case closure => exact controls_dataBlind.makeClosure h
  case forLoop => exact controls_dataBlind.forLoop h
  case notify => rw [pure_eq_ok.1 h]
  -- the rest read operands, then store into a register, a global, the heap or jump
  all_goals simp only [bind_eq_ok, pure_eq_ok] at h
  all_goals grind [controls_setReg, controls_jumpBy, controls_setGlobal, controls_globalCell,
    controls_withHeap, throw_eq_ok]

end Keeps

/-! ## Delivering an event -/

section Dispatch

variable {m m' : Machine α} {hear : Hearing α ω} {w w' : ω} {n : Notification}

/-- `m'` is `m` with the requests of some listeners added. -/
def Asked (m m' : Machine α) : Prop :=
  ∃ p s : Bool, m' = { m with pauseRequested := m.pauseRequested || p,
                              stopRequested := m.stopRequested || s }

theorem Asked.refl (m : Machine α) : Asked m m := ⟨false, false, by cases m; simp⟩

theorem Asked.trans {m₁ m₂ m₃ : Machine α} (h₁ : Asked m₁ m₂) (h₂ : Asked m₂ m₃) :
    Asked m₁ m₃ := by
  obtain ⟨p, s, rfl⟩ := h₁
  obtain ⟨p', s', rfl⟩ := h₂
  exact ⟨p || p', s || s', by simp [Bool.or_assoc]⟩

/-- Delivering an event changes nothing but the requests of listeners. -/
theorem dispatch_asked (h : m.dispatch hear w n = .ok (m', w')) : Asked m m' := by
  unfold dispatch deliver at h
  obtain ⟨listened, -, h⟩ := bind_eq_ok.1 h
  split at h
  · cases pure_eq_ok.1 h
    exact Asked.refl m
  dsimp only at h
  split at h
  next =>
    simp only [pure_bind] at h
    split at h
    next =>
      -- each listener that hears the event may add its requests
      refine foldlM_rel (fun a a' : Machine α × ω => Asked a.1 a'.1) (fun a => Asked.refl a.1)
        (fun _ _ _ h₁ h₂ => h₁.trans h₂) ?_ _ _ _ h
      rintro ⟨m₁, w₁⟩ l ⟨m₂, w₂⟩ hstep
      dsimp only at hstep
      split at hstep
      · cases hstep
        exact ⟨_, _, rfl⟩
      · cases hstep
    next =>
      cases pure_eq_ok.1 h
      exact Asked.refl m
  next => simp at h
  next => simp at h

end Dispatch

/-! ## Ending a run -/

section Terminate

variable {m : Machine α} {f : Frame} {c : Nat}

def IsClosed (m : Machine α) (c : Nat) : Prop := ∃ v, m.cells[c]? = some (.closed v)

theorem closeCells_eq (f : Frame) :
    m.closeCells f = { m with cells := (m.closeCells f).cells } := by
  unfold closeCells
  induction f.opened generalizing m with
  | nil => rfl
  | cons p ps ih => exact ih

theorem size_closeCells (f : Frame) : (m.closeCells f).cells.size = m.cells.size := by
  unfold closeCells
  induction f.opened generalizing m with
  | nil => rfl
  | cons p ps ih => exact ih.trans (Array.size_setIfInBounds)

theorem IsClosed.closeCells (h : IsClosed m c) (f : Frame) : IsClosed (m.closeCells f) c := by
  unfold Machine.closeCells
  induction f.opened generalizing m with
  | nil => exact h
  | cons p ps ih =>
    refine ih ?_
    obtain ⟨v, hv⟩ := h
    by_cases hc : p.2 = c
    · exact ⟨f.registers.getD p.1 .none, by simp [hc, (Array.getElem?_eq_some_iff.1 hv).1]⟩
    · exact ⟨v, by simpa [hc] using hv⟩

theorem closeCells_closes {r : Nat} (hmem : (r, c) ∈ f.opened) (hc : c < m.cells.size) :
    IsClosed (m.closeCells f) c := by
  unfold closeCells
  generalize f.opened = l at hmem
  induction l generalizing m with
  | nil => cases hmem
  | cons p ps ih =>
    rcases List.mem_cons.1 hmem with rfl | hmem
    · exact IsClosed.closeCells (m := { m with cells := _ })
        ⟨f.registers.getD r .none, by simp [hc]⟩ { f with opened := ps }
    · exact ih (by simpa using hc) hmem

theorem foldr_closeCells_eq (fs : List Frame) :
    fs.foldr (fun f m => m.closeCells f) m =
      { m with cells := (fs.foldr (fun f m => m.closeCells f) m).cells } := by
  induction fs with
  | nil => rfl
  | cons g gs ih =>
    rw [List.foldr_cons, closeCells_eq, ih]

theorem size_foldr_closeCells (fs : List Frame) :
    (fs.foldr (fun f m => m.closeCells f) m).cells.size = m.cells.size := by
  induction fs with
  | nil => rfl
  | cons g gs ih => rw [List.foldr_cons, size_closeCells, ih]

theorem terminate_eq (s : Status) :
    m.terminate s = { m with frames := #[], status := s, cells := (m.terminate s).cells } := by
  unfold terminate
  rw [← Array.foldr_toList, foldr_closeCells_eq]

@[simp] theorem status_terminate (s : Status) : (m.terminate s).status = s := by
  rw [terminate_eq]

@[simp] theorem frames_terminate (s : Status) : (m.terminate s).frames = #[] := by
  rw [terminate_eq]

@[simp] theorem globals_terminate (s : Status) : (m.terminate s).globals = m.globals := by
  rw [terminate_eq]

@[simp] theorem heap_terminate (s : Status) : (m.terminate s).heap = m.heap := by
  rw [terminate_eq]

@[simp] theorem output_terminate (s : Status) : (m.terminate s).output = m.output := by
  rw [terminate_eq]

@[simp] theorem pauseRequested_terminate (s : Status) :
    (m.terminate s).pauseRequested = m.pauseRequested := by
  rw [terminate_eq]

@[simp] theorem stopRequested_terminate (s : Status) :
    (m.terminate s).stopRequested = m.stopRequested := by
  rw [terminate_eq]

theorem terminate_closes {s : Status} {g : Frame} {r : Nat} (hg : g ∈ m.frames)
    (hmem : (r, c) ∈ g.opened) (hc : c < m.cells.size) : IsClosed (m.terminate s) c := by
  unfold terminate
  rw [← Array.foldr_toList]
  rw [← Array.mem_toList_iff] at hg
  show IsClosed (m.frames.toList.foldr (fun f m => m.closeCells f) m) c
  generalize m.frames.toList = fs at hg
  induction fs with
  | nil => cases hg
  | cons g' gs ih =>
    rw [List.foldr_cons]
    rcases List.mem_cons.1 hg with rfl | hg
    · exact closeCells_closes hmem (by rwa [size_foldr_closeCells])
    · exact (ih hg).closeCells g'

end Terminate

/-! ## The innermost frame -/

section Top

variable {m : Machine α} {ys : Array Frame} {f : Frame}

theorem modify_push_size {β : Type} (ys : Array β) (a : β) (g : β → β) :
    (ys.push a).modify ys.size g = ys.push (g a) := by
  apply Array.ext_getElem?
  intro j
  simp only [Array.getElem?_modify, Array.getElem?_push]
  split <;> split <;> simp_all

theorem modifyTop_of_push (hm : m.frames = ys.push f) (g : Frame → Frame) :
    m.modifyTop g = { m with frames := ys.push (g f) } := by
  unfold modifyTop
  rw [hm]
  simp [modify_push_size]

theorem modifyTop_pc_back (hm : m.frames = ys.push f) (p : Int) :
    (m.modifyTop fun g => { g with pc := p }).modifyTop (fun g => { g with pc := f.pc }) = m := by
  rw [modifyTop_of_push hm, modifyTop_of_push rfl]
  cases m
  cases f
  simp_all

theorem report_eq (d : Diagnostic) :
    m.report d = { m with diagnostics := (m.report d).diagnostics } := by
  unfold report
  split <;> rfl

@[simp] theorem status_report (d : Diagnostic) : (m.report d).status = m.status := by
  rw [report_eq]

@[simp] theorem frames_report (d : Diagnostic) : (m.report d).frames = m.frames := by
  rw [report_eq]

@[simp] theorem globals_report (d : Diagnostic) : (m.report d).globals = m.globals := by
  rw [report_eq]

@[simp] theorem heap_report (d : Diagnostic) : (m.report d).heap = m.heap := by
  rw [report_eq]

@[simp] theorem output_report (d : Diagnostic) : (m.report d).output = m.output := by
  rw [report_eq]

@[simp] theorem cells_report (d : Diagnostic) : (m.report d).cells = m.cells := by
  rw [report_eq]

@[simp] theorem pauseRequested_report (d : Diagnostic) :
    (m.report d).pauseRequested = m.pauseRequested := by
  rw [report_eq]

@[simp] theorem stopRequested_report (d : Diagnostic) :
    (m.report d).stopRequested = m.stopRequested := by
  rw [report_eq]

theorem frames_eq_empty_or_push (m : Machine α) :
    m.frames = #[] ∨ ∃ (ys : Array Frame) (f : Frame), m.frames = ys.push f := by
  cases h : m.frames.back? with
  | none => exact .inl (Array.back?_eq_none_iff.1 h)
  | some f =>
    obtain ⟨ys, hys⟩ := Array.back?_eq_some_iff.1 h
    exact .inr ⟨ys, f, hys⟩

@[simp] theorem status_fail (d : Diagnostic) : (m.fail d).2.status = .stopped := by
  unfold fail
  simp

@[simp] theorem frames_fail (d : Diagnostic) : (m.fail d).2.frames = #[] := by
  unfold fail
  simp

theorem fail_of_push (hm : m.frames = ys.push f) (d : Diagnostic) :
    m.fail d = (f.blame d, (m.report (f.blame d)).terminate .stopped) := by
  simp [fail, hm, Frame.blame]

end Top

/-! ## One turn of the loop -/

section Turn

variable {hear : Hearing α ω} {m m' : Machine α} {w w' : ω} {ys : Array Frame} {f : Frame}
  {n : Nat}

theorem execute_empty (hm : m.frames = #[]) :
    execute hear n m w = (none, { m with status := .completed }, w) := by
  unfold execute
  simp [hm]

theorem execute_zero (hm : m.frames = ys.push f) : execute hear 0 m w = (none, m, w) := by
  unfold execute
  simp [hm]

theorem execute_outside (hm : m.frames = ys.push f)
    (hout : ¬(0 ≤ f.pc ∧ f.pc < f.proto.code.size)) :
    execute hear (n + 1) m w =
      (some (m.fail f.outsideFault).1, (m.fail f.outsideFault).2, w) := by
  rw [execute]
  simp only [hm, Array.back?_push, Frame.outsideFault]
  by_cases hle : (f.proto.code.size : Int) ≤ f.pc
  · simp [hle]
  · have hneg : f.pc < 0 := by omega
    simp [hle, hneg]

/-- One turn of the loop at an instruction of the innermost frame: the instruction runs with the
frame already past it; a failure is blamed on the instruction itself, a fault of malformed
bytecode on the one after it. -/
theorem execute_turn (hm : m.frames = ys.push f) (h0 : 0 ≤ f.pc)
    (hlt : f.pc < f.proto.code.size) :
    execute hear (n + 1) m w =
      match stepWith hear (m.modifyTop fun g => { g with pc := f.pc + 1 }) w f f.current with
      | .failed d w => (some (m.fail d).1, (m.fail d).2, w)
      | .broken t w =>
        let m := m.modifyTop fun g => { g with pc := f.pc + 1 }
        (some (m.fail (invalidBytecode t)).1, (m.fail (invalidBytecode t)).2, w)
      | .next m w =>
        if m.stopRequested then
          (none, { m with stopRequested := false, pauseRequested := false }.terminate .stopped, w)
        else if m.pauseRequested then
          (none, { m with pauseRequested := false, status := .paused }, w)
        else execute hear n m w := by
  rw [execute]
  simp only [hm, Array.back?_push, Frame.current]
  rw [if_neg (by omega), if_neg (by omega)]
  cases stepWith hear (m.modifyTop fun g => { g with pc := f.pc + 1 }) w f
    (f.proto.code.getD f.pc.toNat default) <;> simp only [modifyTop_pc_back hm]

theorem execute_failed (hm : m.frames = ys.push f) (h0 : 0 ≤ f.pc)
    (hlt : f.pc < f.proto.code.size) {d : Diagnostic} {w₁ : ω}
    (ho : stepWith hear (m.modifyTop fun g => { g with pc := f.pc + 1 }) w f f.current =
      .failed d w₁) :
    execute hear (n + 1) m w = (some (m.fail d).1, (m.fail d).2, w₁) := by
  simp only [execute_turn hm h0 hlt, ho]

theorem execute_broken (hm : m.frames = ys.push f) (h0 : 0 ≤ f.pc)
    (hlt : f.pc < f.proto.code.size) {t : String} {w₁ : ω}
    (ho : stepWith hear (m.modifyTop fun g => { g with pc := f.pc + 1 }) w f f.current =
      .broken t w₁) :
    execute hear (n + 1) m w =
      (some ((m.modifyTop fun g => { g with pc := f.pc + 1 }).fail (invalidBytecode t)).1,
        ((m.modifyTop fun g => { g with pc := f.pc + 1 }).fail (invalidBytecode t)).2, w₁) := by
  simp only [execute_turn hm h0 hlt, ho]

theorem execute_stopped (hm : m.frames = ys.push f) (h0 : 0 ≤ f.pc)
    (hlt : f.pc < f.proto.code.size) {m₁ : Machine α} {w₁ : ω}
    (ho : stepWith hear (m.modifyTop fun g => { g with pc := f.pc + 1 }) w f f.current =
      .next m₁ w₁)
    (hs : m₁.stopRequested = true) :
    execute hear (n + 1) m w =
      (none, { m₁ with stopRequested := false, pauseRequested := false }.terminate .stopped,
        w₁) := by
  simp only [execute_turn hm h0 hlt, ho, hs, if_true]

theorem execute_paused (hm : m.frames = ys.push f) (h0 : 0 ≤ f.pc)
    (hlt : f.pc < f.proto.code.size) {m₁ : Machine α} {w₁ : ω}
    (ho : stepWith hear (m.modifyTop fun g => { g with pc := f.pc + 1 }) w f f.current =
      .next m₁ w₁)
    (hs : m₁.stopRequested = false) (hp : m₁.pauseRequested = true) :
    execute hear (n + 1) m w =
      (none, { m₁ with pauseRequested := false, status := .paused }, w₁) := by
  simp only [execute_turn hm h0 hlt, ho, hs, hp, if_true, if_false, Bool.false_eq_true]

theorem execute_carry (hm : m.frames = ys.push f) (h0 : 0 ≤ f.pc)
    (hlt : f.pc < f.proto.code.size) {m₁ : Machine α} {w₁ : ω}
    (ho : stepWith hear (m.modifyTop fun g => { g with pc := f.pc + 1 }) w f f.current =
      .next m₁ w₁)
    (hs : m₁.stopRequested = false) (hp : m₁.pauseRequested = false) :
    execute hear (n + 1) m w = execute hear n m₁ w₁ := by
  simp only [execute_turn hm h0 hlt, ho, hs, hp, if_false, Bool.false_eq_true]

theorem stepWith_next {i : Instruction} (h : stepWith hear m w f i = .next m' w') :
    (i.op? = some .notify ∧
      ∃ n, f.proto.notifications[i.bx]? = some n ∧ m.dispatch hear w n = .ok (m', w')) ∨
      (m.exec i = .ok m' ∧ w' = w) := by
  unfold stepWith at h
  split at h
  · split at h
    · split at h
      · cases h
        exact .inl ⟨by simpa using ‹(i.op? == some Op.notify) = true›, _, ‹_›, ‹_›⟩
      · cases h
    · cases h
  · split at h
    · cases h
      exact .inr ⟨‹_›, rfl⟩
    · cases h
    · cases h

theorem stepWith_next_status {i : Instruction} (h : stepWith hear m w f i = .next m' w') :
    m'.status = m.status := by
  rcases stepWith_next h with ⟨-, n, -, hd⟩ | ⟨he, -⟩
  · obtain ⟨p, s, rfl⟩ := dispatch_asked hd
    rfl
  · exact congrArg Controls.status (exec_controls he)

theorem stepWith_next_requested {i : Instruction} (h : stepWith hear m w f i = .next m' w')
    (hnew : m'.pauseRequested = true ∨ m'.stopRequested = true)
    (hold : m.pauseRequested = false ∧ m.stopRequested = false) : m'.frames = m.frames := by
  rcases stepWith_next h with ⟨-, n, -, hd⟩ | ⟨he, -⟩
  · obtain ⟨p, s, rfl⟩ := dispatch_asked hd
    rfl
  · have hc := exec_controls he
    have hp : m'.pauseRequested = m.pauseRequested := congrArg Controls.pauseRequested hc
    have hs : m'.stopRequested = m.stopRequested := congrArg Controls.stopRequested hc
    simp_all

end Turn

/-! ## Starting a run -/

section Start

variable {hear : Hearing α ω} {m : Machine α} {w : ω} {chunk : Chunk} {n : Nat}

def started (m : Machine α) (f : Frame) : Machine α :=
  { m with frames := #[f], pauseRequested := false, stopRequested := false, status := .running }

theorem run_busy (h : m.status = .running ∨ m.status = .paused) :
    run hear n chunk m w = .ok (some (m.control .busy).1, (m.control .busy).2, w) := by
  rcases h with h | h <;> simp [run, h]

theorem run_invalid (h : ¬(m.status = .running ∨ m.status = .paused)) {e : String}
    (hv : chunk.validate = some e) :
    run hear n chunk m w =
      .ok (some (m.fail (invalidBytecode e)).1, (m.fail (invalidBytecode e)).2, w) := by
  simp only [not_or] at h
  simp [run, h, hv]

theorem run_valid (h : ¬(m.status = .running ∨ m.status = .paused))
    (hv : chunk.validate = none) :
    run hear n chunk m w =
      ((chunk.globals.foldl (fun m name => (m.globalCell name).2) m).newFrame chunk #[]
        chunk.globals 0).map fun (f, m) => execute hear n (m.started f) w := by
  simp only [not_or] at h
  simp only [run, h, hv, beq_iff_eq, Bool.or_eq_true, or_self, if_false]
  cases (chunk.globals.foldl (fun m name => (m.globalCell name).2) m).newFrame chunk #[]
    chunk.globals 0 <;> rfl

/-- A run on a machine that is not paused ends at once, the same way whatever the listeners and
the fuel; or escapes, the same way; or executes from a running machine that asks for nothing. -/
theorem run_cases (chunk : Chunk) (m : Machine α) (w : ω) (hidle : m.status ≠ .paused) :
    (∃ r : Option Diagnostic × Machine α × ω, r.2.1.status ≠ .paused ∧
      ∀ (hear : Hearing α ω) n, run hear n chunk m w = .ok r) ∨
    (∃ e, ∀ (hear : Hearing α ω) n, run hear n chunk m w = .error e) ∨
    (∃ m₀ : Machine α, m₀.status = .running ∧ m₀.pauseRequested = false ∧
      ∀ (hear : Hearing α ω) n, run hear n chunk m w = .ok (execute hear n m₀ w)) := by
  by_cases hbusy : m.status = .running ∨ m.status = .paused
  · exact .inl ⟨_, by simp [control, hidle], fun _ _ => run_busy hbusy⟩
  cases hv : chunk.validate with
  | some e => exact .inl ⟨_, by simp, fun _ _ => run_invalid hbusy hv⟩
  | none =>
    cases hf : (chunk.globals.foldl (fun m name => (m.globalCell name).2) m).newFrame chunk #[]
      chunk.globals 0 with
    | error e => exact .inr (.inl ⟨e, fun _ _ => by simp [run_valid hbusy hv, hf, Except.map]⟩)
    | ok p =>
      refine .inr (.inr ⟨p.2.started p.1, rfl, rfl, fun _ _ => ?_⟩)
      simp [run_valid hbusy hv, hf, Except.map]

end Start

/-! ## A chunk with one event site

The runs that show the control surface at work: a single-step listener that asks for a pause at
every event, and a chunk whose one `VISNOTIFY` names a single-step site. -/

def pauseEvery : Hearing Unit Unit := fun _ _ _ w => .ok (w, { pause := true })

def stepListener : Registry Unit := (({} : Registry Unit).register .singleStep ()).2

/-- `VISNOTIFY` of a single-step site, then `RETURN`; a local named `x` claims register 5 of the
chunk's one register, which validation does not check. -/
def siteChunk : Chunk :=
  { name := "main", registers := 1,
    code := #[.abx Op.notify.code 0 0, .abc Op.ret.code 0 1 0],
    spans := #[Span.empty, Span.empty],
    notifications := #[{ kind := Kind.singleStep.code }],
    locals := #[⟨"x", 5, 0, 2⟩] }

def viewFault {β : Type} : Option (Except String β) → Option String
  | some (.error e) => some e
  | _ => none

theorem eq_of_viewFault {β : Type} {v : Option (Except String β)} {e : String}
    (h : viewFault v = some e) : v = some (.error e) := by
  cases v with
  | none => cases h
  | some x =>
    cases x with
    | error _ =>
      cases h
      rfl
    | ok _ => cases h

end Machine

end ScriptMachine
