import ScriptMachine.Proofs.Debug.Stepping
import ScriptMachine.Proofs.Compiler.BracketedPrograms
/-!
# The debugger on compiled scripts

A session whose debugger hears each call and each return compiles against a registry listening
to both, so a script whose calls are all observed compiles to code that brackets its calls
(`Compiler.compile_bracketed`). Along every run of it the debugger's depth is the number of
frames above the top level at each single step, and its stops follow that number.

A call of a function named with the machine's own `__` prefix is not observed: it pushes
a frame the debugger does not count. Nor is the echo of an interactive program's expression
statements, a call of the machine's own `__print__`.
-/

namespace ScriptMachine

namespace Debug

open Bytecode Machine Syntax Compiler

theorem observesCalls_of_counts {r : Registry Listener} (hr : DebuggerCounts r) :
    Compiler.Options.ObservesCalls { mode := .script, listened := r.kinds } where
  called := List.mem_filter.2 ⟨by decide, has_of_countP hr.1⟩
  returned := List.mem_filter.2 ⟨by decide, has_of_countP hr.2⟩
  script := rfl

theorem Session.compile_of_compileProgram {s : Session} {p : Program} {mode : Compiler.Mode}
    {c : Chunk} (h : (s.compileProgram p mode).2 = .chunk c) :
    Compiler.compile p { mode := mode, listened := s.registry.kinds } = .chunk c := by
  unfold Session.compileProgram at h
  split at h
  · rename_i c' hc
    cases h
    exact hc
  · rename_i hne
    exact absurd h (hne c)

/-- For a script whose calls are all observed, compiled against a session whose debugger hears
each call and each return, and run from an idle machine with the debugger's depth reset and
only function values that bracket their calls: at every single-step site the run reaches,
through any continuations, stops and changes of the debugger that keep its depth, the
debugger's depth is the number of frames above the top level, and it stops there exactly as
`stopsAt` says of that number, reporting it. -/
theorem debugger_depth_follows_frames {s s₁ s₂ : Session} {p : Program} {c : Chunk}
    {fuel : Nat} {d : Option Diagnostic} (hr : DebuggerCounts s.registry)
    (hp : p.callsObserved = true) (hc : (s.compileProgram p .script).2 = .chunk c)
    (hn : c.SitesNamed) (hheap : s.machine.heap.Bracketed) (hdepth : s.notes.debugger.depth = 0)
    (hidle : ¬(s.machine.status = .running ∨ s.machine.status = .paused))
    (hrun : s.run fuel c = .ok (s₁, d)) (hcont : Continues s₁ s₂) {ys : Array Frame}
    {f : Frame} (hm : s₂.machine.frames = ys.push f) (h0 : 0 ≤ f.pc)
    (hss : f.proto.siteAt f.pc.toNat .singleStep = true) :
    s₂.notes.debugger.depth = (s₂.machine.callDepth : Int) - 1 ∧
      ∀ sp : Span, (s₂.notes.debugger.hear (.singleStep sp)).2.map (·.depth) =
        if s₂.notes.debugger.stopsAt ((s₂.machine.callDepth : Int) - 1) sp.start.line then
          some ((s₂.machine.callDepth : Int) - 1) else none :=
  singleStep_depth_of_bracketed hr
    (Compiler.compile_bracketed (observesCalls_of_counts hr) hp
      (Session.compile_of_compileProgram hc) hn)
    hheap hdepth hidle hrun hcont hm h0 hss

/-! ## A new session -/

theorem Session.attached_ready (collecting : Bool) (maxDepth : Int) :
    DebuggerCounts (Session.create collecting maxDepth).attachDebugger.registry ∧
      (Session.create collecting maxDepth).attachDebugger.machine.heap.Bracketed ∧
      (Session.create collecting maxDepth).attachDebugger.notes.debugger.depth = 0 ∧
      ¬((Session.create collecting maxDepth).attachDebugger.machine.status = .running ∨
        (Session.create collecting maxDepth).attachDebugger.machine.status = .paused) := by
  have hempty : (Session.create collecting maxDepth).attachDebugger.machine.heap.objects = #[] :=
    rfl
  refine ⟨⟨rfl, rfl⟩, fun _ _ h => ?_, rfl, by simp [Session.attachDebugger, Session.create,
    Session.withRegistry, Machine.create]⟩
  simp [Heap.get?, hempty] at h

/-! ## Inside a call -/

/-- A compile and a run of a script that end with the run under way and the result passing a
check. -/
def Session.runsTo (s : Session) (p : Program) (fuel : Nat) (P : Chunk → Session → Bool) :
    Bool :=
  match (s.compileProgram p .script).2 with
  | .chunk c =>
    match s.run fuel c with
    | .ok (s₁, none) => P c s₁
    | _ => false
  | _ => false

theorem Session.exists_of_runsTo {s : Session} {p : Program} {fuel : Nat}
    {P : Chunk → Session → Bool} (h : s.runsTo p fuel P = true) :
    ∃ c s₁, (s.compileProgram p .script).2 = .chunk c ∧ s.run fuel c = .ok (s₁, none) ∧
      P c s₁ = true := by
  unfold Session.runsTo at h
  split at h
  · rename_i c hc
    split at h
    · rename_i s₁ hrun
      exact ⟨c, s₁, hc, hrun, h⟩
    · cases h
  · cases h

def lines (a b : Int) : Span := ⟨⟨a, 0⟩, ⟨b, 8⟩⟩

/-- `def f(): x = None; return x` on lines 1 to 3, and the call `f()` on line 4. -/
def callScript : Program :=
  ⟨"m", some
    [ .define (lines 1 3) "f" [] (.block (lines 2 3) [
        .assign (lines 2 2) [.ident (lines 2 2) "x"] [.nil (lines 2 2)],
        .ret (lines 3 3) [.ident (lines 3 3) "x"]]),
      .eval (lines 4 4) (.call (lines 4 4) (.ident (lines 4 4) "f") []) ]⟩

def breakSession : Session :=
  ((Session.create false 200).attachDebugger.withDebugger (·.setBreakpoint 2)).1

/-- Run seven steps, the call script stands at the first single step inside `f`, two frames
deep: the debugger counts one frame above the top level, and hearing that step it stops at the
breakpoint reporting depth one. -/
theorem debugger_depth_inside_call :
    ∃ c s₁, (breakSession.compileProgram callScript .script).2 = .chunk c ∧
      breakSession.run 7 c = .ok (s₁, none) ∧ s₁.machine.callDepth = 2 ∧
      s₁.notes.debugger.depth = 1 ∧
      (s₁.notes.debugger.hear (.singleStep (lines 2 2))).2.map (·.depth) = some 1 := by
  obtain ⟨hr, hheap, hdepth, hidle⟩ := Session.attached_ready false 200
  -- the compile and the run are evaluated; what the theorem needs is read off their results
  have hruns : breakSession.runsTo callScript 7 (fun c s₁ => c.sitesFit &&
      (s₁.machine.frames.size == 2) && s₁.notes.debugger.stopsAt 1 2 &&
      (s₁.machine.frames.back?.any fun (f : ScriptMachine.Frame) =>
        decide (0 ≤ f.pc) && f.proto.siteAt f.pc.toNat .singleStep)) = true := by
    decide +kernel
  obtain ⟨c, s₁, hc, hrun, hcheck⟩ := Session.exists_of_runsTo hruns
  simp only [Bool.and_eq_true, beq_iff_eq, Option.any_eq_true] at hcheck
  obtain ⟨⟨⟨hfit, hsize⟩, hstops⟩, f, hback, hf⟩ := hcheck
  rw [decide_eq_true_eq] at hf
  obtain ⟨ys, hm⟩ := Array.back?_eq_some_iff.mp hback
  have hdepth' := debugger_depth_follows_frames (s := breakSession) hr rfl hc
    (Chunk.SitesNamed.of_sitesFit c hfit) hheap hdepth hidle hrun (.refl _) hm hf.1 hf.2
  have hcall : s₁.machine.callDepth = 2 := hsize
  have hone : ((2 : Nat) : Int) - 1 = 1 := rfl
  rw [hcall, hone] at hdepth'
  refine ⟨c, s₁, hc, hrun, hcall, hdepth'.1, ?_⟩
  rw [hdepth'.2]
  exact if_pos hstops

end Debug

end ScriptMachine
