import ScriptMachine.Proofs.Compiler.Shaping
import ScriptMachine.Proofs.Compiler.Closed
/-!
# Compile steps that add no single-step site

A single-step site is added only by `step`, which also records its line in the frame of the
function being compiled (`Frame.lastLine`), and a function's nested chunks change only when a
function defined in it is finished. Every other compile step keeps, in each open function, the
line recorded, the lines of the single-step sites (`Chunk.stepLines`) and the nested chunks
(`Frame.SameSteps`), and whether each is the top level: it is `Quiet`. Steps of name
resolution are quiet since they write nothing (`Resolver.WritesNothing.keepsSteps`), and with
the emitter's steps they make quiet steps a closed class (`Quiet.closed`).
-/

namespace ScriptMachine

namespace Bytecode

/-- The lines of a chunk's single-step sites, in the order they were added. -/
def Chunk.stepLines (c : Chunk) : List Int :=
  (c.notifications.toList.filter Notification.isStep).map (·.span.start.line)

@[simp] theorem Chunk.stepLines_emit (c : Chunk) (i : Instruction) (s : Span) :
    (c.emit i s).stepLines = c.stepLines := rfl

theorem Chunk.stepLines_push (c : Chunk) (n : Notification) :
    { c with notifications := c.notifications.push n }.stepLines =
      c.stepLines ++ if n.isStep then [n.span.start.line] else [] := by
  by_cases hn : n.isStep <;> simp [stepLines, hn]

end Bytecode

namespace Compiler

open Bytecode

/-! ## The single-step state of a frame -/

/-- Frame `f'` has the single-step state of `f`: the line recorded, the single-step sites and
the nested chunks are the same, and it is the top level exactly when `f` is. -/
def Frame.SameSteps (f f' : Frame) : Prop :=
  f'.lastLine = f.lastLine ∧ f'.chunk.stepLines = f.chunk.stepLines ∧
    f'.chunk.protos = f.chunk.protos ∧ f'.module = f.module

namespace Frame.SameSteps

theorem refl (f : Frame) : f.SameSteps f := ⟨rfl, rfl, rfl, rfl⟩

theorem trans {f f' f'' : Frame} (h : f.SameSteps f') (h' : f'.SameSteps f'') :
    f.SameSteps f'' :=
  ⟨h'.1.trans h.1, h'.2.1.trans h.2.1, h'.2.2.1.trans h.2.2.1, h'.2.2.2.trans h.2.2.2⟩

theorem of_chunk {f : Frame} {c : Chunk} (hn : c.notifications = f.chunk.notifications)
    (hp : c.protos = f.chunk.protos) : f.SameSteps { f with chunk := c } :=
  ⟨rfl, by simp only [Chunk.stepLines, hn], hp, rfl⟩

end Frame.SameSteps

theorem sameSteps_refl (fs : List Frame) : List.Forall₂ Frame.SameSteps fs fs :=
  List.forall₂_same.2 fun f _ => .refl f

theorem sameSteps_trans {fs fs' fs'' : List Frame} (h : List.Forall₂ Frame.SameSteps fs fs')
    (h' : List.Forall₂ Frame.SameSteps fs' fs'') : List.Forall₂ Frame.SameSteps fs fs'' :=
  forall₂_trans h h' Frame.SameSteps.trans

theorem sameSteps_head {f f' : Frame} (fs : List Frame) (h : f.SameSteps f') :
    List.Forall₂ Frame.SameSteps (f :: fs) (f' :: fs) :=
  .cons h (sameSteps_refl fs)

/-! ## Steps of name resolution -/

/-- A step of name resolution that keeps the single-step state of every open function. -/
def Resolver.KeepsSteps {α : Type} (x : ResolveM α) : Prop :=
  ∀ r a r', x.run r = .ok (a, r') → List.Forall₂ Frame.SameSteps r.frames r'.frames

theorem Frame.SameWritten.sameSteps {f f' : Frame} (h : f.SameWritten f') : f.SameSteps f' :=
  ⟨h.2.1, by simp only [Chunk.stepLines, h.1.2.1], h.1.2.2, h.2.2⟩

theorem Resolver.WritesNothing.keepsSteps {α : Type} {x : ResolveM α}
    (h : Resolver.WritesNothing x) : Resolver.KeepsSteps x :=
  fun r a r' hrun => (h r a r' hrun).imp fun _ _ hs => hs.sameSteps

theorem Resolver.KeepsSteps.modifyFrame (g : Frame → Frame)
    (hg : ∀ f : Frame, f.SameSteps (g f)) : Resolver.KeepsSteps (Resolver.modifyFrame g) := by
  intro r b r' h
  cases hr : r.frames with
  | nil => rw [Resolver.modifyFrame_run_nil hr] at h; cases h
  | cons f fs =>
    rw [Resolver.modifyFrame_run hr] at h
    cases h
    exact sameSteps_head fs (hg f)

/-! ## Quiet compile steps -/

theorem notify_run {o : Options} {r : Resolver} {f : Frame} {fs : List Frame}
    (hr : r.frames = f :: fs) (n : Notification) :
    ((Compiler.notify n).run o).run r = pure ((), { r with frames :=
      { f with chunk := ({ f.chunk with notifications := f.chunk.notifications.push n }.emit
        (Instruction.abx Op.notify.code 0 f.chunk.notifications.size) n.span) } :: fs }) := by
  simp only [Compiler.notify, Triple.bind_run, Triple.liftM_run, Resolver.chunkCount_run hr,
    Resolver.modifyChunk_run hr, Triple.run_pure_bind, Compiler.emitABx]
  rw [emit_run_mk]
  rfl

/-- A compile step that keeps the single-step state of every open function. -/
def Quiet {α : Type} (o : Options) (act : GenM α) : Prop :=
  ∀ r a r', (act.run o).run r = .ok (a, r') → List.Forall₂ Frame.SameSteps r.frames r'.frames

namespace Quiet

variable {α β : Type} {o : Options} {act : GenM α}

theorem bind {x : GenM α} {f : α → GenM β} (hx : Quiet o x) (hf : ∀ a, Quiet o (f a)) :
    Quiet o (x >>= f) := by
  intro r b r' h
  rw [Triple.bind_run] at h
  cases hx' : (x.run o).run r with
  | error e => rw [hx'] at h; cases h
  | ok p =>
    rw [hx'] at h
    exact sameSteps_trans (hx r p.1 p.2 hx') (hf p.1 p.2 b r' h)

theorem pure (a : α) : Quiet o (Pure.pure a : GenM α) := by
  intro r b r' h
  cases h
  exact sameSteps_refl _

theorem throw (e : Fault) : Quiet o (throw e : GenM α) := by
  intro r a r' h
  cases h

theorem resolver {x : ResolveM α} (h : Resolver.KeepsSteps x) : Quiet o (liftM x : GenM α) :=
  fun r a r' hrun => h r a r' (by rwa [Triple.liftM_run] at hrun)

theorem read {f : Options → GenM α} (h : Quiet o (f o)) : Quiet o (MonadReader.read >>= f) :=
  fun r a r' hrun => h r a r' hrun

theorem emit (i : Instruction) (s : Span) : Quiet o (emit i s) := by
  intro r a r' hrun
  cases hr : r.frames with
  | nil => rw [emit_run_nil hr] at hrun; cases hrun
  | cons f fs =>
    rw [emit_run hr] at hrun
    cases hrun
    exact sameSteps_head fs (.of_chunk rfl rfl)

theorem openJump (op : Op) (a : Nat) (s : Span) : Quiet o (openJump op a s) := by
  unfold Compiler.openJump
  refine bind (resolver (Resolver.KeepsSteps.modifyFrame _ ?_)) fun _ => emit _ s
  exact fun _ => ⟨rfl, rfl, rfl, rfl⟩

theorem patch (pcs : List Nat) (t : Nat) : Quiet o (patch pcs t) := by
  unfold Compiler.patch
  induction pcs with
  | nil => exact pure _
  | cons pc rest ih =>
    refine bind ?_ fun _ => ih
    intro r a r' hrun
    cases hr : r.frames with
    | nil => simp [Resolver.chunk, Resolver.frame_run_nil hr] at hrun
    | cons f fs =>
      simp only [Triple.bind_run, Triple.liftM_run, Resolver.chunk_run hr,
        Triple.run_pure_bind] at hrun
      split at hrun
      · rename_i c' hp
        rw [Triple.liftM_run, Resolver.modifyFrame_run hr] at hrun
        cases hrun
        have ht := Chunk.patchJump_tables hp
        exact sameSteps_head fs ⟨rfl, by simp only [Chunk.stepLines, ht.1], ht.2.1, rfl⟩
      · cases hrun

theorem notify {n : Notification} (hn : n.isStep = false) : Quiet o (notify n) := by
  intro r a r' hrun
  cases hr : r.frames with
  | nil => simp [Compiler.notify, Resolver.chunkCount_run_nil hr] at hrun
  | cons f fs =>
    rw [notify_run hr] at hrun
    cases hrun
    refine sameSteps_head fs ⟨rfl, ?_, rfl, rfl⟩
    rw [Chunk.stepLines_emit, Chunk.stepLines_push, hn]
    simp

/-- Quiet steps form a closed class: every compiled expression and every piece of a statement
built from expressions is quiet. -/
theorem closed : Closed (Quiet o) where
  bind := bind
  pure := pure
  throw := throw
  listening _ := fun _ _ _ h => by cases h; exact sameSteps_refl _
  emit := emit
  openJump := openJump
  patch := patch
  notify := notify
  chunk := resolver Resolver.WritesNothing.chunk.keepsSteps
  inFunction := resolver Resolver.WritesNothing.inFunction.keepsSteps
  find name := resolver (Resolver.WritesNothing.find name).keepsSteps
  define name := resolver (Resolver.WritesNothing.define name).keepsSteps
  alloc := resolver Resolver.WritesNothing.alloc.keepsSteps
  temps n := resolver (Resolver.WritesNothing.temps n).keepsSteps
  numberId x := resolver (Resolver.WritesNothing.numberId x).keepsSteps
  textId t := resolver (Resolver.WritesNothing.textId t).keepsSteps
  report d := resolver (Resolver.WritesNothing.report d).keepsSteps
  beginScope := resolver Resolver.WritesNothing.beginScope.keepsSteps
  endScope := resolver Resolver.WritesNothing.endScope.keepsSteps

end Quiet

end Compiler

end ScriptMachine
