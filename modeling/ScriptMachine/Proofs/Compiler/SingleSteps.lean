import Mathlib
import ScriptMachine.Proofs.Compiler.Quiet
import ScriptMachine.Proofs.Compiler.Statements
/-!
# Single-step sites

When single steps are listened to, every statement but a block, a loop's head or `pass` is
preceded by a single-step site, unless the last single-step site of its function is on the same
line: each function being compiled records the line of its last site (`Frame.lastLine`). Two
single-step sites that follow each other in a chunk are therefore on different lines, in the
chunk of a compiled program and in every chunk nested in it (`compile_stepsApart`). A line
reached again after another one gets a site again: there is one site for each run of statements
on a line, not one for each line.
-/

namespace ScriptMachine

namespace Bytecode

/-- The single-step sites of a chunk compiled for the listeners of kinds `ks`, and of every chunk
nested in it: no two that follow each other are on one line, and there are none unless single
steps are listened to. -/
inductive Chunk.StepsApart (ks : List Kind) : Chunk → Prop
  | intro {c : Chunk} (apart : c.stepLines.IsChain (· ≠ ·))
      (unheard : Kind.singleStep ∉ ks → c.stepLines = [])
      (protos : ∀ p ∈ c.protos, StepsApart ks p) : StepsApart ks c

theorem Chunk.StepsApart.congr {ks : List Kind} {c c' : Chunk} (h : c.StepsApart ks)
    (hn : c'.notifications = c.notifications) (hp : c'.protos = c.protos) : c'.StepsApart ks := by
  have hl : c'.stepLines = c.stepLines := by simp only [stepLines, hn]
  cases h with
  | intro apart unheard protos => exact .intro (hl ▸ apart) (hl ▸ unheard) (hp ▸ protos)

end Bytecode

namespace Compiler

open Bytecode Syntax

/-! ## The invariant -/

/-- The single-step state of a function being compiled for the listeners of kinds `ks`: its
single-step sites follow each other on different lines, the line it records is that of the last
of them (`-1` before the first), it has none unless single steps are listened to, and its nested
chunks have their sites apart. -/
structure Frame.Stepped (ks : List Kind) (f : Frame) : Prop where
  apart : f.chunk.stepLines.IsChain (· ≠ ·)
  last : f.lastLine = f.chunk.stepLines.getLast?.getD (-1)
  unheard : Kind.singleStep ∉ ks → f.chunk.stepLines = []
  protos : ∀ p ∈ f.chunk.protos, p.StepsApart ks

namespace Frame.Stepped

variable {ks : List Kind} {f f' : Frame}

theorem of_sameSteps (h : f.Stepped ks) (hs : f.SameSteps f') : f'.Stepped ks := by
  obtain ⟨hl, hsl, hp, -⟩ := hs
  exact ⟨hsl ▸ h.apart, by rw [hl, hsl, h.last], hsl ▸ h.unheard, hp ▸ h.protos⟩

theorem empty {c : Chunk} {module : Bool} {order : Nat} (hn : c.notifications = #[])
    (hp : c.protos = #[]) :
    ({ chunk := c, module := module, order := order } : Frame).Stepped ks where
  apart := by simp [Chunk.stepLines, hn]
  last := by simp [Chunk.stepLines, hn]
  unheard := fun _ => by simp [Chunk.stepLines, hn]
  protos := by simp [hp]

theorem step (h : f.Stepped ks) (hk : Kind.singleStep ∈ ks) {n : Notification}
    (hn : n.isStep = true) (hne : n.span.start.line ≠ f.lastLine) (i : Instruction) :
    ({ f with lastLine := n.span.start.line,
               chunk := { f.chunk with notifications := f.chunk.notifications.push n }.emit
                 i n.span } : Frame).Stepped ks := by
  have hlines : ({ f.chunk with notifications := f.chunk.notifications.push n }.emit
      i n.span).stepLines = f.chunk.stepLines ++ [n.span.start.line] := by
    rw [Chunk.stepLines_emit, Chunk.stepLines_push, hn, if_pos rfl]
  refine ⟨?_, ?_, fun hk' => absurd hk hk', h.protos⟩
  · -- the new line differs from the last one, which is the line recorded
    rw [hlines, List.isChain_append]
    refine ⟨h.apart, List.isChain_singleton _, fun x hx y hy => ?_⟩
    have hxl : x = f.lastLine := by rw [h.last, hx]; rfl
    simp only [List.head?_cons, Option.mem_def, Option.some.injEq] at hy
    rw [hxl, ← hy]
    exact hne.symm
  · rw [hlines, List.getLast?_concat]
    rfl

end Frame.Stepped

def Resolver.Stepped (ks : List Kind) (r : Resolver) : Prop := ∀ f ∈ r.frames, f.Stepped ks

theorem stepped_of_forall₂ {ks : List Kind} {fs fs' : List Frame} (h : ∀ f ∈ fs, f.Stepped ks)
    (hs : List.Forall₂ Frame.SameSteps fs fs') : ∀ f ∈ fs', f.Stepped ks := by
  induction hs with
  | nil => exact fun _ hf => absurd hf List.not_mem_nil
  | cons hf _ ih =>
    intro g hg
    rcases List.mem_cons.mp hg with rfl | hg
    · exact (h _ (List.mem_cons_self ..)).of_sameSteps hf
    · exact ih (fun f hf' => h f (List.mem_cons_of_mem _ hf')) g hg

theorem Quiet.stepped {α : Type} {o : Options} {act : GenM α} (h : Quiet o act) :
    Holds o (Resolver.Stepped o.listened) act fun _ => Resolver.Stepped o.listened :=
  fun r a r' hrun hs => stepped_of_forall₂ hs (h r a r' hrun)

/-! ## Single-step sites and functions -/

section Primitives

variable {o : Options}

/-- A single-step site is added only on a line other than the one recorded, and records its
line. -/
theorem step_stepped (s : Span) :
    Holds o (Resolver.Stepped o.listened) (step s) fun _ => Resolver.Stepped o.listened := by
  unfold Compiler.step
  refine Holds.listening_bind .singleStep fun _ hb =>
    Holds.ite (fun hk => ?_) fun _ => Holds.pure fun _ h => h
  refine Holds.frame.bind fun f => Holds.ite (fun hne => ?_) fun _ => Holds.pure fun _ h => h.1
  intro r a r' hrun ⟨hs, fs, hr⟩
  rw [Triple.bind_run, Triple.liftM_run, Resolver.modifyFrame_run hr] at hrun
  rw [Triple.run_pure_bind, notify_run rfl] at hrun
  cases hrun
  intro g hg
  rcases List.mem_cons.mp hg with rfl | hg
  · exact (hs f (hr ▸ List.mem_cons_self ..)).step (hb.1 hk) rfl (bne_iff_ne.mp hne) _
  · exact hs g (hr ▸ List.mem_cons_of_mem _ hg)

theorem beginFunction_stepped (name : String) (p : Int) (module : Bool) :
    Holds o (Resolver.Stepped o.listened)
      (liftM (Resolver.beginFunction { name := name, params := p } module) : GenM Unit)
      fun _ => Resolver.Stepped o.listened := by
  intro r a r' hrun hs
  cases hrun
  intro g hg
  rcases List.mem_cons.mp hg with rfl | hg
  · exact Frame.Stepped.empty rfl rfl
  · exact hs g hg

theorem endFunction_stepped :
    Holds o (Resolver.Stepped o.listened) (liftM Resolver.endFunction : GenM Chunk)
      fun c r => Resolver.Stepped o.listened r ∧ c.StepsApart o.listened := by
  intro r c r' hrun hs
  rw [Triple.liftM_run] at hrun
  cases hr : r.frames with
  | nil => simp [Resolver.endFunction, Resolver.frame_run_nil hr] at hrun
  | cons f fs =>
    simp only [Resolver.endFunction, StateT.run_bind, Resolver.frame_run hr, pure_bind] at hrun
    split at hrun
    · cases hrun
    · simp only [StateT.run_bind, StateT.run_modify, pure_bind, StateT.run_pure] at hrun
      cases hrun
      have hf := hs f (hr ▸ List.mem_cons_self ..)
      refine ⟨fun g hg => hs g ?_, .intro hf.apart hf.unheard hf.protos⟩
      simp only [hr, List.drop_succ_cons, List.drop_zero] at hg
      exact hr ▸ List.mem_cons_of_mem _ hg

theorem pushProto_stepped {q : Chunk} :
    Holds o (fun r => Resolver.Stepped o.listened r ∧ q.StepsApart o.listened)
      (liftM (Resolver.modifyChunk fun c => { c with protos := c.protos.push q }) : GenM Unit)
      fun _ => Resolver.Stepped o.listened := by
  intro r a r' hrun ⟨hs, hq⟩
  rw [Triple.liftM_run] at hrun
  cases hr : r.frames with
  | nil => rw [Resolver.modifyChunk, Resolver.modifyFrame_run_nil hr] at hrun; cases hrun
  | cons f fs =>
    rw [Resolver.modifyChunk_run hr] at hrun
    cases hrun
    have hf := hs f (hr ▸ List.mem_cons_self ..)
    intro g hg
    rcases List.mem_cons.mp hg with rfl | hg
    · refine ⟨hf.apart, hf.last, hf.unheard, fun p hp => ?_⟩
      rcases Array.mem_push.mp hp with hp | rfl
      · exact hf.protos p hp
      · exact hq
    · exact hs g (hr ▸ List.mem_cons_of_mem _ hg)

end Primitives

/-! ## Expression statements -/

section Pieces

variable {o : Options}

theorem evalStmt_quiet (x : Expr) : Quiet o (evalStmt x) := by
  unfold evalStmt
  have h := Quiet.closed (o := o)
  refine h.inScope (Quiet.read (h.bind h.inFunction fun _ => h.ite (fun _ => ?_) fun _ =>
    h.bind h.temp fun t => (h.gen_uses x).into t))
  exact h.bind h.temp fun t => h.callInto _ _ (h.gen_uses _)
    (fun c hc => by rw [List.mem_singleton] at hc; exact hc ▸ h.gen_uses x) t

end Pieces

/-! ## Statements and programs -/

section Stmts

variable {o : Options}

theorem define_stepped (s : Span) (name : String) (params : List String) (body : Stmt)
    (hbody : Holds o (Resolver.Stepped o.listened) (stmt body)
      fun _ => Resolver.Stepped o.listened) :
    Holds o (Resolver.Stepped o.listened) (stmt (.define s name params body))
      fun _ => Resolver.Stepped o.listened := by
  rw [stmt]
  refine (step_stepped s).bind fun _ => (beginFunction_stepped name _ false).bind fun _ => ?_
  refine (Quiet.closed.declareLocals params body).stepped.bind fun _ => hbody.bind fun _ =>
    (Quiet.closed.emitABC _ _ _ _ _).stepped.bind fun _ => endFunction_stepped.bind fun proto => ?_
  refine (Holds.pre (fun _ ⟨hs, hp⟩ => ⟨hp, hs⟩)
    (Holds.pure_and (Quiet.resolver Resolver.WritesNothing.chunk.keepsSteps).stepped)).bind fun _ => ?_
  exact (Holds.pre (fun _ ⟨hp, hs⟩ => ⟨hs, hp⟩) pushProto_stepped).bind fun _ =>
    (Quiet.closed.bindFunction s name _).stepped

mutual

theorem stmt_stepped : ∀ x : Stmt,
    Holds o (Resolver.Stepped o.listened) (stmt x) fun _ => Resolver.Stepped o.listened
  | .block _ body => by
    rw [stmt]
    exact stmts_stepped body
  | .loop s test body => by
    rw [stmt]
    exact Quiet.closed.here.stepped.bind fun _ => (step_stepped s).bind fun _ =>
      ((Quiet.closed.gen_uses test).branch false).stepped.bind fun _ =>
        (stmt_stepped body).bind fun _ => (Quiet.closed.jump s).stepped.bind fun _ =>
          (Quiet.patch _ _).stepped.bind fun _ => (Quiet.closed.patchHere _).stepped
  | .eval s e => by
    rw [stmt]
    exact (step_stepped s).bind fun _ => (evalStmt_quiet e).stepped
  | .assign s targets values => by
    rw [stmt]
    exact (step_stepped s).bind fun _ => (Quiet.closed.assign s targets values).stepped
  | .cond s test yes none => by
    rw [stmt]
    exact (step_stepped s).bind fun _ =>
      ((Quiet.closed.gen_uses test).branch false).stepped.bind fun _ =>
        (stmt_stepped yes).bind fun _ => (Quiet.closed.patchHere _).stepped
  | .cond s test yes (some no) => by
    rw [stmt]
    exact (step_stepped s).bind fun _ =>
      ((Quiet.closed.gen_uses test).branch false).stepped.bind fun _ =>
        (stmt_stepped yes).bind fun _ => (Quiet.closed.jump s).stepped.bind fun _ =>
          (Quiet.closed.patchHere _).stepped.bind fun _ => (stmt_stepped no).bind fun _ =>
            (Quiet.closed.patchHere _).stepped
  | .each s var varSpan seq body => by
    rw [stmt]
    refine (step_stepped s).bind fun _ => ?_
    -- the loop's bookkeeping is quiet around the body
    refine (Quiet.resolver Resolver.WritesNothing.beginScope.keepsSteps).stepped.bind fun _ =>
      (Holds.bind ?_ fun _ => (Quiet.resolver Resolver.WritesNothing.endScope.keepsSteps).stepped.bind
        fun _ => Holds.pure fun _ h => h)
    refine (Quiet.closed.temps 3).stepped.bind fun base =>
      (Quiet.closed.inScope ((Quiet.closed.gen_uses seq).into base)).stepped.bind fun _ =>
        (Quiet.openJump _ _ s).stepped.bind fun _ => Quiet.closed.here.stepped.bind fun _ => ?_
    exact (Quiet.closed.store _ _ varSpan).stepped.bind fun _ => (stmt_stepped body).bind fun _ =>
      (Quiet.openJump _ _ s).stepped.bind fun _ => (Quiet.patch _ _).stepped.bind fun _ =>
        (Quiet.patch _ _).stepped
  | .define s name params body => define_stepped s name params body (stmt_stepped body)
  | .ret s values => by
    rw [stmt]
    exact (step_stepped s).bind fun _ => (Quiet.closed.returnStmt s values).stepped
  | .pass _ => by
    rw [stmt]
    exact Holds.pure fun _ h => h
  | .tagged s tags body => by
    rw [stmt]
    refine (step_stepped s).bind fun _ => Holds.listening_bind .vtagEntered fun _ _ => ?_
    dsimp only
    refine Holds.ite (fun _ => ?_) fun _ => (stmts_stepped body).bind fun _ =>
      (Quiet.closed.tagExit s tags).stepped
    exact (Quiet.closed.notify_kind (k := .vtagEntered) rfl (by decide)).stepped.bind fun _ =>
      (stmts_stepped body).bind fun _ => (Quiet.closed.tagExit s tags).stepped

theorem stmts_stepped : ∀ xs : List Stmt,
    Holds o (Resolver.Stepped o.listened) (stmts xs) fun _ => Resolver.Stepped o.listened
  | [] => by
    rw [stmts]
    exact Holds.pure fun _ h => h
  | x :: xs => by
    rw [stmts]
    exact (stmt_stepped x).bind fun _ => stmts_stepped xs

end

theorem compileBody_stepsApart (name : String) (body : List Stmt) :
    Holds o (fun r => r.frames = []) (compileBody name body)
      fun root _ => root.StepsApart o.listened := by
  unfold compileBody
  refine Holds.pre (fun r hr g hg => by rw [hr] at hg; cases hg)
    ((beginFunction_stepped name _ true).bind fun _ => (stmts_stepped body).bind fun _ =>
      (Quiet.closed.emitABC _ _ _ _ _).stepped.bind fun _ =>
        endFunction_stepped.bind fun root => ?_)
  refine (Holds.pre (fun _ ⟨hs, hp⟩ => ⟨hp, hs⟩)
    (Holds.pure_and (Quiet.resolver Resolver.WritesNothing.get.keepsSteps).stepped)).bind fun _ => ?_
  exact Holds.pure fun _ ⟨hp, _⟩ => hp.congr rfl rfl

end Stmts

/-- Single-step sites that follow each other are on different lines: in the chunk of every
compiled program, and in every chunk nested in it, two consecutive single-step sites never share
a line, and there is none unless single steps are listened to. A line reached again after another
one gets a new site. -/
theorem compile_stepsApart {p : Program} {o : Options} {c : Chunk} (h : compile p o = .chunk c) :
    c.StepsApart o.listened := by
  obtain ⟨body, -, r, hrun, -⟩ := compile_chunk_body h
  exact compileBody_stepsApart _ body {} c r hrun rfl

end Compiler

end ScriptMachine
