import ScriptMachine.Proofs.Compiler.Frames
import ScriptMachine.Proofs.Compiler.Triple
/-!
# Contracts of the primitive compile steps

Each primitive step of the compiler gets one contract in terms of `At`: what it needs of the
marks and what it leaves. Appending an instruction needs the instruction to be well formed in
every chunk meeting the mark (`Mark.Emits`); allocating a register moves the mark's next free
register; scopes are entered and left; patching a jump keeps the code well formed whatever the
jump and its target, since a patch that would not is a fault. Later proofs use only these
contracts and never unfold a primitive.
-/

namespace ScriptMachine.Compiler

open Bytecode

/-! ## Runs of the resolver's steps -/

namespace Resolver

variable {r : Resolver} {f : Frame} {fs : List Frame}

theorem frame_run (hr : r.frames = f :: fs) : frame.run r = pure (f, r) := by
  simp [frame, hr]

theorem frame_run_nil (hr : r.frames = []) : frame.run r = .error Fault.noFunction := by
  simp only [frame, StateT.run_bind, StateT.run_get, pure_bind, hr]
  rfl

theorem modifyFrame_run (hr : r.frames = f :: fs) (g : Frame → Frame) :
    (modifyFrame g).run r = pure ((), { r with frames := g f :: fs }) := by
  simp [modifyFrame, hr]

theorem modifyFrame_run_nil (hr : r.frames = []) (g : Frame → Frame) :
    (modifyFrame g).run r = .error Fault.noFunction := by
  simp only [modifyFrame, StateT.run_bind, StateT.run_get, pure_bind, hr]
  rfl

theorem chunk_run (hr : r.frames = f :: fs) : chunk.run r = pure (f.chunk, r) := by
  simp [chunk, frame_run hr]

theorem chunk_run_nil (hr : r.frames = []) : chunk.run r = .error Fault.noFunction := by
  simp only [chunk, bind_pure_comp, StateT.run_map, frame_run_nil hr]
  rfl

theorem chunkCount_run (hr : r.frames = f :: fs) (count : Chunk → Nat) :
    (chunkCount count).run r = pure (count f.chunk, r) := by
  simp [chunkCount, hr]

theorem chunkCount_run_nil (hr : r.frames = []) (count : Chunk → Nat) :
    (chunkCount count).run r = .error Fault.noFunction := by
  simp only [chunkCount, StateT.run_bind, StateT.run_get, pure_bind, hr]
  rfl

theorem report_run (d : Diagnostic) :
    (report d).run r = pure ((), { r with reports := r.reports.push d }) := rfl

theorem modifyChunk_run (hr : r.frames = f :: fs) (g : Chunk → Chunk) :
    (modifyChunk g).run r =
      pure ((), { r with frames := { f with chunk := g f.chunk } :: fs }) := by
  simp [modifyChunk, modifyFrame_run hr]

theorem modifyChunk_reports {g : Chunk → Chunk} {x : Unit} {r' : Resolver}
    (h : (modifyChunk g).run r = .ok (x, r')) : r'.reports = r.reports := by
  cases hr : r.frames with
  | nil => simp [modifyChunk, modifyFrame_run_nil hr] at h
  | cons f fs =>
    rw [modifyChunk_run hr] at h
    cases h
    rfl

end Resolver

/-! ## Appending instructions -/

/-- Instruction `i` is well formed where it lands in every chunk meeting the mark, of a module
with at least `g` global slots, once `k` more instructions follow it. -/
def Mark.Emits (g : Nat) (m : Mark) (k : Nat) (i : Instruction) : Prop :=
  ∀ (c : Chunk) (s : Span) (ng : Nat), m.Below c → 0 ≤ c.registers →
    c.registers ≤ registerLimit → g ≤ ng →
    (c.emit i s).InstrOK ng (c.code.size + 1 + k) c.code.size i

section Emit

variable {o : Options} {g : Nat} {m : Mark} {ms : List Mark} {k k' : Nat}

theorem emit_run {r : Resolver} {f : Frame} {fs : List Frame} (hr : r.frames = f :: fs)
    (i : Instruction) (s : Span) :
    ((emit i s).run o).run r =
      pure (f.chunk.code.size,
        { r with frames := { f with chunk := f.chunk.emit i s } :: fs }) := by
  simp [emit, Resolver.chunkCount_run hr, Resolver.modifyChunk_run hr]
  rfl

theorem emit_run_mk (r : Resolver) (f : Frame) (fs : List Frame) (i : Instruction) (s : Span) :
    ((emit i s).run o).run { r with frames := f :: fs } =
      pure (f.chunk.code.size, { r with frames := { f with chunk := f.chunk.emit i s } :: fs }) :=
  emit_run rfl i s

theorem emit_run_nil {r : Resolver} (hr : r.frames = []) (i : Instruction) (s : Span) :
    ((emit i s).run o).run r = .error Fault.noFunction := by
  simp [emit, Resolver.chunkCount_run_nil hr]

theorem Frame.Meets.emit {f : Frame} (h : f.Meets m) (i : Instruction) (s : Span) :
    ({ f with chunk := f.chunk.emit i s } : Frame).Meets m :=
  ⟨h.next, h.scopes, h.module, h.below.grow (Chunk.grows_emit f.chunk i s)⟩

theorem Triple.emit (hk : k ≤ k' + 1) (i : Instruction) (s : Span) :
    Triple o (fun r => At g (m :: ms) r k ∧ m.Emits g k' i) (emit i s)
      (fun _ r => At g (m :: ms) r k') := by
  intro r a r' hrun hclean
  cases hr : r.frames with
  | nil => rw [emit_run_nil hr] at hrun; cases hrun
  | cons f fs =>
    rw [emit_run hr] at hrun
    cases hrun
    refine ⟨hclean, fun ⟨hat, hi⟩ hh => ⟨?_, hh.keep hr rfl rfl rfl rfl rfl⟩⟩
    have hs := hat.head_sound hr
    have hm := hat.head_meets hr
    exact hat.set_head hr (hs.emit hk (hi f.chunk s _ hm.below hs.body.registers_nonneg
      hs.body.registers_le hat.globals)) (hm.emit i s)

theorem Triple.emitABC (hk : k ≤ k' + 1) (op : Op) (a b c : Nat) (s : Span) :
    Triple o (fun r => At g (m :: ms) r k ∧ m.Emits g k' (Instruction.abc op.code a b c))
      (emitABC op a b c s) (fun _ r => At g (m :: ms) r k') :=
  (Triple.emit hk _ s).bind fun _ => Triple.pure fun _ h => h

theorem Triple.emitABx (hk : k ≤ k' + 1) (op : Op) (a bx : Nat) (s : Span) :
    Triple o (fun r => At g (m :: ms) r k ∧ m.Emits g k' (Instruction.abx op.code a bx))
      (emitABx op a bx s) (fun _ r => At g (m :: ms) r k') :=
  (Triple.emit hk _ s).bind fun _ => Triple.pure fun _ h => h

theorem Triple.bookkeeping (h : Frame → Frame) (hc : ∀ f, (h f).chunk = f.chunk)
    (hs : ∀ f, (h f).scopes = f.scopes) (hn : ∀ f, (h f).next = f.next)
    (hcap : ∀ f, (h f).captured = f.captured) (hmod : ∀ f, (h f).module = f.module)
    (hcc : ∀ f, (h f).consts = f.consts) :
    Triple o (fun r => At g (m :: ms) r k) (liftM (Resolver.modifyFrame h) : GenM Unit)
      (fun _ r => At g (m :: ms) r k) := by
  intro r a r' hrun hclean
  rw [Triple.liftM_run] at hrun
  cases hr : r.frames with
  | nil => rw [Resolver.modifyFrame_run_nil hr] at hrun; cases hrun
  | cons f fs =>
    rw [Resolver.modifyFrame_run hr] at hrun
    cases hrun
    refine ⟨hclean, fun hat hh =>
      ⟨?_, hh.keep hr rfl (by rw [hc f]) (by rw [hc f]) (hcap f) (by rw [hc f])⟩⟩
    exact hat.set_head hr ((hat.head_sound hr).congr (hc f) (hs f) (hcap f) (hcc f))
      ((hat.head_meets hr).congr (hc f) (hs f) (hn f) (hmod f))

def waitingJump : Instruction := Instruction.asbx Op.jmp.code 0 0

theorem Chunk.landsWithin_emit_open (c : Chunk) (code a : Nat) (s : Span) (k : Nat) :
    (c.emit (Instruction.asbx code a 0) s).LandsWithin c.code.size (c.code.size + 1 + k) := by
  simp only [Chunk.LandsWithin, Chunk.jumpTarget]
  have hget : (c.emit (Instruction.asbx code a 0) s).code.getD c.code.size default =
      Instruction.asbx code a 0 := by
    simp [Chunk.emit]
  rw [hget, Instruction.sbx_asbx _ _ _ (by decide) (by decide)]
  omega

theorem Mark.emits_waitingJump (g : Nat) (m : Mark) (k : Nat) : m.Emits g k waitingJump :=
  fun c s _ _ _ _ _ => ⟨.jmp, Instruction.op?_asbx _ _ _, Chunk.landsWithin_emit_open c _ _ s k⟩

theorem Triple.openJump (hk : k ≤ k' + 1) (op : Op) (a : Nat) (s : Span) :
    Triple o (fun r => At g (m :: ms) r k ∧ m.Emits g k' (Instruction.asbx op.code a 0))
      (openJump op a s) (fun _ r => At g (m :: ms) r k') := by
  unfold Compiler.openJump
  exact (Triple.bookkeeping (fun f => { f with openJumps := f.openJumps + 1 }) (fun _ => rfl)
    (fun _ => rfl) (fun _ => rfl) (fun _ => rfl) (fun _ => rfl) (fun _ => rfl)).and_pure.bind fun _ =>
      Triple.emit hk _ s

theorem Triple.jump (hk : k ≤ k' + 1) (s : Span) :
    Triple o (fun r => At g (m :: ms) r k) (jump s) (fun _ r => At g (m :: ms) r k') :=
  Triple.pre (fun _ h => ⟨h, m.emits_waitingJump g k'⟩) (Triple.openJump hk .jmp 0 s)

theorem jump_run {r : Resolver} {f : Frame} {fs : List Frame} (hr : r.frames = f :: fs)
    (s : Span) :
    ((jump s).run o).run r = pure (f.chunk.code.size, { r with frames :=
      { f with chunk := f.chunk.emit waitingJump s, openJumps := f.openJumps + 1 } :: fs }) := by
  unfold Compiler.jump openJump
  rw [Triple.bind_run, Triple.liftM_run, Resolver.modifyFrame_run hr]
  exact emit_run (r := { r with frames := { f with openJumps := f.openJumps + 1 } :: fs }) rfl _ _

/-- Instruction `i`, followed by a waiting jump, is well formed in every chunk meeting the
mark: a test and the jump it decides. -/
def Mark.EmitsTest (g : Nat) (m : Mark) (k : Nat) (i : Instruction) : Prop :=
  ∀ (c : Chunk) (s t : Span) (ng : Nat), m.Below c → 0 ≤ c.registers →
    c.registers ≤ registerLimit → g ≤ ng →
    ((c.emit i s).emit waitingJump t).InstrOK ng (c.code.size + 2 + k) c.code.size i

theorem Triple.testJump (hk : k ≤ k' + 2) (op : Op) (a b c : Nat) (s t : Span) :
    Triple o (fun r => At g (m :: ms) r k ∧ m.EmitsTest g k' (Instruction.abc op.code a b c))
      (Compiler.emitABC op a b c s >>= fun _ => Compiler.jump t)
      (fun _ r => At g (m :: ms) r k') := by
  intro r x r' hrun hclean
  cases hr : r.frames with
  | nil =>
    simp [Compiler.emitABC, emit_run_nil hr] at hrun
  | cons f fs =>
    simp only [Triple.bind_run, Compiler.emitABC, emit_run hr, Triple.run_pure_bind,
      ReaderT.run_pure, StateT.run_pure] at hrun
    rw [jump_run (r := { r with frames := { f with chunk := f.chunk.emit _ s } :: fs }) rfl] at hrun
    cases hrun
    refine ⟨hclean, fun ⟨hat, hi⟩ hh => ⟨?_, hh.keep hr rfl rfl rfl rfl rfl⟩⟩
    have hs := hat.head_sound hr
    have hm := hat.head_meets hr
    have hle := hs.body.registers_le
    have hnn := hs.body.registers_nonneg
    have hg₁ := Chunk.grows_emit f.chunk (Instruction.abc op.code a b c) s
    have hg₂ := Chunk.grows_emit (f.chunk.emit (Instruction.abc op.code a b c) s) waitingJump t
    -- the jump is well formed after the test, in the chunk holding both
    have hj := m.emits_waitingJump g k' _ t r.globals.size (hm.below.grow hg₁) hnn hle
      hat.globals
    rw [Chunk.code_size_emit, show f.chunk.code.size + 1 + 1 + k' = f.chunk.code.size + 2 + k' by
      omega] at hj
    exact hat.set_head hr ((hs.emit_two hk (hi f.chunk s t _ hm.below hnn hle hat.globals) hj).congr
      rfl rfl rfl rfl) ⟨hm.next, hm.scopes, hm.module, hm.below.grow (hg₁.trans hg₂)⟩

theorem Triple.testJump_bind {β : Type} {f : Nat → GenM β} {R : β → Resolver → Prop}
    (hk : k ≤ k' + 2) (op : Op) (a b c : Nat) (s t : Span)
    (hf : ∀ j, Triple o (fun r => At g (m :: ms) r k') (f j) R) :
    Triple o (fun r => At g (m :: ms) r k ∧ m.EmitsTest g k' (Instruction.abc op.code a b c))
      (Compiler.emitABC op a b c s >>= fun _ => Compiler.jump t >>= f) R := by
  rw [← bind_assoc]
  exact (Triple.testJump hk op a b c s t).bind hf

theorem Triple.chunk {P : Resolver → Prop} :
    Triple o P (liftM Resolver.chunk : GenM Chunk) (fun _ => P) := by
  intro r a r' hrun hclean
  rw [Triple.liftM_run] at hrun
  cases hr : r.frames with
  | nil => rw [Resolver.chunk_run_nil hr] at hrun; cases hrun
  | cons f fs =>
    rw [Resolver.chunk_run hr] at hrun
    cases hrun
    exact ⟨hclean, fun hp hh => ⟨hp, hh⟩⟩

theorem Triple.here {P : Resolver → Prop} : Triple o P here (fun _ => P) :=
  Triple.chunk.bind fun _ => Triple.pure fun _ h => h

theorem Chunk.patchJump_tables {c c' : Chunk} {pc target : Int}
    (hp : c.patchJump pc target = .ok c') :
    c'.notifications = c.notifications ∧ c'.protos = c.protos ∧ c'.captures = c.captures := by
  obtain ⟨j, hj, -, -, -, -, -, -, rfl⟩ := Chunk.patchJump_eq_retarget hp
  exact ⟨rfl, rfl, rfl⟩

theorem Mark.Below.patchJump {c c' : Chunk} {pc target : Int} (h : m.Below c)
    (hp : c.patchJump pc target = .ok c') : m.Below c' := by
  obtain ⟨j, hj, -, -, -, -, -, -, rfl⟩ := Chunk.patchJump_eq_retarget hp
  exact ⟨h.regs, h.consts, h.protos, h.caps⟩

theorem Triple.patch (pcs : List Nat) (target : Nat) :
    Triple o (fun r => At g (m :: ms) r k) (patch pcs target)
      (fun _ r => At g (m :: ms) r k) := by
  unfold Compiler.patch
  refine Triple.forM fun pc _ => ?_
  intro r a r' hrun hclean
  cases hr : r.frames with
  | nil => simp [Resolver.chunk, Resolver.frame_run_nil hr] at hrun
  | cons f fs =>
    simp only [Triple.bind_run, Triple.liftM_run, Resolver.chunk_run hr,
      Triple.run_pure_bind] at hrun
    split at hrun
    · rename_i c' hp
      rw [Triple.liftM_run, Resolver.modifyFrame_run hr] at hrun
      cases hrun
      obtain ⟨hn, hps, hcap⟩ := Chunk.patchJump_tables hp
      refine ⟨hclean, fun hat hh => ⟨?_, hh.keep hr rfl hn hps rfl hcap⟩⟩
      have hm := hat.head_meets hr
      exact hat.set_head hr ((hat.head_sound hr).patch hp _)
        ⟨hm.next, hm.scopes, hm.module, hm.below.patchJump hp⟩
    · cases hrun

theorem Triple.patchHere (pcs : List Nat) :
    Triple o (fun r => At g (m :: ms) r k) (patchHere pcs) (fun _ r => At g (m :: ms) r k) :=
  Triple.here.bind fun target => Triple.patch pcs target

end Emit

/-! ## Registers and scopes -/

def Mark.alloc (m : Mark) : Mark :=
  { m with next := m.next + 1, regs := max m.regs (m.next + 1) }

def Mark.take (m : Mark) (n : Nat) : Mark :=
  { m with next := m.next + n, regs := max m.regs (m.next + n) }

theorem Mark.take_alloc (m : Mark) (n : Nat) : (m.take n).alloc = m.take (n + 1) := by
  cases m
  simp only [Mark.take, Mark.alloc, Mark.mk.injEq, true_and, and_true]
  omega

theorem Mark.le_take (m : Mark) (n : Nat) : m.Le (m.take n) :=
  ⟨rfl, rfl, Int.le_max_left _ _, Nat.le_refl _, Nat.le_refl _, Nat.le_refl _⟩

theorem Mark.le_alloc (m : Mark) : m.Le m.alloc :=
  ⟨rfl, rfl, Int.le_max_left _ _, Nat.le_refl _, Nat.le_refl _, Nat.le_refl _⟩

theorem Mark.isReg_alloc (m : Mark) : m.alloc.IsReg m.next := by
  simp only [Mark.IsReg, Mark.alloc]
  omega

section Registers

variable {o : Options} {g : Nat} {m : Mark} {ms : List Mark} {k : Nat}

theorem Triple.alloc :
    Triple o (fun r => At g (m :: ms) r k) (liftM Resolver.alloc : GenM Nat)
      (fun reg r => reg = m.next ∧ At g (m.alloc :: ms) r k) := by
  intro r a r' hrun hclean
  rw [Triple.liftM_run] at hrun
  cases hr : r.frames with
  | nil => simp [Resolver.alloc, Resolver.frame_run_nil hr] at hrun
  | cons f fs =>
    simp only [Resolver.alloc, StateT.run_bind, Resolver.frame_run hr, pure_bind] at hrun
    split at hrun
    · rename_i hfull
      split at hrun
      · -- the overflow is reported, so the run is not clean
        simp only [StateT.run_bind, Resolver.report_run, pure_bind, StateT.run_pure] at hrun
        obtain ⟨⟨x, r₁⟩, hmod, hrest⟩ := Triple.bind_eq_ok hrun
        cases hrest
        exact absurd ((Resolver.modifyChunk_reports hmod).symm.trans hclean) (by simp)
      · cases hrun
        refine ⟨hclean, fun hat _ => absurd (hat.head_sound hr).body.registers_le ?_⟩
        assumption
    · rename_i hfree
      simp [Resolver.modifyFrame_run hr] at hrun
      obtain ⟨rfl, rfl⟩ := hrun
      refine ⟨hclean, fun hat hh => ⟨?_, hh.keep hr rfl rfl rfl rfl rfl⟩⟩
      have hm := hat.head_meets hr
      have hlt : f.next < registerLimit := Nat.lt_of_not_le hfree
      refine ⟨hm.next, hat.set_head hr ((hat.head_sound hr).alloc hlt) ⟨?_, hm.scopes, hm.module,
        ⟨?_, hm.below.consts, hm.below.protos, hm.below.caps⟩⟩⟩
      · simp [Mark.alloc, hm.next]
      · have := hm.below.regs
        simp only [Mark.alloc, hm.next]
        omega

theorem Triple.temp :
    Triple o (fun r => At g (m :: ms) r k) temp
      (fun reg r => reg = m.next ∧ At g (m.alloc :: ms) r k) :=
  Triple.alloc

theorem Triple.temps (n : Nat) :
    Triple o (fun r => At g (m :: ms) r k) (liftM (Resolver.temps n) : GenM Nat)
      (fun base r => ∃ m', m.Le m' ∧ At g (m' :: ms) r k ∧
        (n = 0 ∧ base = 0 ∨ (base : Int) + n ≤ m'.regs)) := by
  unfold Resolver.temps
  split
  · rename_i hn
    exact Triple.pure fun r h => ⟨m, Mark.Le.refl m, h, Or.inl ⟨by simpa using hn, rfl⟩⟩
  · rename_i hn
    rw [Triple.liftM_bind]
    refine Triple.alloc.bind fun base => ?_
    rw [Triple.liftM_bind, Std.Legacy.Range.forIn_eq_forIn_range', Triple.liftM_forIn]
    -- after `j` more passes the mark has handed out `j + 1` registers
    refine Triple.bind (Q := fun _ r => base = m.next ∧ At g (m.take (0 + 1 + (n - 1)) :: ms) r k)
      (Triple.pre ?_ (Triple.forIn_count (I := fun j r => base = m.next ∧
        At g (m.take (j + 1) :: ms) r k) (fun j _ => ?_) 0) |>.post ?_) fun _ => ?_
    · exact fun _ h => h
    · rw [Triple.liftM_bind]
      refine Triple.bind (Triple.pure_and Triple.alloc) fun _ => ?_
      refine Triple.pure fun r h => ⟨rfl, h.1, ?_⟩
      rw [← Mark.take_alloc]
      exact h.2.2
    · have hl : (List.range' [1:n].start [1:n].size [1:n].step).length = n - 1 := by simp
      intro _ r h
      rwa [hl, show 0 + (n - 1) + 1 = 0 + 1 + (n - 1) by omega] at h
    · rw [Triple.liftM_pure]
      refine Triple.pure fun r h => ⟨_, Mark.le_take m _, h.2, Or.inr ?_⟩
      have hpos : n ≠ 0 := by simpa using hn
      simp only [Mark.take, h.1]
      omega

def Mark.enter (m : Mark) : Mark := { m with scopes := { base := m.next } :: m.scopes }

theorem Mark.IsReg.enter {x : Nat} (h : m.IsReg x) : m.enter.IsReg x := h

theorem Triple.beginScope :
    Triple o (fun r => At g (m :: ms) r k) (liftM Resolver.beginScope : GenM Unit)
      (fun _ r => At g (m.enter :: ms) r k) := by
  intro r a r' hrun hclean
  rw [Triple.liftM_run] at hrun
  cases hr : r.frames with
  | nil => simp [Resolver.beginScope, Resolver.modifyFrame_run_nil hr] at hrun
  | cons f fs =>
    rw [Resolver.beginScope, Resolver.modifyFrame_run hr] at hrun
    cases hrun
    refine ⟨hclean, fun hat hh => ⟨?_, hh.keep hr rfl rfl rfl rfl rfl⟩⟩
    have hm := hat.head_meets hr
    exact hat.set_head hr (hat.head_sound hr).beginScope
      ⟨hm.next, by simp [Mark.enter, hm.scopes, hm.next], hm.module,
        ⟨hm.below.regs, hm.below.consts, hm.below.protos, hm.below.caps⟩⟩

theorem Triple.endScope {m' : Mark} :
    Triple o (fun r => m.enter.Le m' ∧ At g (m' :: ms) r k) (liftM Resolver.endScope : GenM Unit)
      (fun _ r => At g (m :: ms) r k) := by
  intro r a r' hrun hclean
  rw [Triple.liftM_run] at hrun
  cases hr : r.frames with
  | nil => simp [Resolver.endScope, Resolver.frame_run_nil hr] at hrun
  | cons f fs =>
    simp only [Resolver.endScope, StateT.run_bind, Resolver.frame_run hr, pure_bind] at hrun
    split at hrun
    · rename_i s rest hs
      rw [Resolver.modifyFrame_run hr] at hrun
      cases hrun
      refine ⟨hclean, fun ⟨hle, hat⟩ hh => ⟨?_, hh.keep hr rfl rfl rfl rfl rfl⟩⟩
      have hm := hat.head_meets hr
      -- the innermost scope is the one entered, which began at the mark's next register
      have hscopes : s :: rest = { base := m.next } :: m.scopes := by
        rw [← hs, hm.scopes, hle.scopes]
        rfl
      obtain ⟨rfl, rfl⟩ := List.cons.inj hscopes
      have hb := hm.below
      exact hat.set_head hr ((hat.head_sound hr).endScope hs _) ⟨rfl, rfl,
        hm.module.trans hle.module, ⟨Int.le_trans hle.regs hb.regs, Nat.le_trans hle.consts hb.consts,
          Nat.le_trans hle.protos hb.protos, Nat.le_trans hle.caps hb.caps⟩⟩
    · cases hrun

theorem Triple.inScope_and {α : Type} {act : GenM α} {c : Prop}
    (h : Triple o (fun r => c ∧ At g (m.enter :: ms) r k) act
      (fun _ r => ∃ m', m.enter.Le m' ∧ At g (m' :: ms) r k)) :
    Triple o (fun r => c ∧ At g (m :: ms) r k) (inScope act) (fun _ r => At g (m :: ms) r k) := by
  unfold Compiler.inScope
  refine (Triple.pure_and Triple.beginScope).bind fun _ => h.bind fun a => ?_
  exact (Triple.exists_pre fun _ => Triple.endScope).bind fun _ => Triple.pure fun _ h => h

theorem Triple.inScope {α : Type} {act : GenM α}
    (h : Triple o (fun r => At g (m.enter :: ms) r k) act
      (fun _ r => ∃ m', m.enter.Le m' ∧ At g (m' :: ms) r k)) :
    Triple o (fun r => At g (m :: ms) r k) (inScope act) (fun _ r => At g (m :: ms) r k) :=
  Triple.pre (fun _ hat => ⟨trivial, hat⟩)
    (Triple.inScope_and (c := True) (Triple.pre (fun _ h => h.2) h))

end Registers

/-! ## Reports, options and constants -/

section Tables

variable {o : Options} {g : Nat} {m : Mark} {ms : List Mark} {k : Nat}

theorem Triple.errorAt {P : Resolver → Prop} {Q : Unit → Resolver → Prop} (s : Span)
    (msg : Message) (args : List Text.Arg) : Triple o P (errorAt s msg args) Q := by
  intro r a r' hrun hclean
  cases hrun
  simp at hclean

theorem Triple.listening_bind {β : Type} {P : Resolver → Prop} {f : Bool → GenM β}
    {Q : β → Resolver → Prop} (kind : Kind)
    (h : ∀ b, (b = true → kind ∈ o.listened) → Triple o P (f b) Q) :
    Triple o P (listening kind >>= f) Q := fun r a r' hrun hclean =>
  h (o.listened.contains kind) (fun hb => by simpa using hb) r a r' hrun hclean

def Mark.IsConst (m : Mark) (id : Nat) : Prop := registerLimit ≤ id ∧ id - registerLimit < m.consts

theorem Mark.IsConst.isRK {id : Nat} (h : m.IsConst id) : m.IsRK id := by
  unfold Mark.IsRK
  rw [if_neg (Nat.not_lt.mpr h.1)]
  exact h.2

theorem Mark.IsConst.mono {m' : Mark} {id : Nat} (hle : m.Le m') (h : m.IsConst id) :
    m'.IsConst id :=
  ⟨h.1, Nat.lt_of_lt_of_le h.2 hle.consts⟩

theorem Triple.intern (key : ConstKey) (v : Value) :
    Triple o (fun r => At g (m :: ms) r k) (liftM (Resolver.intern key v) : GenM Nat)
      (fun id r => ∃ m', m.Le m' ∧ m'.next = m.next ∧ At g (m' :: ms) r k ∧ m'.IsConst id) := by
  intro r a r' hrun hclean
  rw [Triple.liftM_run] at hrun
  cases hr : r.frames with
  | nil => simp [Resolver.intern, Resolver.frame_run_nil hr] at hrun
  | cons f fs =>
    simp only [Resolver.intern, StateT.run_bind, Resolver.frame_run hr, pure_bind] at hrun
    split at hrun
    · -- a constant the cache holds, whose id names an entry of the pool
      rename_i hfind
      cases hrun
      refine ⟨hclean, fun hat hh => ⟨?_, hh⟩⟩
      have hm := hat.head_meets hr
      refine ⟨{ m with consts := f.chunk.constants.size }, ⟨rfl, rfl, Int.le_refl _,
        hm.below.consts, Nat.le_refl _, Nat.le_refl _⟩, rfl, ?_,
        (hat.head_sound hr).cached key a hfind⟩
      exact hat.remark hr ⟨hm.next, hm.scopes, hm.module,
        ⟨hm.below.regs, Nat.le_refl _, hm.below.protos, hm.below.caps⟩⟩
    · simp only [StateT.run_bind, Resolver.modifyFrame_run hr, pure_bind] at hrun
      cases hrun
      refine ⟨hclean, fun hat hh => ⟨?_, hh.keep hr rfl rfl rfl rfl rfl⟩⟩
      have hm := hat.head_meets hr
      refine ⟨{ m with consts := f.chunk.constants.size + 1 }, ⟨rfl, rfl, Int.le_refl _,
        Nat.le_succ_of_le hm.below.consts, Nat.le_refl _, Nat.le_refl _⟩, rfl,
        hat.set_head hr ((hat.head_sound hr).intern key v) ⟨hm.next, hm.scopes, hm.module,
          ⟨hm.below.regs, by simp, hm.below.protos, hm.below.caps⟩⟩, ?_⟩
      simp [Mark.IsConst]

theorem Triple.numberId (x : Float) :
    Triple o (fun r => At g (m :: ms) r k) (liftM (Resolver.numberId x) : GenM Nat)
      (fun id r => ∃ m', m.Le m' ∧ m'.next = m.next ∧ At g (m' :: ms) r k ∧ m'.IsConst id) :=
  Triple.intern _ _

theorem Triple.textId (t : String) :
    Triple o (fun r => At g (m :: ms) r k) (liftM (Resolver.textId t) : GenM Nat)
      (fun id r => ∃ m', m.Le m' ∧ m'.next = m.next ∧ At g (m' :: ms) r k ∧ m'.IsConst id) :=
  Triple.intern _ _

end Tables

/-! ## Names -/

section Names

variable {o : Options} {g : Nat} {m : Mark} {ms : List Mark} {k : Nat}

theorem Triple.frame {P : Resolver → Prop} :
    Triple o P (liftM Resolver.frame : GenM Frame)
      (fun f r => P r ∧ ∃ fs, r.frames = f :: fs) := by
  intro r a r' hrun hclean
  rw [Triple.liftM_run] at hrun
  cases hr : r.frames with
  | nil => rw [Resolver.frame_run_nil hr] at hrun; cases hrun
  | cons f fs =>
    rw [Resolver.frame_run hr] at hrun
    cases hrun
    exact ⟨hclean, fun hp hh => ⟨⟨hp, fs, hr⟩, hh⟩⟩

theorem Triple.globalSlot (name : String) :
    Triple o (fun r => At g ms r k) (liftM (Resolver.globalSlot name) : GenM Nat)
      (fun i r => ∃ g', g ≤ g' ∧ i < g' ∧ At g' ms r k) := by
  intro r a r' hrun hclean
  rw [Triple.liftM_run] at hrun
  simp only [Resolver.globalSlot, StateT.run_bind, StateT.run_get, pure_bind] at hrun
  split at hrun
  · rename_i i hi
    cases hrun
    refine ⟨hclean, fun hat hh => ⟨⟨r.globals.size, hat.globals, ?_, hat.sound, Nat.le_refl _,
      hat.meet⟩, ⟨hh.heard, hh.leads⟩⟩⟩
    rw [Array.idxOf?_eq_map_finIdxOf?_val] at hi
    obtain ⟨j, -, rfl⟩ := Option.map_eq_some_iff.mp hi
    exact j.isLt
  · simp only [StateT.run_bind, StateT.run_set, pure_bind, StateT.run_pure] at hrun
    cases hrun
    refine ⟨hclean, fun hat hh => ⟨⟨r.globals.size + 1, Nat.le_succ_of_le hat.globals,
      Nat.lt_succ_self _, ?_, by simp, hat.meet⟩, ⟨hh.heard, hh.leads⟩⟩⟩
    exact Frames.Sound.mono_globals (by simp) hat.sound

/-- What declaring a name gives: a global slot at the top level, else a fresh register bound in
the innermost scope. -/
def Declared (g : Nat) (m : Mark) (ms : List Mark) (k : Nat) (v : Variable) (r : Resolver) : Prop :=
  if m.module then ∃ g', g ≤ g' ∧ v.place = .global ∧ v.index < g' ∧ At g' (m :: ms) r k
  else ∃ m', m'.module = false ∧ v.place = .register ∧ m'.IsReg v.index ∧ At g (m' :: ms) r k

theorem Triple.define (name : String) :
    Triple o (fun r => At g (m :: ms) r k) (liftM (Resolver.define name) : GenM Variable)
      (Declared g m ms k) := by
  unfold Resolver.define
  rw [Triple.liftM_bind]
  refine Triple.frame.bind fun f => ?_
  by_cases hmod : f.module = true
  · simp only [hmod, if_true]
    -- at the top level the mark says so too, and the name gets a global slot
    refine Triple.pre (P := fun r => m.module = true ∧ At g (m :: ms) r k)
      (fun r ⟨hat, fs, hr⟩ => ⟨((hat.head_meets hr).module.symm.trans hmod), hat⟩) ?_
    rw [Triple.liftM_bind]
    refine (Triple.pure_and (Triple.globalSlot name)).bind fun i => ?_
    rw [Triple.liftM_pure]
    refine Triple.pure fun r ⟨hm, g', hg, hi, hat⟩ => ?_
    rw [Declared, if_pos hm]
    exact ⟨g', hg, rfl, hi, hat⟩
  · simp only [hmod, if_false, Bool.false_eq_true]
    refine Triple.pre (P := fun r => m.module = false ∧ At g (m :: ms) r k)
      (fun r ⟨hat, fs, hr⟩ => ⟨(hat.head_meets hr).module.symm.trans
        (Bool.eq_false_iff.mpr hmod), hat⟩) ?_
    rw [Triple.liftM_bind]
    refine (Triple.pure_and Triple.alloc).bind fun reg => ?_
    rw [Triple.liftM_bind]
    refine (Triple.frame).bind fun f₂ => ?_
    split
    · rename_i s rest hs
      rw [Triple.liftM_bind]
      refine Triple.bind (Q := fun _ r => m.module = false ∧ ∃ m', m'.module = false ∧
        m'.IsReg reg ∧ At g (m' :: ms) r k) ?_ fun _ => ?_
      · intro r a r' hrun hclean
        rw [Triple.liftM_run] at hrun
        cases hr : r.frames with
        | nil => rw [Resolver.modifyFrame_run_nil hr] at hrun; cases hrun
        | cons f' fs =>
          rw [Resolver.modifyFrame_run hr] at hrun
          cases hrun
          refine ⟨hclean, fun ⟨⟨hm, hnext, hat⟩, fs', hr'⟩ hh =>
            ⟨⟨hm, ?_⟩, hh.keep hr rfl rfl rfl rfl rfl⟩⟩
          rw [hr] at hr'
          obtain ⟨rfl, rfl⟩ := List.cons.inj hr'
          have hmeet := hat.head_meets hr
          have hsound := hat.head_sound hr
          have hreg' : m.alloc.IsReg reg := hnext ▸ m.isReg_alloc
          have hreg : f'.chunk.IsReg reg := hmeet.below.isReg hreg'
          refine ⟨{ m.alloc with scopes := { s with names := (name, reg) :: s.names } :: rest },
            hm, hreg', hat.set_head hr (hsound.bindName hs hreg _) ⟨hmeet.next, rfl,
              hmeet.module, ⟨hmeet.below.regs, hmeet.below.consts, hmeet.below.protos,
              hmeet.below.caps⟩⟩⟩
      · rw [Triple.liftM_pure]
        refine Triple.pure fun r ⟨hm, m', hmod', hreg, hat⟩ => ?_
        rw [Declared, if_neg (by simp [hm])]
        exact ⟨m', hmod', rfl, hreg, hat⟩
    · exact Triple.throw

/-- A resolved variable that exists: a register, a captured variable or a global slot. -/
def Variable.Valid (g : Nat) (m : Mark) (v : Variable) : Prop :=
  match v.place with
  | .register => m.IsReg v.index
  | .capture => v.index < m.caps
  | .global => v.index < g

def Found (g : Nat) (m : Mark) (ms : List Mark) (k : Nat) (v : Variable) (r : Resolver) : Prop :=
  ∃ g' m', g ≤ g' ∧ m.Le m' ∧ m'.next = m.next ∧ At g' (m' :: ms) r k ∧ v.Valid g' m'

theorem Triple.get {P : Resolver → Prop} :
    Triple o P (liftM (MonadState.get : ResolveM Resolver) : GenM Resolver)
      (fun s r => P r ∧ s = r) := by
  intro r a r' hrun hclean
  cases hrun
  exact ⟨hclean, fun hp hh => ⟨⟨hp, rfl⟩, hh⟩⟩

theorem Triple.find (name : String) :
    Triple o (fun r => At g (m :: ms) r k) (liftM (Resolver.find name) : GenM Variable)
      (Found g m ms k) := by
  unfold Resolver.find
  rw [Triple.liftM_bind]
  refine Triple.frame.bind fun f => ?_
  split
  · -- a register of the innermost function
    rename_i reg hreg
    rw [Triple.liftM_pure]
    refine Triple.pure fun r ⟨hat, fs, hr⟩ => ?_
    have hm := hat.head_meets hr
    refine ⟨g, { m with regs := f.chunk.registers }, Nat.le_refl _, ⟨rfl, rfl, hm.below.regs,
      Nat.le_refl _, Nat.le_refl _, Nat.le_refl _⟩, rfl, hat.remark hr ⟨hm.next, hm.scopes,
      hm.module, ⟨Int.le_refl _, hm.below.consts, hm.below.protos, hm.below.caps⟩⟩, ?_⟩
    exact (hat.head_sound hr).lookup_isReg hreg
  · rw [Triple.liftM_bind]
    refine Triple.get.bind fun s => ?_
    split
    · -- a variable captured along the enclosing functions
      rename_i i frames hcap
      rw [Triple.liftM_bind]
      refine Triple.bind (Q := fun _ r => Found g m ms k ⟨name, .capture, i⟩ r) ?_ fun _ => ?_
      · intro r a r' hrun hclean
        cases hrun
        refine ⟨hclean, fun ⟨⟨hat, fs, hr⟩, hs⟩ hh => ?_⟩
        subst hs
        refine ⟨?_, hh.captureIn hcap rfl⟩
        obtain ⟨hsound, hmeet, hi, -, -⟩ := Frames.Sound.captureIn hat.sound hat.meet hcap
        cases frames with
        | nil => exact hmeet.elim
        | cons f' fs' =>
          have hm := hmeet.1
          refine ⟨g, { m with caps := f'.chunk.captures.size }, Nat.le_refl _, ⟨rfl, rfl,
            Int.le_refl _, Nat.le_refl _, Nat.le_refl _, hm.below.caps⟩, rfl, ⟨hsound,
            hat.globals, ⟨hm.next, hm.scopes, hm.module, ⟨hm.below.regs, hm.below.consts,
            hm.below.protos, Nat.le_refl _⟩⟩, hmeet.2⟩, hi⟩
      · rw [Triple.liftM_pure]
        exact Triple.pure fun _ h => h
    · -- a global
      rw [Triple.liftM_bind]
      refine Triple.bind (Triple.pre (fun r h => h.1.1) (Triple.globalSlot name)) fun i => ?_
      rw [Triple.liftM_pure]
      exact Triple.pure fun r ⟨g', hg, hi, hat⟩ =>
        ⟨g', m, hg, Mark.Le.refl m, rfl, hat, hi⟩

theorem Found.at {v : Variable} {r : Resolver} (h : Found g m ms k v r) : At g (m :: ms) r k := by
  obtain ⟨g', m', hg, hle, hn, hat, -⟩ := h
  exact ⟨hat.sound, Nat.le_trans hg hat.globals, (hat.weaken hle hn).meet⟩

theorem Triple.inFunction :
    Triple o (fun r => At g (m :: ms) r k) (liftM Resolver.inFunction : GenM Bool)
      (fun b r => b = !m.module ∧ At g (m :: ms) r k) := by
  unfold Resolver.inFunction
  rw [Triple.liftM_bind]
  refine Triple.frame.bind fun f => ?_
  rw [Triple.liftM_pure]
  exact Triple.pure fun r ⟨hat, fs, hr⟩ => ⟨by rw [(hat.head_meets hr).module], hat⟩

theorem Triple.targetOf (name : String) (s : Span) :
    Triple o (fun r => At g (m :: ms) r k) (targetOf name s)
      (fun v r => Found g m ms k v r ∧ v.place ≠ .capture) := by
  unfold Compiler.targetOf
  refine Triple.inFunction.bind fun b => ?_
  apply Triple.ite
  · intro hb
    refine Triple.pre (P := fun r => m.module = true ∧ At g (m :: ms) r k)
      (fun r ⟨hb', hat⟩ => ⟨by simpa [hb'] using hb, hat⟩) ?_
    refine (Triple.pure_and (Triple.define name)).post fun v r ⟨hm, hd⟩ => ?_
    rw [Declared, if_pos hm] at hd
    obtain ⟨g', hg, hplace, hi, hat⟩ := hd
    refine ⟨⟨g', m, hg, Mark.Le.refl m, rfl, hat, ?_⟩, by simp [hplace]⟩
    simp only [Variable.Valid, hplace]
    exact hi
  · intro _
    refine (Triple.pre (fun r h => h.2) (Triple.find name)).bind fun v => ?_
    apply Triple.ite
    · intro _
      exact Triple.throw
    · intro hv
      exact Triple.pure fun r h => ⟨h, by simp_all⟩

theorem Triple.storageOf (name : String) :
    Triple o (fun r => At g (m :: ms) r k) (storageOf name) (fun _ r => At g (m :: ms) r k) :=
  (Triple.find name).bind fun _ => Triple.pure fun _ h => h.at

end Names

/-! ## Event sites -/

def Mark.Notes (m : Mark) (n : Notification) : Prop := ∀ c : Chunk, m.Below c → c.NotifOK n

section Events

variable {o : Options} {g : Nat} {m : Mark} {ms : List Mark} {k k' : Nat}

theorem Triple.notify (hk : k ≤ k' + 1) (n : Notification) (heard : n.HeardBy o.listened) :
    Triple o (fun r => At g (m :: ms) r k ∧ m.Notes n) (notify n)
      (fun _ r => At g (m :: ms) r k') := by
  intro r a r' hrun hclean
  cases hr : r.frames with
  | nil => simp [Compiler.notify, Resolver.chunkCount_run_nil hr] at hrun
  | cons f fs =>
    simp only [Compiler.notify, Triple.bind_run, Triple.liftM_run, Resolver.chunkCount_run hr,
      Resolver.modifyChunk_run hr, Triple.run_pure_bind, Compiler.emitABx] at hrun
    rw [emit_run_mk] at hrun
    simp only [Triple.run_pure_bind, ReaderT.run_pure, StateT.run_pure] at hrun
    cases hrun
    refine ⟨hclean, fun ⟨hat, hn⟩ hh => ⟨?_, hh.set_head hr rfl
      (((hh.head hr).pushNotification heard).congr rfl rfl) rfl rfl⟩⟩
    have hs := hat.head_sound hr
    have hm := hat.head_meets hr
    have hg : f.chunk.Grows { f.chunk with notifications := f.chunk.notifications.push n } :=
      ⟨fun _ _ => rfl, Nat.le_refl _, Int.le_refl _, Nat.le_refl _, Nat.le_refl _, Nat.le_refl _,
        by simp⟩
    have hs' := (hs.pushNotification (hn f.chunk hm.below)).emit hk
      (i := Instruction.abx Op.notify.code 0 f.chunk.notifications.size) (s := n.span) ⟨.notify,
        Instruction.op?_abx _ _ _, by
          simp only [Chunk.OperandsOK, Instruction.bx_abx, Chunk.notifications_emit,
            Array.size_push]
          exact Nat.lt_succ_of_le (Instruction.bits_ofNat_le _ _)⟩
    exact hat.set_head hr (hs'.congr rfl rfl rfl rfl) ⟨hm.next, hm.scopes, hm.module,
      hm.below.grow (hg.trans (Chunk.grows_emit _ _ _))⟩

theorem Mark.notes_of {n : Notification} (kind : Kind) (hk : n.kind = kind.code)
    (h : ∀ c : Chunk, m.Below c → c.EventOperandsOK n kind) : m.Notes n :=
  fun c hc => ⟨kind, by rw [hk, Kind.ofCode?_code], h c hc⟩

theorem Mark.IsRK.isRKId {c : Chunk} {x : Nat} (hc : m.Below c) (hx : m.IsRK x) :
    c.IsRKId (x : Int) :=
  ⟨Int.natCast_nonneg x, by simpa using hc.isRK hx⟩

theorem Mark.IsReg.isRegId {c : Chunk} {x : Nat} (hc : m.Below c) (hx : m.IsReg x) :
    c.IsRegId (x : Int) :=
  ⟨Int.natCast_nonneg x, hc.isReg hx⟩

theorem Triple.step (s : Span) :
    Triple o (fun r => At g (m :: ms) r 0) (step s) (fun _ r => At g (m :: ms) r 0) := by
  unfold Compiler.step
  refine Triple.listening_bind .singleStep fun b hb => Triple.ite (fun hb' => ?_)
    (fun _ => Triple.pure fun _ h => h)
  refine Triple.frame.bind fun f => Triple.ite (fun _ => ?_) (fun _ => Triple.pure fun _ h => h.1)
  refine (Triple.pre (fun r h => h.1) (Triple.bookkeeping (fun f => { f with lastLine :=
    s.start.line }) (fun _ => rfl) (fun _ => rfl) (fun _ => rfl) (fun _ => rfl)
    (fun _ => rfl) (fun _ => rfl))).bind fun _ => ?_
  refine Triple.pre (fun r h => ⟨h, Mark.notes_of .singleStep rfl fun _ _ => trivial⟩)
    (Triple.notify (Nat.zero_le _) _ ⟨.singleStep, hb hb', rfl⟩)

theorem Triple.notifyAssign (s : Span) (name : String) (storage : Int) (value : Nat) :
    Triple o (fun r => At g (m :: ms) r 0 ∧ m.IsRK value) (notifyAssign s name storage value)
      (fun _ r => At g (m :: ms) r 0) := by
  unfold Compiler.notifyAssign
  refine Triple.listening_bind .assignment fun b hb => Triple.ite (fun hb' => ?_)
    (fun _ => Triple.pure fun _ h => h.1)
  exact Triple.pre (fun r ⟨hat, hv⟩ => ⟨hat, Mark.notes_of .assignment rfl
    fun c hc => hv.isRKId hc⟩) (Triple.notify (Nat.zero_le _) _ ⟨.assignment, hb hb', rfl⟩)

end Events

/-! ## Functions -/

def Mark.fresh (module : Bool) : Mark := ⟨0, [{ base := 0 }], module, 0, 0, 0, 0⟩

section Functions

variable {o : Options} {g : Nat} {m : Mark} {ms : List Mark}

theorem Triple.beginFunction (name : String) (p : Int) (module : Bool) :
    Triple o (fun r => At g ms r 0)
      (liftM (Resolver.beginFunction { name := name, params := p } module) : GenM Unit)
      (fun _ r => At g (Mark.fresh module :: ms) r 0) := by
  intro r a r' hrun hclean
  cases hrun
  refine ⟨hclean, fun hat hh =>
    ⟨⟨⟨?_, hat.sound⟩, hat.globals, ⟨⟨rfl, rfl, rfl, ?_⟩, hat.meet⟩⟩, ?_⟩⟩
  · refine ⟨⟨rfl, Int.le_refl _, Int.natCast_nonneg _, fun _ h => absurd h (Nat.not_lt_zero _),
      fun _ h => absurd h (by simp)⟩, fun _ h => absurd h (by simp),
      fun _ h => absurd h (by simp), ?_, fun _ h => absurd h (by simp),
      fun _ _ h => absurd h (by simp)⟩
    intro s hs b hb
    simp only [List.mem_singleton] at hs
    subst hs
    cases hb
  · exact ⟨Int.le_refl _, Nat.le_refl _, Nat.le_refl _, Nat.le_refl _⟩
  · -- the new function has no event site and captures nothing yet
    exact hh.push rfl (Chunk.Heard.of_empty rfl rfl) rfl

theorem Triple.close {β : Type} {kont : Chunk → GenM β} {Q : β → Resolver → Prop} (s : Span)
    (hk : ∀ c, Triple o (fun r => At g ms r 0 ∧
      c.WellFormed r.globals.size (parentRegisters r.frames) (parentCaptures r.frames) ∧
      c.Heard o.listened) (kont c) Q) :
    Triple o (fun r => At g (m :: ms) r 0)
      (Compiler.emitABC .ret 0 0 0 s >>= fun _ => liftM Resolver.endFunction >>= kont) Q := by
  intro r x r' hrun hclean
  cases hr : r.frames with
  | nil => simp [Compiler.emitABC, emit_run_nil hr] at hrun
  | cons f fs =>
    simp only [Triple.bind_run, Compiler.emitABC, emit_run hr, Triple.run_pure_bind, ReaderT.run_pure,
      StateT.run_pure, Triple.liftM_run, Resolver.endFunction, StateT.run_bind,
      Resolver.frame_run (r := { r with frames := _ :: fs }) rfl, pure_bind] at hrun
    split at hrun
    · simp only [Triple.run_throw_bind] at hrun
      cases hrun
    · simp only [StateT.run_bind, StateT.run_modify, pure_bind, StateT.run_pure] at hrun
      obtain ⟨h₀, h₁⟩ := hk _ _ _ _ hrun hclean
      refine ⟨h₀, fun hat hh => h₁ ⟨⟨?_, hat.globals, ?_⟩, ?_, (hh.head hr).congr rfl rfl⟩
        (hh.pop hr rfl)⟩
      · have hs := hat.sound
        unfold Resolver.Sound at hs
        rw [hr] at hs
        exact hs.2
      · have hmeet := hat.meet
        rw [hr] at hmeet
        exact hmeet.2
      · have hs := hat.head_sound hr
        exact Chunk.WellFormed.of_ret (by simpa using hs.body) hs.captures hs.protos s _

theorem Triple.pushProto {β : Type} {kont : Nat → GenM β} {R : β → Resolver → Prop} (p : Chunk)
    (hk : ∀ idx m', Triple o (fun r => (m.Le m' ∧ m'.next = m.next ∧ idx < m'.protos) ∧
      At g (m' :: ms) r 0) (kont idx) R) :
    Triple o (fun r => At g (m :: ms) r 0 ∧
        p.WellFormed r.globals.size (parentRegisters r.frames) (parentCaptures r.frames) ∧
        p.Heard o.listened)
      (liftM Resolver.chunk >>= fun c =>
        liftM (Resolver.modifyChunk fun c => { c with protos := c.protos.push p }) >>= fun _ =>
          kont c.protos.size) R := by
  intro r x r' hrun hclean
  cases hr : r.frames with
  | nil => simp [Resolver.chunk_run_nil hr] at hrun
  | cons f fs =>
    simp only [Triple.bind_run, Triple.liftM_run, Resolver.chunk_run hr, Triple.run_pure_bind,
      Resolver.modifyChunk_run hr] at hrun
    obtain ⟨h₀, h₁⟩ := hk _ { m with protos := f.chunk.protos.size + 1 } _ _ _ hrun hclean
    refine ⟨h₀, fun ⟨hat, hp, hph⟩ hh => h₁ ⟨?_, ?_⟩
      (hh.set_head hr rfl ((hh.head hr).pushProto hph) rfl rfl)⟩
    · have hm := hat.head_meets hr
      exact ⟨⟨rfl, rfl, Int.le_refl _, Nat.le_refl _, Nat.le_succ_of_le hm.below.protos,
        Nat.le_refl _⟩, rfl, Nat.lt_succ_self _⟩
    · have hm := hat.head_meets hr
      rw [hr] at hp
      exact hat.set_head hr ((hat.head_sound hr).pushProto hp) ⟨hm.next, hm.scopes, hm.module,
        ⟨hm.below.regs, hm.below.consts, by simp, hm.below.caps⟩⟩

end Functions

end ScriptMachine.Compiler
