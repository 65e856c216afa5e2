import ScriptMachine.Proofs.Bytecode.Writing
import ScriptMachine.Proofs.Compiler.Steps
/-!
# Compile steps that keep calls bracketed

`Holds o P act Q` is the contract of a compile step for what it writes: every run of `act` that
does not fault, from a state where `P` holds, ends where `Q` holds of its result. Unlike
`Triple` it does not ask the run to be free of reports: bracketing is a property of the code
written, whatever else is reported.
-/

namespace ScriptMachine.Compiler

open Bytecode Chunk

/-- A compile step's contract over every run that does not fault. -/
def Holds {α : Type} (o : Options) (P : Resolver → Prop) (act : GenM α)
    (Q : α → Resolver → Prop) : Prop :=
  ∀ r a r', (act.run o).run r = .ok (a, r') → P r → Q a r'

namespace Holds

variable {α β : Type} {o : Options} {P P' : Resolver → Prop} {Q Q' : α → Resolver → Prop}
  {act : GenM α}

theorem bind {x : GenM α} {f : α → GenM β} {R : β → Resolver → Prop} (hx : Holds o P x Q)
    (hf : ∀ a, Holds o (Q a) (f a) R) : Holds o P (x >>= f) R := by
  intro r b r' h hp
  rw [Triple.bind_run] at h
  cases hx' : (x.run o).run r with
  | error e => rw [hx'] at h; cases h
  | ok p =>
    rw [hx'] at h
    exact hf p.1 p.2 b r' h (hx r p.1 p.2 hx' hp)

theorem pure {a : α} (h : ∀ r, P r → Q a r) : Holds o P (Pure.pure a) Q := by
  intro r b r' hrun hp
  cases hrun
  exact h r hp

theorem mono (hP : ∀ r, P' r → P r) (h : Holds o P act Q) (hQ : ∀ a r, Q a r → Q' a r) :
    Holds o P' act Q' :=
  fun r a r' hrun hp => hQ a r' (h r a r' hrun (hP r hp))

theorem pre (hP : ∀ r, P' r → P r) (h : Holds o P act Q) : Holds o P' act Q :=
  mono hP h fun _ _ hq => hq

theorem post (h : Holds o P act Q) (hQ : ∀ a r, Q a r → Q' a r) : Holds o P act Q' :=
  mono (fun _ hp => hp) h hQ

theorem pure_and {c : Prop} (h : Holds o P act Q) :
    Holds o (fun r => c ∧ P r) act (fun a r => c ∧ Q a r) :=
  fun r a r' hrun ⟨hc, hp⟩ => ⟨hc, h r a r' hrun hp⟩

theorem throw {e : Fault} : Holds o P (throw e : GenM α) Q := by
  intro r a r' hrun
  cases hrun

theorem read {Q : Options → Resolver → Prop} (h : ∀ r, P r → Q o r) :
    Holds o P (MonadReader.read : GenM Options) Q := by
  intro r a r' hrun hp
  cases hrun
  exact h r hp

theorem ite {c : Prop} [Decidable c] {x y : GenM α} (hx : c → Holds o P x Q)
    (hy : ¬c → Holds o P y Q) : Holds o P (if c then x else y) Q := by
  by_cases hc : c
  · rw [if_pos hc]
    exact hx hc
  · rw [if_neg hc]
    exact hy hc

theorem listening_bind {f : Bool → GenM β} {R : β → Resolver → Prop} (kind : Kind)
    (h : ∀ b, (b = true ↔ kind ∈ o.listened) → Holds o P (f b) R) :
    Holds o P (listening kind >>= f) R := fun r a r' hrun hp =>
  h (o.listened.contains kind) (by simp) r a r' hrun hp

theorem forM {γ : Type} {xs : List γ} {f : γ → GenM PUnit} {I : Resolver → Prop}
    (h : ∀ x ∈ xs, Holds o I (f x) fun _ => I) : Holds o I (xs.forM f) fun _ => I := by
  induction xs with
  | nil => exact pure fun _ hi => hi
  | cons x rest ih =>
    exact bind (h x (List.mem_cons_self ..)) fun _ =>
      ih fun y hy => h y (List.mem_cons_of_mem _ hy)

theorem foldlM {γ : Type} {xs : List γ} {f : β → γ → GenM β} {init : β}
    {I : β → Resolver → Prop} (h : ∀ acc, ∀ x ∈ xs, Holds o (I acc) (f acc x) I) :
    Holds o (I init) (xs.foldlM f init) I := by
  induction xs generalizing init with
  | nil => exact pure fun _ hi => hi
  | cons x rest ih =>
    exact bind (h init x (List.mem_cons_self ..)) fun acc =>
      ih fun acc' y hy => h acc' y (List.mem_cons_of_mem _ hy)

theorem mapM {γ : Type} {xs : List γ} {f : γ → GenM β} {I : Resolver → Prop}
    (h : ∀ x ∈ xs, Holds o I (f x) fun _ => I) : Holds o I (xs.mapM f) fun _ => I := by
  induction xs with
  | nil => exact pure fun _ hi => hi
  | cons x rest ih =>
    rw [List.mapM_cons]
    exact bind (h x (List.mem_cons_self ..)) fun _ =>
      bind (ih fun y hy => h y (List.mem_cons_of_mem _ hy)) fun _ => pure fun _ hi => hi

end Holds

/-! ## Steps that leave the code alone -/

/-- Frame lists related pointwise by a transitive relation compose. -/
theorem forall₂_trans {R : Frame → Frame → Prop} {fs fs' fs'' : List Frame}
    (h : List.Forall₂ R fs fs') (h' : List.Forall₂ R fs' fs'')
    (htrans : ∀ {f f' f''}, R f f' → R f' f'' → R f f'') : List.Forall₂ R fs fs'' := by
  induction h generalizing fs'' with
  | nil => cases h'; exact .nil
  | cons hf _ ih =>
    cases h' with
    | cons hf' hrest => exact .cons (htrans hf hf') (ih hrest)


/-- A frame whose chunk has the code, event sites and nested chunks of `f`'s chunk. -/
def Frame.SameCode (f f' : Frame) : Prop :=
  f'.chunk.code = f.chunk.code ∧ f'.chunk.notifications = f.chunk.notifications ∧
    f'.chunk.protos = f.chunk.protos

theorem Frame.SameCode.refl (f : Frame) : f.SameCode f := ⟨rfl, rfl, rfl⟩

theorem Frame.SameCode.trans {f f' f'' : Frame} (h : f.SameCode f') (h' : f'.SameCode f'') :
    f.SameCode f'' :=
  ⟨h'.1.trans h.1, h'.2.1.trans h.2.1, h'.2.2.trans h.2.2⟩

/-- A step of name resolution that leaves every open function's code, event sites and nested
chunks as they were. -/
def Resolver.Leaves {α : Type} (x : ResolveM α) : Prop :=
  ∀ r a r', x.run r = .ok (a, r') → List.Forall₂ Frame.SameCode r.frames r'.frames

theorem Resolver.Leaves.modifyFrame (g : Frame → Frame) (hg : ∀ f : Frame, f.SameCode (g f)) :
    Resolver.Leaves (Resolver.modifyFrame g) := by
  intro r b r' h
  cases hr : r.frames with
  | nil => rw [Resolver.modifyFrame_run_nil hr] at h; cases h
  | cons f fs =>
    rw [Resolver.modifyFrame_run hr] at h
    cases h
    exact .cons (hg f) (List.forall₂_same.2 fun f _ => .refl f)

/-! ## Steps of name resolution

Name resolution keeps books in the open functions (scopes, registers, captured variables,
constants) and writes nothing else. Each of its steps is proved once here to keep what a frame
has written; that it leaves the code alone, or the single-step state, follows. -/

/-- Frame `f'` has written what `f` has: the code, event sites and nested chunks, the line of
its last single-step site, and whether it is the top level. -/
def Frame.SameWritten (f f' : Frame) : Prop :=
  f.SameCode f' ∧ f'.lastLine = f.lastLine ∧ f'.module = f.module

theorem Frame.SameWritten.refl (f : Frame) : f.SameWritten f := ⟨.refl f, rfl, rfl⟩

theorem Frame.SameWritten.trans {f f' f'' : Frame} (h : f.SameWritten f')
    (h' : f'.SameWritten f'') : f.SameWritten f'' :=
  ⟨h.1.trans h'.1, h'.2.1.trans h.2.1, h'.2.2.trans h.2.2⟩

theorem sameWritten_refl (fs : List Frame) : List.Forall₂ Frame.SameWritten fs fs :=
  List.forall₂_same.2 fun f _ => .refl f

theorem sameWritten_trans {fs fs' fs'' : List Frame} (h : List.Forall₂ Frame.SameWritten fs fs')
    (h' : List.Forall₂ Frame.SameWritten fs' fs'') : List.Forall₂ Frame.SameWritten fs fs'' :=
  forall₂_trans h h' Frame.SameWritten.trans

/-- A step of name resolution that writes nothing into any open function. -/
def Resolver.WritesNothing {α : Type} (x : ResolveM α) : Prop :=
  ∀ r a r', x.run r = .ok (a, r') → List.Forall₂ Frame.SameWritten r.frames r'.frames

theorem captureIn_sameWritten {name : String} :
    ∀ {fs fs' : List Frame} {i : Nat}, captureIn name fs = some (i, fs') →
      List.Forall₂ Frame.SameWritten fs fs'
  | [], _, _, h => by cases h
  | f :: outer, fs', i, h => by
    rcases captureIn_eq_some h with ⟨-, rfl⟩ | ⟨-, parent, pp, c, outer', rfl, -, hc, -, rfl⟩
    · exact sameWritten_refl _
    · refine .cons ⟨.refl _, rfl, rfl⟩ ?_
      rcases hc with ⟨reg, -, -, rfl⟩ | ⟨-, j, hrec, -⟩
      · exact sameWritten_refl _
      · exact captureIn_sameWritten hrec

namespace Resolver.WritesNothing

variable {α β : Type}

theorem bind {x : ResolveM α} {f : α → ResolveM β} (hx : WritesNothing x)
    (hf : ∀ a, WritesNothing (f a)) : WritesNothing (x >>= f) := by
  intro r b r' h
  rw [StateT.run_bind] at h
  cases hx' : x.run r with
  | error e => rw [hx'] at h; cases h
  | ok p =>
    rw [hx'] at h
    exact sameWritten_trans (hx r p.1 p.2 hx') (hf p.1 p.2 b r' h)

theorem pure {a : α} : WritesNothing (Pure.pure a : ResolveM α) := by
  intro r b r' h
  cases h
  exact sameWritten_refl _

theorem throw {e : Fault} : WritesNothing (MonadExcept.throw e : ResolveM α) := by
  intro r b r' h
  cases h

theorem get : WritesNothing (MonadState.get : ResolveM Resolver) := by
  intro r b r' h
  cases h
  exact sameWritten_refl _

theorem modify {g : Resolver → Resolver}
    (hg : ∀ r, List.Forall₂ Frame.SameWritten r.frames (g r).frames) :
    WritesNothing (modify g : ResolveM Unit) := by
  intro r b r' h
  cases h
  exact hg r

theorem frame : WritesNothing Resolver.frame := by
  intro r b r' h
  cases hr : r.frames with
  | nil => rw [Resolver.frame_run_nil hr] at h; cases h
  | cons f fs =>
    rw [Resolver.frame_run hr] at h
    cases h
    rw [hr]
    exact sameWritten_refl _

theorem chunk : WritesNothing Resolver.chunk := frame.bind fun _ => pure

theorem modifyFrame (g : Frame → Frame) (hg : ∀ f : Frame, f.SameWritten (g f)) :
    WritesNothing (Resolver.modifyFrame g) := by
  intro r b r' h
  cases hr : r.frames with
  | nil => rw [Resolver.modifyFrame_run_nil hr] at h; cases h
  | cons f fs =>
    rw [Resolver.modifyFrame_run hr] at h
    cases h
    exact .cons (hg f) (sameWritten_refl fs)

theorem modifyChunk (g : Chunk → Chunk)
    (hg : ∀ c, (g c).code = c.code ∧ (g c).notifications = c.notifications ∧
      (g c).protos = c.protos) :
    WritesNothing (Resolver.modifyChunk g) :=
  modifyFrame _ fun f => ⟨hg f.chunk, rfl, rfl⟩

theorem report (d : Diagnostic) : WritesNothing (Resolver.report d) :=
  modify fun r => sameWritten_refl r.frames

theorem globalSlot (name : String) : WritesNothing (Resolver.globalSlot name) := by
  intro r b r' h
  simp only [Resolver.globalSlot, StateT.run_bind, StateT.run_get, pure_bind] at h
  split at h
  · cases h
    exact sameWritten_refl _
  · simp only [StateT.run_bind, StateT.run_set, pure_bind, StateT.run_pure] at h
    cases h
    exact sameWritten_refl _

theorem alloc : WritesNothing Resolver.alloc := by
  unfold Resolver.alloc
  refine frame.bind fun f => ?_
  split
  · dsimp only
    split
    · refine (report _).bind fun _ => (modifyChunk _ ?_).bind fun _ => pure
      exact fun _ => ⟨rfl, rfl, rfl⟩
    · exact pure
  · refine (modifyFrame _ ?_).bind fun _ => pure
    exact fun _ => ⟨⟨rfl, rfl, rfl⟩, rfl, rfl⟩

theorem forIn {γ : Type} {xs : List γ} {b : β} {f : γ → β → ResolveM (ForInStep β)}
    (h : ∀ x b, WritesNothing (f x b)) : WritesNothing (forIn xs b f) := by
  induction xs generalizing b with
  | nil => exact pure
  | cons x rest ih =>
    simp only [List.forIn_cons]
    refine (h x b).bind fun step => ?_
    cases step with
    | done b' => exact pure
    | yield b' => exact ih

theorem temps (n : Nat) : WritesNothing (Resolver.temps n) := by
  unfold Resolver.temps
  split
  · exact pure
  · refine alloc.bind fun base => ?_
    rw [Std.Legacy.Range.forIn_eq_forIn_range']
    exact (forIn fun _ _ => alloc.bind fun _ => pure).bind fun _ => pure

theorem beginScope : WritesNothing Resolver.beginScope :=
  modifyFrame _ fun _ => ⟨⟨rfl, rfl, rfl⟩, rfl, rfl⟩

theorem endScope : WritesNothing Resolver.endScope := by
  unfold Resolver.endScope
  refine frame.bind fun f => ?_
  split
  · exact modifyFrame _ fun _ => ⟨⟨rfl, rfl, rfl⟩, rfl, rfl⟩
  · exact throw

theorem define (name : String) : WritesNothing (Resolver.define name) := by
  unfold Resolver.define
  refine frame.bind fun f => ?_
  split
  · exact (globalSlot name).bind fun _ => pure
  · refine alloc.bind fun reg => frame.bind fun f' => ?_
    split
    · refine (modifyFrame _ ?_).bind fun _ => pure
      exact fun _ => ⟨⟨rfl, rfl, rfl⟩, rfl, rfl⟩
    · exact throw

theorem find (name : String) : WritesNothing (Resolver.find name) := by
  intro r b r' h
  cases hr : r.frames with
  | nil => simp [Resolver.find, Resolver.frame_run_nil hr] at h
  | cons f fs =>
    simp only [Resolver.find, StateT.run_bind, Resolver.frame_run hr, pure_bind] at h
    split at h
    · cases h
      rw [hr]
      exact sameWritten_refl _
    · simp only [StateT.run_bind, StateT.run_get, pure_bind] at h
      split at h
      · -- the name is captured along the enclosing functions
        rename_i i frames hcap
        simp only [StateT.run_bind, StateT.run_modify, pure_bind, StateT.run_pure] at h
        cases h
        have hs := captureIn_sameWritten hcap
        rwa [hr] at hs
      · have hs := ((globalSlot name).bind fun _ => pure) r b r' (by simpa using h)
        rwa [hr] at hs

theorem intern (key : ConstKey) (v : Value) : WritesNothing (Resolver.intern key v) := by
  unfold Resolver.intern
  refine frame.bind fun f => ?_
  dsimp only
  split
  · exact pure
  · refine (modifyFrame _ ?_).bind fun _ => pure
    exact fun _ => ⟨⟨rfl, rfl, rfl⟩, rfl, rfl⟩

theorem numberId (x : Float) : WritesNothing (Resolver.numberId x) := intern _ _

theorem textId (t : String) : WritesNothing (Resolver.textId t) := intern _ _

theorem inFunction : WritesNothing Resolver.inFunction := frame.bind fun _ => pure

theorem leaves {x : ResolveM α} (h : WritesNothing x) : Leaves x :=
  fun r a r' hrun => (h r a r' hrun).imp fun _ _ hs => hs.1

end Resolver.WritesNothing

/-! ## The functions being compiled -/

/-- The functions being compiled write their code with brackets: the innermost stops as `e`
says, every enclosing one outside every bracket, and each has grown from its entry of `cs`. -/
structure Shaping (e : Ending) (cs : List Chunk) (r : Resolver) : Prop where
  grown : List.Forall₂ (fun c f => c.Extends f.chunk) cs r.frames
  writing : ∀ f fs, r.frames = f :: fs → f.chunk.Writing e ∧ ∀ g ∈ fs, g.chunk.Writing .calm

theorem grown_sameCode {cs : List Chunk} {fs fs' : List Frame}
    (h : List.Forall₂ (fun c f => c.Extends f.chunk) cs fs)
    (hq : List.Forall₂ Frame.SameCode fs fs') :
    List.Forall₂ (fun c f => c.Extends f.chunk) cs fs' := by
  induction h generalizing fs' with
  | nil => cases hq; exact .nil
  | cons hc _ ih =>
    cases hq with
    | cons hs hrest => exact .cons (hc.trans (extends_of_eq hs.1 hs.2.1)) (ih hrest)

theorem calm_sameCode {fs fs' : List Frame} (hq : List.Forall₂ Frame.SameCode fs fs')
    (h : ∀ g ∈ fs, g.chunk.Writing .calm) : ∀ g ∈ fs', g.chunk.Writing .calm := by
  induction hq with
  | nil => exact fun _ hg => nomatch hg
  | cons hs _ ih =>
    intro g hg
    rcases List.mem_cons.mp hg with rfl | hg
    · exact (h _ (List.mem_cons_self ..)).congr hs.1 hs.2.1 hs.2.2
    · exact ih (fun g' hg' => h g' (List.mem_cons_of_mem _ hg')) g hg

namespace Shaping

variable {e e' : Ending} {cs : List Chunk} {r r' : Resolver} {f f' : Frame} {fs : List Frame}

theorem of_frames (h : Shaping e cs r) (hf : r'.frames = r.frames) : Shaping e cs r' where
  grown := by rw [hf]; exact h.grown
  writing f fs hr := h.writing f fs (by rw [← hf]; exact hr)

theorem same (h : Shaping e cs r) (hq : List.Forall₂ Frame.SameCode r.frames r'.frames) :
    Shaping e cs r' where
  grown := grown_sameCode h.grown hq
  writing f' fs' hr' := by
    rw [hr'] at hq
    cases hr : r.frames with
    | nil => rw [hr] at hq; cases hq
    | cons f fs =>
      rw [hr] at hq
      cases hq with
      | cons hs hrest =>
        obtain ⟨hw, hcalm⟩ := h.writing f fs hr
        exact ⟨hw.congr hs.1 hs.2.1 hs.2.2, calm_sameCode hrest hcalm⟩

theorem setHead (h : Shaping e cs r) (hr : r.frames = f :: fs) (hr' : r'.frames = f' :: fs)
    (hw : f.chunk.Writing e → f'.chunk.Writing e')
    (hx : f.chunk.Writing e → f.chunk.Extends f'.chunk) : Shaping e' cs r' where
  grown := by
    have hg := h.grown
    obtain ⟨hw₀, -⟩ := h.writing f fs hr
    rw [hr] at hg
    rw [hr']
    cases hg with
    | cons hc hrest => exact .cons (hc.trans (hx hw₀)) hrest
  writing g gs hg := by
    rw [hr'] at hg
    obtain ⟨rfl, rfl⟩ := List.cons.inj hg
    obtain ⟨hw₀, hcalm⟩ := h.writing f fs hr
    exact ⟨hw hw₀, hcalm⟩

end Shaping

/-- The innermost function can still jump to `t`, while its event sites can be named. -/
def EntryAt (t : Int) (r : Resolver) : Prop :=
  ∃ f fs, r.frames = f :: fs ∧
    (f.chunk.notifications.size ≤ siteLimit → f.chunk.entry t = true)

/-! ## Contracts of the primitive steps -/

namespace Holds

variable {α : Type} {o : Options} {e e' : Ending} {cs : List Chunk}

theorem leaves {x : ResolveM α} (h : Resolver.Leaves x) :
    Holds o (Shaping e cs) (liftM x : GenM α) fun _ => Shaping e cs :=
  fun r a r' hrun hs => hs.same (h r a r' (by rwa [Triple.liftM_run] at hrun))

theorem frame {P : Resolver → Prop} :
    Holds o P (liftM Resolver.frame : GenM Frame) (fun f r => P r ∧ ∃ fs, r.frames = f :: fs) := by
  intro r a r' hrun hp
  rw [Triple.liftM_run] at hrun
  cases hr : r.frames with
  | nil => rw [Resolver.frame_run_nil hr] at hrun; cases hrun
  | cons f fs =>
    rw [Resolver.frame_run hr] at hrun
    cases hrun
    exact ⟨hp, fs, hr⟩

theorem here {P : Resolver → Prop} :
    Holds o P here (fun n r => P r ∧ ∃ f fs, r.frames = f :: fs ∧ n = f.chunk.code.size) := by
  intro r a r' hrun hp
  cases hr : r.frames with
  | nil => simp [Compiler.here, Resolver.chunk, Resolver.frame_run_nil hr] at hrun
  | cons f fs =>
    simp only [Compiler.here, Triple.bind_run, Triple.liftM_run, Resolver.chunk_run hr,
      Triple.run_pure_bind] at hrun
    cases hrun
    exact ⟨hp, f, fs, hr, rfl⟩

theorem inScope {act : GenM α} (h : Holds o (Shaping e cs) act fun _ => Shaping e' cs) :
    Holds o (Shaping e cs) (inScope act) fun _ => Shaping e' cs :=
  (leaves Resolver.WritesNothing.beginScope.leaves).bind fun _ => h.bind fun _ =>
    (leaves Resolver.WritesNothing.endScope.leaves).bind fun _ => pure fun _ h => h

theorem emit {i : Instruction} {s : Span} (hw : ∀ c : Chunk, c.Writing e → (c.emit i s).Writing e') :
    Holds o (Shaping e cs) (emit i s) fun _ => Shaping e' cs := by
  intro r a r' hrun hs
  cases hr : r.frames with
  | nil => rw [emit_run_nil hr] at hrun; cases hrun
  | cons f fs =>
    rw [emit_run hr] at hrun
    cases hrun
    exact hs.setHead hr rfl (hw f.chunk) fun _ => extends_emit f.chunk i s

theorem emitABC_plain (he : e = .calm ∨ e = .skip) {op : Op} {a b c : Nat} (s : Span)
    (hp : op.plain = true ∨ op = .loadBool ∧ c = 0) :
    Holds o (Shaping e cs) (emitABC op a b c s) fun _ => Shaping .calm cs := by
  have hop : op ≠ .call ∧ op ≠ .notify ∧ op.isJump = false := by
    rcases hp with hp | ⟨rfl, -⟩
    · simp only [Op.plain, Bool.and_eq_true, Bool.not_eq_true', bne_iff_ne, ne_eq] at hp
      exact ⟨hp.1.1.1.2, hp.1.1.2, hp.1.2⟩
    · decide
  refine (emit fun c' hc => hc.emit_plain he (Instruction.op?_abc op a b c) hop.1 hop.2.1
    (Instruction.skips_abc_plain hp) fun hj => ?_).bind fun _ => pure fun _ h => h
  rw [hop.2.2] at hj
  cases hj

theorem emitABx_plain (he : e = .calm ∨ e = .skip) {op : Op} {a bx : Nat} (s : Span)
    (hp : op.plain = true) :
    Holds o (Shaping e cs) (emitABx op a bx s) fun _ => Shaping .calm cs := by
  simp only [Op.plain, Bool.and_eq_true, Bool.not_eq_true', bne_iff_ne, ne_eq] at hp
  have hskip : (Instruction.abx op.code a bx).skips = false := by
    rw [Instruction.skips_of_op (Instruction.op?_abx op a bx)]
    simp [hp.1.1.1.1, hp.2]
  refine (emit fun c' hc => hc.emit_plain he (Instruction.op?_abx op a bx) hp.1.1.1.2 hp.1.1.2
    hskip fun hj => ?_).bind fun _ => pure fun _ h => h
  rw [hp.1.2] at hj
  cases hj

theorem emitABC_skip {op : Op} {a b c : Nat} (s : Span)
    (hk : op.isTest = true ∨ op = .loadBool ∧ c = 1) :
    Holds o (Shaping .calm cs) (emitABC op a b c s) fun _ => Shaping .skip cs :=
  (emit fun _ hc => hc.emit_skip (Instruction.skips_abc_skip hk)).bind fun _ =>
    pure fun _ h => h

theorem emitABC_call {a b c : Nat} (s : Span) :
    Holds o (Shaping .site cs) (emitABC .call a b c s) fun _ => Shaping .call cs :=
  (emit fun _ hc => hc.emit_call (Instruction.op?_abc .call a b c)).bind fun _ =>
    pure fun _ h => h

theorem openJump (he : e = .calm ∨ e = .skip) {op : Op} (hj : op.isJump = true) (a : Nat)
    (s : Span) : Holds o (Shaping e cs) (openJump op a s) fun _ => Shaping .calm cs := by
  have hop : op ≠ .call ∧ op ≠ .notify ∧ op.isTest = false ∧ op ≠ .loadBool := by
    cases op <;> simp_all [Op.isJump, Op.isTest]
  have hskip : (Instruction.asbx op.code a 0).skips = false := by
    rw [Instruction.skips_of_op (Instruction.op?_asbx op a 0)]
    simp [hop.2.2.1, hop.2.2.2]
  have hsbx : (Instruction.asbx op.code a 0).sbx = 0 :=
    Instruction.sbx_asbx _ _ _ (by decide) (by decide)
  unfold Compiler.openJump
  refine (leaves (Resolver.Leaves.modifyFrame _ ?_)).bind fun _ =>
    emit fun c hc => hc.emit_plain he (Instruction.op?_asbx op a 0) hop.1 hop.2.1 hskip
      fun _ => ?_
  · exact fun _ => ⟨rfl, rfl, rfl⟩
  -- the jump lands right after itself
  rw [hsbx, Int.add_zero]
  have hnot : (Instruction.asbx op.code a 0).op? ≠ some .notify := by
    simp [Instruction.op?_asbx, hop.2.1]
  refine entry_succ (by simp) (siteAt_emit_self_of_ne hnot _) ?_
  rw [callAt_emit_self, Instruction.op?_asbx]
  simpa using hop.1

theorem jump (he : e = .calm ∨ e = .skip) (s : Span) :
    Holds o (Shaping e cs) (jump s) fun _ => Shaping .calm cs :=
  openJump he rfl 0 s

theorem notify_of (n : Notification)
    (hw : ∀ c : Chunk, c.Writing e → ({ c with notifications := c.notifications.push n }.emit
      (Instruction.abx Op.notify.code 0 c.notifications.size) n.span).Writing e') :
    Holds o (Shaping e cs) (notify n) fun _ => Shaping e' cs := by
  intro r a r' hrun hs
  cases hr : r.frames with
  | nil => simp [Compiler.notify, Resolver.chunkCount_run_nil hr] at hrun
  | cons f fs =>
    simp only [Compiler.notify, Triple.bind_run, Triple.liftM_run, Resolver.chunkCount_run hr,
      Resolver.modifyChunk_run hr, Triple.run_pure_bind, Compiler.emitABx] at hrun
    rw [emit_run_mk] at hrun
    simp only [Triple.run_pure_bind, ReaderT.run_pure, StateT.run_pure] at hrun
    cases hrun
    exact hs.setHead hr rfl (hw f.chunk) fun hw₀ =>
      (extends_pushNotification hw₀.known n).trans (extends_emit _ _ _)

theorem notify_callSite {n : Notification} (hn : n.kind = Kind.funcCalled.code) :
    Holds o (Shaping .calm cs) (notify n) fun _ => Shaping .site cs :=
  notify_of n fun _ hc => hc.callSite hn n.span

theorem notify_returnSite {n : Notification} (hn : n.kind = Kind.funcReturned.code) :
    Holds o (Shaping .call cs) (notify n) fun _ => Shaping .calm cs :=
  notify_of n fun _ hc => hc.returnSite hn n.span

theorem notify_other {n : Notification} (hfc : n.kind ≠ Kind.funcCalled.code)
    (hfr : n.kind ≠ Kind.funcReturned.code) :
    Holds o (Shaping .calm cs) (notify n) fun _ => Shaping .calm cs :=
  notify_of n fun _ hc => hc.otherSite hfc hfr n.span

theorem patch (pcs : List Nat) (t : Nat) :
    Holds o (fun r => Shaping e cs r ∧ EntryAt t r) (patch pcs t)
      fun _ r => Shaping e cs r ∧ EntryAt t r := by
  unfold Compiler.patch
  refine forM fun pc _ => ?_
  intro r a r' hrun ⟨hs, f, fs, hr, ht⟩
  simp only [Triple.bind_run, Triple.liftM_run, Resolver.chunk_run hr,
    Triple.run_pure_bind] at hrun
  split at hrun
  · rename_i c' hp
    rw [Triple.liftM_run, Resolver.modifyFrame_run hr] at hrun
    cases hrun
    have hext := extends_patchJump hp
    exact ⟨hs.setHead hr rfl (fun hw => hw.patchJump hp ht) fun _ => hext, _, fs, rfl,
      hext.entry_of_fits ht⟩
  · cases hrun

theorem patchHere (he : e = .calm ∨ e = .skip) (pcs : List Nat) :
    Holds o (Shaping e cs) (patchHere pcs) fun _ => Shaping e cs := by
  unfold Compiler.patchHere
  refine here.bind fun t => ?_
  refine pre (fun r ⟨hs, f, fs, hr, ht⟩ => ⟨hs, f, fs, hr, fun hfit => ?_⟩)
    ((patch pcs t).post fun _ _ h => h.1)
  rw [ht]
  exact (((hs.writing f fs hr).1.shaped hfit).2).entry_size he

theorem beginFunction (name : String) (p : Int) (module : Bool) :
    Holds o (Shaping .calm cs)
      (liftM (Resolver.beginFunction { name := name, params := p } module) : GenM Unit)
      fun _ => Shaping .calm ({ name := name, params := p } :: cs) := by
  intro r a r' hrun hs
  cases hrun
  refine ⟨.cons (Extends.refl _) hs.grown, fun f fs hr => ?_⟩
  obtain ⟨rfl, rfl⟩ := List.cons.inj hr
  refine ⟨Writing.empty rfl rfl, fun g hg => ?_⟩
  cases hr' : r.frames with
  | nil => rw [hr'] at hg; cases hg
  | cons f' fs' =>
    rw [hr'] at hg
    obtain ⟨hw, hcalm⟩ := hs.writing f' fs' hr'
    rcases List.mem_cons.mp hg with rfl | hg
    · exact hw
    · exact hcalm g hg

theorem endFunction {c₀ : Chunk} :
    Holds o (Shaping .calm (c₀ :: cs)) (liftM Resolver.endFunction : GenM Chunk)
      fun c r => Shaping .calm cs r ∧ c.Writing .calm := by
  intro r c r' hrun hs
  rw [Triple.liftM_run] at hrun
  cases hr : r.frames with
  | nil => simp [Resolver.endFunction, Resolver.frame_run_nil hr] at hrun
  | cons f fs =>
    simp only [Resolver.endFunction, StateT.run_bind, Resolver.frame_run hr, pure_bind] at hrun
    split at hrun
    · cases hrun
    · simp only [StateT.run_bind, StateT.run_modify, pure_bind, StateT.run_pure] at hrun
      cases hrun
      obtain ⟨hw, hcalm⟩ := hs.writing f fs hr
      have hg := hs.grown
      rw [hr] at hg
      cases hg with
      | cons _ hrest =>
        refine ⟨⟨by simpa [hr] using hrest, fun g gs hgs => ?_⟩, hw.congr rfl rfl rfl⟩
        simp only [hr, List.drop_succ_cons, List.drop_zero] at hgs
        subst hgs
        exact ⟨hcalm g (List.mem_cons_self ..), fun g' hg' =>
          hcalm g' (List.mem_cons_of_mem _ hg')⟩

theorem pushProto {q : Chunk} :
    Holds o (fun r => Shaping e cs r ∧ (q.SitesNamed → q.Bracketed))
      (liftM (Resolver.modifyChunk fun c => { c with protos := c.protos.push q }) : GenM Unit)
      fun _ => Shaping e cs := by
  intro r a r' hrun ⟨hs, hq⟩
  rw [Triple.liftM_run] at hrun
  cases hr : r.frames with
  | nil => rw [Resolver.modifyChunk, Resolver.modifyFrame_run_nil hr] at hrun; cases hrun
  | cons f fs =>
    rw [Resolver.modifyChunk_run hr] at hrun
    cases hrun
    exact hs.setHead hr rfl (fun hw => hw.pushProto hq) fun _ => extends_of_eq rfl rfl

end Holds

end ScriptMachine.Compiler
