import ScriptMachine.Proofs.Compiler.SingleSteps
import ScriptMachine.Proofs.Compiler.ConfinedCode
/-!
# Where single-step sites go

Every statement but a block or `pass` begins with its single-step site: compiled with single
steps listened to, on a line other than the one its function recorded, its first instruction is
the `NOTIFY` of a new single-step site for its span, and nothing compiled after moves it
(`stmt_sited`). `pass` compiles to nothing. A loop records its start before its site, and the
jump that closes it goes back there (`loop_jumps_to_site`).
-/

namespace ScriptMachine

namespace Syntax

/-- Whether a statement has a single-step site of its own: all but a block, whose statements
have theirs, and `pass`. -/
def Stmt.hasSite : Stmt → Bool
  | .block .. | .pass _ => false
  | _ => true

end Syntax

namespace Bytecode

/-- Chunk `c'` keeps `c` in place: its code only grows, and every instruction of `c` but a jump,
and every event site of `c`, is where it was. -/
structure Chunk.KeepsSites (c c' : Chunk) : Prop where
  size : c.code.size ≤ c'.code.size
  code : ∀ (pc : Nat) (i : Instruction), c.code[pc]? = some i → (i.op?.any Op.isJump) = false →
    c'.code[pc]? = some i
  events : ∀ (k : Nat) (n : Notification), c.notifications[k]? = some n →
    c'.notifications[k]? = some n

namespace Chunk.KeepsSites

variable {c c' c'' : Chunk}

theorem refl (c : Chunk) : c.KeepsSites c := ⟨Nat.le_refl _, fun _ _ h _ => h, fun _ _ h => h⟩

theorem trans (h : c.KeepsSites c') (h' : c'.KeepsSites c'') : c.KeepsSites c'' :=
  ⟨Nat.le_trans h.size h'.size, fun pc i hi hj => h'.code pc i (h.code pc i hi hj) hj,
    fun k n hk => h'.events k n (h.events k n hk)⟩

theorem of_eq (hc : c'.code = c.code) (hn : c'.notifications = c.notifications) :
    c.KeepsSites c' :=
  ⟨Nat.le_of_eq (by rw [hc]), fun _ _ h _ => by rw [hc]; exact h, fun _ _ h => by rw [hn]; exact h⟩

theorem emit (c : Chunk) (i : Instruction) (s : Span) : c.KeepsSites (c.emit i s) where
  size := by simp [Chunk.emit]
  code pc j h _ := by
    obtain ⟨hpc, -⟩ := Array.getElem?_eq_some_iff.mp h
    simp only [Chunk.emit]
    rw [Array.getElem?_push, if_neg (Nat.ne_of_lt hpc)]
    exact h
  events _ _ h := h

theorem pushEvent (c : Chunk) (n : Notification) :
    c.KeepsSites { c with notifications := c.notifications.push n } where
  size := Nat.le_refl _
  code _ _ h _ := h
  events k m h := by
    obtain ⟨hk, -⟩ := Array.getElem?_eq_some_iff.mp h
    rw [Array.getElem?_push, if_neg (Nat.ne_of_lt hk)]
    exact h

theorem of_retargets {pcs : List Nat} {T : Nat} (h : c.Retargets pcs T c') : c.KeepsSites c' where
  size := Nat.le_of_eq h.size.symm
  code pc i hi hj := by
    by_cases hpc : pc ∈ pcs
    · obtain ⟨i', hi', hjump, -⟩ := h.moved pc hpc
      rw [hi] at hi'
      cases hi'
      rw [hj] at hjump
      cases hjump
    · rw [h.kept pc hpc]
      exact hi
  events _ _ hk := by rw [h.eq]; exact hk

end Chunk.KeepsSites

end Bytecode

namespace Compiler

open Bytecode Syntax

/-! ## Steps that keep the sites in place -/

def Frame.KeepsSites (f f' : Frame) : Prop := f.chunk.KeepsSites f'.chunk

theorem keepsSites_refl (fs : List Frame) : List.Forall₂ Frame.KeepsSites fs fs :=
  List.forall₂_same.2 fun f _ => Chunk.KeepsSites.refl f.chunk

theorem keepsSites_trans {fs fs' fs'' : List Frame} (h : List.Forall₂ Frame.KeepsSites fs fs')
    (h' : List.Forall₂ Frame.KeepsSites fs' fs'') : List.Forall₂ Frame.KeepsSites fs fs'' :=
  forall₂_trans h h' Chunk.KeepsSites.trans

def SitesStay {α : Type} (act : GenM α) : Prop :=
  ∀ o r a r', (act.run o).run r = .ok (a, r') → List.Forall₂ Frame.KeepsSites r.frames r'.frames

namespace SitesStay

variable {α β : Type}

theorem bind {x : GenM α} {f : α → GenM β} (hx : SitesStay x) (hf : ∀ a, SitesStay (f a)) :
    SitesStay (x >>= f) := by
  intro o r b r' h
  rw [Triple.bind_run] at h
  cases hx' : (x.run o).run r with
  | error e => rw [hx'] at h; cases h
  | ok p =>
    rw [hx'] at h
    exact keepsSites_trans (hx o r p.1 p.2 hx') (hf p.1 o p.2 b r' h)

theorem pure (a : α) : SitesStay (Pure.pure a : GenM α) := by
  intro o r b r' h
  cases h
  exact keepsSites_refl _

theorem throw (e : Fault) : SitesStay (throw e : GenM α) := by
  intro o r a r' h
  cases h

theorem leaves {x : ResolveM α} (h : Resolver.Leaves x) : SitesStay (liftM x : GenM α) :=
  fun _ r a r' hrun => List.Forall₂.imp (fun _ _ hs => Chunk.KeepsSites.of_eq hs.1 hs.2.1)
    (h r a r' (by rwa [Triple.liftM_run] at hrun))

theorem modifyChunk {g : Chunk → Chunk} (hg : ∀ c : Chunk, c.KeepsSites (g c)) :
    SitesStay (liftM (Resolver.modifyChunk g) : GenM Unit) := by
  intro o r a r' hrun
  rw [Triple.liftM_run] at hrun
  cases hr : r.frames with
  | nil => rw [Resolver.modifyChunk, Resolver.modifyFrame_run_nil hr] at hrun; cases hrun
  | cons f fs =>
    rw [Resolver.modifyChunk_run hr] at hrun
    cases hrun
    exact .cons (hg f.chunk) (keepsSites_refl fs)

theorem emit (i : Instruction) (s : Span) : SitesStay (emit i s) := by
  intro o r a r' hrun
  cases hr : r.frames with
  | nil => rw [emit_run_nil hr] at hrun; cases hrun
  | cons f fs =>
    rw [emit_run hr] at hrun
    cases hrun
    exact .cons (Chunk.KeepsSites.emit _ _ _) (keepsSites_refl fs)

theorem openJump (op : Op) (a : Nat) (s : Span) : SitesStay (openJump op a s) :=
  bind (leaves (Resolver.Leaves.modifyFrame _ fun _ => ⟨rfl, rfl, rfl⟩)) fun _ => emit _ s

theorem patch (pcs : List Nat) (t : Nat) : SitesStay (patch pcs t) := by
  intro o r a r' hrun
  obtain ⟨-, h⟩ := Confines.patch_run hrun
  cases hr : r.frames with
  | nil =>
    cases pcs with
    | nil => cases hrun; rw [hr]; exact .nil
    | cons pc rest =>
      unfold Compiler.patch at hrun
      simp [Resolver.chunk_run_nil hr] at hrun
  | cons f fs =>
    obtain ⟨g, hr', -, -, -, ht⟩ := h f fs hr
    rw [hr']
    exact .cons (Chunk.KeepsSites.of_retargets ht) (keepsSites_refl fs)

theorem notify (n : Notification) : SitesStay (notify n) := by
  intro o r a r' hrun
  cases hr : r.frames with
  | nil => simp [Compiler.notify, Resolver.chunkCount_run_nil hr] at hrun
  | cons f fs =>
    rw [notify_run hr] at hrun
    cases hrun
    exact .cons ((Chunk.KeepsSites.pushEvent _ n).trans (Chunk.KeepsSites.emit _ _ _))
      (keepsSites_refl fs)

theorem closed : Closed SitesStay where
  bind := bind
  pure := pure
  throw := throw
  listening _ := fun _ _ _ _ h => by cases h; exact keepsSites_refl _
  emit := emit
  openJump := openJump
  patch := patch
  notify {n} _ := notify n
  chunk := leaves Resolver.WritesNothing.chunk.leaves
  inFunction := leaves Resolver.WritesNothing.inFunction.leaves
  find name := leaves (Resolver.WritesNothing.find name).leaves
  define name := leaves (Resolver.WritesNothing.define name).leaves
  alloc := leaves Resolver.WritesNothing.alloc.leaves
  temps n := leaves (Resolver.WritesNothing.temps n).leaves
  numberId x := leaves (Resolver.WritesNothing.numberId x).leaves
  textId t := leaves (Resolver.WritesNothing.textId t).leaves
  report d := leaves (Resolver.WritesNothing.report d).leaves
  beginScope := leaves Resolver.WritesNothing.beginScope.leaves
  endScope := leaves Resolver.WritesNothing.endScope.leaves

theorem step (s : Span) : SitesStay (step s) := by
  unfold Compiler.step
  refine closed.listening_bind _ fun _ => closed.ite (fun _ => ?_) fun _ => pure _
  refine (leaves Resolver.WritesNothing.frame.leaves).bind fun _ => closed.ite (fun _ => ?_) fun _ => pure _
  refine (leaves (Resolver.Leaves.modifyFrame _ ?_)).bind fun _ => notify _
  exact fun _ => ⟨rfl, rfl, rfl⟩

/-! The functions open around a function being compiled keep their sites in place too: a
ghost list `fs₀` records them as they were, and the innermost frame, the function being
compiled, is left out of the comparison until it is finished. -/

section Nested

variable {o : Options} {fs₀ : List Frame}

theorem holds {act : GenM α} (h : SitesStay act) :
    Holds o (fun r => List.Forall₂ Frame.KeepsSites fs₀ r.frames) act
      fun _ r => List.Forall₂ Frame.KeepsSites fs₀ r.frames :=
  fun r a r' hrun hk => keepsSites_trans hk (h o r a r' hrun)

theorem under {act : GenM α} (h : SitesStay act) :
    Holds o (fun r => ∃ g gs, r.frames = g :: gs ∧ List.Forall₂ Frame.KeepsSites fs₀ gs) act
      fun _ r => ∃ g gs, r.frames = g :: gs ∧ List.Forall₂ Frame.KeepsSites fs₀ gs := by
  intro r a r' hrun ⟨g, gs, hr, hk⟩
  have h' := h o r a r' hrun
  rw [hr] at h'
  obtain ⟨g', gs', -, hrest, hr'⟩ := List.forall₂_cons_left_iff.mp h'
  exact ⟨g', gs', hr', keepsSites_trans hk hrest⟩

theorem beginFunction (c : Chunk) (module : Bool) :
    Holds o (fun r => List.Forall₂ Frame.KeepsSites fs₀ r.frames)
      (liftM (Resolver.beginFunction c module) : GenM Unit)
      fun _ r => ∃ g gs, r.frames = g :: gs ∧ List.Forall₂ Frame.KeepsSites fs₀ gs := by
  intro r a r' hrun hk
  cases hrun
  exact ⟨_, _, rfl, hk⟩

theorem endFunction :
    Holds o (fun r => ∃ g gs, r.frames = g :: gs ∧ List.Forall₂ Frame.KeepsSites fs₀ gs)
      (liftM Resolver.endFunction : GenM Chunk)
      fun _ r => List.Forall₂ Frame.KeepsSites fs₀ r.frames := by
  intro r c r' hrun ⟨g, gs, hr, hk⟩
  rw [Triple.liftM_run] at hrun
  simp only [Resolver.endFunction, StateT.run_bind, Resolver.frame_run hr, pure_bind] at hrun
  split at hrun
  · cases hrun
  · simp only [StateT.run_bind, StateT.run_modify, pure_bind, StateT.run_pure] at hrun
    cases hrun
    simpa only [hr, List.drop_succ_cons, List.drop_zero] using hk

end Nested

theorem of_holds {act : GenM α}
    (h : ∀ o fs₀, Holds o (fun r => List.Forall₂ Frame.KeepsSites fs₀ r.frames) act
      fun _ r => List.Forall₂ Frame.KeepsSites fs₀ r.frames) : SitesStay act :=
  fun o r a r' hrun => h o r.frames r a r' hrun (keepsSites_refl _)

theorem read {f : Options → GenM α} (h : ∀ o, SitesStay (f o)) :
    SitesStay (MonadReader.read >>= f) :=
  fun o r a r' hrun => h o o r a r' hrun

theorem evalStmt (e : Expr) : SitesStay (evalStmt e) := by
  unfold Compiler.evalStmt
  refine closed.inScope (read fun _ => closed.bind closed.inFunction fun _ =>
    closed.ite (fun _ => ?_) fun _ => closed.bind closed.temp fun t => (closed.gen_uses e).into t)
  exact closed.bind closed.temp fun t => closed.callInto _ _ (closed.gen_uses _)
    (fun c hc => by rw [List.mem_singleton] at hc; exact hc ▸ closed.gen_uses e) t

end SitesStay

/-! ## The site a statement begins with -/

/-- A statement is due a new single-step site at code index `n` and event index `k`: single
steps are listened to, and its line is not the one the innermost function recorded, whose code
and events have those sizes. -/
def SiteDue (o : Options) (n k : Nat) (s : Span) (r : Resolver) : Prop :=
  Kind.singleStep ∈ o.listened ∧ ∃ f fs, r.frames = f :: fs ∧ f.chunk.code.size = n ∧
    f.chunk.notifications.size = k ∧ s.start.line ≠ f.lastLine

/-- The innermost function has, at code index `n`, the `NOTIFY` of its event `k`, a single-step
site for `s`. -/
def SiteAt (n k : Nat) (s : Span) (r : Resolver) : Prop :=
  ∃ f fs, r.frames = f :: fs ∧ f.chunk.code[n]? = some (Instruction.abx Op.notify.code 0 k) ∧
    f.chunk.notifications[k]? = some { kind := Kind.singleStep.code, span := s }

section Site

variable {o : Options} {n k : Nat} {s : Span}

theorem step_site : Holds o (SiteDue o n k s) (step s) fun _ => SiteAt n k s := by
  unfold Compiler.step
  refine Holds.listening_bind .singleStep fun b hb => Holds.ite (fun _ => ?_) fun hb' => ?_
  · refine Holds.frame.bind fun f => Holds.ite (fun _ => ?_) fun hne => ?_
    · intro r a r' hrun ⟨⟨_, g, gs, hr, hn, hev, _⟩, fs, hr'⟩
      rw [hr] at hr'
      obtain ⟨rfl, rfl⟩ := List.cons.inj hr'
      rw [Triple.bind_run, Triple.liftM_run, Resolver.modifyFrame_run hr, Triple.run_pure_bind,
        notify_run rfl] at hrun
      cases hrun
      refine ⟨_, gs, rfl, ?_, ?_⟩
      · simp only [Chunk.emit]
        rw [← hn, Array.getElem?_push_size, hev]
      · rw [← hev]
        exact Array.getElem?_push_size
    · intro r a r' _ ⟨⟨_, g, gs, hr, _, _, hline⟩, fs, hr'⟩
      rw [hr] at hr'
      obtain ⟨rfl, rfl⟩ := List.cons.inj hr'
      exact absurd (bne_iff_ne.mpr hline) hne
  · intro r a r' _ hd
    exact absurd (hb.2 hd.1) hb'

theorem here_due : Holds o (SiteDue o n k s) here fun u r => u = n ∧ SiteDue o n k s r := by
  intro r u r' hrun hd
  obtain ⟨hk, f, fs, hr, hn, hrest⟩ := hd
  simp only [here, Triple.bind_run, Triple.liftM_run, Resolver.chunk_run hr,
    Triple.run_pure_bind] at hrun
  cases hrun
  exact ⟨hn, hk, f, fs, hr, hn, hrest⟩

theorem SitesStay.site {α : Type} {act : GenM α} (h : SitesStay act) :
    Holds o (SiteAt n k s) act fun _ => SiteAt n k s := by
  intro r a r' hrun ⟨f, fs, hr, hcode, hev⟩
  have h' := h o r a r' hrun
  rw [hr] at h'
  obtain ⟨f', fs', hf, -, hr'⟩ := List.forall₂_cons_left_iff.mp h'
  exact ⟨f', fs', hr', hf.code n _ hcode (by rw [Instruction.op?_abx]; rfl), hf.events k _ hev⟩

theorem step_bind_site {f : Unit → GenM Unit} (hf : ∀ u, SitesStay (f u)) :
    Holds o (SiteDue o n k s) (step s >>= f) fun _ => SiteAt n k s :=
  step_site.bind fun u => (hf u).site

end Site

/-- What compiling a statement does to single-step sites: it keeps every site of the open
functions in place, and a statement with a site of its own, due one, begins with it. -/
structure Sited (x : Stmt) : Prop where
  stays : SitesStay (stmt x)
  first : x.hasSite = true → ∀ o n k, Holds o (SiteDue o n k x.span) (stmt x)
    fun _ => SiteAt n k x.span

theorem Sited.of_step {x : Stmt} {f : Unit → GenM Unit} (hx : stmt x = step x.span >>= f)
    (hf : ∀ u, SitesStay (f u)) : Sited x where
  stays := by rw [hx]; exact (SitesStay.step _).bind hf
  first _ _ _ _ := by rw [hx]; exact step_bind_site hf

mutual

/-- Every statement keeps the sites in place, and one with a site of its own begins with it. -/
theorem stmt_sited : ∀ x : Stmt, Sited x
  | .block _ body => ⟨by rw [stmt]; exact stmts_sitesStay body, fun h => by cases h⟩
  | .loop s test body => by
    have hbody := (stmt_sited body).stays
    have h := SitesStay.closed
    have htail : ∀ u, SitesStay (((gen test).branch false >>= fun exit => stmt body >>= fun _ =>
        jump s >>= fun back => patch [back] u >>= fun _ => patchHere exit) : GenM Unit) :=
      fun u => ((h.gen_uses test).branch false).bind fun _ => hbody.bind fun _ =>
        (h.jump s).bind fun _ => (h.patch _ _).bind fun _ => h.patchHere _
    refine ⟨by rw [stmt]; exact h.here.bind fun u => (SitesStay.step s).bind fun _ => htail u,
      fun _ o n k => ?_⟩
    rw [stmt]
    -- the loop's start is read before its site, and writes nothing
    exact here_due.bind fun u => Holds.pre (fun _ h => h.2) (step_bind_site fun _ => htail u)
  | .eval s e =>
    .of_step (by rw [stmt]; rfl) fun _ => SitesStay.evalStmt e
  | .assign s targets values =>
    .of_step (by rw [stmt]; rfl) fun _ => SitesStay.closed.assign s targets values
  | .cond s test yes none => by
    have h := SitesStay.closed
    exact .of_step (by rw [stmt]; rfl) fun _ => ((h.gen_uses test).branch false).bind fun _ =>
      (stmt_sited yes).stays.bind fun _ => h.patchHere _
  | .cond s test yes (some no) => by
    have h := SitesStay.closed
    exact .of_step (by rw [stmt]; rfl) fun _ => ((h.gen_uses test).branch false).bind fun _ =>
      (stmt_sited yes).stays.bind fun _ => (h.jump s).bind fun _ =>
        (h.patchHere _).bind fun _ => (stmt_sited no).stays.bind fun _ => h.patchHere _
  | .each s var varSpan seq body => by
    have h := SitesStay.closed
    refine .of_step (by rw [stmt]; rfl) fun _ => h.inScope ?_
    exact (h.temps 3).bind fun base => (h.inScope ((h.gen_uses seq).into base)).bind fun _ =>
      (h.openJump _ _ s).bind fun _ => h.here.bind fun _ => (h.store _ _ varSpan).bind fun _ =>
        (stmt_sited body).stays.bind fun _ => (h.openJump _ _ s).bind fun _ =>
          (h.patch _ _).bind fun _ => h.patch _ _
  | .define s name params body => by
    have h := SitesStay.closed
    -- the enclosing functions are compared with a ghost copy while the body is compiled
    refine .of_step (by rw [stmt]; rfl) fun _ => SitesStay.of_holds fun o fs₀ => ?_
    refine (SitesStay.beginFunction _ false).bind fun _ =>
      (SitesStay.under (h.declareLocals params body)).bind fun _ =>
        (SitesStay.under (stmt_sited body).stays).bind fun _ => ?_
    refine (SitesStay.under (h.emitABC _ _ _ _ _)).bind fun _ =>
      SitesStay.endFunction.bind fun _ => (SitesStay.holds h.chunk).bind fun _ => ?_
    refine (SitesStay.holds (SitesStay.modifyChunk fun _ => ?_)).bind fun _ =>
      SitesStay.holds (h.bindFunction s name _)
    exact .of_eq rfl rfl
  | .ret s values =>
    .of_step (by rw [stmt]; rfl) fun _ => SitesStay.closed.returnStmt s values
  | .pass _ => ⟨by rw [stmt]; exact SitesStay.pure _, fun h => by cases h⟩
  | .tagged s tags body => by
    have h := SitesStay.closed
    refine .of_step (by rw [stmt]; rfl) fun _ => h.listening_bind _ fun _ => ?_
    refine h.ite (fun _ => ?_) fun _ =>
      (stmts_sitesStay body).bind fun _ => h.tagExit s tags
    exact (h.notify_kind (k := .vtagEntered) rfl (by decide)).bind fun _ =>
      (stmts_sitesStay body).bind fun _ => h.tagExit s tags

theorem stmts_sitesStay : ∀ xs : List Stmt, SitesStay (stmts xs)
  | [] => by rw [stmts]; exact SitesStay.pure _
  | x :: xs => by rw [stmts]; exact (stmt_sited x).stays.bind fun _ => stmts_sitesStay xs

end

/-! ## Loops go back to their site -/

section Loop

variable {o : Options} {r : Resolver} {f : Frame} {fs : List Frame}

theorem here_run (hr : r.frames = f :: fs) : ((here.run o).run r) = .ok (f.chunk.code.size, r) := by
  simp only [here, Triple.bind_run, Triple.liftM_run, Resolver.chunk_run hr, Triple.run_pure_bind]
  rfl

/-- A loop's site is reached on every iteration: the jump that closes the loop goes back to the
loop's start, where its site is (`stmt_sited`). Compiled into a function whose registers are in
their zone, a loop that reports nothing ends with a jump, at or after its start, whose target is
its start. -/
theorem loop_jumps_to_site (s : Span) (test : Expr) (body : Stmt) {u : Unit} {r' : Resolver}
    (hrun : ((stmt (.loop s test body)).run o).run r = .ok (u, r')) (hclean : r'.reports = #[])
    (hr : r.frames = f :: fs) (hz : f.Zone fun _ => False) :
    ∃ f' fs' back, r'.frames = f' :: fs' ∧ f.chunk.code.size ≤ back ∧
      (f'.chunk.code[back]?.any fun i => i.op?.any Op.isJump) = true ∧
      f'.chunk.jumpTarget back = f.chunk.code.size := by
  rw [stmt, Triple.bind_run] at hrun
  obtain ⟨⟨start, r₁⟩, h₁, hrun⟩ := Triple.bind_eq_ok hrun
  rw [here_run hr] at h₁
  cases h₁
  rw [← bind_assoc, Triple.bind_run] at hrun
  obtain ⟨⟨exit, r₂⟩, h₂, hrun⟩ := Triple.bind_eq_ok hrun
  rw [Triple.bind_run] at hrun
  obtain ⟨⟨_, r₃⟩, h₃, hrun⟩ := Triple.bind_eq_ok hrun
  rw [Triple.bind_run] at hrun
  obtain ⟨⟨back, r₄⟩, h₄, hrun⟩ := Triple.bind_eq_ok hrun
  rw [Triple.bind_run] at hrun
  obtain ⟨⟨_, r₅⟩, h₅, h₆⟩ := Triple.bind_eq_ok hrun
  rw [patchHere, Triple.bind_run] at h₆
  obtain ⟨⟨t, r₆⟩, hhere, h₆⟩ := Triple.bind_eq_ok h₆
  -- the body keeps the code written before it in place
  obtain ⟨f₃, fs₃, hr₃⟩ : ∃ f₃ fs₃, r₃.frames = f₃ :: fs₃ := by
    cases hf : r₃.frames with
    | nil =>
      simp [jump, openJump, Resolver.modifyFrame_run_nil hf] at h₄
    | cons f₃ fs₃ => exact ⟨f₃, fs₃, rfl⟩
  rw [jump_run hr₃] at h₄
  cases h₄
  obtain ⟨hrep₅, hpatch₅⟩ := Confines.patch_run h₅
  obtain ⟨f₅, hr₅, -, -, -, hback⟩ := hpatch₅ _ fs₃ rfl
  rw [here_run hr₅] at hhere
  cases hhere
  obtain ⟨hrep₆, hpatch₆⟩ := Confines.patch_run h₆
  obtain ⟨f₆, hr₆, -, -, -, hexit⟩ := hpatch₆ f₅ fs₃ hr₅
  -- the whole run reports nothing, so the test's run does not either
  have hclean₃ : r₃.reports = #[] := by
    rw [← hclean, hrep₆, hrep₅]
  have hclean₂ : r₂.reports = #[] := (stmt_sound body 0 default [] r₂ _ r₃ h₃ hclean₃).1
  -- the test's exits wait in the code written since the loop's start
  have hhead : Confines o (fun _ => False) f.chunk.code.size [] (fun g => 0 ≤ g.next)
      (step s >>= fun _ => (gen test).branch false) (fun exit => [] ++ exit)
      fun _ g => 0 ≤ g.next :=
    (Confines.step s).bind fun _ => (gen_confined test).branch false
  obtain ⟨f₂, fs₂, hr₂, -, -, hc₂, -⟩ := (hhead r exit r₂ h₂ hclean₂).2 f fs hr (Nat.zero_le _) hz
    ⟨Nat.le_refl _, fun pc h₁ h₂ => absurd h₂ (by omega), fun _ hj => absurd hj List.not_mem_nil⟩
  have hk := (stmt_sited body).stays o r₂ _ r₃ h₃
  rw [hr₂, hr₃] at hk
  obtain ⟨hk₃, -⟩ := List.forall₂_cons.mp hk
  have hlo : f.chunk.code.size ≤ f₂.chunk.code.size := hc₂.start
  have hle : f₂.chunk.code.size ≤ f₃.chunk.code.size := hk₃.size
  have hnot : f₃.chunk.code.size ∉ exit := fun hj => by
    have := (hc₂.waiting _ (List.mem_append_right _ hj)).2.1
    omega
  obtain ⟨i, hi, hjump, hlo', hhi', hi'⟩ := hback.moved _ (List.mem_singleton_self _)
  refine ⟨f₆, fs₃, _, hr₆, Nat.le_trans hlo hle, ?_, ?_⟩
  · rw [hexit.kept _ hnot, hi']
    simpa using hjump
  · rw [Chunk.jumpTarget, Array.getD_eq_getD_getElem?, hexit.kept _ hnot, hi',
      Option.getD_some, Instruction.sbx_withSBx _ _ hlo' hhi']
    omega

end Loop

/-- Single-step sites: in the chunk of every compiled program, and in every chunk nested in it,
two single-step sites that follow each other are on different lines, and there is none unless
single steps are listened to; `pass` compiles to nothing; every other statement but a block,
due a site, begins with it; and the jump that closes a loop goes back to the loop's start. -/
theorem single_step_sites (o : Options) :
    (∀ (p : Program) (c : Chunk), compile p o = .chunk c → c.StepsApart o.listened) ∧
    (∀ (s : Span) (r : Resolver), ((stmt (.pass s)).run o).run r = .ok ((), r)) ∧
    (∀ (x : Stmt) (n k : Nat), x.hasSite = true →
      Holds o (SiteDue o n k x.span) (stmt x) fun _ => SiteAt n k x.span) ∧
    (∀ (s : Span) (test : Expr) (body : Stmt) (r r' : Resolver) (f : Frame) (fs : List Frame),
      ((stmt (.loop s test body)).run o).run r = .ok ((), r') → r'.reports = #[] →
      r.frames = f :: fs → f.Zone (fun _ => False) →
      ∃ f' fs' back, r'.frames = f' :: fs' ∧ f.chunk.code.size ≤ back ∧
        (f'.chunk.code[back]?.any fun i => i.op?.any Op.isJump) = true ∧
        f'.chunk.jumpTarget back = f.chunk.code.size) :=
  ⟨fun _ _ h => compile_stepsApart h, fun _ _ => rfl,
    fun x _ _ hx => (stmt_sited x).first hx o _ _,
    fun s test body _ _ _ _ hrun hclean hr hz => loop_jumps_to_site s test body hrun hclean hr hz⟩

/-- Three expression statements, on lines 1, 2 and 1 again. -/
def lineOneTwoOne : List Stmt :=
  [.eval ⟨⟨1, 0⟩, ⟨1, 4⟩⟩ (.nil ⟨⟨1, 0⟩, ⟨1, 4⟩⟩),
   .eval ⟨⟨2, 0⟩, ⟨2, 4⟩⟩ (.nil ⟨⟨2, 0⟩, ⟨2, 4⟩⟩),
   .eval ⟨⟨1, 6⟩, ⟨1, 10⟩⟩ (.nil ⟨⟨1, 6⟩, ⟨1, 10⟩⟩)]

/-- Line 1 reached again after line 2 gets a second single-step site. -/
theorem single_step_sites_revisit :
    ∃ c, compile ⟨"m", some lineOneTwoOne⟩ { listened := [.singleStep] } = .chunk c ∧
      c.stepLines = [1, 2, 1] ∧ c.StepsApart [.singleStep] := by
  obtain ⟨root, r, hrun, hclean, hlines⟩ : ∃ root r,
      ((compileBody "m" lineOneTwoOne).run { listened := [.singleStep] }).run {} = .ok (root, r) ∧
        r.reports = #[] ∧ root.stepLines = [1, 2, 1] :=
    ⟨_, _, rfl, rfl, by decide⟩
  have hwf := (compileBody_chunk hrun hclean).1
  have h : compile ⟨"m", some lineOneTwoOne⟩ { listened := [.singleStep] } = .chunk root := by
    have hname : (if ("m" == "") = true then "<module>" else "m") = "m" := rfl
    simp only [compile, hname, hrun, hclean, hwf.validate_eq_none]
    rfl
  exact ⟨root, h, hlines, (single_step_sites _).1 _ _ h⟩

end Compiler

end ScriptMachine
