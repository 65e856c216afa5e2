import ScriptMachine.Proofs.Compiler.Bracketing
import ScriptMachine.Proofs.Compiler.Statements
/-!
# Compiled programs bracket their calls

A script whose every call is observed (`Syntax.Program.callsObserved`), compiled with calls and
returns listened to (`Options.ObservesCalls`), is a chunk that brackets its calls, with every chunk
nested in it, as long as each has no more event sites than a `NOTIFY` can name:
`compile_bracketed`.
-/

namespace ScriptMachine

namespace Syntax

def Tag.argsObserved (tags : List Tag) : Bool :=
  tags.all fun t => t.args.all fun a => a.2.callsObserved

mutual

/-- Whether every call in the statement, and in the statements and functions nested in it, is
observed. -/
def Stmt.callsObserved : Stmt → Bool
  | .eval _ e => e.callsObserved
  | .assign _ targets values => Expr.allObserved targets && Expr.allObserved values
  | .block _ body => Stmt.allObserved body
  | .cond _ test yes none => test.callsObserved && yes.callsObserved
  | .cond _ test yes (some no) => test.callsObserved && yes.callsObserved && no.callsObserved
  | .loop _ test body => test.callsObserved && body.callsObserved
  | .each _ _ _ seq body => seq.callsObserved && body.callsObserved
  | .define _ _ _ body => body.callsObserved
  | .ret _ values => Expr.allObserved values
  | .pass _ => true
  | .tagged _ tags body => Tag.argsObserved tags && Stmt.allObserved body

def Stmt.allObserved : List Stmt → Bool
  | [] => true
  | x :: xs => x.callsObserved && Stmt.allObserved xs

end

def Program.callsObserved (p : Program) : Bool := p.body.all Stmt.allObserved

theorem Expr.allObserved_iff {xs : List Expr} :
    Expr.allObserved xs = true ↔ ∀ x ∈ xs, x.callsObserved = true := by
  induction xs with
  | nil => simp [Expr.allObserved]
  | cons x xs ih => simp [Expr.allObserved, ih]

theorem Expr.headD_observed {xs : List Expr} (h : Expr.allObserved xs = true) :
    (xs.headD default).callsObserved = true := by
  cases xs with
  | nil => rfl
  | cons x xs => exact (Expr.allObserved_iff.1 h) x (List.mem_cons_self ..)

theorem Tag.argsObserved_of_mem {tags : List Tag} (h : Tag.argsObserved tags = true)
    {a : String × Expr} (ha : a ∈ tags.flatMap (·.args)) : a.2.callsObserved = true := by
  simp only [Tag.argsObserved, List.all_eq_true] at h
  obtain ⟨t, ht, hat⟩ := List.mem_flatMap.1 ha
  exact h t ht a hat

end Syntax

namespace Compiler

open Bytecode Chunk Syntax

/-- Options under which observed calls are bracketed: calls and returns are listened to, and the
program is a script, whose expression statements are not echoed through a call of the
machine's own. -/
structure Options.ObservesCalls (o : Options) : Prop where
  called : Kind.funcCalled ∈ o.listened
  returned : Kind.funcReturned ∈ o.listened
  script : o.mode = .script

/-! ## Points to jump back to -/

namespace Shaping

variable {e : Ending} {c : Chunk} {cs : List Chunk} {r : Resolver} {f : Frame} {fs : List Frame}

theorem head {c : Chunk} (h : Shaping e (c :: cs) r) :
    ∃ f fs, r.frames = f :: fs ∧ c.Extends f.chunk := by
  have hg := h.grown
  cases hr : r.frames with
  | nil => rw [hr] at hg; cases hg
  | cons f fs =>
    rw [hr] at hg
    cases hg with
    | cons hc _ => exact ⟨f, fs, rfl, hc⟩

theorem snapshot (h : Shaping e cs r) (hr : r.frames = f :: fs) :
    ∃ c cs', cs = c :: cs' ∧ c.Extends f.chunk ∧ Shaping e (f.chunk :: cs') r := by
  have hg := h.grown
  rw [hr] at hg
  cases hg with
  | cons hc hrest =>
    refine ⟨_, _, rfl, hc, ⟨?_, h.writing⟩⟩
    rw [hr]
    exact .cons (Extends.refl _) hrest

theorem rebase {c' : Chunk} (h : Shaping e (c' :: cs) r) (hc : c.Extends c') :
    Shaping e (c :: cs) r where
  grown := by
    have hg := h.grown
    cases hr : r.frames with
    | nil => rw [hr] at hg; cases hg
    | cons f fs =>
      rw [hr] at hg
      cases hg with
      | cons hx hrest => exact .cons (hc.trans hx) hrest
  writing := h.writing

end Shaping

namespace Holds

variable {α : Type} {o : Options} {e e' : Ending} {cs : List Chunk} {act : GenM α}

/-- A point a jump may land on stays one through every step that keeps the functions shaped
whatever their ghost list: such a step only extends the innermost function's code. -/
theorem keepEntry {P : Resolver → Prop} {Q : α → Resolver → Prop}
    (h : ∀ cs, Holds o (fun r => Shaping e cs r ∧ P r) act fun a r => Shaping e' cs r ∧ Q a r)
    (t : Int) (cs : List Chunk) :
    Holds o (fun r => (Shaping e cs r ∧ P r) ∧ EntryAt t r) act
      fun a r => (Shaping e' cs r ∧ Q a r) ∧ EntryAt t r := by
  intro r a r' hrun ⟨⟨hs, hp⟩, f, fs, hr, ht⟩
  obtain ⟨c, cs', rfl, hc, hs₀⟩ := hs.snapshot hr
  obtain ⟨hs', hq⟩ := h (f.chunk :: cs') r a r' hrun ⟨hs₀, hp⟩
  obtain ⟨f', fs', hr', hx⟩ := hs'.head
  exact ⟨⟨hs'.rebase hc, hq⟩, f', fs', hr', hx.entry_of_fits ht⟩

theorem here_entry (he : e = .calm ∨ e = .skip) :
    Holds o (Shaping e cs) Compiler.here fun t r => Shaping e cs r ∧ EntryAt t r :=
  here.post fun t r ⟨hs, f, fs, hr, ht⟩ => ⟨hs, f, fs, hr, fun hfit => by
    rw [ht]
    exact ((hs.writing f fs hr).1.shaped hfit).2.entry_size he⟩

theorem emit_entry (he : e = .calm ∨ e = .skip) (i : Instruction) (s : Span) :
    Holds o (Shaping e cs) (Compiler.emit i s) fun pc r => EntryAt pc r := by
  intro r pc r' hrun hs
  cases hr : r.frames with
  | nil => rw [emit_run_nil hr] at hrun; cases hrun
  | cons f fs =>
    rw [emit_run hr] at hrun
    cases hrun
    exact ⟨_, fs, rfl, (extends_emit f.chunk i s).entry_of_fits fun hfit =>
      ((hs.writing f fs hr).1.shaped hfit).2.entry_size he⟩

theorem openJump_entry (he : e = .calm ∨ e = .skip) {op : Op} (hj : op.isJump = true)
    (a : Nat) (s : Span) :
    Holds o (Shaping e cs) (Compiler.openJump op a s)
      fun pc r => Shaping .calm cs r ∧ EntryAt pc r := by
  have hentry : Holds o (Shaping e cs) (Compiler.openJump op a s) fun pc r => EntryAt pc r := by
    unfold Compiler.openJump
    refine (leaves (Resolver.Leaves.modifyFrame _ ?_)).bind fun _ => emit_entry he _ s
    exact fun _ => ⟨rfl, rfl, rfl⟩
  exact fun r pc r' hrun hs => ⟨openJump he hj a s r pc r' hrun hs, hentry r pc r' hrun hs⟩

end Holds

/-- A step that stays outside every bracket keeps every point a jump may land on. -/
theorem StaysCalm.keepEntry {α : Type} {o : Options} {act : GenM α} (h : StaysCalm o act)
    (t : Int) (cs : List Chunk) :
    Holds o (fun r => Shaping .calm cs r ∧ EntryAt t r) act
      fun _ r => Shaping .calm cs r ∧ EntryAt t r :=
  ((Holds.keepEntry (P := fun _ => True) (Q := fun _ _ => True)
      (fun cs => (h cs).mono (fun _ h => h.1) fun _ _ h => ⟨h, trivial⟩) t cs).mono
    (fun _ ⟨hs, ht⟩ => ⟨⟨hs, trivial⟩, ht⟩) fun _ _ ⟨⟨hs, _⟩, ht⟩ => ⟨hs, ht⟩)

/-! ## Assignments -/

section Assign

variable {o : Options} (ho : o.ObservesCalls)

include ho

theorem Expr.shapes {x : Expr} (h : x.callsObserved = true) : (gen x).Shapes o :=
  gen_shapes ho.called ho.returned x h

theorem store_calm {target : Expr} (ht : target.callsObserved = true) (src : Nat) (s : Span) :
    StaysCalm o (store target src s) := by
  unfold store
  split
  · refine (StaysCalm.targetOf _ s).bind fun v => StaysCalm.ite (fun _ => ?_) fun _ => ?_
    · -- a register takes the value by a constant load or a move, unless it holds it already
      dsimp only
      exact StaysCalm.ite (fun _ => (StaysCalm.loadK _ _ s).bind fun _ =>
        StaysCalm.notifyAssign s _ _ _) fun _ => StaysCalm.when_bind
          (fun _ => StaysCalm.emitABC_plain s (.inl (by decide))) (StaysCalm.notifyAssign s _ _ _)
    · exact (StaysCalm.inRegister src s).bind fun _ =>
        (StaysCalm.emitABx_plain s (by decide)).bind fun _ => StaysCalm.notifyAssign s _ _ _
  · rename_i container key
    simp only [Expr.callsObserved, Bool.and_eq_true] at ht
    refine StaysCalm.inScope ((Expr.shapes ho ht.1).register.bind fun _ =>
      (Expr.shapes ho ht.2).operand.bind fun _ =>
        (StaysCalm.emitABC_plain s (.inl (by decide))).bind fun _ => ?_)
    -- the element's event site, when its container has a name
    exact StaysCalm.listening_bind .subscriptAssignment fun _ _ => StaysCalm.ite
      (fun _ => (StaysCalm.storageOf _).bind fun _ =>
        StaysCalm.notify_kind (k := .subscriptAssignment) rfl (by decide) (by decide))
      fun _ => StaysCalm.pure ()
  · exact StaysCalm.errorAt _ _ _

theorem assignSingle_calm {target value : Expr} (ht : target.callsObserved = true)
    (hv : value.callsObserved = true) (s : Span) : StaysCalm o (assignSingle target value s) := by
  unfold assignSingle
  split
  · exact (StaysCalm.targetOf _ s).bind fun _ => StaysCalm.ite
      (fun _ => ((Expr.shapes ho hv).into _).bind fun _ => StaysCalm.notifyAssign s _ _ _)
      fun _ => (Expr.shapes ho hv).operand.bind fun x => store_calm ho ht x s
  · exact (Expr.shapes ho hv).operand.bind fun x => store_calm ho ht x s
  · exact StaysCalm.errorAt _ _ _

theorem assign_calm (s : Span) {targets values : List Expr}
    (ht : Expr.allObserved targets = true) (hv : Expr.allObserved values = true) :
    StaysCalm o (assign s targets values) := by
  have ht' := Expr.allObserved_iff.1 ht
  have hv' := Expr.allObserved_iff.1 hv
  unfold assign
  refine StaysCalm.inScope ?_
  split
  · exact assignSingle_calm ho (ht' _ (List.mem_singleton_self _))
      (hv' _ (List.mem_singleton_self _)) s
  refine StaysCalm.ite (fun _ => ?_) fun _ => StaysCalm.ite (fun _ => ?_) fun _ =>
    StaysCalm.ite (fun _ => ?_) fun _ => StaysCalm.errorAt _ _ _
  · -- several values packed into one tuple
    exact StaysCalm.temp.bind fun t => (sequenceInto_calm (by decide)
      (genAll_shapes ho.called ho.returned values hv) t s).bind fun _ =>
        store_calm ho (Expr.headD_observed ht) t s
  · -- one value unpacked element by element
    refine StaysCalm.temp.bind fun src => ((Expr.shapes ho (Expr.headD_observed hv)).into src).bind
      fun _ => StaysCalm.forM fun p hp => ?_
    obtain ⟨target, i⟩ := p
    exact StaysCalm.inScope (StaysCalm.temp.bind fun elem =>
      (StaysCalm.leaves (Resolver.WritesNothing.numberId _).leaves).bind fun z => (StaysCalm.rk z s).bind
        fun _ => (StaysCalm.emitABC_plain s (.inl (by decide))).bind fun _ =>
          store_calm ho (ht' target (List.fst_mem_of_mem_zipIdx hp)) elem s)
  · -- pairwise, all values first
    refine (StaysCalm.temps _).bind fun base => (StaysCalm.forM fun p hp => ?_).bind fun _ =>
      StaysCalm.forM fun q hq => ?_
    · obtain ⟨value, i⟩ := p
      exact StaysCalm.inScope ((Expr.shapes ho (hv' value (List.fst_mem_of_mem_zipIdx hp))).into _)
    · obtain ⟨target, i⟩ := q
      exact store_calm ho (ht' target (List.fst_mem_of_mem_zipIdx hq)) _ s

end Assign

/-! ## Expression statements, returns and tagged regions -/

section Values

variable {o : Options} (ho : o.ObservesCalls)

include ho

theorem evalStmt_calm {x : Expr} (hx : x.callsObserved = true) : StaysCalm o (evalStmt x) := by
  unfold evalStmt
  refine StaysCalm.inScope (StaysCalm.read ((StaysCalm.leaves Resolver.WritesNothing.inFunction.leaves).bind
    fun _ => ?_))
  rw [if_neg (by simp [ho.script])]
  exact StaysCalm.temp.bind fun t => (Expr.shapes ho hx).into t

theorem returnStmt_calm (s : Span) {values : List Expr} (hv : Expr.allObserved values = true) :
    StaysCalm o (returnStmt s values) := by
  unfold returnStmt
  refine (StaysCalm.leaves Resolver.WritesNothing.inFunction.leaves).bind fun _ =>
    StaysCalm.ite (fun _ => StaysCalm.errorAt _ _ _) fun _ => StaysCalm.inScope ?_
  split
  · exact StaysCalm.emitABC_plain s (.inl (by decide))
  · exact (Expr.shapes ho (Expr.headD_observed hv)).register.bind fun _ =>
      StaysCalm.emitABC_plain s (.inl (by decide))
  · exact StaysCalm.temp.bind fun t => (sequenceInto_calm (by decide)
      (genAll_shapes ho.called ho.returned values hv) t s).bind fun _ =>
        StaysCalm.emitABC_plain s (.inl (by decide))

theorem tagExit_calm (s : Span) {tags : List Tag} (ht : Tag.argsObserved tags = true) :
    StaysCalm o (tagExit s tags) := by
  unfold tagExit
  refine StaysCalm.listening_bind .vtagExited fun _ _ =>
    StaysCalm.ite (fun _ => StaysCalm.inScope ?_) fun _ => StaysCalm.pure ()
  refine (StaysCalm.mapM fun a ha => ?_).bind fun _ =>
    StaysCalm.notify_kind (k := .vtagExited) rfl (by decide) (by decide)
  exact StaysCalm.temp.bind fun r =>
    (StaysCalm.inScope ((Expr.shapes ho (Tag.argsObserved_of_mem ht ha)).into r)).bind fun _ =>
      StaysCalm.pure r

end Values

/-! ## Functions -/

section Functions

variable {o : Options}

theorem declareLocals_calm (params : List String) (body : Stmt) :
    StaysCalm o (declareLocals params body) := by
  unfold declareLocals
  exact (StaysCalm.forM fun p _ => (StaysCalm.leaves (Resolver.WritesNothing.define p).leaves).bind fun _ =>
    StaysCalm.pure _).bind fun _ => StaysCalm.forM fun name _ => StaysCalm.ite
      (fun _ => (StaysCalm.leaves (Resolver.WritesNothing.define name).leaves).bind fun _ => StaysCalm.pure _)
      fun _ => StaysCalm.pure _

theorem bindFunction_calm (s : Span) (name : String) (idx : Nat) :
    StaysCalm o (bindFunction s name idx) := by
  unfold bindFunction
  exact StaysCalm.inScope ((StaysCalm.targetOf name s).bind fun _ =>
    StaysCalm.ite (fun _ => StaysCalm.emitABx_plain s (by decide)) fun _ =>
      StaysCalm.temp.bind fun _ => (StaysCalm.emitABx_plain s (by decide)).bind fun _ =>
        StaysCalm.emitABx_plain s (by decide))

end Functions

/-! ## Statements -/

section Stmts

variable {o : Options}

theorem loop_calm (s : Span) {test : Expr} (body : Stmt) (htest : (gen test).Shapes o)
    (hbody : StaysCalm o (stmt body)) : StaysCalm o (stmt (.loop s test body)) := by
  intro cs
  rw [stmt]
  refine (Holds.here_entry (.inl rfl)).bind fun start => ?_
  refine ((StaysCalm.step s).keepEntry start cs).bind fun _ =>
    ((htest.branch false).keepEntry start cs).bind fun exit => ?_
  refine (hbody.keepEntry start cs).bind fun _ =>
    ((StaysCalm.jump s).keepEntry start cs).bind fun back => ?_
  exact (Holds.patch [back] start).bind fun _ => (StaysCalm.patchHere exit cs).pre fun _ h => h.1

theorem condSkip_calm (s : Span) {test : Expr} (yes : Stmt) (htest : (gen test).Shapes o)
    (hyes : StaysCalm o (stmt yes)) : StaysCalm o (stmt (.cond s test yes none)) := by
  rw [stmt]
  exact (StaysCalm.step s).bind fun _ => (htest.branch false).bind fun skip =>
    hyes.bind fun _ => StaysCalm.patchHere skip

theorem condElse_calm (s : Span) {test : Expr} (yes no : Stmt) (htest : (gen test).Shapes o)
    (hyes : StaysCalm o (stmt yes)) (hno : StaysCalm o (stmt no)) :
    StaysCalm o (stmt (.cond s test yes (some no))) := by
  rw [stmt]
  exact (StaysCalm.step s).bind fun _ => (htest.branch false).bind fun skip =>
    hyes.bind fun _ => (StaysCalm.jump s).bind fun exit => (StaysCalm.patchHere skip).bind
      fun _ => hno.bind fun _ => StaysCalm.patchHere [exit]

theorem each_calm (ho : o.ObservesCalls) (s : Span) (var : String) (varSpan : Span) {seq : Expr}
    (body : Stmt) (hseq : (gen seq).Shapes o) (hbody : StaysCalm o (stmt body)) :
    StaysCalm o (stmt (.each s var varSpan seq body)) := by
  intro cs
  rw [stmt]
  refine (StaysCalm.step s cs).bind fun _ => Holds.inScope ?_
  refine (StaysCalm.temps 3 cs).bind fun base =>
    (StaysCalm.inScope (hseq.into base) cs).bind fun _ => ?_
  refine (Holds.openJump (.inl rfl) rfl base s).bind fun prep =>
    (Holds.here_entry (.inl rfl)).bind fun bodyPc => ?_
  refine ((store_calm ho rfl (base + 2) varSpan).keepEntry bodyPc cs).bind fun _ =>
    (hbody.keepEntry bodyPc cs).bind fun _ => ?_
  refine ((Holds.keepEntry (P := fun _ => True) (fun cs =>
      (Holds.openJump_entry (.inl rfl) rfl base s).pre fun _ h => h.1) bodyPc cs).pre
    fun _ ⟨hs, hb⟩ => ⟨⟨hs, trivial⟩, hb⟩).bind fun loop => ?_
  refine (Holds.pre (fun _ ⟨⟨hs, hl⟩, hb⟩ => ⟨⟨hs, hb⟩, hl⟩)
    (Holds.keepEntry (fun cs => Holds.patch [loop] bodyPc) loop cs)).bind fun _ => ?_
  exact (Holds.pre (fun _ ⟨⟨hs, _⟩, hl⟩ => ⟨hs, hl⟩) (Holds.patch [prep] loop)).post
    fun _ _ h => h.1

theorem define_calm (s : Span) (name : String) (params : List String) (body : Stmt)
    (hbody : StaysCalm o (stmt body)) : StaysCalm o (stmt (.define s name params body)) := by
  intro cs
  rw [stmt]
  refine (StaysCalm.step s cs).bind fun _ => (Holds.beginFunction name _ false).bind fun _ => ?_
  refine (declareLocals_calm params body _).bind fun _ => (hbody _).bind fun _ =>
    (StaysCalm.emitABC_plain _ (.inl (by decide)) _).bind fun _ => Holds.endFunction.bind
      fun proto => ?_
  refine (Holds.pre (fun _ ⟨hs, hw⟩ => ⟨hw, hs⟩)
    (Holds.pure_and (Holds.leaves Resolver.WritesNothing.chunk.leaves))).bind fun _ => ?_
  exact (Holds.pre (fun _ ⟨hw, hs⟩ => ⟨hs, hw.bracketed⟩) Holds.pushProto).bind fun _ =>
    bindFunction_calm s name _ cs

theorem tagged_calm (ho : o.ObservesCalls) (s : Span) {tags : List Tag} (body : List Stmt)
    (ht : Tag.argsObserved tags = true) (hbody : StaysCalm o (stmts body)) :
    StaysCalm o (stmt (.tagged s tags body)) := by
  rw [stmt]
  refine (StaysCalm.step s).bind fun _ => StaysCalm.listening_bind .vtagEntered fun _ _ => ?_
  dsimp only
  exact StaysCalm.when_bind
    (fun _ => StaysCalm.notify_kind (k := .vtagEntered) rfl (by decide) (by decide))
    (hbody.bind fun _ => tagExit_calm ho s ht)

end Stmts

/-! ## Programs -/

section Programs

variable {o : Options}

mutual

/-- Every statement whose calls are observed compiles to a step outside every bracket. -/
theorem stmt_calm (ho : o.ObservesCalls) :
    ∀ x : Stmt, x.callsObserved = true → StaysCalm o (stmt x)
  | .block _ body, h => by
    simp only [Stmt.callsObserved] at h
    rw [stmt]
    exact stmts_calm ho body h
  | .loop s test body, h => by
    simp only [Stmt.callsObserved, Bool.and_eq_true] at h
    exact loop_calm s body (Expr.shapes ho h.1) (stmt_calm ho body h.2)
  | .eval s e, h => by
    simp only [Stmt.callsObserved] at h
    rw [stmt]
    exact (StaysCalm.step s).bind fun _ => evalStmt_calm ho h
  | .assign s targets values, h => by
    simp only [Stmt.callsObserved, Bool.and_eq_true] at h
    rw [stmt]
    exact (StaysCalm.step s).bind fun _ => assign_calm ho s h.1 h.2
  | .cond s test yes none, h => by
    simp only [Stmt.callsObserved, Bool.and_eq_true] at h
    exact condSkip_calm s yes (Expr.shapes ho h.1) (stmt_calm ho yes h.2)
  | .cond s test yes (some no), h => by
    simp only [Stmt.callsObserved, Bool.and_eq_true] at h
    exact condElse_calm s yes no (Expr.shapes ho h.1.1) (stmt_calm ho yes h.1.2)
      (stmt_calm ho no h.2)
  | .each s var varSpan seq body, h => by
    simp only [Stmt.callsObserved, Bool.and_eq_true] at h
    exact each_calm ho s var varSpan body (Expr.shapes ho h.1) (stmt_calm ho body h.2)
  | .define s name params body, h => by
    simp only [Stmt.callsObserved] at h
    exact define_calm s name params body (stmt_calm ho body h)
  | .ret s values, h => by
    simp only [Stmt.callsObserved] at h
    rw [stmt]
    exact (StaysCalm.step s).bind fun _ => returnStmt_calm ho s h
  | .pass _, _ => by
    rw [stmt]
    exact StaysCalm.pure ()
  | .tagged s tags body, h => by
    simp only [Stmt.callsObserved, Bool.and_eq_true] at h
    exact tagged_calm ho s body h.1 (stmts_calm ho body h.2)

theorem stmts_calm (ho : o.ObservesCalls) :
    ∀ xs : List Stmt, Stmt.allObserved xs = true → StaysCalm o (stmts xs)
  | [], _ => by
    rw [stmts]
    exact StaysCalm.pure ()
  | x :: xs, h => by
    simp only [Stmt.allObserved, Bool.and_eq_true] at h
    rw [stmts]
    exact (stmt_calm ho x h.1).bind fun _ => stmts_calm ho xs h.2

end

theorem compileBody_writing (ho : o.ObservesCalls) (name : String) {body : List Stmt}
    (hb : Stmt.allObserved body = true) :
    Holds o (Shaping .calm []) (compileBody name body) fun root _ => root.Writing .calm := by
  unfold compileBody
  refine (Holds.beginFunction name _ true).bind fun _ => (stmts_calm ho body hb _).bind fun _ =>
    (StaysCalm.emitABC_plain _ (.inl (by decide)) _).bind fun _ => Holds.endFunction.bind
      fun root => ?_
  exact (Holds.pre (fun _ ⟨hs, hw⟩ => ⟨hw, hs⟩) (Holds.pure_and
    (Holds.leaves Resolver.WritesNothing.get.leaves))).bind fun _ => Holds.pure fun _ ⟨hw, _⟩ =>
      hw.congr rfl rfl rfl

/-- A script whose calls are all observed, compiled with calls and returns listened to, brackets
its calls in its chunk and in every chunk nested in it, when none has more event sites than a
`NOTIFY` can name. -/
theorem compile_bracketed (ho : o.ObservesCalls) {p : Program} {c : Chunk}
    (hp : p.callsObserved = true) (h : compile p o = .chunk c) (hn : c.SitesNamed) :
    c.Bracketed := by
  obtain ⟨body, hbody, r, hrun, -⟩ := compile_chunk_body h
  have hb : Stmt.allObserved body = true := by
    simpa [Program.callsObserved, hbody] using hp
  exact (compileBody_writing ho _ hb {} c r hrun ⟨.nil, fun _ _ h => nomatch h⟩).bracketed hn

end Programs

end Compiler

end ScriptMachine
