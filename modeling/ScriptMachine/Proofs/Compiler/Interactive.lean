import ScriptMachine.Proofs.Compiler.SingleSteps
import ScriptMachine.Machine.Natives
/-!
# Interactive mode compiles its echoes as calls

The mode is read by one step only: an expression statement outside every function body is, in
interactive mode, compiled as the call of the echo function `__print__` on its value. Every
other step compiles alike in both modes (`ModeBlind`, a closed class). Compiling a program
interactively is therefore compiling, as a script, the program whose expression statements
outside function bodies call the echo function (`compile_interactive`): the same chunk, the
same errors or the same fault.
-/

namespace ScriptMachine

namespace Syntax

def echoCall (e : Expr) : Expr := .call e.span (.ident e.span Compiler.echoName) [e]

mutual

/-- The statement a script runs in place of `x`: at the top level (`top`) an expression
statement becomes the call of the echo function on its value. Function bodies are not at the
top level and are kept as they are. -/
def Stmt.echoedAt : Bool → Stmt → Stmt
  | top, .eval s e => .eval s (if top then echoCall e else e)
  | _, .assign s targets values => .assign s targets values
  | top, .block s body => .block s (Stmt.echoedAllAt top body)
  | top, .cond s test yes none => .cond s test (yes.echoedAt top) none
  | top, .cond s test yes (some no) => .cond s test (yes.echoedAt top) (some (no.echoedAt top))
  | top, .loop s test body => .loop s test (body.echoedAt top)
  | top, .each s var varSpan seq body => .each s var varSpan seq (body.echoedAt top)
  | _, .define s name params body => .define s name params body
  | _, .ret s values => .ret s values
  | _, .pass s => .pass s
  | top, .tagged s tags body => .tagged s tags (Stmt.echoedAllAt top body)

/-- Statements in place of `xs`. -/
def Stmt.echoedAllAt : Bool → List Stmt → List Stmt
  | _, [] => []
  | top, x :: xs => x.echoedAt top :: Stmt.echoedAllAt top xs

end

def Program.echoed (p : Program) : Program :=
  { p with body := p.body.map (Stmt.echoedAllAt true) }

mutual

theorem Stmt.echoedAt_false : ∀ x : Stmt, x.echoedAt false = x
  | .eval _ _ | .assign .. | .define .. | .ret .. | .pass _ => rfl
  | .block s body => by rw [echoedAt, echoedAllAt_false body]
  | .cond s test yes none => by rw [echoedAt, echoedAt_false yes]
  | .cond s test yes (some no) => by rw [echoedAt, echoedAt_false yes, echoedAt_false no]
  | .loop s test body => by rw [echoedAt, echoedAt_false body]
  | .each s var varSpan seq body => by rw [echoedAt, echoedAt_false body]
  | .tagged s tags body => by rw [echoedAt, echoedAllAt_false body]

theorem Stmt.echoedAllAt_false : ∀ xs : List Stmt, Stmt.echoedAllAt false xs = xs
  | [] => rfl
  | x :: xs => by rw [echoedAllAt, echoedAt_false x, echoedAllAt_false xs]

end

theorem Stmt.span_echoedAt (top : Bool) : ∀ x : Stmt, (x.echoedAt top).span = x.span
  | .eval .. | .assign .. | .block .. | .cond _ _ _ none | .cond _ _ _ (some _) | .loop ..
  | .each .. | .define .. | .ret .. | .pass _ | .tagged .. => by cases top <;> rfl

theorem Stmt.echoedAllAt_eq_map (top : Bool) :
    ∀ xs : List Stmt, Stmt.echoedAllAt top xs = xs.map (Stmt.echoedAt top)
  | [] => rfl
  | x :: xs => by rw [echoedAllAt, List.map_cons, echoedAllAt_eq_map top xs]

theorem Stmt.blockSpan_echoedAllAt (top : Bool) (xs : List Stmt) :
    Stmt.blockSpan (Stmt.echoedAllAt top xs) = Stmt.blockSpan xs := by
  rw [Stmt.echoedAllAt_eq_map]
  cases xs with
  | nil => rfl
  | cons x rest =>
    simp only [List.map_cons, Stmt.blockSpan, span_echoedAt, List.getLast?_map,
      Option.getD_map]

end Syntax

namespace Compiler

open Bytecode Syntax

/-! ## Steps blind to the mode -/

def ModeBlind {α : Type} (act : GenM α) : Prop :=
  ∀ (o : Options) (m : Mode), act.run { o with mode := m } = act.run o

namespace ModeBlind

variable {α β : Type}

theorem bind {x : GenM α} {f : α → GenM β} (hx : ModeBlind x) (hf : ∀ a, ModeBlind (f a)) :
    ModeBlind (x >>= f) := by
  intro o m
  have hf' : ∀ a, (f a).run { o with mode := m } = (f a).run o := fun a => hf a o m
  simp only [ReaderT.run_bind, hx o m, hf']

theorem patch (pcs : List Nat) (t : Nat) : ModeBlind (patch pcs t) := by
  unfold Compiler.patch
  induction pcs with
  | nil => exact fun _ _ => rfl
  | cons pc rest ih =>
    refine bind (bind (fun _ _ => rfl) fun c => ?_) fun _ => ih
    split
    · exact fun _ _ => rfl
    · exact fun _ _ => rfl

theorem closed : Closed ModeBlind where
  bind := bind
  pure _ _ _ := rfl
  throw _ _ _ := rfl
  listening _ _ _ := rfl
  emit _ _ _ _ := rfl
  openJump _ _ _ _ _ := rfl
  patch := patch
  notify _ _ _ := rfl
  chunk _ _ := rfl
  inFunction _ _ := rfl
  find _ _ _ := rfl
  define _ _ _ := rfl
  alloc _ _ := rfl
  temps _ _ _ := rfl
  numberId _ _ _ := rfl
  textId _ _ _ := rfl
  report _ _ _ := rfl
  beginScope _ _ := rfl
  endScope _ _ := rfl

end ModeBlind

def Steady {α : Type} (act : GenM α) : Prop := ModeBlind act ∧ ∀ o, Quiet o act

theorem steady : Closed Steady := ModeBlind.closed.and (Closed.all fun _ => Quiet.closed)

/-! ## Which open functions are the top level -/

def Resolver.nesting (r : Resolver) : List Bool := r.frames.map Frame.module

theorem nesting_eq_of_sameSteps {fs fs' : List Frame} (h : List.Forall₂ Frame.SameSteps fs fs') :
    fs'.map Frame.module = fs.map Frame.module := by
  induction h with
  | nil => rfl
  | cons hf _ ih => rw [List.map_cons, List.map_cons, hf.2.2.2, ih]

section Nesting

variable {o : Options} {ns : List Bool}

theorem Quiet.nests {α : Type} {act : GenM α} (h : Quiet o act) :
    Holds o (fun r => r.nesting = ns) act fun _ r => r.nesting = ns :=
  fun r a r' hrun hr => (nesting_eq_of_sameSteps (h r a r' hrun)).trans hr

theorem step_nests (s : Span) :
    Holds o (fun r => r.nesting = ns) (step s) fun _ r => r.nesting = ns := by
  unfold Compiler.step
  refine Holds.listening_bind .singleStep fun _ _ =>
    Holds.ite (fun _ => ?_) fun _ => Holds.pure fun _ h => h
  refine Holds.frame.bind fun f => Holds.ite (fun _ => ?_) fun _ => Holds.pure fun _ h => h.1
  intro r a r' hrun hr
  obtain ⟨hs, fs, hf⟩ := hr
  rw [Triple.bind_run, Triple.liftM_run, Resolver.modifyFrame_run hf] at hrun
  rw [Triple.run_pure_bind, notify_run rfl] at hrun
  cases hrun
  rw [Resolver.nesting, hf] at hs
  exact hs

theorem beginFunction_nests (c : Chunk) (module : Bool) :
    Holds o (fun r => r.nesting = ns) (liftM (Resolver.beginFunction c module) : GenM Unit)
      fun _ r => r.nesting = module :: ns := by
  intro r a r' hrun hr
  cases hrun
  exact congrArg (module :: ·) hr

theorem endFunction_nests (b : Bool) :
    Holds o (fun r => r.nesting = b :: ns) (liftM Resolver.endFunction : GenM Chunk)
      fun _ r => r.nesting = ns := by
  intro r c r' hrun hr
  rw [Triple.liftM_run] at hrun
  cases hf : r.frames with
  | nil => simp [Resolver.endFunction, Resolver.frame_run_nil hf] at hrun
  | cons f fs =>
    simp only [Resolver.endFunction, StateT.run_bind, Resolver.frame_run hf, pure_bind] at hrun
    split at hrun
    · cases hrun
    · simp only [StateT.run_bind, StateT.run_modify, pure_bind, StateT.run_pure] at hrun
      cases hrun
      rw [Resolver.nesting, hf, List.map_cons, List.cons.injEq] at hr
      simp only [Resolver.nesting, hf, List.drop_succ_cons, List.drop_zero]
      exact hr.2

theorem modifyChunk_nests (g : Chunk → Chunk) :
    Holds o (fun r => r.nesting = ns) (liftM (Resolver.modifyChunk g) : GenM Unit)
      fun _ r => r.nesting = ns := by
  intro r a r' hrun hr
  rw [Triple.liftM_run] at hrun
  cases hf : r.frames with
  | nil => rw [Resolver.modifyChunk, Resolver.modifyFrame_run_nil hf] at hrun; cases hrun
  | cons f fs =>
    rw [Resolver.modifyChunk_run hf] at hrun
    cases hrun
    rw [Resolver.nesting, hf] at hr
    exact hr

theorem inFunction_run {top : Bool} {r : Resolver} (hr : r.nesting = top :: ns) :
    ((liftM Resolver.inFunction : GenM Bool).run o).run r = .ok (!top, r) := by
  cases hf : r.frames with
  | nil => rw [Resolver.nesting, hf] at hr; cases hr
  | cons f fs =>
    rw [Resolver.nesting, hf, List.map_cons, List.cons.injEq] at hr
    obtain ⟨rfl, -⟩ := hr
    simp only [Triple.liftM_run, Resolver.inFunction, StateT.run_bind, Resolver.frame_run hf]
    rfl

end Nesting

theorem step_modeBlind (s : Span) : ModeBlind (step s) := by
  unfold Compiler.step
  refine ModeBlind.closed.listening_bind _ fun _ =>
    ModeBlind.closed.ite (fun _ => ?_) fun _ => ModeBlind.closed.pure _
  refine ModeBlind.bind (fun _ _ => rfl) fun f =>
    ModeBlind.closed.ite (fun _ => ?_) fun _ => ModeBlind.closed.pure _
  exact ModeBlind.bind (fun _ _ => rfl) fun _ _ _ => rfl

/-! ## Compiling in the two modes -/

/-- Compiled interactively and as a script from a resolver whose open functions are nested as
`ns`, the steps `act₁` and `act₂` give the same outcome, after which the functions are nested
as `ns'`. -/
structure Echoes {α : Type} (o : Options) (ns ns' : List Bool) (act₁ act₂ : GenM α) : Prop where
  same : ∀ r, r.nesting = ns →
    (act₁.run { o with mode := .interactive }).run r = (act₂.run { o with mode := .script }).run r
  nests : Holds { o with mode := .interactive } (fun r => r.nesting = ns) act₁
    fun _ r => r.nesting = ns'

namespace Echoes

variable {α β : Type} {o : Options} {ns ns' ns'' : List Bool}

theorem bind {x₁ x₂ : GenM α} {f₁ f₂ : α → GenM β} (hx : Echoes o ns ns' x₁ x₂)
    (hf : ∀ a, Echoes o ns' ns'' (f₁ a) (f₂ a)) : Echoes o ns ns'' (x₁ >>= f₁) (x₂ >>= f₂) where
  same r hr := by
    rw [Triple.bind_run, Triple.bind_run, ← hx.same r hr]
    cases h : (x₁.run { o with mode := .interactive }).run r with
    | error e => rfl
    | ok p => exact (hf p.1).same p.2 (hx.nests r p.1 p.2 h hr)
  nests := hx.nests.bind fun a => (hf a).nests

theorem steady {act : GenM α} (h : Steady act) : Echoes o ns ns act act where
  same r _ := by rw [h.1 o .interactive, h.1 o .script]
  nests := (h.2 _).nests

theorem step (s : Span) : Echoes o ns ns (step s) (step s) where
  same _ _ := by rw [step_modeBlind s o .interactive, step_modeBlind s o .script]
  nests := step_nests s

theorem read {f₁ f₂ : Options → GenM α}
    (h : Echoes o ns ns' (f₁ { o with mode := .interactive }) (f₂ { o with mode := .script })) :
    Echoes o ns ns' (MonadReader.read >>= f₁) (MonadReader.read >>= f₂) where
  same r hr := h.same r hr
  nests r a r' hrun hr := h.nests r a r' hrun hr

theorem inFunction_bind {top : Bool} {f₁ f₂ : Bool → GenM β}
    (h : Echoes o (top :: ns) ns' (f₁ !top) (f₂ !top)) :
    Echoes o (top :: ns) ns' (liftM Resolver.inFunction >>= f₁)
      (liftM Resolver.inFunction >>= f₂) where
  same r hr := by
    rw [Triple.bind_run, Triple.bind_run, inFunction_run hr, inFunction_run hr]
    exact h.same r hr
  nests r a r' hrun hr := by
    rw [Triple.bind_run, inFunction_run hr] at hrun
    exact h.nests r a r' hrun hr

theorem ite {c : Prop} [Decidable c] {a₁ a₂ b₁ b₂ : GenM α} (ha : c → Echoes o ns ns' a₁ a₂)
    (hb : ¬c → Echoes o ns ns' b₁ b₂) :
    Echoes o ns ns' (if c then a₁ else b₁) (if c then a₂ else b₂) := by
  by_cases hc : c
  · rw [if_pos hc, if_pos hc]
    exact ha hc
  · rw [if_neg hc, if_neg hc]
    exact hb hc

theorem resolver {act : StateT Resolver (Except Fault) α}
    (h : Holds { o with mode := .interactive } (fun r => r.nesting = ns) (liftM act : GenM α)
      fun _ r => r.nesting = ns') :
    Echoes o ns ns' (liftM act) (liftM act) where
  same _ _ := rfl
  nests := h

theorem get : Echoes o ns ns (MonadState.get : GenM Resolver) MonadState.get where
  same _ _ := rfl
  nests r a r' hrun hr := by
    cases hrun
    exact hr

end Echoes

theorem evalStmt_echoes (o : Options) (top : Bool) (ns : List Bool) (e : Expr) :
    Echoes o (top :: ns) (top :: ns) (evalStmt e) (evalStmt (if top then echoCall e else e)) := by
  unfold evalStmt
  refine (Echoes.steady steady.beginScope).bind fun _ => Echoes.bind ?_ fun _ =>
    (Echoes.steady steady.endScope).bind fun _ => Echoes.steady (steady.pure _)
  refine Echoes.read (Echoes.inFunction_bind ?_)
  cases top
  · exact Echoes.steady (steady.bind steady.temp fun t => (steady.gen_uses e).into t)
  · have hargs : ∀ c ∈ [gen e], c.Uses Steady := fun c hc => by
      rw [List.mem_singleton] at hc
      exact hc ▸ steady.gen_uses e
    exact Echoes.steady (steady.bind steady.temp fun t =>
      steady.callInto _ _ (steady.gen_uses _) hargs t)

theorem define_echoes (o : Options) (top : Bool) (ns : List Bool) (s : Span) (name : String)
    (params : List String) (body : Stmt)
    (hbody : Echoes o (false :: top :: ns) (false :: top :: ns) (stmt body) (stmt body)) :
    Echoes o (top :: ns) (top :: ns) (stmt (.define s name params body))
      (stmt (.define s name params body)) := by
  rw [stmt]
  refine (Echoes.step s).bind fun _ => (Echoes.resolver (beginFunction_nests _ false)).bind
    fun _ => (Echoes.steady (steady.declareLocals params body)).bind fun _ => hbody.bind fun _ => ?_
  refine (Echoes.steady (steady.emitABC _ _ _ _ _)).bind fun _ =>
    (Echoes.resolver (endFunction_nests false)).bind fun _ => ?_
  exact (Echoes.steady steady.chunk).bind fun _ => (Echoes.resolver (modifyChunk_nests _)).bind
    fun _ => Echoes.steady (steady.bindFunction s name _)

mutual

theorem stmt_echoes (o : Options) : ∀ (x : Stmt) (top : Bool) (ns : List Bool),
    Echoes o (top :: ns) (top :: ns) (stmt x) (stmt (x.echoedAt top))
  | .block _ body, top, ns => by
    rw [Stmt.echoedAt, stmt, stmt]
    exact stmts_echoes o body top ns
  | .loop s test body, top, ns => by
    rw [Stmt.echoedAt, stmt, stmt]
    exact (Echoes.steady steady.here).bind fun _ => (Echoes.step s).bind fun _ =>
      (Echoes.steady ((steady.gen_uses test).branch false)).bind fun _ =>
        (stmt_echoes o body top ns).bind fun _ => (Echoes.steady (steady.jump s)).bind fun _ =>
          (Echoes.steady (steady.patch _ _)).bind fun _ => Echoes.steady (steady.patchHere _)
  | .eval s e, top, ns => by
    rw [Stmt.echoedAt, stmt, stmt]
    exact (Echoes.step s).bind fun _ => evalStmt_echoes o top ns e
  | .assign s targets values, top, ns => by
    rw [Stmt.echoedAt, stmt]
    exact (Echoes.step s).bind fun _ => Echoes.steady (steady.assign s targets values)
  | .cond s test yes none, top, ns => by
    rw [Stmt.echoedAt, stmt, stmt]
    exact (Echoes.step s).bind fun _ =>
      (Echoes.steady ((steady.gen_uses test).branch false)).bind fun _ =>
        (stmt_echoes o yes top ns).bind fun _ => Echoes.steady (steady.patchHere _)
  | .cond s test yes (some no), top, ns => by
    rw [Stmt.echoedAt, stmt, stmt]
    exact (Echoes.step s).bind fun _ =>
      (Echoes.steady ((steady.gen_uses test).branch false)).bind fun _ =>
        (stmt_echoes o yes top ns).bind fun _ => (Echoes.steady (steady.jump s)).bind fun _ =>
          (Echoes.steady (steady.patchHere _)).bind fun _ =>
            (stmt_echoes o no top ns).bind fun _ => Echoes.steady (steady.patchHere _)
  | .each s var varSpan seq body, top, ns => by
    rw [Stmt.echoedAt, stmt, stmt]
    refine (Echoes.step s).bind fun _ => (Echoes.steady steady.beginScope).bind fun _ =>
      Echoes.bind ?_ fun _ => (Echoes.steady steady.endScope).bind fun _ =>
        Echoes.steady (steady.pure _)
    refine (Echoes.steady (steady.temps 3)).bind fun base =>
      (Echoes.steady (steady.inScope ((steady.gen_uses seq).into base))).bind fun _ =>
        (Echoes.steady (steady.openJump _ _ s)).bind fun _ =>
          (Echoes.steady steady.here).bind fun _ => ?_
    exact (Echoes.steady (steady.store _ _ varSpan)).bind fun _ =>
      (stmt_echoes o body top ns).bind fun _ => (Echoes.steady (steady.openJump _ _ s)).bind
        fun _ => (Echoes.steady (steady.patch _ _)).bind fun _ => Echoes.steady (steady.patch _ _)
  | .define s name params body, top, ns => by
    rw [Stmt.echoedAt]
    have hbody := stmt_echoes o body false (top :: ns)
    rw [Stmt.echoedAt_false] at hbody
    exact define_echoes o top ns s name params body hbody
  | .ret s values, top, ns => by
    rw [Stmt.echoedAt, stmt]
    exact (Echoes.step s).bind fun _ => Echoes.steady (steady.returnStmt s values)
  | .pass _, top, ns => by
    rw [Stmt.echoedAt, stmt]
    exact Echoes.steady (steady.pure _)
  | .tagged s tags body, top, ns => by
    rw [Stmt.echoedAt, stmt, stmt]
    refine (Echoes.step s).bind fun _ => (Echoes.steady (steady.listening _)).bind fun _ => ?_
    refine Echoes.ite (fun _ => ?_) fun _ =>
      (stmts_echoes o body top ns).bind fun _ => Echoes.steady (steady.tagExit s tags)
    exact (Echoes.steady (steady.notify_kind (k := .vtagEntered) rfl (by decide))).bind fun _ =>
      (stmts_echoes o body top ns).bind fun _ => Echoes.steady (steady.tagExit s tags)

theorem stmts_echoes (o : Options) : ∀ (xs : List Stmt) (top : Bool) (ns : List Bool),
    Echoes o (top :: ns) (top :: ns) (stmts xs) (stmts (Stmt.echoedAllAt top xs))
  | [], top, ns => by
    rw [Stmt.echoedAllAt, stmts]
    exact Echoes.steady (steady.pure _)
  | x :: xs, top, ns => by
    rw [Stmt.echoedAllAt, stmts, stmts]
    exact (stmt_echoes o x top ns).bind fun _ => stmts_echoes o xs top ns

end

theorem compileBody_echoes (o : Options) (name : String) (body : List Stmt) :
    Echoes o [] [] (compileBody name body) (compileBody name (Stmt.echoedAllAt true body)) := by
  unfold compileBody
  rw [Stmt.blockSpan_echoedAllAt]
  refine (Echoes.resolver (beginFunction_nests _ true)).bind fun _ =>
    (stmts_echoes o body true []).bind fun _ => ?_
  exact (Echoes.steady (steady.emitABC _ _ _ _ _)).bind fun _ =>
    (Echoes.resolver (endFunction_nests true)).bind fun _ =>
      Echoes.get.bind fun _ => Echoes.steady (steady.pure _)

/-- Compiling a program interactively gives what compiling its echoed program as a script
gives: the same chunk, the same errors or the same fault. -/
theorem compile_interactive (p : Program) (o : Options) :
    compile p { o with mode := .interactive } = compile p.echoed { o with mode := .script } := by
  cases hb : p.body with
  | none => simp only [compile, Program.echoed, hb, Option.map_none]
  | some body =>
    have h := (compileBody_echoes o (if p.name == "" then "<module>" else p.name) body).same {} rfl
    simp only [compile, Program.echoed, hb, Option.map_some, h]

theorem callNative_echo_none {α : Type} (m : Machine α) :
    m.callNative echoName #[.none] = .ok (.none, m) := rfl

theorem callNative_echo {α : Type} (m : Machine α) {v : Value} (hv : v ≠ .none) :
    m.callNative echoName #[v] = .ok (.none, m.print (m.heap.repr v ++ "\n")) := by
  cases v with
  | none => exact absurd rfl hv
  | bool _ | num _ | str _ | range _ | builtin _ | ref _ => rfl

/-- Interactive mode only adds echo calls: compiling a program interactively gives what
compiling, as a script, the program whose top-level expression statements call the echo function
on their values gives. The echo function's name is internal, so its calls have no call or return
site; it writes the display form and a newline of every value but `None`, and returns `None`. -/
theorem interactive_compiles_echo_calls {α : Type} (p : Program) (o : Options) :
    compile p { o with mode := .interactive } = compile p.echoed { o with mode := .script } ∧
      isInternalName echoName = true ∧
      (∀ m : Machine α, m.callNative echoName #[.none] = .ok (.none, m)) ∧
      ∀ (m : Machine α) (v : Value), v ≠ .none →
        m.callNative echoName #[v] = .ok (.none, m.print (m.heap.repr v ++ "\n")) :=
  ⟨compile_interactive p o, by decide +kernel, callNative_echo_none,
    fun m _ hv => callNative_echo m hv⟩

theorem interactive_compiles_echo_calls_true :
    (Machine.callNative ({} : Machine Unit) echoName #[.bool true]) =
      .ok (.none, ({} : Machine Unit).print (Heap.repr {} (.bool true) ++ "\n")) :=
  (interactive_compiles_echo_calls ⟨"m", none⟩ {}).2.2.2 {} (.bool true) (by simp)

def wideDisplay : List Stmt :=
  [.eval ⟨⟨1, 0⟩, ⟨1, 4⟩⟩ (.list ⟨⟨1, 0⟩, ⟨1, 4⟩⟩ (List.replicate 248 (.nil ⟨⟨1, 0⟩, ⟨1, 4⟩⟩)))]

/-- The echo takes registers of its own: a display that fits the registers of a script passes
the limit once its callee and argument registers are open, so interactively it does not compile. -/
theorem wideDisplay_echo_overflows :
    (∃ c, compile ⟨"m", some wideDisplay⟩ {} = .chunk c) ∧
      ∃ d ds, compile ⟨"m", some wideDisplay⟩ { mode := .interactive } = .errors d ds ∧
        d.message = .tooManyRegisters := by
  have hname : (if ("m" == "") = true then "<module>" else "m") = "m" := rfl
  have hs : (((compileBody "m" wideDisplay).run {}).run {}).toOption.map
      (fun p => p.2.reports.size) = some 0 := by decide +kernel
  have hi : (((compileBody "m" wideDisplay).run { mode := .interactive }).run {}).toOption.map
      (fun p => p.2.reports[0]?.map Diagnostic.message) = some (some .tooManyRegisters) := by
    decide +kernel
  constructor
  · cases hrun : ((compileBody "m" wideDisplay).run {}).run {} with
    | error f => rw [hrun] at hs; cases hs
    | ok p =>
      obtain ⟨root, r⟩ := p
      have hclean : r.reports = #[] := by
        rw [hrun] at hs
        exact Array.eq_empty_of_size_eq_zero (Option.some.inj hs)
      have hwf := (compileBody_chunk hrun hclean).1
      exact ⟨root, by simp only [compile, hname, hrun, hclean, hwf.validate_eq_none]; rfl⟩
  · cases hrun : ((compileBody "m" wideDisplay).run { mode := .interactive }).run {} with
    | error f => rw [hrun] at hi; cases hi
    | ok p =>
      obtain ⟨root, r⟩ := p
      rw [hrun] at hi
      cases hd : r.reports[0]? with
      | none => simp [Except.toOption, hd] at hi
      | some d =>
        refine ⟨d, r.reports, by simp only [compile, hname, hrun, hd], ?_⟩
        simpa [Except.toOption, hd] using hi

end Compiler

end ScriptMachine
