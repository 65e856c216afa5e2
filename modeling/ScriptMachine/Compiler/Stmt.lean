import ScriptMachine.Compiler.Expr
/-!
# Compiling statements and programs

`compile` turns a program into the chunk of its top level, with the chunks of its functions
nested inside. Statements compile in order into the current function; each statement but a
block, a loop or `pass` is preceded by a single-step site when single steps are observed. At the
top level names are globals; inside a function every parameter and every name the body assigns
is a register for the whole function, and other names are captured or global.
-/

namespace ScriptMachine.Compiler

open Bytecode Text Syntax

/-- Stores the operand `src` into an assignment target: a variable or an element. -/
def store (target : Expr) (src : Nat) (s : Span) : GenM Unit := do
  match target with
  | .ident _ name =>
    let v ← targetOf name s
    if v.place == .register then
      if src ≥ registerLimit then loadK v.index src s
      else if src != v.index then emitABC .move v.index src 0 s
      notifyAssign s name 1 v.index
    else
      let r ← inRegister src s
      emitABx .setGlobal r v.index s
      notifyAssign s name 0 r
  | .index _ container key =>
    inScope do
      let c ← (gen container).register
      let k ← (gen key).operand
      emitABC .setElem c k src s
      let name := container.nameOf
      if name != "" && (← listening .subscriptAssignment) then
        let storage ← storageOf name
        notify { kind := Kind.subscriptAssignment.code, span := s, name := name,
                 storage := storage, key := k, value := src }
  | _ => errorAt target.span .invalidAssignTarget [.text target.describe]

/-- One value into one target; a local variable receives the value directly. -/
def assignSingle (target value : Expr) (s : Span) : GenM Unit := do
  match target with
  | .ident _ name =>
    let v ← targetOf name s
    if v.place == .register then
      (gen value).into v.index
      notifyAssign s name 1 v.index
    else store target (← (gen value).operand) s
  | .index .. => store target (← (gen value).operand) s
  | _ => errorAt target.span .invalidAssignTarget [.text target.describe]

/-- An assignment: one to one, several values packed into a tuple for one target, one value
unpacked by position over several targets, or pairwise for equal counts (all values first). -/
def assign (s : Span) (targets values : List Expr) : GenM Unit :=
  inScope do
    let nt := targets.length
    let nv := values.length
    match targets, values with
    | [t], [v] => assignSingle t v s
    | _, _ =>
      if nt == 1 && nv > 1 then
        let t ← temp
        sequenceInto .newTuple (genAll values) t s
        store (targets.headD default) t s
      else if nt > 1 && nv == 1 then
        let src ← temp
        (gen (values.headD default)).into src
        targets.zipIdx.forM fun (target, i) => inScope do
          let elem ← temp
          let key ← rk (← Resolver.numberId (Float.ofNat i)) s
          emitABC .getElem elem src key s
          store target elem s
      else if nt == nv then
        let base ← Resolver.temps nv
        values.zipIdx.forM fun (v, i) => inScope ((gen v).into (base + i))
        targets.zipIdx.forM fun (target, i) => store target (base + i) s
      else errorAt s .assignCount [.int nv, .int nt]

/-- An expression statement; at the top level of an interactive program its value is echoed. -/
def evalStmt (e : Expr) : GenM Unit :=
  inScope do
    if (← read).mode == .interactive && !(← Resolver.inFunction) then
      let s := e.span
      let t ← temp
      callInto s echoName (gen (.ident s echoName)) [gen e] t
    else (gen e).into (← temp)

/-- A return: nothing, one value, or several packed into a tuple. -/
def returnStmt (s : Span) (values : List Expr) : GenM Unit := do
  if !(← Resolver.inFunction) then errorAt s .returnOutsideFunction []
  else
    inScope do
      match values with
      | [] => emitABC .ret 0 0 0 s
      | [v] => emitABC .ret (← (gen v).register) 1 0 s
      | _ =>
        let t ← temp
        sequenceInto .newTuple (genAll values) t s
        emitABC .ret t 1 0 s

/-- The descriptions of a region's tags; with `values`, each argument is paired with the
operand holding its value, in order. -/
def tagDescs (tags : List Tag) (values : Option (List Nat)) : Array TagDesc :=
  let step (acc : Array TagDesc × List Nat) (t : Tag) : Array TagDesc × List Nat :=
    let n := t.args.length
    let vals := match values with
      | some _ => (acc.2.take n).map Int.ofNat
      | none => []
    (acc.1.push { name := t.name, args := (t.args.map (·.1)).toArray, values := vals.toArray },
     acc.2.drop n)
  (tags.foldl step (#[], values.getD [])).1

/-- The event site at the exit of a tagged region, with the values of the tags' arguments. -/
def tagExit (s : Span) (tags : List Tag) : GenM Unit := do
  if ← listening .vtagExited then
    inScope do
      let args := tags.flatMap (·.args)
      let values ← args.mapM fun (_, e) => do
        let r ← temp
        inScope ((gen e).into r)
        pure r
      notify { kind := Kind.vtagExited.code, span := s, tags := tagDescs tags (some values) }

def declareLocals (params : List String) (body : Stmt) : GenM Unit := do
  params.forM fun p => do let _ ← Resolver.define p
  (firstOccurrences (assignedIn body)).forM fun name => do
    if !params.contains name then
      let _ ← Resolver.define name

/-- Binds a compiled function (the nested chunk at `idx`) to its name. -/
def bindFunction (s : Span) (name : String) (idx : Nat) : GenM Unit :=
  inScope do
    let v ← targetOf name s
    if v.place == .register then emitABx .closure v.index idx s
    else
      let t ← temp
      emitABx .closure t idx s
      emitABx .setGlobal t v.index s

mutual

def stmt : Stmt → GenM Unit
  | .block _ body => stmts body
  | .loop s test body => do
    let start ← here
    step s
    let exit ← (gen test).branch false
    stmt body
    let back ← jump s
    patch [back] start
    patchHere exit
  | .eval s e => do
    step s
    evalStmt e
  | .assign s targets values => do
    step s
    assign s targets values
  | .cond s test yes none => do
    step s
    let skip ← (gen test).branch false
    stmt yes
    patchHere skip
  | .cond s test yes (some no) => do
    step s
    let skip ← (gen test).branch false
    stmt yes
    let exit ← jump s
    patchHere skip
    stmt no
    patchHere [exit]
  | .each s var varSpan seq body => do
    step s
    inScope do
      let base ← Resolver.temps 3
      inScope ((gen seq).into base)
      let prep ← openJump .forPrep base s
      let bodyPc ← here
      store (.ident varSpan var) (base + 2) varSpan
      stmt body
      let loop ← openJump .forLoop base s
      patch [loop] bodyPc
      patch [prep] loop
  | .define s name params body => do
    step s
    Resolver.beginFunction { name := name, params := params.length } false
    declareLocals params body
    stmt body
    emitABC .ret 0 0 0 (endOf body.span)
    let proto ← Resolver.endFunction
    let idx := (← Resolver.chunk).protos.size
    Resolver.modifyChunk fun c => { c with protos := c.protos.push proto }
    bindFunction s name idx
  | .ret s values => do
    step s
    returnStmt s values
  | .pass _ => pure ()
  | .tagged s tags body => do
    step s
    if ← listening .vtagEntered then
      notify { kind := Kind.vtagEntered.code, span := s, tags := tagDescs tags none }
    stmts body
    tagExit s tags

def stmts : List Stmt → GenM Unit
  | [] => pure ()
  | x :: xs => do
    stmt x
    stmts xs

end

/-- What compiling a program gives: its chunk, or the compile errors reported (the first one
decides), or a fault. -/
inductive Compiled where
  | chunk (c : Chunk)
  | errors (first : Diagnostic) (all : Array Diagnostic)
  | fault (f : Fault)
  deriving Inhabited

/-- The top level of a program, compiled: the chunk with its global table, or the reports. -/
def compileBody (name : String) (body : List Stmt) : GenM Chunk := do
  Resolver.beginFunction { name := name } true
  stmts body
  emitABC .ret 0 0 0 (endOf (Stmt.blockSpan body))
  let root ← Resolver.endFunction
  pure { root with globals := (← get).globals }

/-- Compiles a program. An unnamed program is called `<module>`; a program without a body is
an error. A chunk that fails its own validation is a fault. -/
def compile (p : Program) (opts : Options) : Compiled :=
  match p.body with
  | none =>
    let d : Diagnostic :=
      { reporter := Reporter.compiler, severity := .error, message := .emptyProgram }
    .errors d #[d]
  | some body =>
    let name := if p.name == "" then "<module>" else p.name
    match ((compileBody name body).run opts).run {} with
    | .error f => .fault f
    | .ok (root, r) =>
      match r.reports[0]? with
      | some d => .errors d r.reports
      | none =>
        match root.validate with
        | some e => .fault (.internal Span.empty e)
        | none => .chunk root

end ScriptMachine.Compiler
