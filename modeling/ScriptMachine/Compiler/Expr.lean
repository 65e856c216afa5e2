import ScriptMachine.Compiler.Emit
import ScriptMachine.Syntax.Tree
import ScriptMachine.Syntax.Operator
/-!
# Compiling expressions

Each expression compiles to a `Code`: the ways the rest of the compiler can use it. It can put
its value into a given register, yield an operand (a small constant's id, the register of a
local variable, or a fresh register holding the value), or branch on its truth value, giving the
jumps taken when the value is the one asked for and falling through otherwise.

`gen` builds the `Code` of an expression from the codes of its parts, one builder per kind of
expression. Comparisons and boolean operators branch without computing a truth value; negation
branches by flipping the sense, unless unary operations are observed.
-/

namespace ScriptMachine.Compiler

open Bytecode Text Syntax

structure Code where
  span : Span
  /-- Compiles the value into a register. -/
  into : Nat → GenM Unit
  /-- Compiles the value as an operand: a constant id or a register. -/
  operand : GenM Nat
  /-- Compiles a branch on the truth value, returning the jumps taken when it equals the
  given sense. -/
  branch : Bool → GenM (List Nat)

def freshWith (into : Nat → GenM Unit) : GenM Nat := do
  let t ← temp
  into t
  pure t

def registerOf (s : Span) (operand : GenM Nat) : GenM Nat := do
  let id ← operand
  inRegister id s

def testBranch (s : Span) (operand : GenM Nat) (sense : Bool) : GenM (List Nat) :=
  inScope do
    let r ← registerOf s operand
    emitABC .test r (if sense then 1 else 0) 0 s
    pure [← jump s]

def Code.ofInto (s : Span) (into : Nat → GenM Unit) : Code :=
  { span := s, into := into, operand := freshWith into,
    branch := testBranch s (freshWith into) }

namespace Code

def register (c : Code) : GenM Nat := registerOf c.span c.operand

end Code

def constantCode (s : Span) (id : GenM Nat) : Code :=
  let operand : GenM Nat := do rk (← id) s
  { span := s, into := fun dst => do loadK dst (← id) s, operand := operand,
    branch := testBranch s operand }

def nilCode (s : Span) : Code := Code.ofInto s fun dst => emitABC .loadNil dst 1 0 s

def boolCode (s : Span) (b : Bool) : Code :=
  { Code.ofInto s (fun dst => emitABC .loadBool dst (if b then 1 else 0) 0 s) with
    branch := fun sense => if b == sense then do pure [← jump s] else pure [] }

def readInto (s : Span) (name : String) (dst : Nat) : GenM Unit := do
  let v ← Resolver.find name
  match v.place with
  | .register => if v.index != dst then emitABC .move dst v.index 0 s
  | .capture => emitABC .getUpval dst v.index 0 s
  | .global => emitABx .getGlobal dst v.index s

def identCode (s : Span) (name : String) : Code :=
  let operand : GenM Nat := do
    let v ← Resolver.find name
    if v.place == .register then pure v.index else freshWith (readInto s name)
  { span := s, into := readInto s name, operand := operand, branch := testBranch s operand }

def arithOpcode? (op : Int) : Option Op :=
  match op with
  | 0 => some .add
  | 1 => some .sub
  | 2 => some .mul
  | 3 => some .div
  | 4 => some .floorDiv
  | 5 => some .pow
  | 6 => some .mod
  | _ => none

/-- `left op right`. When binary operations are observed, the result goes through a register
distinct from both operands, so that the event can still read them. -/
def binaryCode (s : Span) (op : Int) (leftName rightName : String) (left right : Code) :
    Code :=
  Code.ofInto s fun dst => do
    match arithOpcode? op with
    | none =>
      throw (.internal s ("unmapped binary operator " ++ shownName 'v' (binaryName op)))
    | some opc =>
      inScope do
        let l ← left.operand
        let r ← right.operand
        if !(← listening .binary) then emitABC opc dst l r s
        else
          let out ← if dst == l || dst == r then temp else pure dst
          emitABC opc out l r s
          notify { kind := Kind.binary.code, span := s, op := op, left := l,
                   leftName := leftName, right := r, rightName := rightName, result := out }
          if out != dst then emitABC .move dst out 0 s

/-- `op operand`. Unary plus adds the operand to zero. -/
def unaryInto (s : Span) (op : Int) (operandName : String) (operand : Code) (dst : Nat) :
    GenM Unit :=
  inScope do
    let x ← operand.operand
    let observed ← listening .unary
    let out ← if observed && dst == x then temp else pure dst
    match op with
    | 0 =>
      let zeroId ← rk (← Resolver.numberId 0) s
      emitABC .add out zeroId x s
    | 1 => emitABC .unm out x 0 s
    | 2 => emitABC .not out x 0 s
    | _ => throw (.internal s ("unmapped unary operator " ++ shownName 'v' (unaryName op)))
    if observed then
      notify { kind := Kind.unary.code, span := s, op := op, left := x,
               leftName := operandName, result := out }
    if out != dst then emitABC .move dst out 0 s

/-- A unary operation; negation branches on its operand with the sense flipped when unary
operations are not observed. -/
def unaryCode (s : Span) (op : Int) (operandName : String) (operand : Code) : Code :=
  let base := Code.ofInto s (unaryInto s op operandName operand)
  { base with
    branch := fun sense => do
      if op == 2 && !(← listening .unary) then operand.branch (!sense)
      else base.branch sense }

def emptyLogic (s : Span) (op : Int) : Fault := .internal s (booleanName op ++ " with no operands")

def unknownLogic (s : Span) (op : Int) : Fault :=
  .internal s ("unmapped boolean operator " ++ booleanName op)

/-- Evaluates operands into one register until one decides the result: for `or` (code 1) the
first truthy one, for `and` (code 0) the first falsy one, else the last. -/
def logicInto (s : Span) (op : Int) (operands : List Code) (dst : Nat) : GenM Unit := do
  let sense ← if op == 1 then pure 1 else if op == 0 then pure 0 else throw (unknownLogic s op)
  if operands.isEmpty then throw (emptyLogic s op)
  inScope do
    let t ← temp
    let last := operands.length - 1
    let done ← operands.zipIdx.foldlM (fun (done : List Nat) (x, i) => do
      inScope (x.into t)
      if i < last then
        emitABC .test t sense 0 x.span
        pure (done ++ [← jump x.span])
      else pure done) []
    patchHere done
    if t != dst then emitABC .move dst t 0 s

/-- Branches on a chain of operands joined by `and` (code 0) or `or` (code 1). When every
operand can decide the branch on its own (`or` asked for truth, `and` asked for falsity) each
branches out directly; otherwise all but the last skip past the chain when they decide the
opposite. -/
def logicBranch (s : Span) (op : Int) (operands : List Code) (sense : Bool) :
    GenM (List Nat) := do
  if operands.isEmpty then throw (emptyLogic s op)
  let decides ← if op == 0 then pure !sense else if op == 1 then pure sense
    else throw (unknownLogic s op)
  if decides then
    operands.foldlM (fun (out : List Nat) x => do pure (out ++ (← x.branch sense))) []
  else
    let last := operands.length - 1
    let (fall, out) ← operands.zipIdx.foldlM
      (fun (acc : List Nat × List Nat) (x, i) => do
        if i < last then pure (acc.1 ++ (← x.branch (!sense)), acc.2)
        else pure (acc.1, acc.2 ++ (← x.branch sense))) ([], [])
    patchHere fall
    pure out

def logicCode (s : Span) (op : Int) (operands : List Code) : Code :=
  { Code.ofInto s (logicInto s op operands) with branch := logicBranch s op operands }

/-- The opcode of a comparison code, and the opcode's result when the comparison holds. -/
def compareOpcode? (op : Int) : Option (Op × Bool) :=
  match op with
  | 0 => some (.lt, true)
  | 1 => some (.le, false)
  | 2 => some (.le, true)
  | 3 => some (.lt, false)
  | 4 => some (.eq, true)
  | 5 => some (.eq, false)
  | 6 => some (.isIn, true)
  | _ => none

/-- The state of a comparison chain while its links are compiled: the left operand and its
name, the jumps past the chain and the jumps out of it. -/
structure ChainState where
  left : Nat
  leftName : String
  fall : List Nat := []
  out : List Nat := []

/-- One link of a comparison chain, after the links before it: its right operand, its event site
when comparisons are observed, its test and the jump the test may skip. The last link jumps out
when the chain's value is the sense asked for; the others jump out, or past the chain, when the
link fails, and pass their right operand on as the next link's left one. -/
def compareLink (s : Span) (sense : Bool) (last : Nat) (st : ChainState)
    (link : (Int × (Code × String)) × Nat) : GenM ChainState := do
  let ((op, (right, rightName)), i) := link
  let (opc, check) ← match compareOpcode? op with
    | some p => pure p
    | none => throw (.internal s
        ("unmapped comparison operator " ++ shownName 'v' (comparisonName op)))
  let r ← right.operand
  if ← listening .comparison then
    notify { kind := Kind.comparison.code, span := s, op := op, left := st.left,
             leftName := st.leftName, right := r, rightName := rightName }
  if i == last then
    emitABC opc (if check == sense then 1 else 0) st.left r s
    let j ← jump s
    pure { st with out := st.out ++ [j] }
  else
    emitABC opc (if !check then 1 else 0) st.left r s
    let j ← jump s
    let st := if sense then { st with fall := st.fall ++ [j] }
      else { st with out := st.out ++ [j] }
    pure { st with left := r, leftName := rightName }

/-- Branches on a comparison chain: each link tests its pair and jumps, the last one out when
the chain's value is the sense asked for, the others out or past the chain when the link
fails. -/
def compareBranch (s : Span) (first : Code) (firstName : String) (ops : List Int)
    (rest : List (Code × String)) (sense : Bool) : GenM (List Nat) := do
  if ops.length == 0 || ops.length != rest.length then
    throw (.internal s s!"comparison with {ops.length} operators and {rest.length} operands")
  inScope do
    let start : ChainState := { left := ← first.operand, leftName := firstName }
    let st ← ((ops.zip rest).zipIdx).foldlM (compareLink s sense (ops.length - 1)) start
    patchHere st.fall
    pure st.out

/-- A comparison chain; its value is computed by branching on it. -/
def compareCode (s : Span) (first : Code) (firstName : String) (ops : List Int)
    (rest : List (Code × String)) : Code :=
  let branch := compareBranch s first firstName ops rest
  { Code.ofInto s (fun dst => do
      let isFalse ← branch false
      emitABC .loadBool dst 1 1 s
      patchHere isFalse
      emitABC .loadBool dst 0 0 s) with branch := branch }

/-- A list or tuple display built by `op` from consecutive registers. More elements than one
instruction can take are reported, and nothing is compiled. -/
def sequenceInto (op : Op) (items : List Code) (dst : Nat) (s : Span) : GenM Unit := do
  if items.length > maxOperand then
    errorAt s .tooManyOperands [.text op.mnemonic, .int maxOperand]
  else
    inScope do
      let base ← Resolver.temps items.length
      items.zipIdx.forM fun (x, i) => inScope (x.into (base + i))
      emitABC op dst base items.length s

/-- A dict display: keys and values in alternating consecutive registers. -/
def dictInto (s : Span) (entries : List (Code × Code)) (dst : Nat) : GenM Unit := do
  if entries.length > maxOperand then
    errorAt s .tooManyOperands [.text "dict", .int maxOperand]
  else
    inScope do
      let base ← Resolver.temps (2 * entries.length)
      entries.zipIdx.forM fun ((k, v), i) => do
        inScope (k.into (base + 2 * i))
        inScope (v.into (base + 2 * i + 1))
      emitABC .newDict dst base entries.length s

def indexCode (s : Span) (container key : Code) : Code :=
  Code.ofInto s fun dst => inScope do
    let c ← container.register
    let k ← key.operand
    emitABC .getElem dst c k s

/-- A call: the function and its arguments in consecutive registers, the result in the
function's register. Calls of named functions not internal to the machine are observed. -/
def callInto (s : Span) (name : String) (callee : Code) (args : List Code) (dst : Nat) :
    GenM Unit :=
  inScope do
    let base ← temp
    callee.into base
    args.forM fun arg => do
      let r ← temp
      inScope (arg.into r)
    let argc ← if args.length > maxOperand then do
        errorAt s .tooManyOperands [.text "call", .int maxOperand]
        pure maxOperand
      else pure args.length
    let observed := !isInternalName name
    if observed && (← listening .funcCalled) then
      notify { kind := Kind.funcCalled.code, span := s, name := name, func := base, argc := argc }
    emitABC .call base argc 0 s
    if observed && (← listening .funcReturned) then
      notify { kind := Kind.funcReturned.code, span := s, name := name, result := base }
    if base != dst then emitABC .move dst base 0 s

mutual

def gen : Expr → Code
  | .nil s => nilCode s
  | .bool s b => boolCode s b
  | .num s x => constantCode s (Resolver.numberId x)
  | .str s t => constantCode s (Resolver.textId t)
  | .ident s name => identCode s name
  | .binary s op l r => binaryCode s op l.nameOf r.nameOf (gen l) (gen r)
  | .unary s op x => unaryCode s op x.nameOf (gen x)
  | .logic s op xs => logicCode s op (genAll xs)
  | .compare s first ops rest =>
    compareCode s (gen first) first.nameOf ops ((genAll rest).zip (rest.map Expr.nameOf))
  | .list s xs => Code.ofInto s (sequenceInto .newList (genAll xs) · s)
  | .tuple s xs => Code.ofInto s (sequenceInto .newTuple (genAll xs) · s)
  | .dict s entries => Code.ofInto s (dictInto s (genPairs entries))
  | .index s c k => indexCode s (gen c) (gen k)
  | .call s f args => Code.ofInto s (callInto s f.nameOf (gen f) (genAll args))

def genAll : List Expr → List Code
  | [] => []
  | x :: xs => gen x :: genAll xs

def genPairs : List (Expr × Expr) → List (Code × Code)
  | [] => []
  | (k, v) :: rest => (gen k, gen v) :: genPairs rest

end

end ScriptMachine.Compiler
