import ScriptMachine.Value.Render
import ScriptMachine.Text.Utf8
import ScriptMachine.Text.Blank
/-!
# Listings

The readable form of a chunk: a header line with its counts, its constants, captured variables
and event sites, then one line per instruction (`0007  LT 0 0 252             ; 252=2`), then the
listings of its nested chunks, each after a blank line. An instruction line shows the mnemonic
and the operands a listing shows, and a comment where there is something to say: the constant a
load reads, the global a global access names, a jump's target, the function a closure builds,
the captured variable read, the event kind of a site, and the constants among an operation's
operands. Long constants are cut to 37 bytes and marked with `...`.
-/

namespace ScriptMachine.Bytecode

open Text

def padRight (s : String) (width : Nat) : String :=
  s ++ String.ofList (List.replicate (width - s.length) ' ')

def padLeft (fill : Char) (s : String) (width : Nat) : String :=
  String.ofList (List.replicate (width - s.length) fill) ++ s

def pcText (pc : Nat) : String := padLeft '0' (toString pc) 4

def constantDisplay (h : Heap) (v : Value) : String :=
  let t := h.repr v
  if t.utf8ByteSize > 40 then cutBytes t 37 ++ "..." else t

namespace Chunk

/-- The comment of the instruction at `pc`, or the empty text. -/
def comment (c : Chunk) (h : Heap) (globals : Array String) (pc : Nat) (i : Instruction) :
    String :=
  match i.op? with
  | none => ""
  | some op =>
    if op == .loadK then ((c.constants[i.bx]?).map h.repr).getD ""
    else if op == .getGlobal || op == .setGlobal then (globals[i.bx]?).getD ""
    else if op.isJump then s!"to {c.jumpTarget pc}"
    else if op == .closure then ((c.protos[i.bx]?).map (·.name)).getD ""
    else if op == .getUpval then ((c.captures[i.b]?).map (·.name)).getD ""
    else if op == .notify then
      ((c.notifications[i.bx]?).map fun n => Kind.nameOfCode n.kind).getD ""
    else if op.isArith || op == .eq || op == .lt || op == .le || op == .isIn ||
        op == .getElem || op == .setElem || op == .unm || op == .not then
      let ids : List Nat := if op == .unm || op == .not then [i.b] else [i.b, i.c]
      " ".intercalate (ids.filterMap fun (id : Nat) =>
        (c.constant? (id : Int)).map fun k => s!"{id}=" ++ h.repr k)
    else ""

/-- The text of the instruction at `pc`, naming globals from `globals`. -/
def instructionWith (c : Chunk) (h : Heap) (globals : Array String) (pc : Int) : String :=
  match (if 0 ≤ pc then c.code[pc.toNat]? else none) with
  | some i =>
    let text := opName i.opcode ++ String.join (i.operands.map fun v => " " ++ toString v)
    let note := c.comment h globals pc.toNat i
    if note.isEmpty then text else padRight text 22 ++ " ; " ++ note
  | none => "<end of code>"

def instructionText (c : Chunk) (h : Heap) (pc : Int) : String :=
  c.instructionWith h c.globals pc

def lines (c : Chunk) (h : Heap) : List String :=
  (List.range c.code.size).map fun pc => pcText pc ++ "  " ++ c.instructionText h pc

def header (c : Chunk) (h : Heap) : String :=
  let name := if c.name.isEmpty then "<anonymous>" else c.name
  let head := s!"; function {name} (params {c.params}, registers {c.registers}, upvalues " ++
    s!"{c.captures.size})\n"
  let index (i : Nat) : String := padLeft ' ' (toString i) 3
  let consts := if c.constants.isEmpty then "" else
    "; Constants:\n" ++ String.join (c.constants.toList.zipIdx.map fun (k, i) =>
      ";   [" ++ index (registerLimit + i) ++ "] " ++ constantDisplay h k ++ "\n")
  let caps := if c.captures.isEmpty then "" else
    "; Upvalues:\n" ++ String.join (c.captures.toList.zipIdx.map fun (u, i) =>
      let place := if u.inParent then "register" else "upvalue"
      ";   [" ++ index i ++ "] " ++ u.name ++ " (" ++ place ++ s!" {u.index})\n")
  let sites := if c.notifications.isEmpty then "" else
    "; Notifications:\n" ++ String.join (c.notifications.toList.zipIdx.map fun (n, i) =>
      let what := if n.name.isEmpty then n.span.render else n.name ++ " " ++ n.span.render
      ";   [" ++ index i ++ "] " ++ Kind.nameOfCode n.kind ++ " " ++ what ++ "\n")
  head ++ consts ++ caps ++ sites

/-- The listing of a chunk and its nested chunks, naming globals from `globals`. -/
def listingWith (c : Chunk) (h : Heap) (globals : Array String) : String :=
  let code := String.join ((List.range c.code.size).map fun pc =>
    pcText pc ++ "  " ++ c.instructionWith h globals pc ++ "\n")
  let nested := String.join (c.protos.attach.toList.map fun ⟨p, _⟩ =>
    "\n" ++ listingWith p h globals)
  c.header h ++ "; Code:\n" ++ code ++ nested
termination_by c
decreasing_by
  have := Array.sizeOf_lt_of_mem ‹p ∈ c.protos›
  cases c
  simp_all
  omega

def listing (c : Chunk) (h : Heap) : String := c.listingWith h c.globals

end Chunk

inductive NumeralError where
  | malformed
  | range
  deriving DecidableEq, Inhabited

/-- Reads decimal digits onto `n`, stopping at the first non-digit (a malformed numeral) or at the
first digit that takes the value past `2^64 - 1` (a range error). -/
def scanDigits (n : Nat) : List Char → Except NumeralError Nat
  | [] => .ok n
  | c :: cs =>
    if c.isDigit then
      let n' := n * 10 + (c.toNat - 48)
      if n' ≥ Nat.pow 2 64 then .error .range else scanDigits n' cs
    else .error .malformed

/-- A decimal integer with an optional sign that fits in 64 bits. -/
def readWordInt (s : String) : Except NumeralError Int :=
  let (neg, body) := match s.toList with
    | '+' :: r => (false, r)
    | '-' :: r => (true, r)
    | r => (false, r)
  if body.isEmpty then .error .malformed
  else do
    let n ← scanDigits 0 body
    if !neg && n ≥ Nat.pow 2 63 then .error .range
    else if neg && n > Nat.pow 2 63 then .error .range
    else .ok (if neg then -(n : Int) else n)

def NumeralError.text (e : NumeralError) (s : String) : String :=
  let why := match e with
    | .malformed => "invalid syntax"
    | .range => "value out of range"
  "strconv.Atoi: parsing " ++ quote s ++ ": " ++ why

def words (s : String) : List String :=
  ((s.toList.splitBy fun a b => isBlank a == isBlank b).filter fun w =>
    !w.all isBlank).map String.ofList

/-- Reads an instruction line: an optional pc, a mnemonic and its operands; anything after `;`
is a comment. -/
def parseInstruction (line : String) : Except String Instruction := do
  let code := String.ofList (line.toList.takeWhile (· != ';'))
  let fields := words code
  let fields := match fields with
    | f :: rest => if (readWordInt f).toBool then rest else f :: rest
    | [] => []
  match fields with
  | [] => .error "empty instruction"
  | m :: args =>
    match Op.ofMnemonic? m with
    | none => .error ("unknown mnemonic " ++ quote m)
    | some op =>
      let arity := op.info.2.2
      if args.length != arity then
        .error s!"{op.mnemonic} takes {arity} operands, got {args.length}"
      else
        let operands ← args.zipIdx.mapM fun (a, i) =>
          match readWordInt a with
          | .ok v => .ok v
          | .error e => .error (s!"{op.mnemonic} operand {i}: " ++ e.text a)
        pure (Instruction.encode op.code operands)

end ScriptMachine.Bytecode
