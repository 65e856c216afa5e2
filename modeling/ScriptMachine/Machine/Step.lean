import ScriptMachine.Machine.Natives
/-!
# Executing instructions

`Machine.exec` carries out one instruction on the innermost frame, whose instruction index has
already moved past it. Operand ids below 250 are registers and from 250 up constants (`RK`).
Tests (`EQ`, `LT`, `LE`, `IN`, `TEST`) skip the next instruction when their outcome differs from
the expected one in `A` (or `B`); jumps add `sBx` to the instruction index. A `for` loop keeps the
sequence, the position and the element in three consecutive registers.
-/

namespace ScriptMachine

namespace Machine

open Bytecode

variable {α : Type}

def top (m : Machine α) : Frame := m.frames.back?.getD default

def modifyTop (m : Machine α) (g : Frame → Frame) : Machine α :=
  if m.frames.isEmpty then m else { m with frames := m.frames.modify (m.frames.size - 1) g }

def reg (m : Machine α) (r : Int) : Except Trap Value := elementOr m.top.registers r

def setReg (m : Machine α) (r : Int) (v : Value) : Except Trap (Machine α) := do
  let _ ← elementOr m.top.registers r
  pure (m.modifyTop fun f => { f with registers := f.registers.set! r.toNat v })

def rk (m : Machine α) (id : Int) : Except Trap Value :=
  if id ≥ registerLimit then elementOr m.top.proto.constants (id - registerLimit) else m.reg id

def jumpBy (m : Machine α) (d : Int) : Machine α := m.modifyTop fun f => { f with pc := f.pc + d }

def lift {β : Type} (r : Except Diagnostic β) : Except Trap β := r.mapError Trap.error

/-- The cell for register `r` of the innermost frame, opened on first capture. -/
def capture (m : Machine α) (reg : Int) : Except Trap (Nat × Machine α) := do
  let f := m.top
  let _ ← elementOr f.registers reg
  let r := reg.toNat
  match f.opened.lookup r with
  | some c => pure (c, m)
  | none =>
    let c := m.cells.size
    let m := { m with cells := m.cells.push (.live f.id r) }
    pure (c, m.modifyTop fun f => { f with opened := (r, c) :: f.opened })

/-- Calls the function in register `base` with the `argc` registers after it. -/
def call (m : Machine α) (base argc : Nat) : Except Trap (Machine α) := do
  let callee ← m.reg base
  let h := m.heap
  let notCallable : Trap := .error (Diagnostic.runtime .notCallable [.text (h.typeName callee)])
  let closure? : Option Closure := match callee with
    | .ref loc => match h.get? loc with
      | some (.closure c) => some c
      | _ => none
    | _ => none
  match callee, closure? with
  | .builtin name, _ =>
    let args ← sliceOr m.top.registers (base + 1) (base + 1 + argc)
    let (v, m) ← m.callNative name args
    m.setReg base v
  | _, some c =>
    let args ← sliceOr m.top.registers (base + 1) (base + 1 + argc)
    if (argc : Int) != c.proto.params then
      throw (.error (Diagnostic.runtime .argumentCount
        [.text c.proto.name, .int c.proto.params, .int argc]))
    if m.frames.size ≥ m.maxDepth then
      throw (.error { reporter := Reporter.runtime, severity := .fatal,
                      message := .stackOverflow, args := [.int m.maxDepth] })
    let (f, m) ← (m.newFrame c.proto c.captures c.globals base).mapError Trap.crash
    let f := { f with registers := args.foldl (fun (rs : Array Value × Nat) a =>
      (if rs.2 < rs.1.size then rs.1.set! rs.2 a else rs.1, rs.2 + 1)) (f.registers, 0) |>.1 }
    pure { m with frames := m.frames.push f }
  | _, none => throw notCallable

def ret (m : Machine α) (v : Value) : Machine α :=
  let f := m.top
  let m := m.closeCells f
  let m := { m with frames := m.frames.pop }
  if m.frames.isEmpty then m
  else m.modifyTop fun g => { g with registers := g.registers.set! f.result v }

/-- Builds a closure of nested chunk `idx` into register `a`. -/
def makeClosure (m : Machine α) (a idx : Nat) : Except Trap (Machine α) := do
  let f := m.top
  let proto ← elementOr f.proto.protos idx
  let (cells, m) ← proto.captures.foldlM (fun (acc : Array Nat × Machine α) (c : Capture) => do
    let (cells, m) := acc
    if c.inParent then
      let (cell, m) ← m.capture c.index
      pure (cells.push cell, m)
    else
      let cell ← elementOr f.captures c.index
      pure (cells.push cell, m)) (#[], m)
  let (v, h) := m.heap.alloc (.closure { proto := proto, captures := cells, globals := f.links })
  { m with heap := h }.setReg a v

def compareOp (h : Heap) (op : Op) (lhs rhs : Value) : Except Trap Bool :=
  lift (match op with
    | .eq => .ok (h.equal lhs rhs)
    | .lt => h.less lhs rhs
    | .le => h.lessEqual lhs rhs
    | _ => h.contains rhs lhs)

def arithOf : Op → ArithOp
  | .sub => .sub
  | .mul => .mul
  | .div => .div
  | .floorDiv => .floorDiv
  | .pow => .pow
  | .mod => .mod
  | _ => .add

/-- One step of the `for` loop in registers `a` (sequence), `a + 1` (position), `a + 2`
(element): advance the position and, while it is inside the sequence, load the element and
jump back by `sBx`. -/
def forLoop (m : Machine α) (a : Nat) (sbx : Int) : Except Trap (Machine α) := do
  let seq ← m.reg a
  let n ← lift (m.heap.length seq)
  let idx := (toNumber (← m.reg (a + 1))).getD 0
  let next := Numeric.truncWord idx + 1
  let m ← m.setReg (a + 1) (.num (Float.ofInt next.toInt))
  if next.toInt < n then
    let elem ← lift (m.heap.elementAt seq next.toInt)
    let m ← m.setReg (a + 2) elem
    pure (m.jumpBy sbx)
  else pure m

/-- Carries out one instruction other than an event site. -/
def exec (m : Machine α) (i : Instruction) : Except Trap (Machine α) := do
  let a := i.a
  let b := i.b
  let c := i.c
  let f := m.top
  match i.op? with
  | none => throw (.error (invalidBytecode ("unknown opcode " ++ opName i.opcode)))
  | some op =>
    match op with
    | .move => m.setReg a (← m.reg b)
    | .loadNil =>
      (List.range b).foldlM (fun m (k : Nat) => m.setReg (a + k) .none) m
    | .loadBool =>
      let m ← m.setReg a (.bool (b != 0))
      pure (if c != 0 then m.jumpBy 1 else m)
    | .loadK => m.setReg a (← elementOr f.proto.constants i.bx)
    | .getGlobal =>
      let name ← elementOr f.links i.bx
      match m.globalIndex? name with
      | some g =>
        let cell := m.globals.getD g default
        if cell.defined then m.setReg a cell.value
        else throw (.error (Diagnostic.runtime .undefinedVariable [.text name]))
      | none => throw (.error (Diagnostic.runtime .undefinedVariable [.text name]))
    | .setGlobal =>
      let name ← elementOr f.links i.bx
      let v ← m.reg a
      let (g, m) := m.globalCell name
      pure (m.setGlobal g v)
    | .getUpval =>
      let cell ← elementOr f.captures b
      m.setReg a (← m.cellValue cell)
    | .getElem =>
      let key ← m.rk c
      let container ← m.reg b
      m.setReg a (← lift (m.heap.index container key))
    | .setElem =>
      let key ← m.rk b
      let v ← m.rk c
      let container ← m.reg a
      let h ← lift (m.heap.setIndex container key v)
      pure { m with heap := h }
    | .newList | .newTuple =>
      let items ← sliceOr f.registers b (b + c)
      let (v, h) := if op == .newList then m.heap.newList items else m.heap.newTuple items
      { m with heap := h }.setReg a v
    | .newDict =>
      let pairs ← (List.range c).mapM fun (k : Nat) => do
        let key ← m.reg (b + 2 * k)
        let v ← m.reg (b + 2 * k + 1)
        let _ ← lift (m.heap.keyOf key)
        pure (key, v)
      let (v, h) ← lift (m.heap.newDict pairs)
      { m with heap := h }.setReg a v
    | .add | .sub | .mul | .div | .floorDiv | .pow | .mod =>
      let x ← m.rk b
      let y ← m.rk c
      let (v, h) ← lift (m.heap.arith (arithOf op) x y)
      { m with heap := h }.setReg a v
    | .unm => m.setReg a (← lift (m.heap.negate (← m.rk b)))
    | .not => m.setReg a (.bool !(m.heap.truthy (← m.rk b)))
    | .eq | .lt | .le | .isIn =>
      let x ← m.rk b
      let y ← m.rk c
      let ok ← compareOp m.heap op x y
      pure (if ok != (a != 0) then m.jumpBy 1 else m)
    | .test =>
      let v ← m.reg a
      pure (if m.heap.truthy v != (b != 0) then m.jumpBy 1 else m)
    | .jmp => pure (m.jumpBy i.sbx)
    | .forPrep =>
      let m ← m.setReg (a + 1) (.num (-1))
      pure (m.jumpBy i.sbx)
    | .forLoop => m.forLoop a i.sbx
    | .call => m.call a b
    | .ret =>
      let v ← if b != 0 then m.reg a else pure .none
      pure (m.ret v)
    | .closure => m.makeClosure a i.bx
    | .notify => pure m

end Machine

end ScriptMachine
