import ScriptMachine.Bytecode.Instruction
import ScriptMachine.Event.Kind
import ScriptMachine.Text.Span
import ScriptMachine.Value.Basic
/-!
# Chunks

A chunk is one compiled function: its instruction words with a source span per instruction, its
constant pool, the table of event sites its `VISNOTIFY` instructions name, the chunks of the
functions it defines, and the descriptions of its captured variables and named locals. The
top-level chunk also names the global slots.

Main definitions: `Chunk.patchJump` retargets a jump, `Chunk.localsAt` lists the locals live at
an instruction, and `Chunk.validate` checks that jumps land inside the code, that tests are
followed by jumps and that indices into the tables exist.
-/

namespace ScriptMachine.Bytecode

/-- Where a closure finds a captured variable: a register of the enclosing frame (`inParent`) or
a captured variable of the enclosing closure. -/
structure Capture where
  name : String
  inParent : Bool
  index : Int
  deriving Repr, DecidableEq, Inhabited

/-- A named local: `register` holds it for the instructions `[startPc, endPc)`. -/
structure LocalVar where
  name : String
  register : Int
  startPc : Int
  endPc : Int
  deriving Repr, DecidableEq, Inhabited

/-- One tag of a tagged region: its name, the source texts of its arguments, and the operand ids
whose values the exit event reports. -/
structure TagDesc where
  name : String
  args : Array String := #[]
  values : Array Int := #[]
  deriving Repr, DecidableEq, Inhabited

/-- An event site. `kind` is an event kind number; the other fields are operand ids and names
the machine reads to build the event, used as the kind requires. -/
structure Notification where
  kind : Nat
  span : Span := Span.empty
  name : String := ""
  storage : Int := 0
  op : Int := 0
  left : Int := 0
  leftName : String := ""
  right : Int := 0
  rightName : String := ""
  result : Int := 0
  key : Int := 0
  value : Int := 0
  func : Int := 0
  argc : Int := 0
  tags : Array TagDesc := #[]
  deriving Repr, Inhabited

def currentVersion : Nat := 1

structure Chunk where
  version : Nat := currentVersion
  name : String
  params : Int := 0
  registers : Int := 0
  code : Array Instruction := #[]
  spans : Array Span := #[]
  /-- Whether the chunk carries a list of spans at all. Only a chunk read from an image that
  gives none lacks one; an image written from it again gives none, while a carried list, even
  an empty one, is written as a list. -/
  spansListed : Bool := true
  constants : Array Value := #[]
  notifications : Array Notification := #[]
  protos : Array Chunk := #[]
  globals : Array String := #[]
  captures : Array Capture := #[]
  locals : Array LocalVar := #[]
  deriving Inhabited

namespace Chunk

def emit (c : Chunk) (i : Instruction) (s : Span) : Chunk :=
  { c with code := c.code.push i, spans := c.spans.push s }

def nextPc (c : Chunk) : Nat := c.code.size

def jumpTarget (c : Chunk) (pc : Nat) : Int :=
  (pc : Int) + 1 + (c.code.getD pc default).sbx

/-- Points the jump at `pc` to `target`. Fails for a `pc` outside the code, an instruction that
is not a jump, a target outside `[0, size]` or an offset that does not fit. -/
def patchJump (c : Chunk) (pc target : Int) : Except String Chunk :=
  if h : 0 ≤ pc ∧ pc.toNat < c.code.size then
    let i := c.code[pc.toNat]
    if !((i.op?.map Op.isJump).getD false) then
      .error s!"patch of non-jump {opName i.opcode} at pc {pc}"
    else if target < 0 || target > c.code.size then
      .error s!"jump target {target} outside code of length {c.code.size}"
    else
      let offset := target - (pc + 1)
      if offset < -maxSBx || offset > maxSBx then
        .error s!"jump offset {offset} exceeds {maxSBx}"
      else .ok { c with code := c.code.set pc.toNat (i.withSBx offset) }
  else .error s!"patch of pc {pc} outside code of length {c.code.size}"

def constant? (c : Chunk) (id : Int) : Option Value :=
  if id < registerLimit then none else c.constants[(id - registerLimit).toNat]?

def spanAt (c : Chunk) (pc : Int) : Span :=
  if pc < 0 then Span.empty else c.spans.getD pc.toNat Span.empty

/-- The named locals live at `pc`, by register, keeping the table order among equals. -/
def localsAt (c : Chunk) (pc : Int) : List LocalVar :=
  (c.locals.toList.filter fun l => l.startPc ≤ pc && pc < l.endPc).mergeSort
    fun x y => x.register ≤ y.register

/-- The first violation of the chunk's own invariants at one instruction. -/
def checkAt (c : Chunk) (pc : Nat) (i : Instruction) : Option String :=
  match i.op? with
  | none => some s!"{c.name}: unknown opcode {i.opcode} at pc {pc}"
  | some op =>
    let target := c.jumpTarget pc
    if op.isJump && (target < 0 || target ≥ c.code.size) then
      some s!"{c.name}: jump at pc {pc} targets {target} outside [0, {c.code.size})"
    else if op.isTest && !((c.code[pc + 1]?.bind Instruction.op?) == some Op.jmp) then
      some s!"{c.name}: {op.mnemonic} at pc {pc} is not followed by JMP"
    else match op with
      | .loadK => if i.bx ≥ c.constants.size then
          some s!"{c.name}: constant {i.bx} out of range at pc {pc}" else none
      | .closure => if i.bx ≥ c.protos.size then
          some s!"{c.name}: proto {i.bx} out of range at pc {pc}" else none
      | .notify => if i.bx ≥ c.notifications.size then
          some s!"{c.name}: notification {i.bx} out of range at pc {pc}" else none
      | _ => none

mutual

/-- The first violation of the invariants of a chunk and, after it, of its nested chunks. -/
def validate : Chunk → Option String
  | c@{ protos := ⟨ps⟩, .. } =>
    if c.code.size != c.spans.size then
      some s!"{c.name}: {c.code.size} instructions but {c.spans.size} ranges"
    else if c.registers > registerLimit then
      some s!"{c.name}: register count {c.registers} exceeds {registerLimit}"
    else
      match (List.range c.code.size).findSome? fun pc => c.checkAt pc (c.code.getD pc default) with
      | some e => some e
      | none => validateAll ps

def validateAll : List Chunk → Option String
  | [] => none
  | p :: ps =>
    match validate p with
    | some e => some e
    | none => validateAll ps

end

theorem validateAll_eq (ps : List Chunk) : validateAll ps = ps.findSome? validate := by
  induction ps with
  | nil => rfl
  | cons p ps ih =>
    rw [validateAll, List.findSome?_cons, ih]
    cases validate p <;> rfl

theorem validate_eq (c : Chunk) : c.validate =
    if c.code.size != c.spans.size then
      some s!"{c.name}: {c.code.size} instructions but {c.spans.size} ranges"
    else if c.registers > registerLimit then
      some s!"{c.name}: register count {c.registers} exceeds {registerLimit}"
    else ((List.range c.code.size).findSome? fun pc => c.checkAt pc (c.code.getD pc default)).or
      (c.protos.toList.findSome? validate) := by
  obtain ⟨version, name, params, registers, code, spans, spansListed, constants, notifications,
    ⟨ps⟩, globals, captures, locals⟩ := c
  rw [validate, validateAll_eq]
  split
  · rfl
  · split
    · rfl
    · cases (List.range code.size).findSome? _ <;> rfl

end Chunk

end ScriptMachine.Bytecode
