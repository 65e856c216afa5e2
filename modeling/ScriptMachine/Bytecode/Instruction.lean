/-!
# Instructions

An instruction is one 32-bit word: the opcode in bits 0–5, operand `A` in bits 6–13, and then
either `C` in bits 14–22 and `B` in bits 23–31, or one 18-bit `Bx` in bits 14–31. `sBx` is `Bx`
read in excess-131071 form. Operand ids below 250 name registers; ids from 250 up name
constants (`RK` operands).

Of the 64 opcodes of the word, 32 are defined (`Op`). Each has a mnemonic, a layout and the
number of operands the listing shows.
-/

namespace ScriptMachine.Bytecode

inductive Layout where
  | abc
  | abx
  | asbx
  deriving Repr, DecidableEq, Inhabited

def Layout.code : Layout → Nat
  | .abc => 0
  | .abx => 1
  | .asbx => 2

inductive Op where
  | move | loadNil | loadBool | loadK
  | getGlobal | setGlobal | getUpval
  | getElem | setElem | newList | newTuple | newDict
  | add | sub | mul | div | floorDiv | pow | mod | unm | not
  | eq | lt | le | isIn | test
  | jmp | forPrep | forLoop
  | call | ret | closure
  | notify
  deriving Repr, DecidableEq, Inhabited

namespace Op

def all : List Op :=
  [move, loadNil, loadBool, loadK, getGlobal, setGlobal, getUpval, getElem, setElem, newList,
   newTuple, newDict, add, sub, mul, div, floorDiv, pow, mod, unm, not, eq, lt, le, isIn, test,
   jmp, forPrep, forLoop, call, ret, closure, notify]

def code (op : Op) : Nat := (all.idxOf? op).getD 0

def ofCode? (n : Nat) : Option Op := all[n]?

/-- The mnemonic, its layout and how many operands a listing shows. -/
def info : Op → String × Layout × Nat
  | move => ("MOVE", .abc, 2)
  | loadNil => ("LOADNIL", .abc, 2)
  | loadBool => ("LOADBOOL", .abc, 3)
  | loadK => ("LOADK", .abx, 2)
  | getGlobal => ("GETGLOBAL", .abx, 2)
  | setGlobal => ("SETGLOBAL", .abx, 2)
  | getUpval => ("GETUPVAL", .abc, 2)
  | getElem => ("GETELEM", .abc, 3)
  | setElem => ("SETELEM", .abc, 3)
  | newList => ("NEWLIST", .abc, 3)
  | newTuple => ("NEWTUPLE", .abc, 3)
  | newDict => ("NEWDICT", .abc, 3)
  | add => ("ADD", .abc, 3)
  | sub => ("SUB", .abc, 3)
  | mul => ("MUL", .abc, 3)
  | div => ("DIV", .abc, 3)
  | floorDiv => ("FLOORDIV", .abc, 3)
  | pow => ("POW", .abc, 3)
  | mod => ("MOD", .abc, 3)
  | unm => ("UNM", .abc, 2)
  | not => ("NOT", .abc, 2)
  | eq => ("EQ", .abc, 3)
  | lt => ("LT", .abc, 3)
  | le => ("LE", .abc, 3)
  | isIn => ("IN", .abc, 3)
  | test => ("TEST", .abc, 2)
  | jmp => ("JMP", .asbx, 2)
  | forPrep => ("FORPREP", .asbx, 2)
  | forLoop => ("FORLOOP", .asbx, 2)
  | call => ("CALL", .abc, 2)
  | ret => ("RETURN", .abc, 2)
  | closure => ("CLOSURE", .abx, 2)
  | notify => ("VISNOTIFY", .abx, 2)

def mnemonic (op : Op) : String := op.info.1

def ofMnemonic? (s : String) : Option Op := all.find? (·.mnemonic == s)

def isJump (op : Op) : Bool := op == jmp || op == forPrep || op == forLoop

def isTest (op : Op) : Bool := op == eq || op == lt || op == le || op == isIn || op == test

def isArith (op : Op) : Bool :=
  op == add || op == sub || op == mul || op == div || op == floorDiv || op == pow || op == mod

end Op

def hexByte (n : Nat) : String :=
  let digit (d : Nat) : Char := if d < 10 then Char.ofNat (48 + d) else Char.ofNat (55 + d)
  String.ofList [digit (n / 16 % 16), digit (n % 16)]

def opName (code : Nat) : String :=
  match Op.ofCode? code with
  | some op => op.mnemonic
  | none => "UNKNOWN(0x" ++ hexByte code ++ ")"

def opLayout (code : Nat) : Layout :=
  match Op.ofCode? code with
  | some op => op.info.2.1
  | none => .abc

def opArity (code : Nat) : Nat :=
  match Op.ofCode? code with
  | some op => op.info.2.2
  | none => 0

def registerLimit : Nat := 250

def maxSBx : Int := 131071

structure Instruction where
  word : UInt32
  deriving Repr, DecidableEq, Inhabited

namespace Instruction

def bits (width : Nat) (x : Int) : Nat := (x % ((Nat.pow 2 width : Nat) : Int)).toNat

def abc (code : Nat) (a b c : Int) : Instruction :=
  ⟨(code % 64 + bits 8 a * 64 + bits 9 c * 16384 + bits 9 b * 8388608).toUInt32⟩

def abx (code : Nat) (a bx : Int) : Instruction :=
  ⟨(code % 64 + bits 8 a * 64 + bits 18 bx * 16384).toUInt32⟩

def asbx (code : Nat) (a sbx : Int) : Instruction := abx code a (sbx + maxSBx)

def opcode (i : Instruction) : Nat := i.word.toNat % 64

def op? (i : Instruction) : Option Op := Op.ofCode? i.opcode

def a (i : Instruction) : Nat := i.word.toNat / 64 % 256
def c (i : Instruction) : Nat := i.word.toNat / 16384 % 512
def b (i : Instruction) : Nat := i.word.toNat / 8388608 % 512
def bx (i : Instruction) : Nat := i.word.toNat / 16384
def sbx (i : Instruction) : Int := (i.bx : Int) - maxSBx

def operands (i : Instruction) : List Int :=
  let all : List Int := match opLayout i.opcode with
    | .abc => [i.a, i.b, i.c]
    | .abx => [i.a, i.bx]
    | .asbx => [i.a, i.sbx]
  all.take (opArity i.opcode)

/-- Builds an instruction from an opcode number and the operands a listing shows; missing
operands are zero. -/
def encode (code : Nat) (operands : List Int) : Instruction :=
  let get (n : Nat) : Int := operands.getD n 0
  match opLayout code with
  | .abx => abx code (get 0) (get 1)
  | .asbx => asbx code (get 0) (get 1)
  | .abc => abc code (get 0) (get 1) (get 2)

def withSBx (i : Instruction) (sbx : Int) : Instruction := asbx i.opcode i.a sbx

end Instruction

end ScriptMachine.Bytecode
