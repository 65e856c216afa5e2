import ScriptMachine.Bytecode.Instruction
/-!
# Reading operands back from instruction words

An operand written into an instruction word is read back modulo the width of its field: eight
bits for `A`, nine for `B` and `C`, eighteen for `Bx`. So an operand that fits its field is read
back unchanged, and one that does not is cut silently, to a smaller value. A jump offset within
`±maxSBx` survives the excess-131071 form, and retargeting a jump keeps its opcode and `A`.
-/

namespace ScriptMachine.Bytecode

theorem Op.ofCode?_code (op : Op) : Op.ofCode? op.code = some op := by
  cases op <;> rfl

theorem Op.code_lt (op : Op) : op.code < 64 := by
  cases op <;> decide

namespace Instruction

theorem bits_lt (w : Nat) (x : Int) : bits w x < Nat.pow 2 w := by
  have := Nat.two_pow_pos w
  simp only [bits, Nat.pow_eq] at this ⊢
  omega

@[simp] theorem bits_ofNat (w a : Nat) : bits w (a : Int) = a % Nat.pow 2 w := by
  simp only [bits]
  omega

theorem word_abc (code : Nat) (a b c : Int) :
    (abc code a b c).word.toNat =
      code % 64 + bits 8 a * 64 + bits 9 c * 16384 + bits 9 b * 8388608 := by
  have h8 : bits 8 a < 256 := bits_lt 8 a
  have h9c : bits 9 c < 512 := bits_lt 9 c
  have h9b : bits 9 b < 512 := bits_lt 9 b
  simp only [abc, UInt32.toNat_ofNat', Nat.toUInt32_eq]
  omega

theorem word_abx (code : Nat) (a bx : Int) :
    (abx code a bx).word.toNat = code % 64 + bits 8 a * 64 + bits 18 bx * 16384 := by
  have h8 : bits 8 a < 256 := bits_lt 8 a
  have h18 : bits 18 bx < 262144 := bits_lt 18 bx
  simp only [abx, UInt32.toNat_ofNat', Nat.toUInt32_eq]
  omega

@[simp] theorem opcode_abc (code : Nat) (a b c : Int) :
    (abc code a b c).opcode = code % 64 := by
  simp only [opcode, word_abc]
  omega

@[simp] theorem a_abc (code : Nat) (a b c : Int) : (abc code a b c).a = bits 8 a := by
  have h8 : bits 8 a < 256 := bits_lt 8 a
  simp only [Instruction.a, word_abc]
  omega

@[simp] theorem b_abc (code : Nat) (a b c : Int) : (abc code a b c).b = bits 9 b := by
  have h8 : bits 8 a < 256 := bits_lt 8 a
  have h9c : bits 9 c < 512 := bits_lt 9 c
  have h9b : bits 9 b < 512 := bits_lt 9 b
  simp only [Instruction.b, word_abc]
  omega

@[simp] theorem c_abc (code : Nat) (a b c : Int) : (abc code a b c).c = bits 9 c := by
  have h8 : bits 8 a < 256 := bits_lt 8 a
  have h9c : bits 9 c < 512 := bits_lt 9 c
  simp only [Instruction.c, word_abc]
  omega

@[simp] theorem opcode_abx (code : Nat) (a bx : Int) : (abx code a bx).opcode = code % 64 := by
  simp only [opcode, word_abx]
  omega

@[simp] theorem a_abx (code : Nat) (a bx : Int) : (abx code a bx).a = bits 8 a := by
  have h8 : bits 8 a < 256 := bits_lt 8 a
  simp only [Instruction.a, word_abx]
  omega

@[simp] theorem bx_abx (code : Nat) (a bx : Int) : (abx code a bx).bx = bits 18 bx := by
  have h8 : bits 8 a < 256 := bits_lt 8 a
  simp only [Instruction.bx, word_abx]
  omega

@[simp] theorem op?_abc (op : Op) (a b c : Int) : (abc op.code a b c).op? = some op := by
  simp [op?, Nat.mod_eq_of_lt (Op.code_lt op), Op.ofCode?_code]

@[simp] theorem op?_abx (op : Op) (a bx : Int) : (abx op.code a bx).op? = some op := by
  simp [op?, Nat.mod_eq_of_lt (Op.code_lt op), Op.ofCode?_code]

@[simp] theorem op?_asbx (op : Op) (a sbx : Int) : (asbx op.code a sbx).op? = some op :=
  op?_abx op a _

@[simp] theorem a_asbx (code : Nat) (a sbx : Int) : (asbx code a sbx).a = bits 8 a :=
  a_abx code a _

theorem sbx_asbx (code : Nat) (a sbx : Int) (lo : -maxSBx ≤ sbx) (hi : sbx ≤ maxSBx) :
    (asbx code a sbx).sbx = sbx := by
  simp only [maxSBx] at lo hi
  simp only [Instruction.sbx, asbx, bx_abx, bits, maxSBx, Nat.pow_eq, Nat.reducePow]
  omega

theorem bits_ofNat_le (w a : Nat) : bits w (a : Int) ≤ a := by
  rw [bits_ofNat]
  exact Nat.mod_le a _

theorem bits_ofNat_of_lt {w a : Nat} (h : a < Nat.pow 2 w) : bits w (a : Int) = a := by
  rw [bits_ofNat, Nat.mod_eq_of_lt h]

/-! Operands that fit their field are read back unchanged; table indices that may not fit are
read back no larger. -/

theorem a_abc_of_lt {a : Nat} (h : a < 256) (code : Nat) (b c : Int) :
    (abc code a b c).a = a := by
  rw [a_abc, bits_ofNat_of_lt h]

theorem b_abc_of_lt {b : Nat} (h : b < 512) (code : Nat) (a c : Int) :
    (abc code a b c).b = b := by
  rw [b_abc, bits_ofNat_of_lt h]

theorem c_abc_of_lt {c : Nat} (h : c < 512) (code : Nat) (a b : Int) :
    (abc code a b c).c = c := by
  rw [c_abc, bits_ofNat_of_lt h]

theorem a_abx_of_lt {a : Nat} (h : a < 256) (code : Nat) (bx : Int) :
    (abx code a bx).a = a := by
  rw [a_abx, bits_ofNat_of_lt h]

theorem b_abc_le (code : Nat) (a : Int) (b : Nat) (c : Int) : (abc code a b c).b ≤ b := by
  rw [b_abc]
  exact bits_ofNat_le 9 b

theorem bx_abx_le (code : Nat) (a : Int) (bx : Nat) : (abx code a bx).bx ≤ bx := by
  rw [bx_abx]
  exact bits_ofNat_le 18 bx

theorem opcode_lt (i : Instruction) : i.opcode < 64 := Nat.mod_lt _ (by decide)

theorem a_lt (i : Instruction) : i.a < 256 := Nat.mod_lt _ (by decide)

@[simp] theorem op?_withSBx (i : Instruction) (sbx : Int) : (i.withSBx sbx).op? = i.op? := by
  simp [withSBx, asbx, op?, Nat.mod_eq_of_lt (opcode_lt i)]

@[simp] theorem a_withSBx (i : Instruction) (sbx : Int) : (i.withSBx sbx).a = i.a := by
  simp [withSBx, Nat.mod_eq_of_lt (a_lt i)]

theorem sbx_withSBx (i : Instruction) (sbx : Int) (lo : -maxSBx ≤ sbx) (hi : sbx ≤ maxSBx) :
    (i.withSBx sbx).sbx = sbx :=
  sbx_asbx _ _ sbx lo hi

end Instruction

end ScriptMachine.Bytecode
