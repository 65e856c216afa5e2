import ScriptMachine.Proofs.Compiler.Steps
/-!
# What each emitted instruction needs

The compiler emits a fixed set of instruction shapes. For each, this file says which facts about
its operands make it well formed in every function meeting a mark (`Mark.Emits`, or
`Mark.EmitsTest` for a test and the jump after it): registers that exist, constant operands that
the nine-bit `B` and `C` fields can hold, table indices below the tables' sizes. A register
always fits its field, as a function has at most 250 of them; a table index too wide for `Bx` or
`B` is cut to a smaller one, which still exists.

Then the contracts of the steps that load constants: `loadK`, `rk` and `inRegister`.
-/

namespace ScriptMachine.Compiler

open Bytecode Instruction

namespace Mark

variable {g : Nat} {m : Mark} {k : Nat} {c : Chunk}

theorem IsRK.isReg {x : Nat} (hx : m.IsRK x) (hlt : x < registerLimit) : m.IsReg x := by
  unfold IsRK at hx
  rwa [if_pos hlt] at hx

theorem IsRK.const {x : Nat} (hx : m.IsRK x) (hge : ¬x < registerLimit) :
    x - registerLimit < m.consts := by
  unfold IsRK at hx
  rwa [if_neg hge] at hx

def IsOperand (m : Mark) (x : Nat) : Prop := m.IsRK x ∧ x ≤ maxOperand

theorem IsOperand.mono {m' : Mark} {x : Nat} (h : m.Le m') (hx : m.IsOperand x) :
    m'.IsOperand x :=
  ⟨hx.1.mono h, hx.2⟩

theorem IsReg.fits (hc : m.Below c) (hle : c.registers ≤ registerLimit) {x : Nat}
    (hx : m.IsReg x) : x < 256 := by
  have := Int.lt_of_lt_of_le hx (Int.le_trans hc.regs hle)
  simp only [registerLimit] at this
  omega

theorem IsOperand.fits {x : Nat} (hx : m.IsOperand x) : x < 512 := by
  have := hx.2
  simp only [maxOperand] at this
  omega

theorem emits_move {a b : Nat} (ha : m.IsReg a) (hb : m.IsReg b) :
    m.Emits g k (abc Op.move.code a b 0) := by
  intro c s ng hc _ hle _
  refine ⟨.move, op?_abc _ _ _ _, ?_⟩
  simp only [Chunk.OperandsOK, a_abc_of_lt (ha.fits hc hle),
    b_abc_of_lt (Nat.lt_trans (hb.fits hc hle) (by decide))]
  exact ⟨hc.isReg ha, hc.isReg hb⟩

theorem emits_loadNil {a : Nat} (ha : m.IsReg a) : m.Emits g k (abc Op.loadNil.code a 1 0) := by
  intro c s ng hc _ hle _
  refine ⟨.loadNil, op?_abc _ _ _ _, ?_⟩
  have hb : (abc Op.loadNil.code a 1 0).b = 1 := by simp [b_abc, bits]
  simp only [Chunk.OperandsOK, a_abc_of_lt (ha.fits hc hle), hb, Chunk.registers_emit]
  have := hc.isReg ha
  simp only [Chunk.IsReg] at this
  omega

theorem emits_loadBool {a : Nat} (ha : m.IsReg a) (b : Nat) :
    m.Emits g k (abc Op.loadBool.code a b 0) := by
  intro c s ng hc _ hle _
  refine ⟨.loadBool, op?_abc _ _ _ _, ?_⟩
  simp only [Chunk.OperandsOK, a_abc_of_lt (ha.fits hc hle)]
  exact ⟨hc.isReg ha, fun h => absurd (by simp [c_abc, bits]) h⟩

theorem emits_loadBool_skip {a : Nat} (ha : m.IsReg a) (hk : 1 ≤ k) :
    m.Emits g k (abc Op.loadBool.code a 1 1) := by
  intro c s ng hc _ hle _
  refine ⟨.loadBool, op?_abc _ _ _ _, ?_⟩
  simp only [Chunk.OperandsOK, a_abc_of_lt (ha.fits hc hle)]
  exact ⟨hc.isReg ha, fun _ => by omega⟩

theorem emits_loadK {a bx : Nat} (ha : m.IsReg a) (hbx : bx < m.consts) :
    m.Emits g k (abx Op.loadK.code a bx) := by
  intro c s ng hc _ hle _
  refine ⟨.loadK, op?_abx _ _ _, ?_⟩
  simp only [Chunk.OperandsOK, a_abx_of_lt (ha.fits hc hle)]
  exact ⟨hc.isReg ha, Nat.lt_of_le_of_lt (bx_abx_le _ _ _)
    (Nat.lt_of_lt_of_le hbx hc.consts)⟩

theorem emits_global {op : Op} (hop : op = .getGlobal ∨ op = .setGlobal) {a bx : Nat}
    (ha : m.IsReg a) (hbx : bx < g) : m.Emits g k (abx op.code a bx) := by
  intro c s ng hc _ hle hg
  refine ⟨op, op?_abx _ _ _, ?_⟩
  have hslot := Nat.lt_of_le_of_lt (bx_abx_le op.code a bx) (Nat.lt_of_lt_of_le hbx hg)
  rcases hop with rfl | rfl <;>
  · simp only [Chunk.OperandsOK, a_abx_of_lt (ha.fits hc hle)]
    exact ⟨hc.isReg ha, hslot⟩

theorem emits_getUpval {a b : Nat} (ha : m.IsReg a) (hb : b < m.caps) :
    m.Emits g k (abc Op.getUpval.code a b 0) := by
  intro c s ng hc _ hle _
  refine ⟨.getUpval, op?_abc _ _ _ _, ?_⟩
  simp only [Chunk.OperandsOK, a_abc_of_lt (ha.fits hc hle)]
  exact ⟨hc.isReg ha, Nat.lt_of_le_of_lt (b_abc_le _ _ _ _) (Nat.lt_of_lt_of_le hb hc.caps)⟩

theorem IsOperand.isRK (hc : m.Below c) {x : Nat} (hx : m.IsOperand x) : c.IsRK x :=
  hc.isRK hx.1

theorem emits_getElem {a b x : Nat} (ha : m.IsReg a) (hb : m.IsReg b) (hx : m.IsOperand x) :
    m.Emits g k (abc Op.getElem.code a b x) := by
  intro c s ng hc _ hle _
  refine ⟨.getElem, op?_abc _ _ _ _, ?_⟩
  simp only [Chunk.OperandsOK, a_abc_of_lt (ha.fits hc hle),
    b_abc_of_lt (Nat.lt_trans (hb.fits hc hle) (by decide)), c_abc_of_lt hx.fits]
  exact ⟨hc.isReg ha, hc.isReg hb, hx.isRK hc⟩

theorem emits_setElem {a x y : Nat} (ha : m.IsReg a) (hx : m.IsOperand x) (hy : m.IsOperand y) :
    m.Emits g k (abc Op.setElem.code a x y) := by
  intro c s ng hc _ hle _
  refine ⟨.setElem, op?_abc _ _ _ _, ?_⟩
  simp only [Chunk.OperandsOK, a_abc_of_lt (ha.fits hc hle), b_abc_of_lt hx.fits,
    c_abc_of_lt hy.fits]
  exact ⟨hc.isReg ha, hx.isRK hc, hy.isRK hc⟩

theorem emits_arith {op : Op} (hop : op.isArith = true) {a x y : Nat} (ha : m.IsReg a)
    (hx : m.IsOperand x) (hy : m.IsOperand y) : m.Emits g k (abc op.code a x y) := by
  intro c s ng hc _ hle _
  refine ⟨op, op?_abc _ _ _ _, ?_⟩
  have hops : c.IsReg a ∧ c.IsRK x ∧ c.IsRK y := ⟨hc.isReg ha, hx.isRK hc, hy.isRK hc⟩
  cases op <;> simp [Op.isArith] at hop <;>
  · simp only [Chunk.OperandsOK, a_abc_of_lt (ha.fits hc hle), b_abc_of_lt hx.fits,
      c_abc_of_lt hy.fits]
    exact hops

theorem emits_unary {op : Op} (hop : op = .unm ∨ op = .not) {a x : Nat} (ha : m.IsReg a)
    (hx : m.IsOperand x) : m.Emits g k (abc op.code a x 0) := by
  intro c s ng hc _ hle _
  refine ⟨op, op?_abc _ _ _ _, ?_⟩
  rcases hop with rfl | rfl <;>
  · simp only [Chunk.OperandsOK, a_abc_of_lt (ha.fits hc hle), b_abc_of_lt hx.fits]
    exact ⟨hc.isReg ha, hx.isRK hc⟩

theorem emits_sequence {op : Op} (hop : op = .newList ∨ op = .newTuple) {a base n : Nat}
    (ha : m.IsReg a) (hbase : n = 0 ∧ base = 0 ∨ (base : Int) + n ≤ m.regs)
    (hn : n ≤ maxOperand) : m.Emits g k (abc op.code a base n) := by
  intro c s ng hc hnn hle _
  refine ⟨op, op?_abc _ _ _ _, ?_⟩
  have hr := Int.le_trans hc.regs hle
  have hn' : n < 512 := by simp only [maxOperand] at hn; omega
  have hbase' : base < 512 := by simp only [registerLimit] at hr; omega
  have hwin : ((base : Int) + n) ≤ c.registers := by
    rcases hbase with ⟨rfl, rfl⟩ | h
    · simpa using hnn
    · exact Int.le_trans h hc.regs
  rcases hop with rfl | rfl <;>
  · simp only [Chunk.OperandsOK, a_abc_of_lt (ha.fits hc hle), b_abc_of_lt hbase', c_abc_of_lt hn']
    exact ⟨hc.isReg ha, hwin⟩

theorem emits_newDict {a base n : Nat} (ha : m.IsReg a)
    (hbase : 2 * n = 0 ∧ base = 0 ∨ (base : Int) + ↑(2 * n) ≤ m.regs)
    (hn : n ≤ maxOperand) : m.Emits g k (abc Op.newDict.code a base n) := by
  intro c s ng hc hnn hle _
  refine ⟨.newDict, op?_abc _ _ _ _, ?_⟩
  have hr := Int.le_trans hc.regs hle
  have hn' : n < 512 := by simp only [maxOperand] at hn; omega
  have hbase' : base < 512 := by simp only [registerLimit] at hr; push_cast at hbase; omega
  have hwin : ((base : Int) + 2 * n) ≤ c.registers := by
    rcases hbase with ⟨h, rfl⟩ | h
    · have : n = 0 := by omega
      subst this
      simpa using hnn
    · push_cast at h
      exact Int.le_trans h hc.regs
  simp only [Chunk.OperandsOK, a_abc_of_lt (ha.fits hc hle), b_abc_of_lt hbase', c_abc_of_lt hn']
  exact ⟨hc.isReg ha, hwin⟩

theorem emits_call {a b : Nat} (hab : ((a + b : Nat) : Int) < m.regs) (hb : b ≤ maxOperand) :
    m.Emits g k (abc Op.call.code a b 0) := by
  intro c s ng hc _ hle _
  refine ⟨.call, op?_abc _ _ _ _, ?_⟩
  have hr := Int.le_trans hc.regs hle
  have hb' : b < 512 := by simp only [maxOperand] at hb; omega
  have ha' : a < 256 := by simp only [registerLimit] at hr; omega
  simp only [Chunk.OperandsOK, a_abc_of_lt ha', b_abc_of_lt hb']
  have := Int.lt_of_lt_of_le hab hc.regs
  push_cast at this
  exact this

theorem emits_ret_none : m.Emits g k (abc Op.ret.code 0 0 0) := by
  intro c s ng hc _ hle _
  exact ⟨.ret, op?_abc _ _ _ _, fun hb => absurd (by simp [b_abc, bits]) hb⟩

theorem emits_ret {a : Nat} (ha : m.IsReg a) : m.Emits g k (abc Op.ret.code a 1 0) := by
  intro c s ng hc _ hle _
  refine ⟨.ret, op?_abc _ _ _ _, fun _ => ?_⟩
  rw [a_abc_of_lt (ha.fits hc hle)]
  exact hc.isReg ha

theorem emits_closure {a bx : Nat} (ha : m.IsReg a) (hbx : bx < m.protos) :
    m.Emits g k (abx Op.closure.code a bx) := by
  intro c s ng hc _ hle _
  refine ⟨.closure, op?_abx _ _ _, ?_⟩
  simp only [Chunk.OperandsOK, a_abx_of_lt (ha.fits hc hle)]
  exact ⟨hc.isReg ha, Nat.lt_of_le_of_lt (bx_abx_le _ _ _) (Nat.lt_of_lt_of_le hbx hc.protos)⟩

theorem emits_forJump {op : Op} (hop : op = .forPrep ∨ op = .forLoop) {a : Nat}
    (ha : ((a + 2 : Nat) : Int) < m.regs) : m.Emits g k (asbx op.code a 0) := by
  intro c s ng hc _ hle _
  refine ⟨op, op?_asbx _ _ _, ?_⟩
  have hr := Int.le_trans hc.regs hle
  have ha' : a < 256 := by simp only [registerLimit] at hr; omega
  have hlands := Chunk.landsWithin_emit_open c op.code a s k
  have hwin : ((a : Int) + 2) < c.registers := by
    have := Int.lt_of_lt_of_le ha hc.regs
    push_cast at this
    exact this
  rcases hop with rfl | rfl <;>
  · simp only [Chunk.OperandsOK, a_asbx, bits_ofNat_of_lt (w := 8) ha']
    exact ⟨hwin, hlands⟩

theorem IsReg.isRK {x : Nat} (hlt : x < registerLimit) (hx : m.IsReg x) : m.IsRK x := by
  unfold IsRK
  rw [if_pos hlt]
  exact hx

theorem IsReg.isOperand {x : Nat} (hlt : x < registerLimit) (hx : m.IsReg x) : m.IsOperand x :=
  ⟨hx.isRK hlt, by simp only [registerLimit] at hlt; simp only [maxOperand]; omega⟩

theorem jumpFollows_waitingJump (c : Chunk) (i : Instruction) (s t : Span) :
    ((c.emit i s).emit waitingJump t).JumpFollows c.code.size := by
  have h := Chunk.getElem?_emit_self (c.emit i s) waitingJump t
  rw [Chunk.code_size_emit] at h
  unfold Chunk.JumpFollows
  rw [h, Option.bind_some, waitingJump, op?_asbx]

theorem emitsTest_compare {op : Op} (hop : op = .eq ∨ op = .lt ∨ op = .le ∨ op = .isIn)
    (flag : Nat) {x y : Nat} (hx : m.IsOperand x) (hy : m.IsOperand y) :
    m.EmitsTest g k (abc op.code flag x y) := by
  intro c s t ng hc _ _ _
  refine ⟨op, op?_abc _ _ _ _, ?_⟩
  have hfollow := jumpFollows_waitingJump c (abc op.code flag x y) s t
  rcases hop with rfl | rfl | rfl | rfl <;>
  · simp only [Chunk.OperandsOK, b_abc_of_lt hx.fits, c_abc_of_lt hy.fits]
    exact ⟨hx.isRK hc, hy.isRK hc, hfollow, by omega⟩

theorem emitsTest_test {a : Nat} (ha : m.IsReg a) (sense : Nat) :
    m.EmitsTest g k (abc Op.test.code a sense 0) := by
  intro c s t ng hc _ hle _
  refine ⟨.test, op?_abc _ _ _ _, ?_⟩
  have hfollow := jumpFollows_waitingJump c (abc Op.test.code a sense 0) s t
  simp only [Chunk.OperandsOK, a_abc_of_lt (ha.fits hc hle)]
  exact ⟨hc.isReg ha, hfollow, by omega⟩

end Mark

/-! ## Loading constants -/

section Constants

variable {o : Options} {g : Nat} {m : Mark} {ms : List Mark} {k : Nat}

/-- Loading a constant of the pool into a register. A pool too large for `Bx` is reported. -/
theorem Triple.loadK (dst id : Nat) (s : Span) :
    Triple o (fun r => At g (m :: ms) r k ∧ m.IsReg dst ∧ id - registerLimit < m.consts)
      (loadK dst id s) (fun _ r => At g (m :: ms) r k) := by
  unfold Compiler.loadK
  apply Triple.ite
  · intro _
    exact Triple.chunk.bind fun _ =>
      (Triple.errorAt _ _ _).bind fun _ => Triple.emitABx (Nat.le_succ k) _ _ _ _
  · intro _
    exact Triple.pre (fun r ⟨hat, hd, hid⟩ => ⟨hat, Mark.emits_loadK hd hid⟩)
      (Triple.emitABx (Nat.le_succ k) _ _ _ _)

theorem Triple.tempLoadK (id : Nat) (s : Span) :
    Triple o (fun r => At g (m :: ms) r k ∧ id - registerLimit < m.consts)
      (do let t ← Compiler.temp; Compiler.loadK t id s; Pure.pure t)
      (fun t r => ∃ m', m.Le m' ∧ At g (m' :: ms) r k ∧ m'.IsReg t ∧ t < registerLimit) := by
  refine (Triple.and_pure Triple.temp).bind fun t => ?_
  refine Triple.pre (fun r ⟨⟨ht, hat⟩, hid⟩ => ⟨ht ▸ m.isReg_alloc, hat, ht ▸ m.isReg_alloc, hid⟩)
    ((Triple.pure_and (Triple.loadK t id s)).bind fun _ => ?_)
  exact Triple.pure fun r ⟨ht, hat⟩ => ⟨m.alloc, m.le_alloc, hat, ht, hat.isReg_lt ht⟩

/-- An operand for a constant: the id itself when `B` and `C` can hold it, else a fresh register
loaded with the constant. -/
theorem Triple.rk (id : Nat) (s : Span) :
    Triple o (fun r => At g (m :: ms) r k ∧ m.IsRK id) (rk id s)
      (fun x r => ∃ m', m.Le m' ∧ At g (m' :: ms) r k ∧ m'.IsOperand x) := by
  unfold Compiler.rk
  apply Triple.ite
  · intro hid
    refine Triple.pure fun r ⟨hat, hrk⟩ => ⟨m, Mark.Le.refl m, hat, hrk, ?_⟩
    simp only [maxOperand, registerLimit] at hid ⊢
    omega
  · intro hid
    have hge : ¬id < registerLimit := by
      simp only [maxOperand, registerLimit] at hid ⊢
      omega
    refine Triple.mono (fun r ⟨hat, hrk⟩ => ⟨hat, hrk.const hge⟩) (Triple.tempLoadK id s) ?_
    rintro t r ⟨m', hle, hat, ht, hlt⟩
    exact ⟨m', hle, hat, ht.isOperand hlt⟩

/-- A register holding an operand: the operand itself when it is a register, else a fresh one
loaded with the constant. -/
theorem Triple.inRegister (src : Nat) (s : Span) :
    Triple o (fun r => At g (m :: ms) r k ∧ m.IsRK src) (inRegister src s)
      (fun x r => ∃ m', m.Le m' ∧ At g (m' :: ms) r k ∧ m'.IsReg x) := by
  unfold Compiler.inRegister
  apply Triple.ite
  · intro hsrc
    exact Triple.pure fun r ⟨hat, hrk⟩ => ⟨m, Mark.Le.refl m, hat, hrk.isReg hsrc⟩
  · intro hsrc
    refine Triple.mono (fun r ⟨hat, hrk⟩ => ⟨hat, hrk.const hsrc⟩) (Triple.tempLoadK src s) ?_
    rintro t r ⟨m', hle, hat, ht, -⟩
    exact ⟨m', hle, hat, ht⟩

end Constants

end ScriptMachine.Compiler
