import ScriptMachine.Bytecode.Chunk
import ScriptMachine.Event.Kind
import ScriptMachine.Proofs.Bytecode.Fields
/-!
# Well-formed chunks

What a chunk must satisfy for the machine to run it without reaching for anything that is not
there: every register an instruction reads or writes lies below the chunk's register count,
every constant operand names an entry of the pool, every table index (global slot, captured
variable, nested chunk, event site) exists, every operand an event site reads is one of these,
jumps and skips land on an instruction, a test is followed by a jump, and the code ends with a
return. A captured variable names a register or a captured variable of the enclosing function.
-/

namespace ScriptMachine.Bytecode

theorem Kind.ofCode?_code (k : Kind) : Kind.ofCode? k.code = some k := by
  cases k <;> rfl

namespace Chunk

def IsReg (c : Chunk) (x : Nat) : Prop := (x : Int) < c.registers

def IsRK (c : Chunk) (x : Nat) : Prop :=
  if x < registerLimit then c.IsReg x else x - registerLimit < c.constants.size

def IsRKId (c : Chunk) (x : Int) : Prop := 0 ≤ x ∧ c.IsRK x.toNat

def IsRegId (c : Chunk) (x : Int) : Prop := 0 ≤ x ∧ x < c.registers

def LandsWithin (c : Chunk) (pc lim : Nat) : Prop :=
  0 ≤ c.jumpTarget pc ∧ c.jumpTarget pc ≤ lim

def JumpFollows (c : Chunk) (pc : Nat) : Prop :=
  (c.code[pc + 1]?.bind Instruction.op?) = some .jmp

/-- What opcode `op` needs of the chunk when instruction `i` sits at `pc`; control may go on to
any index up to `lim`. -/
def OperandsOK (c : Chunk) (ng lim pc : Nat) (i : Instruction) : Op → Prop
  | .move => c.IsReg i.a ∧ c.IsReg i.b
  | .loadNil => (i.a + i.b : Int) ≤ c.registers
  | .loadBool => c.IsReg i.a ∧ (i.c ≠ 0 → pc + 2 ≤ lim)
  | .loadK => c.IsReg i.a ∧ i.bx < c.constants.size
  | .getGlobal | .setGlobal => c.IsReg i.a ∧ i.bx < ng
  | .getUpval => c.IsReg i.a ∧ i.b < c.captures.size
  | .getElem => c.IsReg i.a ∧ c.IsReg i.b ∧ c.IsRK i.c
  | .setElem => c.IsReg i.a ∧ c.IsRK i.b ∧ c.IsRK i.c
  | .newList | .newTuple => c.IsReg i.a ∧ (i.b + i.c : Int) ≤ c.registers
  | .newDict => c.IsReg i.a ∧ (i.b + 2 * i.c : Int) ≤ c.registers
  | .add | .sub | .mul | .div | .floorDiv | .pow | .mod =>
    c.IsReg i.a ∧ c.IsRK i.b ∧ c.IsRK i.c
  | .unm | .not => c.IsReg i.a ∧ c.IsRK i.b
  | .eq | .lt | .le | .isIn => c.IsRK i.b ∧ c.IsRK i.c ∧ c.JumpFollows pc ∧ pc + 2 ≤ lim
  | .test => c.IsReg i.a ∧ c.JumpFollows pc ∧ pc + 2 ≤ lim
  | .jmp => c.LandsWithin pc lim
  | .forPrep | .forLoop => (i.a + 2 : Int) < c.registers ∧ c.LandsWithin pc lim
  | .call => (i.a + i.b : Int) < c.registers
  | .ret => i.b ≠ 0 → c.IsReg i.a
  | .closure => c.IsReg i.a ∧ i.bx < c.protos.size
  | .notify => i.bx < c.notifications.size

def InstrOK (c : Chunk) (ng lim pc : Nat) (i : Instruction) : Prop :=
  ∃ op, i.op? = some op ∧ c.OperandsOK ng lim pc i op

/-- What building the event of kind `k` for site `n` reads of a frame of the chunk. -/
def EventOperandsOK (c : Chunk) (n : Notification) : Kind → Prop
  | .assignment => c.IsRKId n.value
  | .subscriptAssignment => c.IsRKId n.key ∧ c.IsRKId n.value
  | .binary => c.IsRKId n.left ∧ c.IsRKId n.right ∧ c.IsRegId n.result
  | .unary => c.IsRKId n.left ∧ c.IsRegId n.result
  | .comparison => c.IsRKId n.left ∧ c.IsRKId n.right
  | .funcCalled => 0 ≤ n.func ∧ 0 ≤ n.argc ∧ n.func + 1 + n.argc ≤ c.registers
  | .funcReturned => c.IsRegId n.result
  | .singleStep | .vtagEntered => True
  | .vtagExited => ∀ d ∈ n.tags, ∀ v ∈ d.values, c.IsRKId v

def NotifOK (c : Chunk) (n : Notification) : Prop :=
  ∃ k, Kind.ofCode? n.kind = some k ∧ c.EventOperandsOK n k

/-- The code, event sites and register count of a chunk, with control bounded by `lim`. -/
structure BodyOK (c : Chunk) (ng lim : Nat) : Prop where
  spans : c.code.size = c.spans.size
  registers_nonneg : 0 ≤ c.registers
  registers_le : c.registers ≤ registerLimit
  code : ∀ pc (h : pc < c.code.size), c.InstrOK ng lim pc c.code[pc]
  notifications : ∀ n ∈ c.notifications, c.NotifOK n

end Chunk

def Capture.Within (pr : Int) (pcap : Nat) (cap : Capture) : Prop :=
  0 ≤ cap.index ∧ if cap.inParent then cap.index < pr else cap.index < pcap

theorem Capture.Within.mono {pr pr' : Int} {pcap pcap' : Nat} {cap : Capture}
    (hr : pr ≤ pr') (hc : pcap ≤ pcap') (h : cap.Within pr pcap) : cap.Within pr' pcap' := by
  unfold Capture.Within at h ⊢
  split <;> simp_all <;> omega

namespace Chunk

/-- A chunk the machine can run, as a function of a module with `ng` global slots whose
enclosing function has `pr` registers and `pcap` captured variables: its body keeps control
inside the code, the code ends with a return, its captures exist in the enclosing function, and
its nested chunks are well formed in turn. -/
inductive WellFormed (ng : Nat) : Int → Nat → Chunk → Prop
  | intro {pr : Int} {pcap : Nat} {c : Chunk}
      (body : c.BodyOK ng (c.code.size - 1))
      (ends : (c.code.back?.bind Instruction.op?) = some .ret)
      (captures : ∀ cap ∈ c.captures, cap.Within pr pcap)
      (protos : ∀ p ∈ c.protos, WellFormed ng c.registers c.captures.size p) :
      WellFormed ng pr pcap c

/-- How code being written changes: instructions are appended and every table grows. -/
structure Grows (c c' : Chunk) : Prop where
  code : ∀ pc < c.code.size, c'.code[pc]? = c.code[pc]?
  code_size : c.code.size ≤ c'.code.size
  registers : c.registers ≤ c'.registers
  constants : c.constants.size ≤ c'.constants.size
  captures : c.captures.size ≤ c'.captures.size
  protos : c.protos.size ≤ c'.protos.size
  notifications : c.notifications.size ≤ c'.notifications.size

theorem Grows.refl (c : Chunk) : c.Grows c :=
  ⟨fun _ _ => rfl, Nat.le_refl _, Int.le_refl _, Nat.le_refl _, Nat.le_refl _, Nat.le_refl _,
    Nat.le_refl _⟩

theorem Grows.trans {c c' c'' : Chunk} (h : c.Grows c') (h' : c'.Grows c'') : c.Grows c'' where
  code pc hpc := (h'.code pc (Nat.lt_of_lt_of_le hpc h.code_size)).trans (h.code pc hpc)
  code_size := Nat.le_trans h.code_size h'.code_size
  registers := Int.le_trans h.registers h'.registers
  constants := Nat.le_trans h.constants h'.constants
  captures := Nat.le_trans h.captures h'.captures
  protos := Nat.le_trans h.protos h'.protos
  notifications := Nat.le_trans h.notifications h'.notifications

section Grows

variable {c c' : Chunk} {ng ng' lim lim' pc : Nat}

theorem IsReg.grow (h : c.Grows c') {x : Nat} (hx : c.IsReg x) : c'.IsReg x :=
  Int.lt_of_lt_of_le hx h.registers

theorem IsRK.grow (h : c.Grows c') {x : Nat} (hx : c.IsRK x) : c'.IsRK x := by
  unfold IsRK at hx ⊢
  split
  · rw [if_pos ‹_›] at hx
    exact IsReg.grow h hx
  · rw [if_neg ‹_›] at hx
    exact Nat.lt_of_lt_of_le hx h.constants

theorem IsRKId.grow (h : c.Grows c') {x : Int} (hx : c.IsRKId x) : c'.IsRKId x :=
  ⟨hx.1, IsRK.grow h hx.2⟩

theorem IsRegId.grow (h : c.Grows c') {x : Int} (hx : c.IsRegId x) : c'.IsRegId x :=
  ⟨hx.1, Int.lt_of_lt_of_le hx.2 h.registers⟩

theorem Grows.getD_eq (h : c.Grows c') (hpc : pc < c.code.size) :
    c'.code.getD pc default = c.code.getD pc default := by
  simp only [Array.getD_eq_getD_getElem?, h.code pc hpc]

theorem Grows.jumpTarget_eq (h : c.Grows c') (hpc : pc < c.code.size) :
    c'.jumpTarget pc = c.jumpTarget pc := by
  simp only [jumpTarget, h.getD_eq hpc]

theorem JumpFollows.grow (h : c.Grows c') (hj : c.JumpFollows pc) : c'.JumpFollows pc := by
  unfold JumpFollows at hj ⊢
  cases hnext : c.code[pc + 1]? with
  | none => simp [hnext] at hj
  | some j =>
    have hlt : pc + 1 < c.code.size := by
      rw [Array.getElem?_eq_some_iff] at hnext
      exact hnext.1
    rw [h.code _ hlt, hnext]
    rwa [hnext] at hj

theorem LandsWithin.grow (h : c.Grows c') (hpc : pc < c.code.size) (hlim : lim ≤ lim')
    (hj : c.LandsWithin pc lim) : c'.LandsWithin pc lim' := by
  unfold LandsWithin at hj ⊢
  rw [h.jumpTarget_eq hpc]
  omega

theorem OperandsOK.grow (h : c.Grows c') (hng : ng ≤ ng') (hlim : lim ≤ lim')
    (hpc : pc < c.code.size) {i : Instruction} {op : Op}
    (hok : c.OperandsOK ng lim pc i op) : c'.OperandsOK ng' lim' pc i op := by
  have hr := h.registers
  have reg := @IsReg.grow c c' h
  have rk := @IsRK.grow c c' h
  cases op <;> simp only [OperandsOK] at hok ⊢
  case move => exact ⟨reg hok.1, reg hok.2⟩
  case loadNil => omega
  case loadBool => exact ⟨reg hok.1, fun hc => Nat.le_trans (hok.2 hc) hlim⟩
  case loadK => exact ⟨reg hok.1, Nat.lt_of_lt_of_le hok.2 h.constants⟩
  case getGlobal | setGlobal => exact ⟨reg hok.1, Nat.lt_of_lt_of_le hok.2 hng⟩
  case getUpval => exact ⟨reg hok.1, Nat.lt_of_lt_of_le hok.2 h.captures⟩
  case getElem => exact ⟨reg hok.1, reg hok.2.1, rk hok.2.2⟩
  case setElem | add | sub | mul | div | floorDiv | pow | mod =>
    exact ⟨reg hok.1, rk hok.2.1, rk hok.2.2⟩
  case newList | newTuple | newDict => exact ⟨reg hok.1, Int.le_trans hok.2 hr⟩
  case unm | not => exact ⟨reg hok.1, rk hok.2⟩
  case eq | lt | le | isIn =>
    exact ⟨rk hok.1, rk hok.2.1, JumpFollows.grow h hok.2.2.1, Nat.le_trans hok.2.2.2 hlim⟩
  case test => exact ⟨reg hok.1, JumpFollows.grow h hok.2.1, Nat.le_trans hok.2.2 hlim⟩
  case jmp => exact LandsWithin.grow h hpc hlim hok
  case forPrep | forLoop => exact ⟨Int.lt_of_lt_of_le hok.1 hr, LandsWithin.grow h hpc hlim hok.2⟩
  case call => exact Int.lt_of_lt_of_le hok hr
  case ret => exact fun hb => reg (hok hb)
  case closure => exact ⟨reg hok.1, Nat.lt_of_lt_of_le hok.2 h.protos⟩
  case notify => exact Nat.lt_of_lt_of_le hok h.notifications

theorem InstrOK.grow (h : c.Grows c') (hng : ng ≤ ng') (hlim : lim ≤ lim')
    (hpc : pc < c.code.size) {i : Instruction} (hok : c.InstrOK ng lim pc i) :
    c'.InstrOK ng' lim' pc i := by
  obtain ⟨op, hop, hops⟩ := hok
  exact ⟨op, hop, OperandsOK.grow h hng hlim hpc hops⟩

theorem EventOperandsOK.grow (h : c.Grows c') {n : Notification} {k : Kind}
    (hok : c.EventOperandsOK n k) : c'.EventOperandsOK n k := by
  have hr := h.registers
  cases k <;> simp only [EventOperandsOK] at hok ⊢
  · exact IsRKId.grow h hok
  · exact ⟨IsRKId.grow h hok.1, IsRKId.grow h hok.2.1, IsRegId.grow h hok.2.2⟩
  · exact ⟨IsRKId.grow h hok.1, IsRKId.grow h hok.2⟩
  · exact ⟨hok.1, hok.2.1, Int.le_trans hok.2.2 hr⟩
  · exact IsRegId.grow h hok
  · exact ⟨IsRKId.grow h hok.1, IsRKId.grow h hok.2⟩
  · exact ⟨IsRKId.grow h hok.1, IsRegId.grow h hok.2⟩
  · exact fun d hd v hv => IsRKId.grow h (hok d hd v hv)

theorem NotifOK.grow (h : c.Grows c') {n : Notification} (hok : c.NotifOK n) : c'.NotifOK n := by
  obtain ⟨k, hk, hops⟩ := hok
  exact ⟨k, hk, EventOperandsOK.grow h hops⟩

end Grows

theorem BodyOK.mono {ng ng' lim lim' : Nat} {c : Chunk} (h : c.BodyOK ng lim) (hng : ng ≤ ng')
    (hlim : lim ≤ lim') : c.BodyOK ng' lim' where
  spans := h.spans
  registers_nonneg := h.registers_nonneg
  registers_le := h.registers_le
  code pc hpc := InstrOK.grow (Grows.refl c) hng hlim hpc (h.code pc hpc)
  notifications := h.notifications

/-! ## Code being written -/

section Writing

variable {c : Chunk} {ng lim pc j : Nat}

@[simp] theorem code_size_emit (c : Chunk) (i : Instruction) (s : Span) :
    (c.emit i s).code.size = c.code.size + 1 := by
  simp [emit]

@[simp] theorem registers_emit (c : Chunk) (i : Instruction) (s : Span) :
    (c.emit i s).registers = c.registers := rfl

@[simp] theorem constants_emit (c : Chunk) (i : Instruction) (s : Span) :
    (c.emit i s).constants = c.constants := rfl

@[simp] theorem captures_emit (c : Chunk) (i : Instruction) (s : Span) :
    (c.emit i s).captures = c.captures := rfl

@[simp] theorem protos_emit (c : Chunk) (i : Instruction) (s : Span) :
    (c.emit i s).protos = c.protos := rfl

@[simp] theorem notifications_emit (c : Chunk) (i : Instruction) (s : Span) :
    (c.emit i s).notifications = c.notifications := rfl

theorem getElem?_emit_lt (c : Chunk) (i : Instruction) (s : Span) {pc : Nat}
    (hpc : pc < c.code.size) : (c.emit i s).code[pc]? = c.code[pc]? := by
  simp [emit, Array.getElem?_push_lt hpc]

theorem getElem?_emit_self (c : Chunk) (i : Instruction) (s : Span) :
    (c.emit i s).code[c.code.size]? = some i := by
  simp [emit]

theorem grows_emit (c : Chunk) (i : Instruction) (s : Span) : c.Grows (c.emit i s) where
  code _ hpc := getElem?_emit_lt c i s hpc
  code_size := by simp
  registers := Int.le_refl _
  constants := Nat.le_refl _
  captures := Nat.le_refl _
  protos := Nat.le_refl _
  notifications := Nat.le_refl _

theorem BodyOK.of_grows {c' : Chunk} (h : c.BodyOK ng lim) (hg : c.Grows c')
    (hcode : c'.code.size = c.code.size) (hspans : c'.spans.size = c.spans.size)
    (hle : c'.registers ≤ registerLimit) (hn : ∀ n ∈ c'.notifications, c'.NotifOK n) :
    c'.BodyOK ng lim where
  spans := by rw [hcode, hspans]; exact h.spans
  registers_nonneg := Int.le_trans h.registers_nonneg hg.registers
  registers_le := hle
  code pc hpc := by
    have hlt : pc < c.code.size := hcode ▸ hpc
    have hget : c'.code[pc] = c.code[pc] := by
      have := hg.code pc hlt
      rw [Array.getElem?_eq_getElem hpc, Array.getElem?_eq_getElem hlt] at this
      exact Option.some.inj this
    rw [hget]
    exact InstrOK.grow hg (Nat.le_refl _) (Nat.le_refl _) hlt (h.code pc hlt)
  notifications := hn

theorem BodyOK.emit (h : c.BodyOK ng lim) {i : Instruction} {s : Span} {lim' : Nat}
    (hlim : lim ≤ lim') (hi : (c.emit i s).InstrOK ng lim' c.code.size i) :
    (c.emit i s).BodyOK ng lim' where
  spans := by simp [Chunk.emit, h.spans]
  registers_nonneg := h.registers_nonneg
  registers_le := h.registers_le
  code pc hpc := by
    rw [code_size_emit] at hpc
    rcases Nat.lt_succ_iff_lt_or_eq.mp hpc with hlt | rfl
    · have hget : (c.emit i s).code[pc] = c.code[pc] := by
        simp only [Chunk.emit]
        exact Array.getElem_push_lt hlt
      rw [hget]
      exact InstrOK.grow (grows_emit c i s) (Nat.le_refl _) hlim hlt (h.code pc hlt)
    · have hget : (c.emit i s).code[c.code.size] = i := by
        simp only [Chunk.emit]
        exact Array.getElem_push_eq
      rw [hget]
      exact hi
  notifications n hn := NotifOK.grow (grows_emit c i s) (h.notifications n hn)

theorem BodyOK.emit_two (h : c.BodyOK ng lim) {i j : Instruction} {s t : Span} {lim' : Nat}
    (hlim : lim ≤ lim') (hi : ((c.emit i s).emit j t).InstrOK ng lim' c.code.size i)
    (hj : ((c.emit i s).emit j t).InstrOK ng lim' (c.code.size + 1) j) :
    ((c.emit i s).emit j t).BodyOK ng lim' where
  spans := by simp [Chunk.emit, h.spans]
  registers_nonneg := h.registers_nonneg
  registers_le := h.registers_le
  code pc hpc := by
    have hg := (grows_emit c i s).trans (grows_emit (c.emit i s) j t)
    simp only [code_size_emit] at hpc
    rcases Nat.lt_succ_iff_lt_or_eq.mp hpc with hlt | rfl
    · rcases Nat.lt_succ_iff_lt_or_eq.mp hlt with hlt | rfl
      · have hget : ((c.emit i s).emit j t).code[pc] = c.code[pc] := by
          simp [Chunk.emit, Array.getElem_push, hlt, Nat.lt_succ_of_lt hlt]
        rw [hget]
        exact InstrOK.grow hg (Nat.le_refl _) hlim hlt (h.code pc hlt)
      · have hget : ((c.emit i s).emit j t).code[c.code.size] = i := by
          simp [Chunk.emit, Array.getElem_push]
        rw [hget]
        exact hi
    · have hget : ((c.emit i s).emit j t).code[c.code.size + 1] = j := by
        simp [Chunk.emit, Array.getElem_push]
      rw [hget]
      exact hj
  notifications n hn := NotifOK.grow ((grows_emit c i s).trans (grows_emit (c.emit i s) j t))
    (h.notifications n hn)

def retarget (c : Chunk) (j : Nat) (hj : j < c.code.size) (off : Int) : Chunk :=
  { c with code := c.code.set j (c.code[j].withSBx off) }

@[simp] theorem code_size_retarget (c : Chunk) (j : Nat) (hj : j < c.code.size) (off : Int) :
    (c.retarget j hj off).code.size = c.code.size := by
  simp [retarget]

theorem op?_retarget (c : Chunk) (j : Nat) (hj : j < c.code.size) (off : Int) (pc : Nat) :
    ((c.retarget j hj off).code[pc]?.bind Instruction.op?) =
      (c.code[pc]?.bind Instruction.op?) := by
  by_cases h : j = pc
  · subst h
    simp [retarget, Array.getElem?_eq_getElem hj]
  · simp [retarget, Array.getElem?_set_ne hj h]

theorem jumpTarget_retarget_ne {hj : j < c.code.size} {off : Int} (hpc : pc ≠ j) :
    (c.retarget j hj off).jumpTarget pc = c.jumpTarget pc := by
  simp [retarget, jumpTarget, Array.getD_eq_getD_getElem?, Array.getElem?_set_ne hj (Ne.symm hpc)]

theorem jumpTarget_retarget_self {hj : j < c.code.size} {off : Int} (lo : -maxSBx ≤ off)
    (hi : off ≤ maxSBx) : (c.retarget j hj off).jumpTarget j = j + 1 + off := by
  simp [retarget, jumpTarget, Array.getD_eq_getD_getElem?, Instruction.sbx_withSBx _ _ lo hi]

theorem OperandsOK.retarget {hj : j < c.code.size} {off : Int} {i : Instruction} {op : Op}
    (hpc : pc ≠ j) (hok : c.OperandsOK ng lim pc i op) :
    (c.retarget j hj off).OperandsOK ng lim pc i op := by
  have follows : (c.retarget j hj off).JumpFollows pc ↔ c.JumpFollows pc := by
    simp only [JumpFollows, op?_retarget]
  have lands : (c.retarget j hj off).LandsWithin pc lim ↔ c.LandsWithin pc lim := by
    simp only [LandsWithin, jumpTarget_retarget_ne hpc]
  cases op <;> simp only [OperandsOK] at hok ⊢
  case eq | lt | le | isIn => exact ⟨hok.1, hok.2.1, follows.mpr hok.2.2.1, hok.2.2.2⟩
  case test => exact ⟨hok.1, follows.mpr hok.2.1, hok.2.2⟩
  case jmp => exact lands.mpr hok
  case forPrep | forLoop => exact ⟨hok.1, lands.mpr hok.2⟩
  all_goals exact hok

theorem patchJump_eq_retarget {pc target : Int} {c' : Chunk}
    (h : c.patchJump pc target = .ok c') :
    ∃ (j : Nat) (hj : j < c.code.size), pc = j ∧
      ((c.code[j].op?.map Op.isJump).getD false) = true ∧ 0 ≤ target ∧ target ≤ c.code.size ∧
      -maxSBx ≤ target - (pc + 1) ∧ target - (pc + 1) ≤ maxSBx ∧
      c' = c.retarget j hj (target - (pc + 1)) := by
  unfold patchJump at h
  by_cases hpc : 0 ≤ pc ∧ pc.toNat < c.code.size
  · rw [dif_pos hpc] at h
    dsimp only at h
    split at h
    · cases h
    · rename_i hjump
      split at h
      · cases h
      · rename_i htarget
        split at h
        · cases h
        · rename_i hoff
          cases h
          simp only [Bool.or_eq_true, decide_eq_true_eq, not_or] at htarget hoff
          exact ⟨pc.toNat, hpc.2, by omega, by simpa using hjump, by omega, by omega, by omega,
            by omega, rfl⟩
  · rw [dif_neg hpc] at h
    cases h

theorem BodyOK.patchJump (h : c.BodyOK ng lim) (hlim : c.code.size ≤ lim) {pc target : Int}
    {c' : Chunk} (hp : c.patchJump pc target = .ok c') : c'.BodyOK ng lim := by
  obtain ⟨j, hj, rfl, hjump, h0, hle, lo, hi, rfl⟩ := patchJump_eq_retarget hp
  refine ⟨by simpa [retarget] using h.spans, h.registers_nonneg, h.registers_le, ?_,
    h.notifications⟩
  intro pc hpc
  have hpc' : pc < c.code.size := by simpa [retarget] using hpc
  by_cases hne : pc = j
  · subst hne
    have hget : (c.retarget pc hj (target - (pc + 1))).code[pc] =
        c.code[pc].withSBx (target - (pc + 1)) := by
      simp [retarget]
    obtain ⟨op, hop, hok⟩ := h.code pc hpc'
    rw [hget]
    refine ⟨op, by rw [Instruction.op?_withSBx, hop], ?_⟩
    have lands : (c.retarget pc hj (target - (pc + 1))).LandsWithin pc lim := by
      simp only [LandsWithin, jumpTarget_retarget_self lo hi]
      omega
    rw [hop] at hjump
    cases op <;> simp [Op.isJump] at hjump <;> simp only [OperandsOK] at hok ⊢
    case jmp => exact lands
    case forPrep | forLoop =>
      rw [Instruction.a_withSBx]
      exact ⟨hok.1, lands⟩
  · have hget : (c.retarget j hj (target - (j + 1))).code[pc] = c.code[pc] := by
      simp [retarget, Array.getElem_set_ne hj hpc' (Ne.symm hne)]
    obtain ⟨op, hop, hok⟩ := h.code pc hpc'
    rw [hget]
    exact ⟨op, hop, OperandsOK.retarget hne hok⟩
end Writing

theorem WellFormed.of_ret {ng : Nat} {pr : Int} {pcap : Nat} {c : Chunk}
    (hbody : c.BodyOK ng c.code.size) (hcap : ∀ cap ∈ c.captures, cap.Within pr pcap)
    (hprotos : ∀ p ∈ c.protos, p.WellFormed ng c.registers c.captures.size) (s : Span)
    (ls : Array LocalVar) :
    ({ c.emit (Instruction.abc Op.ret.code 0 0 0) s with locals := ls } : Chunk).WellFormed ng pr
      pcap := by
  have hret : (c.emit (Instruction.abc Op.ret.code 0 0 0) s).InstrOK ng c.code.size c.code.size
      (Instruction.abc Op.ret.code 0 0 0) :=
    ⟨.ret, Instruction.op?_abc _ _ _ _, fun hb => absurd (by simp [Instruction.b_abc,
      Instruction.bits]) hb⟩
  have hemit := hbody.emit (Nat.le_refl _) hret
  have hg : (c.emit (Instruction.abc Op.ret.code 0 0 0) s).Grows
      { c.emit (Instruction.abc Op.ret.code 0 0 0) s with locals := ls } :=
    ⟨fun _ _ => rfl, Nat.le_refl _, Int.le_refl _, Nat.le_refl _, Nat.le_refl _, Nat.le_refl _,
      Nat.le_refl _⟩
  refine ⟨?_, ?_, hcap, hprotos⟩
  · have := hemit.of_grows hg rfl rfl hemit.registers_le
      (fun n hn => NotifOK.grow hg (hemit.notifications n hn))
    simpa [Chunk.emit] using this
  · simp [Chunk.emit]

namespace WellFormed

variable {ng : Nat} {pr : Int} {pcap : Nat} {c : Chunk}

theorem body (h : c.WellFormed ng pr pcap) : c.BodyOK ng (c.code.size - 1) := by
  cases h with | intro body _ _ _ => exact body

theorem ends (h : c.WellFormed ng pr pcap) : (c.code.back?.bind Instruction.op?) = some .ret := by
  cases h with | intro _ ends _ _ => exact ends

theorem captures (h : c.WellFormed ng pr pcap) : ∀ cap ∈ c.captures, cap.Within pr pcap := by
  cases h with | intro _ _ captures _ => exact captures

theorem protos (h : c.WellFormed ng pr pcap) :
    ∀ p ∈ c.protos, p.WellFormed ng c.registers c.captures.size := by
  cases h with | intro _ _ _ protos => exact protos

theorem mono {ng' : Nat} {pr' : Int} {pcap' : Nat} (h : c.WellFormed ng pr pcap)
    (hng : ng ≤ ng') (hpr : pr ≤ pr') (hpcap : pcap ≤ pcap') : c.WellFormed ng' pr' pcap' := by
  induction h generalizing pr' pcap' with
  | intro body ends captures _ ih =>
    exact .intro (body.mono hng (Nat.le_refl _)) ends
      (fun cap hcap => Capture.Within.mono hpr hpcap (captures cap hcap))
      (fun p hp => ih p hp (Int.le_refl _) (Nat.le_refl _))

theorem withGlobals (h : c.WellFormed ng pr pcap) (gs : Array String) :
    ({ c with globals := gs } : Chunk).WellFormed ng pr pcap := by
  have hg : c.Grows { c with globals := gs } :=
    ⟨fun _ _ => rfl, Nat.le_refl _, Int.le_refl _, Nat.le_refl _, Nat.le_refl _, Nat.le_refl _,
      Nat.le_refl _⟩
  exact .intro (h.body.of_grows hg rfl rfl h.body.registers_le
    fun n hn => NotifOK.grow hg (h.body.notifications n hn)) h.ends h.captures h.protos

end WellFormed

/-! ## What validation checks

A chunk's own validation checks far less than well-formedness: jump targets, that a test is
followed by a jump, and the indices of `LOADK`, `CLOSURE` and `VISNOTIFY`. So it accepts every
well-formed chunk. -/

theorem checkAt_eq_none {c : Chunk} {ng lim pc : Nat} {i : Instruction} (hlim : lim < c.code.size)
    (h : c.InstrOK ng lim pc i) : c.checkAt pc i = none := by
  obtain ⟨op, hop, hok⟩ := h
  have hjump : (op.isJump && (decide (c.jumpTarget pc < 0) ||
      decide (c.jumpTarget pc ≥ c.code.size))) = false := by
    cases hj : op.isJump
    · rfl
    · have hl : c.LandsWithin pc lim := by
        simp only [Op.isJump, Bool.or_eq_true, beq_iff_eq] at hj
        rcases hj with (rfl | rfl) | rfl
        · exact hok
        · exact hok.2
        · exact hok.2
      simp only [LandsWithin] at hl
      simp only [Bool.true_and, Bool.or_eq_false_iff, decide_eq_false_iff_not]
      omega
  have htest : (op.isTest && !((c.code[pc + 1]?.bind Instruction.op?) == some Op.jmp)) =
      false := by
    cases ht : op.isTest
    · rfl
    · have hf : c.JumpFollows pc := by
        simp only [Op.isTest, Bool.or_eq_true, beq_iff_eq] at ht
        rcases ht with (((rfl | rfl) | rfl) | rfl) | rfl
        · exact hok.2.2.1
        · exact hok.2.2.1
        · exact hok.2.2.1
        · exact hok.2.2.1
        · exact hok.2.1
      simp only [JumpFollows] at hf
      simp [hf]
  simp only [checkAt, hop, hjump, htest, Bool.false_eq_true, if_false]
  cases op
  case loadK => exact if_neg (Nat.not_le.mpr hok.2)
  case closure => exact if_neg (Nat.not_le.mpr hok.2)
  case notify => exact if_neg (Nat.not_le.mpr hok)
  all_goals rfl

theorem WellFormed.validate_eq_none {c : Chunk} {ng : Nat} {pr : Int} {pcap : Nat}
    (h : c.WellFormed ng pr pcap) : c.validate = none := by
  induction h with
  | @intro _ _ c body _ _ _ ih =>
    rw [validate_eq]
    have hregs : ¬c.registers > registerLimit := Int.not_lt.mpr body.registers_le
    simp only [body.spans, bne_self_eq_false, Bool.false_eq_true, if_false, hregs]
    -- every instruction of the chunk's own code passes
    have hown : (List.range c.code.size).findSome?
        (fun pc => c.checkAt pc (c.code.getD pc default)) = none := by
      rw [List.findSome?_eq_none_iff]
      intro pc hpc
      have hpc : pc < c.code.size := List.mem_range.mp hpc
      rw [Array.getD_eq_getD_getElem?, Array.getElem?_eq_getElem hpc, Option.getD_some]
      exact checkAt_eq_none (by omega) (body.code pc hpc)
    rw [← body.spans, hown, Option.none_or, List.findSome?_eq_none_iff]
    intro p hp
    exact ih p (Array.mem_toList_iff.mp hp)

end Chunk

/-! ## Event sites of chosen kinds -/

def Notification.HeardBy (ks : List Kind) (n : Notification) : Prop := ∃ k ∈ ks, n.kind = k.code

namespace Chunk

/-- Every event site of the chunk, and of the chunks nested in it, is of one of the kinds
`ks`. -/
inductive Heard (ks : List Kind) : Chunk → Prop
  | intro {c : Chunk} (sites : ∀ n ∈ c.notifications, n.HeardBy ks)
      (protos : ∀ p ∈ c.protos, Heard ks p) : Heard ks c

namespace Heard

variable {ks : List Kind} {c c' : Chunk}

theorem sites (h : c.Heard ks) : ∀ n ∈ c.notifications, n.HeardBy ks := by
  cases h with | intro sites _ => exact sites

theorem protos (h : c.Heard ks) : ∀ p ∈ c.protos, p.Heard ks := by
  cases h with | intro _ protos => exact protos

theorem congr (h : c.Heard ks) (hn : c'.notifications = c.notifications)
    (hp : c'.protos = c.protos) : c'.Heard ks :=
  .intro (fun n hn' => h.sites n (hn ▸ hn')) fun p hp' => h.protos p (hp ▸ hp')

theorem of_empty (hn : c.notifications = #[]) (hp : c.protos = #[]) : c.Heard ks :=
  .intro (fun n h => by simp [hn] at h) fun p h => by simp [hp] at h

theorem pushNotification (h : c.Heard ks) {n : Notification} (hn : n.HeardBy ks) :
    ({ c with notifications := c.notifications.push n } : Chunk).Heard ks :=
  .intro (fun n' h' => (Array.mem_push.mp h').elim (h.sites n') fun e => e ▸ hn) h.protos

theorem pushProto (h : c.Heard ks) {p : Chunk} (hp : p.Heard ks) :
    ({ c with protos := c.protos.push p } : Chunk).Heard ks :=
  .intro h.sites fun p' h' => (Array.mem_push.mp h').elim (h.protos p') fun e => e ▸ hp

end Heard

/-- Every `VISNOTIFY` of the chunk, and of the chunks nested in it, names an event site of one
of the kinds `ks`. -/
inductive NotifiesOnly (ks : List Kind) : Chunk → Prop
  | intro {c : Chunk}
      (sites : ∀ pc (h : pc < c.code.size), c.code[pc].op? = some .notify →
        ∃ n, c.notifications[c.code[pc].bx]? = some n ∧ n.HeardBy ks)
      (protos : ∀ p ∈ c.protos, NotifiesOnly ks p) : NotifiesOnly ks c

theorem WellFormed.notifiesOnly {ks : List Kind} {c : Chunk} {ng : Nat} {pr : Int} {pcap : Nat}
    (h : c.WellFormed ng pr pcap) (hh : c.Heard ks) : c.NotifiesOnly ks := by
  induction h with
  | @intro _ _ c body _ _ _ ih =>
    refine .intro (fun pc hpc hop => ?_) fun p hp => ih p hp (hh.protos p hp)
    obtain ⟨op, hop', hok⟩ := body.code pc hpc
    rw [hop] at hop'
    cases hop'
    have hlt : c.code[pc].bx < c.notifications.size := hok
    exact ⟨_, Array.getElem?_eq_getElem hlt, hh.sites _ (Array.getElem_mem hlt)⟩

end Chunk

end ScriptMachine.Bytecode
