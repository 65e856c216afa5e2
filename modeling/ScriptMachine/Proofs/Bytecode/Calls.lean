import ScriptMachine.Proofs.Bytecode.WellFormed
/-!
# Calls between their event sites

A chunk brackets its calls when every call stands right after a call site (an event site of
kind `FuncCalled`) and right before a return site (`FuncReturned`), such sites stand nowhere
else, and control never enters a bracket other than by falling into it: no jump lands on a call
or on the return site after one, and no skip does. `Chunk.Bracketed` says this of a chunk and of
every chunk nested in it.
-/

namespace ScriptMachine.Bytecode

/-- Whether the instruction may skip the one after it: a test, or a `LOADBOOL` asked to. -/
def Instruction.skips (i : Instruction) : Bool :=
  match i.op? with
  | some op => op.isTest || (op == .loadBool && i.c != 0)
  | none => false

namespace Chunk

def opAt? (c : Chunk) (p : Nat) : Option Op := c.code[p]?.bind Instruction.op?

def callAt (c : Chunk) (p : Nat) : Bool := c.opAt? p == some .call

/-- Whether index `p` holds an event site of kind `k`. -/
def siteAt (c : Chunk) (p : Nat) (k : Kind) : Bool :=
  match c.code[p]? with
  | some i => i.op? == some .notify && (c.notifications[i.bx]?).any (·.kind == k.code)
  | none => false

def skipAt (c : Chunk) (p : Nat) : Bool := (c.code[p]?).any Instruction.skips

def jumpAt (c : Chunk) (p : Nat) : Bool := (c.opAt? p).any Op.isJump

/-- Whether the instruction at `p`, if it is an event site, names one that exists. -/
def siteKnown (c : Chunk) (p : Nat) : Bool :=
  match c.code[p]? with
  | some i => i.op? != some .notify || i.bx < c.notifications.size
  | none => true

/-- Whether control at `t` is inside a bracket past its call site: at the call, or at the
return site right after it. -/
def insideCall (c : Chunk) (t : Int) : Bool :=
  (0 ≤ t && c.callAt t.toNat) || (1 ≤ t && c.callAt (t.toNat - 1))

/-- Whether a jump may be sent to `t`: a point of the code so far, or its end, that does not
follow a call site or a call. -/
def entry (c : Chunk) (t : Int) : Bool :=
  0 ≤ t && t ≤ c.code.size &&
    (t == 0 || (!c.siteAt (t.toNat - 1) .funcCalled && !c.callAt (t.toNat - 1)))

/-- What index `p` of code still being written needs around calls. -/
def shapedAt (c : Chunk) (p : Nat) : Bool :=
  (!c.callAt p || (1 ≤ p && c.siteAt (p - 1) .funcCalled)) &&
  (!c.siteAt p .funcCalled || p + 1 == c.code.size || c.callAt (p + 1)) &&
  (!c.callAt p || p + 1 == c.code.size || c.siteAt (p + 1) .funcReturned) &&
  (!c.siteAt p .funcReturned || (1 ≤ p && c.callAt (p - 1))) &&
  (!c.jumpAt p || c.entry (c.jumpTarget p)) &&
  (!c.skipAt p || p + 1 == c.code.size ||
    (!c.siteAt (p + 1) .funcCalled && !c.callAt (p + 1))) &&
  c.siteKnown p

/-- The code is empty or ends outside every bracket, and not after a skip. -/
def calmEnd (c : Chunk) : Bool :=
  c.code.size == 0 ||
    (!c.siteAt (c.code.size - 1) .funcCalled && !c.callAt (c.code.size - 1) &&
      !c.skipAt (c.code.size - 1))

def callsBracketed (c : Chunk) : Bool := (List.range c.code.size).all c.shapedAt && c.calmEnd

/-- A chunk, and every chunk nested in it, brackets its calls. -/
inductive Bracketed : Chunk → Prop
  | intro {c : Chunk} (own : c.callsBracketed = true) (protos : ∀ p ∈ c.protos, Bracketed p) :
      Bracketed c

namespace Bracketed

variable {c : Chunk}

theorem own (h : c.Bracketed) : c.callsBracketed = true := by
  cases h with
  | intro own _ => exact own

theorem proto {p : Chunk} (h : c.Bracketed) (hp : p ∈ c.protos) : p.Bracketed := by
  cases h with
  | intro _ protos => exact protos p hp

end Bracketed

/-! ## Reading the shape -/

section Shape

variable {c : Chunk} {p : Nat}

theorem lt_of_opAt? {op : Op} (h : c.opAt? p = some op) : p < c.code.size :=
  Nat.lt_of_not_le fun hp => by simp [opAt?, Array.getElem?_eq_none hp] at h

theorem opAt?_of_callAt (h : c.callAt p = true) : c.opAt? p = some .call := by
  simpa [callAt] using h

theorem callAt_lt (h : c.callAt p = true) : p < c.code.size := lt_of_opAt? (opAt?_of_callAt h)

theorem siteAt_eq_true {k : Kind} : c.siteAt p k = true ↔
    ∃ i n, c.code[p]? = some i ∧ i.op? = some .notify ∧ c.notifications[i.bx]? = some n ∧
      n.kind = k.code := by
  unfold siteAt
  split
  · rename_i i hi
    simp [hi, Option.any_eq_true]
  · rename_i hi
    simp [hi]

theorem opAt?_of_siteAt {k : Kind} (h : c.siteAt p k = true) : c.opAt? p = some .notify := by
  obtain ⟨i, -, hi, hop, -⟩ := siteAt_eq_true.mp h
  simp [opAt?, hi, hop]

theorem siteAt_lt {k : Kind} (h : c.siteAt p k = true) : p < c.code.size :=
  lt_of_opAt? (opAt?_of_siteAt h)

theorem not_callAt_of_siteAt {k : Kind} (h : c.siteAt p k = true) : c.callAt p = false := by
  simp [callAt, opAt?_of_siteAt h]

theorem siteAt_unique {k k' : Kind} (h : c.siteAt p k = true) (h' : c.siteAt p k' = true) :
    k = k' := by
  obtain ⟨i, n, hi, -, hn, hk⟩ := siteAt_eq_true.mp h
  obtain ⟨i', n', hi', -, hn', hk'⟩ := siteAt_eq_true.mp h'
  rw [hi] at hi'
  cases hi'
  rw [hn] at hn'
  cases hn'
  have := congrArg Kind.ofCode? (hk.symm.trans hk')
  simpa [Kind.ofCode?_code] using this

theorem skipAt_lt (h : c.skipAt p = true) : p < c.code.size :=
  Nat.lt_of_not_le fun hp => by simp [skipAt, Array.getElem?_eq_none hp] at h

theorem jumpAt_lt (h : c.jumpAt p = true) : p < c.code.size :=
  Nat.lt_of_not_le fun hp => by simp [jumpAt, opAt?, Array.getElem?_eq_none hp] at h

theorem insideCall_natCast :
    c.insideCall p = (c.callAt p || (decide (1 ≤ p) && c.callAt (p - 1))) := by
  have h1 : decide ((1 : Int) ≤ p) = decide (1 ≤ p) := decide_eq_decide.mpr (by omega)
  simp [insideCall, h1]

theorem insideCall_succ : c.insideCall ((p : Int) + 1) = (c.callAt (p + 1) || c.callAt p) := by
  have h1 : ((p : Int) + 1).toNat = p + 1 := by omega
  simp only [insideCall, h1, Nat.add_sub_cancel, show (0 : Int) ≤ p + 1 by omega,
    show (1 : Int) ≤ p + 1 by omega, decide_true, Bool.true_and]

section Instruction

variable {i : Instruction} (hi : c.code[p]? = some i)
include hi

theorem callAt_of_getElem? : c.callAt p = (i.op? == some .call) := by
  simp [callAt, opAt?, hi]

theorem skipAt_of_getElem? : c.skipAt p = i.skips := by
  simp [skipAt, hi]

theorem jumpAt_of_getElem? : c.jumpAt p = (i.op?.any Op.isJump) := by
  simp [jumpAt, opAt?, hi]

theorem jumpTarget_of_getElem? : c.jumpTarget p = (p : Int) + 1 + i.sbx := by
  have hlt : p < c.code.size := (Array.getElem?_eq_some_iff.1 hi).1
  simp [jumpTarget, Array.getD, hlt, (Array.getElem?_eq_some_iff.1 hi).2]

theorem siteAt_of_getElem? (hop : i.op? = some .notify) {n : Notification}
    (hn : c.notifications[i.bx]? = some n) (k : Kind) : c.siteAt p k = (n.kind == k.code) := by
  simp [siteAt, hi, hop, hn]

end Instruction

theorem shapedAt_of_callsBracketed (h : c.callsBracketed = true) (hp : p < c.code.size) :
    c.shapedAt p = true := by
  simp only [callsBracketed, Bool.and_eq_true, List.all_eq_true, List.mem_range] at h
  exact h.1 p hp

theorem calm_last (h : c.callsBracketed = true) (hp : p + 1 = c.code.size) :
    c.siteAt p .funcCalled = false ∧ c.callAt p = false ∧ c.skipAt p = false := by
  simp only [callsBracketed, calmEnd, Bool.and_eq_true, Bool.or_eq_true, beq_iff_eq,
    Bool.not_eq_true'] at h
  have hlast : c.code.size - 1 = p := by omega
  rcases h.2 with hz | ⟨⟨hs, hc⟩, hk⟩
  · omega
  · rw [hlast] at hs hc hk
    exact ⟨hs, hc, hk⟩

theorem insideCall_call (hc : c.callAt p = true) :
    c.insideCall p = true ∧ c.insideCall ((p : Int) + 1) = true := by
  simp [insideCall_natCast, insideCall_succ, hc]

end Shape

/-! ## Brackets in finished code -/

section Finished

variable {c : Chunk} {p : Nat} (h : c.callsBracketed = true)
include h

theorem siteAt_before_call (hc : c.callAt p = true) :
    1 ≤ p ∧ c.siteAt (p - 1) .funcCalled = true := by
  have := shapedAt_of_callsBracketed h (callAt_lt hc)
  simp only [shapedAt, Bool.and_eq_true, Bool.or_eq_true, Bool.not_eq_true', decide_eq_true_eq]
    at this
  rcases this.1.1.1.1.1.1 with hn | hs
  · simp [hc] at hn
  · exact hs

theorem siteAt_after_call (hc : c.callAt p = true) : c.siteAt (p + 1) .funcReturned = true := by
  have hlt := callAt_lt hc
  have hnot : p + 1 ≠ c.code.size := fun he => by simp [(calm_last h he).2.1] at hc
  have := shapedAt_of_callsBracketed h hlt
  simp only [shapedAt, Bool.and_eq_true, Bool.or_eq_true, Bool.not_eq_true', beq_iff_eq] at this
  rcases this.1.1.1.1.2 with (hn | he) | hs
  · simp [hc] at hn
  · exact absurd he hnot
  · exact hs

theorem callAt_after_site (hs : c.siteAt p .funcCalled = true) : c.callAt (p + 1) = true := by
  have hlt := siteAt_lt hs
  have hnot : p + 1 ≠ c.code.size := fun he => by simp [(calm_last h he).1] at hs
  have := shapedAt_of_callsBracketed h hlt
  simp only [shapedAt, Bool.and_eq_true, Bool.or_eq_true, Bool.not_eq_true', beq_iff_eq] at this
  rcases this.1.1.1.1.1.2 with (hn | he) | hc
  · simp [hs] at hn
  · exact absurd he hnot
  · exact hc

theorem callAt_before_site (hs : c.siteAt p .funcReturned = true) :
    1 ≤ p ∧ c.callAt (p - 1) = true := by
  have := shapedAt_of_callsBracketed h (siteAt_lt hs)
  simp only [shapedAt, Bool.and_eq_true, Bool.or_eq_true, Bool.not_eq_true', decide_eq_true_eq]
    at this
  rcases this.1.1.1.2 with hn | hc
  · simp [hs] at hn
  · exact hc

theorem not_insideCall_jump (hj : c.jumpAt p = true) :
    c.insideCall (c.jumpTarget p) = false := by
  have hlt := jumpAt_lt hj
  have := shapedAt_of_callsBracketed h hlt
  simp only [shapedAt, Bool.and_eq_true] at this
  have hentry : c.entry (c.jumpTarget p) = true := by
    simpa [hj] using this.1.1.2
  generalize c.jumpTarget p = t at hentry ⊢
  simp only [entry, Bool.and_eq_true, decide_eq_true_eq, Bool.or_eq_true, beq_iff_eq,
    Bool.not_eq_true'] at hentry
  obtain ⟨⟨h0, hle⟩, hpred⟩ := hentry
  simp only [insideCall, Bool.or_eq_false_iff, Bool.and_eq_false_iff, decide_eq_false_iff_not,
    Int.not_le]
  refine ⟨?_, ?_⟩
  · -- a call at `t` would follow a call site at `t - 1`
    refine Or.inr (Bool.eq_false_iff.mpr fun hc => ?_)
    obtain ⟨h1, hs⟩ := siteAt_before_call h hc
    rcases hpred with ht | ⟨hs', -⟩
    · omega
    · rw [hs] at hs'
      cases hs'
  · rcases hpred with ht | ⟨-, hc⟩
    · exact Or.inl (by omega)
    · exact Or.inr hc

theorem not_insideCall_skip (hk : c.skipAt p = true) :
    c.insideCall ((p : Int) + 2) = false := by
  have hlt := skipAt_lt hk
  have hnot : p + 1 ≠ c.code.size := fun he => by simp [(calm_last h he).2.2] at hk
  have := shapedAt_of_callsBracketed h hlt
  simp only [shapedAt, Bool.and_eq_true, Bool.or_eq_true, Bool.not_eq_true', beq_iff_eq] at this
  obtain ⟨hs, hc⟩ : c.siteAt (p + 1) .funcCalled = false ∧ c.callAt (p + 1) = false := by
    rcases this.1.2 with (hn | he) | hsc
    · simp [hk] at hn
    · exact absurd he hnot
    · exact hsc
  have h2 : ((p : Int) + 2).toNat = p + 2 := by omega
  simp only [insideCall, h2, Bool.or_eq_false_iff, Bool.and_eq_false_iff]
  refine ⟨Or.inr (Bool.eq_false_iff.mpr fun hc2 => ?_), Or.inr (by simpa using hc)⟩
  obtain ⟨-, hs2⟩ := siteAt_before_call h hc2
  simp [hs] at hs2

theorem not_insideCall_next (hc : c.callAt p = false) (hs : c.siteAt p .funcCalled = false) :
    c.insideCall ((p : Int) + 1) = false := by
  have h1 : ((p : Int) + 1).toNat = p + 1 := by omega
  simp only [insideCall, h1, Bool.or_eq_false_iff, Bool.and_eq_false_iff]
  refine ⟨Or.inr (Bool.eq_false_iff.mpr fun hc1 => ?_), Or.inr (by simpa using hc)⟩
  obtain ⟨-, hs1⟩ := siteAt_before_call h hc1
  simp [hs] at hs1

theorem not_insideCall_plain (hc : c.callAt p = false) (hn : c.opAt? p ≠ some .notify) :
    c.insideCall p = false := by
  simp only [insideCall, Int.toNat_natCast, hc, Bool.and_false, Bool.false_or,
    Bool.and_eq_false_iff]
  by_cases h0 : 1 ≤ p
  · refine Or.inr (Bool.eq_false_iff.mpr fun hc' => ?_)
    have hs := siteAt_after_call h hc'
    rw [show p - 1 + 1 = p by omega] at hs
    exact hn (opAt?_of_siteAt hs)
  · exact Or.inl (by simp; omega)

theorem insideCall_site (hn : c.opAt? p = some .notify) :
    c.insideCall p = c.siteAt p .funcReturned := by
  have hc : c.callAt p = false := by simp [callAt, hn]
  apply Bool.eq_iff_iff.mpr
  simp only [insideCall, Int.toNat_natCast, hc, Bool.and_false, Bool.false_or, Bool.and_eq_true,
    decide_eq_true_eq]
  constructor
  · rintro ⟨h1, hc'⟩
    have hs := siteAt_after_call h hc'
    rwa [show p - 1 + 1 = p by omega] at hs
  · intro hs
    obtain ⟨h1, hc'⟩ := callAt_before_site h hs
    exact ⟨by omega, hc'⟩

theorem insideCall_after_site (hn : c.opAt? p = some .notify) :
    c.insideCall ((p : Int) + 1) = c.siteAt p .funcCalled := by
  have hc : c.callAt p = false := by simp [callAt, hn]
  rw [insideCall_succ, hc, Bool.or_false]
  apply Bool.eq_iff_iff.mpr
  constructor
  · intro hc1
    simpa using (siteAt_before_call h hc1).2
  · exact callAt_after_site h

theorem not_insideCall_zero : c.insideCall 0 = false := by
  have h0 : c.callAt 0 = false := Bool.eq_false_iff.mpr fun hc => by
    have := (siteAt_before_call h hc).1
    omega
  simp [insideCall, h0]

end Finished

end Chunk

end ScriptMachine.Bytecode
