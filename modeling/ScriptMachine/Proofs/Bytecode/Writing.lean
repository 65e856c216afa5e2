import ScriptMachine.Proofs.Bytecode.Calls
/-!
# Code being written keeps its calls bracketed

While the compiler writes a function, its code may end inside a bracket: right after a call
site, or right after the call. `Ending` says where code stops, and `Writing c e` that code `c`
is shaped so far (`Chunk.shapedAt` at every index) and stops as `e` says. A `NOTIFY` names its
event site by an 18-bit operand, so past `siteLimit` sites an index no longer names its own:
what `Writing` asks of the code is asked only while its sites fit, and `SitesNamed` says of a
finished chunk and the chunks nested in it that they do.
-/

namespace ScriptMachine.Bytecode

theorem Instruction.skips_op {i : Instruction} (h : i.skips = true) :
    ∃ op, i.op? = some op ∧ op ≠ .call ∧ op ≠ .notify ∧ op.isJump = false := by
  unfold Instruction.skips at h
  split at h
  · rename_i op hop
    refine ⟨op, hop, ?_⟩
    cases op <;> simp_all [Op.isTest, Op.isJump]
  · cases h

def Op.plain (op : Op) : Bool :=
  !op.isTest && op != .call && op != .notify && !op.isJump && op != .loadBool

theorem Instruction.skips_of_op {i : Instruction} {op : Op} (hop : i.op? = some op) :
    i.skips = (op.isTest || (op == .loadBool && i.c != 0)) := by
  simp [Instruction.skips, hop]

theorem Instruction.skips_abc_plain {op : Op} {a b c : Nat}
    (hp : op.plain = true ∨ op = .loadBool ∧ c = 0) :
    (Instruction.abc op.code a b c).skips = false := by
  rw [Instruction.skips_of_op (Instruction.op?_abc op a b c)]
  rcases hp with hp | ⟨rfl, rfl⟩
  · simp only [Op.plain, Bool.and_eq_true, Bool.not_eq_true', bne_iff_ne, ne_eq] at hp
    simp [hp.1.1.1.1, hp.2]
  · rw [Instruction.c_abc, Instruction.bits_ofNat_of_lt (w := 9) (a := 0) (by decide)]
    rfl

theorem Instruction.skips_abc_skip {op : Op} {a b c : Nat}
    (hk : op.isTest = true ∨ op = .loadBool ∧ c = 1) :
    (Instruction.abc op.code a b c).skips = true := by
  rw [Instruction.skips_of_op (Instruction.op?_abc op a b c)]
  rcases hk with hk | ⟨rfl, rfl⟩
  · simp [hk]
  · rw [Instruction.c_abc, Instruction.bits_ofNat_of_lt (w := 9) (a := 1) (by decide)]
    rfl

namespace Chunk

/-- How many event sites a `NOTIFY` can name: its `Bx` operand keeps 18 bits. -/
def siteLimit : Nat := 262144

/-- A chunk, and every chunk nested in it, has no more event sites than a `NOTIFY` can name. -/
inductive SitesNamed : Chunk → Prop
  | intro {c : Chunk} (own : c.notifications.size ≤ siteLimit)
      (protos : ∀ p ∈ c.protos, SitesNamed p) : SitesNamed c

theorem SitesNamed.own {c : Chunk} (h : c.SitesNamed) : c.notifications.size ≤ siteLimit := by
  cases h with
  | intro own _ => exact own

theorem SitesNamed.proto {c p : Chunk} (h : c.SitesNamed) (hp : p ∈ c.protos) : p.SitesNamed := by
  cases h with
  | intro _ protos => exact protos p hp

mutual

def sitesFit : Chunk → Bool
  | c@{ protos := ⟨ps⟩, .. } => decide (c.notifications.size ≤ siteLimit) && sitesFitAll ps

def sitesFitAll : List Chunk → Bool
  | [] => true
  | p :: ps => sitesFit p && sitesFitAll ps

end

theorem sitesFitAll_eq (ps : List Chunk) : sitesFitAll ps = ps.all sitesFit := by
  induction ps with
  | nil => rfl
  | cons p ps ih => rw [sitesFitAll, List.all_cons, ih]

theorem sitesFit_eq (c : Chunk) :
    c.sitesFit = (decide (c.notifications.size ≤ siteLimit) && c.protos.toList.all sitesFit) := by
  obtain ⟨version, name, params, registers, code, spans, spansListed, constants, notifications,
    ⟨ps⟩, globals, captures, locals⟩ := c
  rw [sitesFit, sitesFitAll_eq]

theorem SitesNamed.of_sitesFit (c : Chunk) (h : c.sitesFit = true) : c.SitesNamed := by
  rw [sitesFit_eq, Bool.and_eq_true, decide_eq_true_eq, List.all_eq_true] at h
  exact .intro h.1 fun p hp => SitesNamed.of_sitesFit p (h.2 p (Array.mem_toList_iff.mpr hp))
termination_by c
decreasing_by
  have := Array.sizeOf_lt_of_mem hp
  cases c
  simp_all
  omega

/-- Where code being written stops: outside every bracket, after a skip, after a call site, or
after the call it announces. -/
inductive Ending where
  | calm
  | skip
  | site
  | call

/-- The code so far stops as `e` says. -/
def Ends (c : Chunk) : Ending → Prop
  | .calm => c.calmEnd = true
  | .skip => ∃ p, p + 1 = c.code.size ∧ c.skipAt p = true
  | .site => ∃ p, p + 1 = c.code.size ∧ c.siteAt p .funcCalled = true
  | .call => ∃ p, p + 1 = c.code.size ∧ c.callAt p = true

/-- Code being written that brackets its calls so far and stops as `e` says, while its event
sites can all be named; every `NOTIFY` names a site that exists, and every finished chunk
nested in it brackets its calls where its sites can be named. -/
structure Writing (c : Chunk) (e : Ending) : Prop where
  known : ∀ p < c.code.size, c.siteKnown p = true
  shaped : c.notifications.size ≤ siteLimit →
    (∀ p < c.code.size, c.shapedAt p = true) ∧ c.Ends e
  protos : ∀ q ∈ c.protos, q.SitesNamed → q.Bracketed

/-- Earlier code inside later code: every earlier index keeps its opcode and its event site,
and the table of event sites only grows. -/
structure Extends (c c' : Chunk) : Prop where
  size : c.code.size ≤ c'.code.size
  op : ∀ p < c.code.size, c'.opAt? p = c.opAt? p
  site : ∀ p < c.code.size, ∀ k, c'.siteAt p k = c.siteAt p k
  sites : c.notifications.size ≤ c'.notifications.size

section Reading

variable {c : Chunk} {p : Nat}

theorem opAt?_of_le (hp : c.code.size ≤ p) : c.opAt? p = none := by
  simp [opAt?, Array.getElem?_eq_none hp]

theorem callAt_of_le (hp : c.code.size ≤ p) : c.callAt p = false := by
  simp [callAt, opAt?_of_le hp]

theorem siteAt_of_le (hp : c.code.size ≤ p) (k : Kind) : c.siteAt p k = false := by
  simp [siteAt, Array.getElem?_eq_none hp]

theorem skipAt_of_le (hp : c.code.size ≤ p) : c.skipAt p = false := by
  simp [skipAt, Array.getElem?_eq_none hp]

theorem callAt_eq_of_opAt? {c' : Chunk} {q : Nat} (h : c'.opAt? q = c.opAt? q) :
    c'.callAt q = c.callAt q := by
  simp [callAt, h]

theorem jumpAt_eq_of_opAt? {c' : Chunk} {q : Nat} (h : c'.opAt? q = c.opAt? q) :
    c'.jumpAt q = c.jumpAt q := by
  simp [jumpAt, h]

theorem skipAt_quiet (h : c.skipAt p = true) : c.callAt p = false ∧ ∀ k, c.siteAt p k = false := by
  cases hi : c.code[p]? with
  | none => simp [skipAt, hi] at h
  | some i =>
    rw [skipAt_of_getElem? hi] at h
    unfold Instruction.skips at h
    split at h
    · rename_i op hop
      have hne : op ≠ .call ∧ op ≠ .notify := by
        cases op <;> simp_all [Op.isTest]
      refine ⟨by simp [callAt_of_getElem? hi, hop, hne.1], fun k => ?_⟩
      simp [siteAt, hi, hop, hne.2]
    · cases h

end Reading

namespace Extends

variable {c c' c'' : Chunk}

theorem refl (c : Chunk) : c.Extends c :=
  ⟨Nat.le_refl _, fun _ _ => rfl, fun _ _ _ => rfl, Nat.le_refl _⟩

theorem trans (h : c.Extends c') (h' : c'.Extends c'') : c.Extends c'' where
  size := Nat.le_trans h.size h'.size
  op p hp := (h'.op p (Nat.lt_of_lt_of_le hp h.size)).trans (h.op p hp)
  site p hp k := (h'.site p (Nat.lt_of_lt_of_le hp h.size) k).trans (h.site p hp k)
  sites := Nat.le_trans h.sites h'.sites

theorem callAt (h : c.Extends c') {p : Nat} (hp : p < c.code.size) :
    c'.callAt p = c.callAt p :=
  callAt_eq_of_opAt? (h.op p hp)

theorem entry (h : c.Extends c') {t : Int} (ht : c.entry t = true) : c'.entry t = true := by
  simp only [Chunk.entry, Bool.and_eq_true, decide_eq_true_eq, Bool.or_eq_true, beq_iff_eq,
    Bool.not_eq_true'] at ht ⊢
  obtain ⟨⟨h0, hle⟩, hpred⟩ := ht
  refine ⟨⟨h0, Int.le_trans hle (by exact_mod_cast h.size)⟩, ?_⟩
  rcases hpred with hz | ⟨hs, hc⟩
  · exact Or.inl hz
  · by_cases hz : t = 0
    · exact Or.inl hz
    have hlt : t.toNat - 1 < c.code.size := by omega
    exact Or.inr ⟨(h.site _ hlt _).trans hs, (h.callAt hlt).trans hc⟩

theorem entry_of_fits (h : c.Extends c') {t : Int}
    (ht : c.notifications.size ≤ siteLimit → c.entry t = true) :
    c'.notifications.size ≤ siteLimit → c'.entry t = true :=
  fun hfit => h.entry (ht (Nat.le_trans h.sites hfit))

end Extends

/-! ### What the shape at an index reads -/

section Agree

variable {c c' : Chunk} {p q : Nat}

theorem opAt?_congr (h : c'.code[q]? = c.code[q]?) : c'.opAt? q = c.opAt? q := by
  simp [opAt?, h]

theorem skipAt_congr (h : c'.code[q]? = c.code[q]?) : c'.skipAt q = c.skipAt q := by
  simp [skipAt, h]

theorem siteAt_congr (h : c'.code[q]? = c.code[q]?) (hn : c'.notifications = c.notifications)
    (k : Kind) : c'.siteAt q k = c.siteAt q k := by
  simp [siteAt, h, hn]

theorem siteKnown_congr (h : c'.code[q]? = c.code[q]?) (hn : c'.notifications = c.notifications) :
    c'.siteKnown q = c.siteKnown q := by
  simp [siteKnown, h, hn]

theorem Extends.of_grows (hg : c.Grows c') (hn : c'.notifications = c.notifications) :
    c.Extends c' where
  size := hg.code_size
  op p hp := opAt?_congr (hg.code p hp)
  site p hp k := siteAt_congr (hg.code p hp) hn k
  sites := Nat.le_of_eq (by rw [hn])

theorem shapedAt_of_agree (hext : c.Extends c')
    (hskip : ∀ q < c.code.size, c'.skipAt q = c.skipAt q)
    (hsize : p + 1 < c.code.size ∨ c'.code.size = c.code.size)
    (hknown : c'.siteKnown p = true)
    (hentry : c.jumpAt p = true → c.entry (c.jumpTarget p) = true →
      c'.entry (c'.jumpTarget p) = true)
    (h : c.shapedAt p = true) : c'.shapedAt p = true := by
  -- below the old end the instructions agree by `hext`; past it both codes have none
  have agree : ∀ q ≤ p + 1, c'.opAt? q = c.opAt? q ∧ (∀ k, c'.siteAt q k = c.siteAt q k) ∧
      c'.skipAt q = c.skipAt q := by
    intro q hq
    by_cases hlt : q < c.code.size
    · exact ⟨hext.op q hlt, hext.site q hlt, hskip q hlt⟩
    · have hle : c.code.size ≤ q := Nat.le_of_not_lt hlt
      have hle' : c'.code.size ≤ q := by
        rcases hsize with hs | hs
        · omega
        · omega
      exact ⟨by rw [opAt?_of_le hle, opAt?_of_le hle'],
        fun k => by rw [siteAt_of_le hle, siteAt_of_le hle'],
        by rw [skipAt_of_le hle, skipAt_of_le hle']⟩
  have hend : (p + 1 == c'.code.size) = (p + 1 == c.code.size) := by
    rcases hsize with hlt | heq
    · have h1 : p + 1 ≠ c.code.size := by omega
      have h2 : p + 1 ≠ c'.code.size := by have := hext.size; omega
      rw [beq_false_of_ne h1, beq_false_of_ne h2]
    · rw [heq]
  obtain ⟨hop0, hs0, -⟩ := agree (p - 1) (by omega)
  obtain ⟨hop1, hs1, hk1⟩ := agree p (by omega)
  obtain ⟨hop2, hs2, -⟩ := agree (p + 1) (Nat.le_refl _)
  simp only [shapedAt, Bool.and_eq_true] at h ⊢
  obtain ⟨⟨⟨⟨⟨⟨h1, h2⟩, h3⟩, h4⟩, h5⟩, h6⟩, -⟩ := h
  simp only [callAt_eq_of_opAt? hop0, callAt_eq_of_opAt? hop1, callAt_eq_of_opAt? hop2, hs0, hs1,
    hs2, hk1, hend, jumpAt_eq_of_opAt? hop1]
  refine ⟨⟨⟨⟨⟨⟨h1, h2⟩, h3⟩, h4⟩, ?_⟩, h6⟩, hknown⟩
  -- a jump at `p` still lands where a jump may be sent
  cases hj : c.jumpAt p
  · rfl
  · simp only [hj, Bool.not_true, Bool.false_or] at h5 ⊢
    exact hentry hj h5

end Agree

/-! ### Appending an instruction -/

section Emit

variable {c : Chunk} {i : Instruction} {s : Span} {p : Nat}

theorem extends_emit (c : Chunk) (i : Instruction) (s : Span) : c.Extends (c.emit i s) :=
  Extends.of_grows (grows_emit c i s) rfl

theorem shapedAt_emit (h : c.shapedAt p = true) (hp : p + 1 < c.code.size) :
    (c.emit i s).shapedAt p = true := by
  have hlt : p < c.code.size := by omega
  have hknown : c.siteKnown p = true := by
    simp only [shapedAt, Bool.and_eq_true] at h
    exact h.2
  refine shapedAt_of_agree (extends_emit c i s)
    (fun q hq => skipAt_congr (getElem?_emit_lt c i s hq)) (Or.inl hp) ?_ ?_ h
  · rwa [siteKnown_congr (getElem?_emit_lt c i s hlt) rfl]
  · intro _ he
    rw [(grows_emit c i s).jumpTarget_eq hlt]
    exact (extends_emit c i s).entry he

theorem callAt_emit_self : (c.emit i s).callAt c.code.size = (i.op? == some .call) :=
  callAt_of_getElem? (getElem?_emit_self c i s)

theorem skipAt_emit_self : (c.emit i s).skipAt c.code.size = i.skips :=
  skipAt_of_getElem? (getElem?_emit_self c i s)

theorem jumpAt_emit_self : (c.emit i s).jumpAt c.code.size = i.op?.any Op.isJump :=
  jumpAt_of_getElem? (getElem?_emit_self c i s)

theorem jumpTarget_emit_self :
    (c.emit i s).jumpTarget c.code.size = (c.code.size : Int) + 1 + i.sbx :=
  jumpTarget_of_getElem? (getElem?_emit_self c i s)

theorem siteAt_emit_self_of_ne (hop : i.op? ≠ some .notify) (k : Kind) :
    (c.emit i s).siteAt c.code.size k = false := by
  unfold siteAt
  rw [getElem?_emit_self]
  simp [hop]

theorem siteKnown_emit_self_of_ne (hop : i.op? ≠ some .notify) :
    (c.emit i s).siteKnown c.code.size = true := by
  unfold siteKnown
  rw [getElem?_emit_self]
  simp [hop]

theorem shapedAt_emit_last (h : c.shapedAt p = true) (hp : p + 1 = c.code.size)
    (hsite : c.siteAt p .funcCalled = true → (c.emit i s).callAt (p + 1) = true)
    (hcall : c.callAt p = true → (c.emit i s).siteAt (p + 1) .funcReturned = true)
    (hskip : c.skipAt p = true → (c.emit i s).siteAt (p + 1) .funcCalled = false ∧
      (c.emit i s).callAt (p + 1) = false) :
    (c.emit i s).shapedAt p = true := by
  have hlt : p < c.code.size := by omega
  have e0 := getElem?_emit_lt c i s (show p - 1 < c.code.size by omega)
  have e1 := getElem?_emit_lt c i s hlt
  simp only [shapedAt, Bool.and_eq_true] at h ⊢
  obtain ⟨⟨⟨⟨⟨⟨h1, -⟩, -⟩, h4⟩, h5⟩, -⟩, h7⟩ := h
  simp only [callAt_eq_of_opAt? (opAt?_congr e0), callAt_eq_of_opAt? (opAt?_congr e1),
    siteAt_congr e0 rfl, siteAt_congr e1 rfl, skipAt_congr e1, jumpAt_eq_of_opAt? (opAt?_congr e1),
    siteKnown_congr e1 rfl, (grows_emit c i s).jumpTarget_eq hlt]
  refine ⟨⟨⟨⟨⟨⟨h1, ?_⟩, ?_⟩, h4⟩, ?_⟩, ?_⟩, h7⟩
  · cases hb : c.siteAt p .funcCalled
    · rfl
    · simp [hsite hb]
  · cases hb : c.callAt p
    · rfl
    · simp [hcall hb]
  · cases hj : c.jumpAt p
    · rfl
    · simp only [hj, Bool.not_true, Bool.false_or] at h5 ⊢
      exact (extends_emit c i s).entry h5
  · cases hb : c.skipAt p
    · rfl
    · simp [(hskip hb).1, (hskip hb).2]

theorem shapedAt_emit_new
    (hcall : i.op? = some .call → 1 ≤ c.code.size ∧
      c.siteAt (c.code.size - 1) .funcCalled = true)
    (hret : (c.emit i s).siteAt c.code.size .funcReturned = true →
      1 ≤ c.code.size ∧ c.callAt (c.code.size - 1) = true)
    (hjump : i.op?.any Op.isJump = true →
      (c.emit i s).entry ((c.code.size : Int) + 1 + i.sbx) = true)
    (hknown : (c.emit i s).siteKnown c.code.size = true) :
    (c.emit i s).shapedAt c.code.size = true := by
  have hend : (c.code.size + 1 == (c.emit i s).code.size) = true := by simp
  simp only [shapedAt, Bool.and_eq_true, hend, Bool.or_true, Bool.true_or, and_true,
    callAt_emit_self, jumpAt_emit_self, jumpTarget_emit_self, hknown]
  refine ⟨⟨?_, ?_⟩, ?_⟩
  · cases hop : i.op? == some .call
    · rfl
    · obtain ⟨h1, hs⟩ := hcall (by simpa using hop)
      have e0 := getElem?_emit_lt c i s (show c.code.size - 1 < c.code.size by omega)
      rw [siteAt_congr e0 rfl, hs]
      simpa using h1
  · cases hr : (c.emit i s).siteAt c.code.size .funcReturned
    · rfl
    · obtain ⟨h1, hc⟩ := hret hr
      have e0 := getElem?_emit_lt c i s (show c.code.size - 1 < c.code.size by omega)
      rw [callAt_eq_of_opAt? (opAt?_congr e0), hc]
      simpa using h1
  · cases hj : i.op?.any Op.isJump
    · rfl
    · simpa using hjump hj

end Emit

/-! ### Writing code -/

/-- What code ending as `e` needs of the instruction at `n` that comes next: nothing outside a
bracket, no call and no call site after a skip, the call after a call site, and the return site
after a call. -/
def Ending.Admits (c : Chunk) (n : Nat) : Ending → Prop
  | .calm => True
  | .skip => c.siteAt n .funcCalled = false ∧ c.callAt n = false
  | .site => c.callAt n = true
  | .call => c.siteAt n .funcReturned = true

section Writing

variable {c c' : Chunk} {e e' : Ending} {i : Instruction} {s : Span} {p : Nat}

theorem siteAt_of_opAt? (h : c.opAt? p ≠ some .notify) (k : Kind) : c.siteAt p k = false :=
  Bool.eq_false_iff.mpr fun hs => h (opAt?_of_siteAt hs)

theorem Ends.last {e : Ending} (h : c.Ends e) (hp : p + 1 = c.code.size) :
    match e with
    | .calm => c.siteAt p .funcCalled = false ∧ c.callAt p = false ∧ c.skipAt p = false
    | .skip => c.skipAt p = true
    | .site => c.siteAt p .funcCalled = true
    | .call => c.callAt p = true := by
  cases e with
  | calm =>
    simp only [Ends, calmEnd, Bool.or_eq_true, beq_iff_eq, Bool.and_eq_true, Bool.not_eq_true']
      at h
    rcases h with hz | ⟨⟨hs, hc⟩, hk⟩
    · omega
    · rw [show c.code.size - 1 = p by omega] at hs hc hk
      exact ⟨hs, hc, hk⟩
  | skip =>
    obtain ⟨q, hq, hk⟩ := h
    rwa [show p = q by omega]
  | site =>
    obtain ⟨q, hq, hk⟩ := h
    rwa [show p = q by omega]
  | call =>
    obtain ⟨q, hq, hk⟩ := h
    rwa [show p = q by omega]

theorem entry_succ (hp : p < c.code.size) (hs : c.siteAt p .funcCalled = false)
    (hc : c.callAt p = false) : c.entry ((p : Int) + 1) = true := by
  have h1 : ((p : Int) + 1).toNat - 1 = p := by omega
  simp only [entry, h1, hs, hc, Bool.not_false, Bool.and_true, Bool.or_true]
  simp only [Bool.and_eq_true, decide_eq_true_eq]
  omega

theorem Ends.entry_size {e : Ending} (h : c.Ends e) (he : e = .calm ∨ e = .skip) :
    c.entry c.code.size = true := by
  by_cases hz : c.code.size = 0
  · simp [entry, hz]
  have hp : c.code.size - 1 + 1 = c.code.size := by omega
  have hlast := h.last hp
  have hsize : ((c.code.size : Nat) : Int) = ((c.code.size - 1 : Nat) : Int) + 1 := by omega
  rw [hsize]
  rcases he with rfl | rfl
  · exact entry_succ (by omega) hlast.1 hlast.2.1
  · obtain ⟨hc, hs⟩ := skipAt_quiet hlast
    exact entry_succ (by omega) (hs _) hc

theorem shapedAt_emit_of_ends (h : c.shapedAt p = true) (hp : p + 1 = c.code.size)
    (he : c.Ends e) (hadm : e.Admits (c.emit i s) c.code.size) :
    (c.emit i s).shapedAt p = true := by
  have hlast := he.last hp
  rw [← hp] at hadm
  cases e with
  | calm =>
    obtain ⟨hs, hc, hk⟩ := hlast
    exact shapedAt_emit_last h hp (by simp [hs]) (by simp [hc]) (by simp [hk])
  | skip =>
    obtain ⟨hc, hs⟩ := skipAt_quiet hlast
    exact shapedAt_emit_last h hp (by simp [hs]) (by simp [hc]) (fun _ => hadm)
  | site =>
    have hc := not_callAt_of_siteAt hlast
    have hk : c.skipAt p = false := Bool.eq_false_iff.mpr fun hk => by
      simp [(skipAt_quiet hk).2] at hlast
    exact shapedAt_emit_last h hp (fun _ => hadm) (by simp [hc]) (by simp [hk])
  | call =>
    have hs : c.siteAt p .funcCalled = false := Bool.eq_false_iff.mpr fun hs => by
      simp [not_callAt_of_siteAt hs] at hlast
    have hk : c.skipAt p = false := Bool.eq_false_iff.mpr fun hk => by
      simp [(skipAt_quiet hk).1] at hlast
    exact shapedAt_emit_last h hp (by simp [hs]) (fun _ => hadm) (by simp [hk])

theorem calmEnd_emit : (c.emit i s).calmEnd =
    (!(c.emit i s).siteAt c.code.size .funcCalled && !(c.emit i s).callAt c.code.size &&
      !(c.emit i s).skipAt c.code.size) := by
  simp [calmEnd]

theorem Writing.emit_of (h : c.Writing e)
    (hknown : (c.emit i s).siteKnown c.code.size = true)
    (hnext : c.notifications.size ≤ siteLimit → c.Ends e →
      e.Admits (c.emit i s) c.code.size ∧ (c.emit i s).shapedAt c.code.size = true ∧
        (c.emit i s).Ends e') :
    (c.emit i s).Writing e' where
  known p hp := by
    rw [code_size_emit] at hp
    rcases Nat.lt_succ_iff_lt_or_eq.mp hp with hlt | rfl
    · rw [siteKnown_congr (getElem?_emit_lt c i s hlt) rfl]
      exact h.known p hlt
    · exact hknown
  shaped hfit := by
    obtain ⟨hshaped, hends⟩ := h.shaped hfit
    obtain ⟨hadm, hnew, hends'⟩ := hnext hfit hends
    refine ⟨fun p hp => ?_, hends'⟩
    rw [code_size_emit] at hp
    rcases Nat.lt_succ_iff_lt_or_eq.mp hp with hlt | rfl
    · by_cases hl : p + 1 < c.code.size
      · exact shapedAt_emit (hshaped p hlt) hl
      · exact shapedAt_emit_of_ends (hshaped p hlt) (by omega) hends hadm
    · exact hnew
  protos := h.protos

/-- An instruction that neither calls, nor is an event site, nor skips, written outside every
bracket or after a skip; a jump lands where a jump may be sent. -/
theorem Writing.emit_plain (h : c.Writing e) (he : e = .calm ∨ e = .skip) {op : Op}
    (hop : i.op? = some op) (hcall : op ≠ .call) (hnotify : op ≠ .notify)
    (hskip : i.skips = false)
    (hjump : op.isJump = true → (c.emit i s).entry ((c.code.size : Int) + 1 + i.sbx) = true) :
    (c.emit i s).Writing .calm := by
  have hnot : i.op? ≠ some .notify := by
    rw [hop]
    simpa using hnotify
  have hc : (c.emit i s).callAt c.code.size = false := by
    rw [callAt_emit_self, hop]
    simpa using hcall
  refine h.emit_of (siteKnown_emit_self_of_ne hnot) fun _ _ => ⟨?_, ?_, ?_⟩
  · rcases he with rfl | rfl
    · trivial
    · exact ⟨siteAt_emit_self_of_ne hnot _, hc⟩
  · refine shapedAt_emit_new (fun h' => absurd (Option.some.inj (hop.symm.trans h')) hcall)
      (fun hs => by simp [siteAt_emit_self_of_ne hnot] at hs)
      (fun hj => hjump (by simpa [hop] using hj)) (siteKnown_emit_self_of_ne hnot)
  · show calmEnd _ = true
    simp [calmEnd_emit, siteAt_emit_self_of_ne hnot, hc, skipAt_emit_self, hskip]

theorem Writing.emit_skip (h : c.Writing .calm) (hskip : i.skips = true) :
    (c.emit i s).Writing .skip := by
  obtain ⟨op, hop, hcall, hnotify, hjump⟩ := Instruction.skips_op hskip
  have hnot : i.op? ≠ some .notify := by
    rw [hop]
    simpa using hnotify
  refine h.emit_of (siteKnown_emit_self_of_ne hnot) fun _ _ => ⟨trivial, ?_, ?_⟩
  · refine shapedAt_emit_new (fun h' => absurd (Option.some.inj (hop.symm.trans h')) hcall)
      (fun hs => by simp [siteAt_emit_self_of_ne hnot] at hs)
      (fun hj => by simp [hop, hjump] at hj) (siteKnown_emit_self_of_ne hnot)
  · exact ⟨c.code.size, by simp, by rw [skipAt_emit_self, hskip]⟩

theorem Writing.emit_call (h : c.Writing .site) (hop : i.op? = some .call) :
    (c.emit i s).Writing .call := by
  have hnot : i.op? ≠ some .notify := by simp [hop]
  have hc : (c.emit i s).callAt c.code.size = true := by simp [callAt_emit_self, hop]
  refine h.emit_of (siteKnown_emit_self_of_ne hnot) fun _ hends => ⟨hc, ?_, ⟨c.code.size, by simp, hc⟩⟩
  obtain ⟨q, hq, hs⟩ := hends
  refine shapedAt_emit_new (fun _ => ⟨by omega, by rwa [show c.code.size - 1 = q by omega]⟩)
    (fun hs => by simp [siteAt_emit_self_of_ne hnot] at hs)
    (fun hj => by simp [hop, Op.isJump] at hj) (siteKnown_emit_self_of_ne hnot)

theorem Ends.of_agree (h : c.Ends e) (hop : ∀ q < c.code.size, c'.opAt? q = c.opAt? q)
    (hsite : ∀ q < c.code.size, ∀ k, c'.siteAt q k = c.siteAt q k)
    (hsize : c'.code.size = c.code.size)
    (hskip : ∀ q < c.code.size, c'.skipAt q = c.skipAt q) : c'.Ends e := by
  cases e with
  | calm =>
    simp only [Ends, calmEnd, Bool.or_eq_true, beq_iff_eq, Bool.and_eq_true,
      Bool.not_eq_true'] at h ⊢
    rw [hsize]
    by_cases hz : c.code.size = 0
    · exact Or.inl hz
    have hlt : c.code.size - 1 < c.code.size := by omega
    rw [hsite _ hlt, callAt_eq_of_opAt? (hop _ hlt), hskip _ hlt]
    exact h
  | skip =>
    obtain ⟨q, hq, hk⟩ := h
    exact ⟨q, by omega, by rw [hskip q (by omega), hk]⟩
  | site =>
    obtain ⟨q, hq, hk⟩ := h
    exact ⟨q, by omega, by rw [hsite q (by omega), hk]⟩
  | call =>
    obtain ⟨q, hq, hk⟩ := h
    exact ⟨q, by omega, by rw [callAt_eq_of_opAt? (hop q (by omega)), hk]⟩

end Writing

/-! ### Event sites -/

section Sites

variable {c : Chunk} {e : Ending} {p : Nat}

theorem siteKnown_of_getElem? {i : Instruction} (hi : c.code[p]? = some i) :
    c.siteKnown p = (i.op? != some .notify || decide (i.bx < c.notifications.size)) := by
  simp [siteKnown, hi]

theorem siteAt_pushNotification (hk : c.siteKnown p = true) (n : Notification) (k : Kind) :
    { c with notifications := c.notifications.push n }.siteAt p k = c.siteAt p k := by
  cases hi : c.code[p]? with
  | none => simp [siteAt, hi]
  | some i =>
    rw [siteKnown_of_getElem? hi] at hk
    by_cases hop : i.op? = some .notify
    · have hbx : i.bx < c.notifications.size := by simpa [hop] using hk
      simp only [siteAt, hi]
      rw [Array.getElem?_push_lt hbx, Array.getElem?_eq_getElem hbx]
    · have hne : (i.op? == some Op.notify) = false := by simpa using hop
      simp [siteAt, hi, hne]

theorem siteKnown_pushNotification (hk : c.siteKnown p = true) (n : Notification) :
    { c with notifications := c.notifications.push n }.siteKnown p = true := by
  cases hi : c.code[p]? with
  | none => simp [siteKnown, hi]
  | some i =>
    rw [siteKnown_of_getElem? hi] at hk
    rw [siteKnown_of_getElem? (c := { c with notifications := c.notifications.push n }) hi]
    simp only [Bool.or_eq_true, decide_eq_true_eq] at hk ⊢
    simp only [Array.size_push]
    rcases hk with hk | hk
    · exact Or.inl hk
    · exact Or.inr (by omega)

theorem extends_pushNotification (hk : ∀ p < c.code.size, c.siteKnown p = true)
    (n : Notification) : c.Extends { c with notifications := c.notifications.push n } :=
  ⟨Nat.le_refl _, fun _ _ => rfl, fun p hp k => siteAt_pushNotification (hk p hp) n k,
    by simp⟩

theorem Writing.pushNotification (h : c.Writing e) (n : Notification) :
    { c with notifications := c.notifications.push n }.Writing e where
  known p hp := siteKnown_pushNotification (h.known p hp) n
  shaped hfit := by
    have hext := extends_pushNotification h.known n
    have hfit' : c.notifications.size ≤ siteLimit := by
      have : (c.notifications.push n).size ≤ siteLimit := hfit
      simp only [Array.size_push] at this
      omega
    obtain ⟨hshaped, hends⟩ := h.shaped hfit'
    exact ⟨fun p hp => shapedAt_of_agree hext (fun _ _ => rfl) (Or.inr rfl)
      (siteKnown_pushNotification (h.known p hp) n) (fun _ he => hext.entry he) (hshaped p hp),
      hends.of_agree hext.op hext.site rfl fun _ _ => rfl⟩
  protos := h.protos

theorem siteAt_notify (hfit : c.notifications.size < siteLimit) (n : Notification) (s : Span)
    (k : Kind) :
    ({ c with notifications := c.notifications.push n }.emit
      (Instruction.abx Op.notify.code 0 c.notifications.size) s).siteAt c.code.size k =
      (n.kind == k.code) := by
  have hbx : (Instruction.abx Op.notify.code 0 c.notifications.size).bx =
      c.notifications.size := by
    rw [Instruction.bx_abx, Instruction.bits_ofNat_of_lt hfit]
  exact siteAt_of_getElem?
    (getElem?_emit_self { c with notifications := c.notifications.push n } _ s)
    (Instruction.op?_abx _ _ _) (by rw [hbx]; exact Array.getElem?_push_size) k

theorem siteKnown_notify (n : Notification) (s : Span) :
    ({ c with notifications := c.notifications.push n }.emit
      (Instruction.abx Op.notify.code 0 c.notifications.size) s).siteKnown c.code.size = true := by
  have hle := Instruction.bx_abx_le Op.notify.code 0 c.notifications.size
  rw [siteKnown_of_getElem?
    (getElem?_emit_self { c with notifications := c.notifications.push n } _ s)]
  simp only [Bool.or_eq_true, decide_eq_true_eq, notifications_emit, Array.size_push]
  omega

theorem notify_not_call : ((Instruction.abx Op.notify.code 0 p).op? == some .call) = false := by
  simp

theorem notify_skips : (Instruction.abx Op.notify.code 0 p).skips = false := by
  simp [Instruction.skips, Op.isTest]

theorem Writing.addSite (h : c.Writing e) (n : Notification) (s : Span) {e' : Ending}
    (hret : n.kind = Kind.funcReturned.code → e = .call)
    (hnext : ∀ {c' : Chunk}, c'.code.size = c.code.size + 1 →
      c'.siteAt c.code.size .funcCalled = (n.kind == Kind.funcCalled.code) →
      c'.siteAt c.code.size .funcReturned = (n.kind == Kind.funcReturned.code) →
      c'.callAt c.code.size = false → c'.skipAt c.code.size = false →
      c.Ends e → e.Admits c' c.code.size ∧ c'.Ends e') :
    ({ c with notifications := c.notifications.push n }.emit
      (Instruction.abx Op.notify.code 0 c.notifications.size) s).Writing e' := by
  refine (h.pushNotification n).emit_of (siteKnown_notify n s) fun hfit hends => ?_
  have hlt : c.notifications.size < siteLimit := by
    have : (c.notifications.push n).size ≤ siteLimit := hfit
    simp only [Array.size_push] at this
    omega
  have hcall : ({ c with notifications := c.notifications.push n }.emit
      (Instruction.abx Op.notify.code 0 c.notifications.size) s).callAt c.code.size = false :=
    (callAt_emit_self (c := { c with notifications := c.notifications.push n })).trans
      notify_not_call
  have hends' : c.Ends e := hends.of_agree (fun _ _ => rfl)
    (fun q hq k => (siteAt_pushNotification (h.known q hq) n k).symm) rfl fun _ _ => rfl
  obtain ⟨hadm, hend⟩ := hnext (by simp) (siteAt_notify hlt n s _) (siteAt_notify hlt n s _)
    hcall ((skipAt_emit_self (c := { c with notifications := c.notifications.push n })).trans
      notify_skips) hends'
  refine ⟨hadm, shapedAt_emit_new (by simp) (fun hr => ?_) (by simp [Op.isJump])
    (siteKnown_notify n s), hend⟩
  -- a return site follows the call it returns from
  rw [siteAt_notify hlt n s] at hr
  have hcode := hret (by simpa using hr)
  subst hcode
  obtain ⟨q, hq, hc⟩ := hends
  exact ⟨by simp at hq ⊢; omega, by rwa [show c.code.size - 1 = q by simp at hq ⊢; omega]⟩

/-- A call site written outside every bracket opens one. -/
theorem Writing.callSite (h : c.Writing .calm) {n : Notification}
    (hn : n.kind = Kind.funcCalled.code) (s : Span) :
    ({ c with notifications := c.notifications.push n }.emit
      (Instruction.abx Op.notify.code 0 c.notifications.size) s).Writing .site :=
  h.addSite n s (fun hr => absurd (hn.symm.trans hr) (by decide))
    fun hsize hfc _ _ _ _ => ⟨trivial, c.code.size, by omega, by rw [hfc, hn]; rfl⟩

theorem Writing.returnSite (h : c.Writing .call) {n : Notification}
    (hn : n.kind = Kind.funcReturned.code) (s : Span) :
    ({ c with notifications := c.notifications.push n }.emit
      (Instruction.abx Op.notify.code 0 c.notifications.size) s).Writing .calm :=
  h.addSite n s (fun _ => rfl) fun hsize hfc hfr hc hk _ => ⟨by simp [Ending.Admits, hfr, hn], by
    have hne : Kind.funcReturned.code ≠ Kind.funcCalled.code := by decide
    show calmEnd _ = true
    simp [calmEnd, hsize, hfc, hc, hk, hn, hne]⟩

/-- Any other event site, written outside every bracket. -/
theorem Writing.otherSite (h : c.Writing .calm) {n : Notification}
    (hfc : n.kind ≠ Kind.funcCalled.code) (hfr : n.kind ≠ Kind.funcReturned.code) (s : Span) :
    ({ c with notifications := c.notifications.push n }.emit
      (Instruction.abx Op.notify.code 0 c.notifications.size) s).Writing .calm :=
  h.addSite n s (fun hr => absurd hr hfr) fun hsize hs _ hc hk _ => ⟨trivial, by
    show calmEnd _ = true
    simp only [calmEnd, hsize, Nat.add_sub_cancel, hs, hc, hk]
    simp [hfc]⟩

end Sites

/-! ### Patching jumps and finishing functions -/

section Finish

variable {c c' : Chunk} {e : Ending} {p : Nat}

theorem jumpAt_quiet (h : c.jumpAt p = true) :
    c.skipAt p = false ∧ c.siteKnown p = true ∧ ∀ k, c.siteAt p k = false := by
  cases hi : c.code[p]? with
  | none => simp [jumpAt, opAt?, hi] at h
  | some i =>
    rw [jumpAt_of_getElem? hi] at h
    obtain ⟨op, hop, hj⟩ : ∃ op, i.op? = some op ∧ op.isJump = true := by
      cases hop : i.op? with
      | none => simp [hop] at h
      | some op => exact ⟨op, rfl, by simpa [hop] using h⟩
    have hne : op ≠ .notify := by
      rintro rfl
      simp [Op.isJump] at hj
    refine ⟨?_, ?_, fun k => ?_⟩
    · rw [skipAt_of_getElem? hi]
      simp only [Instruction.skips, hop]
      cases op <;> simp_all [Op.isJump, Op.isTest]
    · rw [siteKnown_of_getElem? hi]
      simp [hop, hne]
    · simp [siteAt, hi, hop, hne]

theorem patchJump_agree {pc target : Int} (hp : c.patchJump pc target = .ok c') :
    ∃ j, c.jumpAt j = true ∧ c'.code.size = c.code.size ∧ c'.jumpTarget j = target ∧
      (∀ q, q ≠ j → c'.code[q]? = c.code[q]?) ∧ (∀ q, c'.opAt? q = c.opAt? q) ∧
      c'.notifications = c.notifications ∧ c'.protos = c.protos := by
  obtain ⟨j, hj, rfl, hjump, -, -, lo, hi, rfl⟩ := patchJump_eq_retarget hp
  refine ⟨j, ?_, by simp, ?_, fun q hq => ?_, fun q => op?_retarget c j hj _ q, rfl, rfl⟩
  · simp only [jumpAt, opAt?, Array.getElem?_eq_getElem hj, Option.bind_some]
    cases hop : c.code[j].op? <;> simp_all
  · rw [jumpTarget_retarget_self lo hi]
    omega
  · simp [retarget, Array.getElem?_set_ne hj (Ne.symm hq)]

theorem extends_patchJump {pc target : Int} (hp : c.patchJump pc target = .ok c') :
    c.Extends c' := by
  obtain ⟨j, hjump, hsize, -, hcode, hop, hn, -⟩ := patchJump_agree hp
  refine ⟨by omega, fun q _ => hop q, fun q _ k => ?_, Nat.le_of_eq (by rw [hn])⟩
  by_cases hq : q = j
  · subst hq
    rw [(jumpAt_quiet hjump).2.2 k]
    exact (jumpAt_quiet (c := c') (by rw [jumpAt_eq_of_opAt? (hop q)]; exact hjump)).2.2 k
  · exact siteAt_congr (hcode q hq) hn k

/-- Patching a jump to a point a jump may be sent to keeps code being written as it was. -/
theorem Writing.patchJump (h : c.Writing e) {pc target : Int}
    (hp : c.patchJump pc target = .ok c')
    (ht : c.notifications.size ≤ siteLimit → c.entry target = true) : c'.Writing e := by
  have hext := extends_patchJump hp
  obtain ⟨j, hjump, hsize, htarget, hcode, hop, hn, hprotos⟩ := patchJump_agree hp
  have hjump' : c'.jumpAt j = true := by rw [jumpAt_eq_of_opAt? (hop j)]; exact hjump
  have hskip : ∀ q < c.code.size, c'.skipAt q = c.skipAt q := by
    intro q _
    by_cases hq : q = j
    · subst hq
      rw [(jumpAt_quiet hjump).1, (jumpAt_quiet hjump').1]
    · exact skipAt_congr (hcode q hq)
  have hknown : ∀ q < c'.code.size, c'.siteKnown q = true := by
    intro q hq
    by_cases hqj : q = j
    · subst hqj
      exact (jumpAt_quiet hjump').2.1
    · rw [siteKnown_congr (hcode q hqj) hn]
      exact h.known q (by omega)
  refine ⟨hknown, fun hfit => ?_, by rw [hprotos]; exact h.protos⟩
  obtain ⟨hshaped, hends⟩ := h.shaped (by rwa [hn] at hfit)
  refine ⟨fun q hq => shapedAt_of_agree hext hskip (Or.inr hsize) (hknown q hq) (fun _ he => ?_)
    (hshaped q (by omega)), hends.of_agree hext.op hext.site hsize hskip⟩
  by_cases hqj : q = j
  · subst hqj
    rw [htarget]
    exact hext.entry (ht (by rwa [hn] at hfit))
  · have hget := hcode q hqj
    have ht' : c'.jumpTarget q = c.jumpTarget q := by
      simp only [jumpTarget, Array.getD_eq_getD_getElem?, hget]
    rw [ht']
    exact hext.entry he

theorem Writing.pushProto (h : c.Writing e) {q : Chunk} (hq : q.SitesNamed → q.Bracketed) :
    { c with protos := c.protos.push q }.Writing e where
  known := h.known
  shaped := h.shaped
  protos p hp := by
    rcases Array.mem_push.mp hp with hp | rfl
    · exact h.protos p hp
    · exact hq

theorem Writing.congr (h : c.Writing e) (hcode : c'.code = c.code)
    (hn : c'.notifications = c.notifications) (hp : c'.protos = c.protos) : c'.Writing e := by
  obtain ⟨known, shaped, protos⟩ := h
  cases c
  cases c'
  simp only at hcode hn hp
  subst hcode hn hp
  exact ⟨known, shaped, protos⟩

theorem extends_of_eq (hcode : c'.code = c.code) (hn : c'.notifications = c.notifications) :
    c.Extends c' :=
  ⟨Nat.le_of_eq (by rw [hcode]), fun q _ => opAt?_congr (by rw [hcode]), fun q _ k =>
    siteAt_congr (by rw [hcode]) hn k, Nat.le_of_eq (by rw [hn])⟩

theorem Writing.empty (hc : c.code = #[]) (hp : c.protos = #[]) : c.Writing .calm where
  known p hp' := by simp [hc] at hp'
  shaped _ := ⟨fun p hp' => by simp [hc] at hp', by simp [Ends, calmEnd, hc]⟩
  protos q hq := by simp [hp] at hq

/-- Finished code that ends calm, with every event site named, brackets its calls. -/
theorem Writing.bracketed (h : c.Writing .calm) (hn : c.SitesNamed) : c.Bracketed := by
  obtain ⟨hshaped, hends⟩ := h.shaped hn.own
  refine .intro ?_ fun q hq => h.protos q hq (hn.proto hq)
  simp only [callsBracketed, Bool.and_eq_true, List.all_eq_true, List.mem_range]
  exact ⟨hshaped, hends⟩

end Finish

end Chunk

end ScriptMachine.Bytecode
