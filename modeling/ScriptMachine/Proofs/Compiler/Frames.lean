import ScriptMachine.Compiler.Scope
import ScriptMachine.Proofs.Bytecode.WellFormed
/-!
# The resolver's invariant

While a program compiles, every open function keeps its code well formed up to its current end
(`Frame.Sound`): each instruction's operands exist, its captured variables exist in the
function enclosing it, its finished nested functions are well formed, and every register it has
handed out or bound to a name lies below its register count. `Frames.Sound` asks this of every
open function, each relative to the one enclosing it.
-/

namespace ScriptMachine.Compiler

open Bytecode

/-- A function being compiled, whose module has `ng` global slots and whose enclosing function
has `pr` registers and `pcap` captured variables. Its code is well formed once `slack` more
instructions follow it; between steps no instruction is missing. -/
structure Frame.Sound (ng : Nat) (pr : Int) (pcap : Nat) (f : Frame) (slack : Nat := 0) :
    Prop where
  body : f.chunk.BodyOK ng (f.chunk.code.size + slack)
  captures : ∀ cap ∈ f.chunk.captures, cap.Within pr pcap
  protos : ∀ p ∈ f.chunk.protos, p.WellFormed ng f.chunk.registers f.chunk.captures.size
  scopes : ∀ s ∈ f.scopes, ∀ b ∈ s.names, f.chunk.IsReg b.2
  captured : ∀ b ∈ f.captured, b.2 < f.chunk.captures.size
  cached : ∀ key id, f.consts.find? key = some id →
    registerLimit ≤ id ∧ id - registerLimit < f.chunk.constants.size

/-- The register count of the innermost of a stack of functions, which encloses the function in
front of it. -/
def parentRegisters : List Frame → Int
  | [] => 0
  | p :: _ => p.chunk.registers

/-- The number of captured variables of the innermost of a stack of functions. -/
def parentCaptures : List Frame → Nat
  | [] => 0
  | p :: _ => p.chunk.captures.size

/-- Every open function is sound relative to the one enclosing it; the outermost encloses
nothing, so it captures nothing. The innermost may wait for `slack` more instructions. -/
def Frames.Sound (ng : Nat) (slack : Nat := 0) : List Frame → Prop
  | [] => True
  | f :: rest =>
    f.Sound ng (parentRegisters rest) (parentCaptures rest) slack ∧ Frames.Sound ng 0 rest

def Resolver.Sound (r : Resolver) (slack : Nat := 0) : Prop :=
  Frames.Sound r.globals.size slack r.frames

/-- What the compiler knows of an open function between steps: its next free register, its
scopes and whether it is the top level exactly, and lower bounds on its register count, constant
pool, nested functions and captured variables. -/
structure Mark where
  next : Nat
  scopes : List Scope
  module : Bool
  regs : Int
  consts : Nat
  protos : Nat
  caps : Nat

instance : Inhabited Mark := ⟨⟨0, [], false, 0, 0, 0, 0⟩⟩

namespace Mark

def IsReg (m : Mark) (x : Nat) : Prop := (x : Int) < m.regs

def IsRK (m : Mark) (x : Nat) : Prop :=
  if x < registerLimit then m.IsReg x else x - registerLimit < m.consts

/-- The chunk has at least the tables the mark records. -/
structure Below (m : Mark) (c : Chunk) : Prop where
  regs : m.regs ≤ c.registers
  consts : m.consts ≤ c.constants.size
  protos : m.protos ≤ c.protos.size
  caps : m.caps ≤ c.captures.size

/-- `m'` describes the same scopes of the same function as `m`, with bounds at least as large;
the next free register may differ. -/
structure Le (m m' : Mark) : Prop where
  scopes : m'.scopes = m.scopes
  module : m'.module = m.module
  regs : m.regs ≤ m'.regs
  consts : m.consts ≤ m'.consts
  protos : m.protos ≤ m'.protos
  caps : m.caps ≤ m'.caps

theorem Le.refl (m : Mark) : m.Le m :=
  ⟨rfl, rfl, Int.le_refl _, Nat.le_refl _, Nat.le_refl _, Nat.le_refl _⟩

theorem Le.trans {m m' m'' : Mark} (h : m.Le m') (h' : m'.Le m'') : m.Le m'' :=
  ⟨h'.scopes.trans h.scopes, h'.module.trans h.module, Int.le_trans h.regs h'.regs,
    Nat.le_trans h.consts h'.consts, Nat.le_trans h.protos h'.protos, Nat.le_trans h.caps h'.caps⟩

theorem IsReg.mono {m m' : Mark} {x : Nat} (h : m.Le m') (hx : m.IsReg x) : m'.IsReg x :=
  Int.lt_of_lt_of_le hx h.regs

theorem IsRK.mono {m m' : Mark} {x : Nat} (h : m.Le m') (hx : m.IsRK x) : m'.IsRK x := by
  unfold IsRK at hx ⊢
  split
  · rw [if_pos ‹_›] at hx
    exact IsReg.mono h hx
  · rw [if_neg ‹_›] at hx
    exact Nat.lt_of_lt_of_le hx h.consts

theorem Below.mono {m m' : Mark} {c : Chunk} (h : m.Le m') (hb : m'.Below c) : m.Below c :=
  ⟨Int.le_trans h.regs hb.regs, Nat.le_trans h.consts hb.consts, Nat.le_trans h.protos hb.protos,
    Nat.le_trans h.caps hb.caps⟩

theorem Below.grow {m : Mark} {c c' : Chunk} (h : m.Below c) (hg : c.Grows c') : m.Below c' :=
  ⟨Int.le_trans h.regs hg.registers, Nat.le_trans h.consts hg.constants,
    Nat.le_trans h.protos hg.protos, Nat.le_trans h.caps hg.captures⟩

theorem Below.isReg {m : Mark} {c : Chunk} {x : Nat} (h : m.Below c) (hx : m.IsReg x) :
    c.IsReg x :=
  Int.lt_of_lt_of_le hx h.regs

theorem Below.isRK {m : Mark} {c : Chunk} {x : Nat} (h : m.Below c) (hx : m.IsRK x) :
    c.IsRK x := by
  unfold IsRK at hx
  unfold Chunk.IsRK
  split
  · rw [if_pos ‹_›] at hx
    exact h.isReg hx
  · rw [if_neg ‹_›] at hx
    exact Nat.lt_of_lt_of_le hx h.consts

end Mark

structure Frame.Meets (m : Mark) (f : Frame) : Prop where
  next : f.next = m.next
  scopes : f.scopes = m.scopes
  module : f.module = m.module
  below : m.Below f.chunk

theorem Frame.Meets.congr {m : Mark} {f f' : Frame} (h : f.Meets m) (hc : f'.chunk = f.chunk)
    (hs : f'.scopes = f.scopes) (hn : f'.next = f.next) (hmod : f'.module = f.module) :
    f'.Meets m :=
  ⟨hn.trans h.next, hs.trans h.scopes, hmod.trans h.module, hc ▸ h.below⟩

/-- Open functions meeting marks one to one, innermost first. -/
def Frames.Meet : List Mark → List Frame → Prop
  | [], [] => True
  | m :: ms, f :: fs => f.Meets m ∧ Frames.Meet ms fs
  | _, _ => False

/-- The resolver is sound, has at least `g` global slots, and its open functions meet the marks,
innermost first. -/
structure At (g : Nat) (ms : List Mark) (r : Resolver) (slack : Nat := 0) : Prop where
  sound : r.Sound slack
  globals : g ≤ r.globals.size
  meet : Frames.Meet ms r.frames

theorem mem_of_lookup_eq_some {β : Type} {l : List (String × β)} {k : String} {b : β}
    (h : l.lookup k = some b) : (k, b) ∈ l := by
  induction l with
  | nil => cases h
  | cons p l ih =>
    obtain ⟨k', b'⟩ := p
    by_cases hk : k = k'
    · subst hk
      simp at h
      simp [h]
    · have hne : (k == k') = false := by simpa using hk
      simp only [List.lookup_cons, hne] at h
      exact List.mem_cons_of_mem _ (ih h)


namespace Frame.Sound

variable {ng ng' : Nat} {pr pr' : Int} {pcap pcap' : Nat} {f : Frame} {k k' : Nat}

theorem mono (h : f.Sound ng pr pcap k) (hng : ng ≤ ng') (hpr : pr ≤ pr')
    (hpcap : pcap ≤ pcap') : f.Sound ng' pr' pcap' k where
  body := h.body.mono hng (Nat.le_refl _)
  captures cap hcap := Capture.Within.mono hpr hpcap (h.captures cap hcap)
  protos p hp := (h.protos p hp).mono hng (Int.le_refl _) (Nat.le_refl _)
  scopes := h.scopes
  captured := h.captured
  cached := h.cached

theorem congr {f' : Frame} (h : f.Sound ng pr pcap k) (hc : f'.chunk = f.chunk)
    (hs : f'.scopes = f.scopes) (hcap : f'.captured = f.captured) (hcc : f'.consts = f.consts) :
    f'.Sound ng pr pcap k := by
  obtain ⟨body, captures, protos, scopes, captured, cached⟩ := h
  rw [← hc] at body captures protos scopes
  rw [← hs] at scopes
  rw [← hc, ← hcap] at captured
  rw [← hc, ← hcc] at cached
  exact ⟨body, captures, protos, scopes, captured, cached⟩

theorem lookup_isReg (h : f.Sound ng pr pcap k) {name : String} {reg : Nat}
    (hl : f.lookup name = some reg) : f.chunk.IsReg reg := by
  obtain ⟨s, hs, hn⟩ := List.exists_of_findSome?_eq_some hl
  exact h.scopes s hs (name, reg) (mem_of_lookup_eq_some hn)

theorem captured_lt (h : f.Sound ng pr pcap k) {name : String} {i : Nat}
    (hl : f.captured.lookup name = some i) : i < f.chunk.captures.size :=
  h.captured (name, i) (mem_of_lookup_eq_some hl)

theorem reg_lt (h : f.Sound ng pr pcap k) {x : Nat} (hx : f.chunk.IsReg x) : x < registerLimit := by
  have := h.body.registers_le
  unfold Chunk.IsReg at hx
  simp only [registerLimit] at this ⊢
  omega

/-! ### How each change the compiler makes to a frame keeps it sound -/

theorem emit (h : f.Sound ng pr pcap k) {i : Instruction} {s : Span} (hk : k ≤ k' + 1)
    (hi : (f.chunk.emit i s).InstrOK ng (f.chunk.code.size + 1 + k') f.chunk.code.size i) :
    ({ f with chunk := f.chunk.emit i s } : Frame).Sound ng pr pcap k' where
  body := by
    show (f.chunk.emit i s).BodyOK ng ((f.chunk.emit i s).code.size + k')
    rw [Chunk.code_size_emit]
    exact h.body.emit (by omega) hi
  captures := h.captures
  protos := h.protos
  scopes := h.scopes
  captured := h.captured
  cached := h.cached

theorem emit_two (h : f.Sound ng pr pcap k) {i j : Instruction} {s t : Span} (hk : k ≤ k' + 2)
    (hi : ((f.chunk.emit i s).emit j t).InstrOK ng (f.chunk.code.size + 2 + k')
      f.chunk.code.size i)
    (hj : ((f.chunk.emit i s).emit j t).InstrOK ng (f.chunk.code.size + 2 + k')
      (f.chunk.code.size + 1) j) :
    ({ f with chunk := (f.chunk.emit i s).emit j t } : Frame).Sound ng pr pcap k' where
  body := by
    show ((f.chunk.emit i s).emit j t).BodyOK ng (((f.chunk.emit i s).emit j t).code.size + k')
    rw [Chunk.code_size_emit, Chunk.code_size_emit, Nat.add_assoc f.chunk.code.size 1 1]
    exact h.body.emit_two (by omega) hi hj
  captures := h.captures
  protos := h.protos
  scopes := h.scopes
  captured := h.captured
  cached := h.cached

theorem alloc (h : f.Sound ng pr pcap k) {reg : Nat} (hreg : reg < registerLimit) :
    ({ f with next := reg + 1,
               chunk := { f.chunk with registers := max f.chunk.registers (reg + 1) } } :
      Frame).Sound ng pr pcap k := by
  have hle : f.chunk.registers ≤ max f.chunk.registers (reg + 1) := Int.le_max_left _ _
  have hg : f.chunk.Grows { f.chunk with registers := max f.chunk.registers (reg + 1) } :=
    ⟨fun _ _ => rfl, Nat.le_refl _, hle, Nat.le_refl _, Nat.le_refl _, Nat.le_refl _,
      Nat.le_refl _⟩
  refine ⟨h.body.of_grows hg rfl rfl ?_
      (fun n hn => Chunk.NotifOK.grow hg (h.body.notifications n hn)),
    h.captures, fun p hp => (h.protos p hp).mono (Nat.le_refl _) hle (Nat.le_refl _),
    fun s hs b hb => Chunk.IsReg.grow hg (h.scopes s hs b hb), h.captured, h.cached⟩
  have := h.body.registers_le
  simp only [registerLimit] at hreg this ⊢
  omega

theorem intern (h : f.Sound ng pr pcap k) (key : ConstKey) (v : Value) :
    ({ f with chunk := { f.chunk with constants := f.chunk.constants.push v },
              consts := f.consts.remember key (registerLimit + f.chunk.constants.size) } :
      Frame).Sound ng pr pcap k := by
  have hg : f.chunk.Grows { f.chunk with constants := f.chunk.constants.push v } :=
    ⟨fun _ _ => rfl, Nat.le_refl _, Int.le_refl _, by simp, Nat.le_refl _, Nat.le_refl _,
      Nat.le_refl _⟩
  refine ⟨h.body.of_grows hg rfl rfl h.body.registers_le
    (fun n hn => Chunk.NotifOK.grow hg (h.body.notifications n hn)), h.captures, h.protos,
    fun s hs b hb => Chunk.IsReg.grow hg (h.scopes s hs b hb), h.captured, ?_⟩
  intro key' id hfind
  simp only [Array.size_push]
  by_cases hkey : key' = key
  · -- the new entry, at the end of the pool
    subst hkey
    rw [ConstantCache.find?_remember_self] at hfind
    cases hfind
    omega
  · have hold := h.cached key' id (by rwa [ConstantCache.find?_remember_of_ne _ _ hkey] at hfind)
    omega

theorem pushNotification (h : f.Sound ng pr pcap k) {n : Notification} (hn : f.chunk.NotifOK n) :
    ({ f with chunk := { f.chunk with notifications := f.chunk.notifications.push n } } :
      Frame).Sound ng pr pcap k := by
  have hg : f.chunk.Grows { f.chunk with notifications := f.chunk.notifications.push n } :=
    ⟨fun _ _ => rfl, Nat.le_refl _, Int.le_refl _, Nat.le_refl _, Nat.le_refl _, Nat.le_refl _,
      by simp⟩
  refine ⟨h.body.of_grows hg rfl rfl h.body.registers_le ?_, h.captures, h.protos,
    h.scopes, h.captured, h.cached⟩
  intro n' hn'
  rcases Array.mem_push.mp hn' with hold | rfl
  · exact Chunk.NotifOK.grow hg (h.body.notifications n' hold)
  · exact Chunk.NotifOK.grow hg hn

theorem pushProto (h : f.Sound ng pr pcap k) {p : Chunk}
    (hp : p.WellFormed ng f.chunk.registers f.chunk.captures.size) :
    ({ f with chunk := { f.chunk with protos := f.chunk.protos.push p } } :
      Frame).Sound ng pr pcap k := by
  have hg : f.chunk.Grows { f.chunk with protos := f.chunk.protos.push p } :=
    ⟨fun _ _ => rfl, Nat.le_refl _, Int.le_refl _, Nat.le_refl _, Nat.le_refl _, by simp,
      Nat.le_refl _⟩
  refine ⟨h.body.of_grows hg rfl rfl h.body.registers_le
    (fun n hn => Chunk.NotifOK.grow hg (h.body.notifications n hn)), h.captures, ?_, h.scopes,
    h.captured, h.cached⟩
  intro p' hp'
  rcases Array.mem_push.mp hp' with hold | rfl
  · exact h.protos p' hold
  · exact hp

theorem addCapture (h : f.Sound ng pr pcap k) {c : Capture} (hc : c.Within pr pcap) :
    (f.addCapture c).2.Sound ng pr pcap k := by
  have hg : f.chunk.Grows { f.chunk with captures := f.chunk.captures.push c } :=
    ⟨fun _ _ => rfl, Nat.le_refl _, Int.le_refl _, Nat.le_refl _, by simp, Nat.le_refl _,
      Nat.le_refl _⟩
  refine ⟨h.body.of_grows hg rfl rfl h.body.registers_le
    (fun n hn => Chunk.NotifOK.grow hg (h.body.notifications n hn)), ?_,
    fun p hp => (h.protos p hp).mono (Nat.le_refl _) (Int.le_refl _) hg.captures, h.scopes, ?_,
    h.cached⟩
  · intro cap hcap
    rcases Array.mem_push.mp hcap with hold | rfl
    · exact h.captures cap hold
    · exact hc
  · intro b hb
    simp only [Frame.addCapture, List.mem_cons] at hb
    rcases hb with rfl | hold
    · simp [Frame.addCapture]
    · exact Nat.lt_of_lt_of_le (h.captured b hold) hg.captures

theorem beginScope (h : f.Sound ng pr pcap k) :
    ({ f with scopes := { base := f.next } :: f.scopes } : Frame).Sound ng pr pcap k := by
  refine ⟨h.body, h.captures, h.protos, ?_, h.captured, h.cached⟩
  intro s hs b hb
  rcases List.mem_cons.mp hs with rfl | hold
  · cases hb
  · exact h.scopes s hold b hb

theorem endScope (h : f.Sound ng pr pcap k) {s : Scope} {rest : List Scope}
    (hs : f.scopes = s :: rest) (base : Nat) :
    ({ f with scopes := rest, next := base } : Frame).Sound ng pr pcap k :=
  ⟨h.body, h.captures, h.protos,
    fun s' hs' => h.scopes s' (hs ▸ List.mem_cons_of_mem s hs'), h.captured, h.cached⟩

theorem bindName (h : f.Sound ng pr pcap k) {s : Scope} {rest : List Scope}
    (hs : f.scopes = s :: rest) {name : String} {reg : Nat} (hreg : f.chunk.IsReg reg)
    (l : LocalVar) :
    ({ f with scopes := { s with names := (name, reg) :: s.names } :: rest,
               chunk := { f.chunk with locals := f.chunk.locals.push l } } :
      Frame).Sound ng pr pcap k := by
  have hg : f.chunk.Grows { f.chunk with locals := f.chunk.locals.push l } :=
    ⟨fun _ _ => rfl, Nat.le_refl _, Int.le_refl _, Nat.le_refl _, Nat.le_refl _, Nat.le_refl _,
      Nat.le_refl _⟩
  refine ⟨h.body.of_grows hg rfl rfl h.body.registers_le
    (fun n hn => Chunk.NotifOK.grow hg (h.body.notifications n hn)), h.captures, h.protos, ?_,
    h.captured, h.cached⟩
  intro s' hs' b hb
  rcases List.mem_cons.mp hs' with rfl | hold
  · rcases List.mem_cons.mp hb with rfl | hb
    · exact hreg
    · exact h.scopes s (by simp [hs]) b hb
  · exact h.scopes s' (by simp [hs, hold]) b hb

theorem patch (h : f.Sound ng pr pcap k) {pc target : Int} {c' : Chunk}
    (hp : f.chunk.patchJump pc target = .ok c') (n : Int) :
    ({ f with chunk := c', openJumps := n } : Frame).Sound ng pr pcap k := by
  obtain ⟨j, hj, -, -, -, -, -, -, rfl⟩ := Chunk.patchJump_eq_retarget hp
  refine ⟨?_, h.captures, h.protos, h.scopes, h.captured, h.cached⟩
  show (f.chunk.retarget j hj _).BodyOK ng ((f.chunk.retarget j hj _).code.size + k)
  rw [Chunk.code_size_retarget]
  exact h.body.patchJump (Nat.le_add_right _ _) hp

end Frame.Sound

theorem Frame.Meets.addCapture {m : Mark} {f : Frame} (h : f.Meets m) (c : Capture) :
    (f.addCapture c).2.Meets m :=
  ⟨h.next, h.scopes, h.module, ⟨h.below.regs, h.below.consts, h.below.protos,
    Nat.le_trans h.below.caps (by simp [Frame.addCapture])⟩⟩

theorem captureIn_eq_some {name : String} {f : Frame} {outer fs' : List Frame} {i : Nat}
    (h : captureIn name (f :: outer) = some (i, fs')) :
    f.captured.lookup name = some i ∧ fs' = f :: outer ∨
    f.captured.lookup name = none ∧ ∃ parent pp c outer', outer = parent :: pp ∧
      parent.module = false ∧
      ((∃ reg, parent.lookup name = some reg ∧ c = ⟨name, true, reg⟩ ∧ outer' = outer) ∨
        parent.lookup name = none ∧
          ∃ j, captureIn name outer = some (j, outer') ∧ c = ⟨name, false, j⟩) ∧
      i = f.chunk.captures.size ∧ fs' = (f.addCapture c).2 :: outer' := by
  unfold captureIn at h
  split at h
  · rename_i j hj
    simp only [Option.some.injEq, Prod.mk.injEq] at h
    obtain ⟨rfl, rfl⟩ := h
    exact .inl ⟨hj, rfl⟩
  · rename_i hnone
    split at h
    · cases h
    · rename_i parent pp
      split at h
      · cases h
      · rename_i hmod
        obtain ⟨⟨c, outer'⟩, hfound, hres⟩ := Option.map_eq_some_iff.mp h
        simp only [Prod.mk.injEq] at hres
        obtain ⟨rfl, rfl⟩ := hres
        refine .inr ⟨hnone, parent, pp, c, outer', rfl, by simpa using hmod, ?_, rfl, rfl⟩
        split at hfound
        · rename_i reg hreg
          cases hfound
          exact .inl ⟨reg, hreg, rfl, rfl⟩
        · rename_i hpnone
          obtain ⟨⟨j, outer''⟩, hrec, hcap⟩ := Option.map_eq_some_iff.mp hfound
          cases hcap
          exact .inr ⟨hpnone, j, hrec, rfl⟩

theorem Frames.Sound.captureIn {ng : Nat} {name : String} {fs : List Frame} :
    ∀ {k : Nat} {fs' : List Frame} {ms : List Mark} {i : Nat}, Frames.Sound ng k fs →
      Frames.Meet ms fs → Compiler.captureIn name fs = some (i, fs') →
      Frames.Sound ng k fs' ∧ Frames.Meet ms fs' ∧ i < parentCaptures fs' ∧
        parentRegisters fs' = parentRegisters fs ∧ parentCaptures fs ≤ parentCaptures fs' := by
  induction fs with
  | nil => intro _ _ _ _ _ _ h; cases h
  | cons f outer ih =>
    intro k fs' ms i hs hm h
    obtain ⟨hf, hout⟩ := hs
    cases ms with
    | nil => exact hm.elim
    | cons m ms =>
    obtain ⟨hfm, hom⟩ := hm
    rcases captureIn_eq_some h with ⟨hj, rfl⟩ | ⟨-, parent, pp, c, outer', rfl, -, hc, rfl, rfl⟩
    · -- the name is already captured
      exact ⟨⟨hf, hout⟩, ⟨hfm, hom⟩, hf.captured_lt hj, rfl, Nat.le_refl _⟩
    · -- what the capture points at, and the enclosing functions after capturing
      have hc' : c.Within (parentRegisters outer') (parentCaptures outer') ∧
          Frames.Sound ng 0 outer' ∧ Frames.Meet ms outer' ∧
          parentRegisters outer' = parentRegisters (parent :: pp) ∧
          parentCaptures (parent :: pp) ≤ parentCaptures outer' := by
        rcases hc with ⟨reg, hreg, rfl, rfl⟩ | ⟨-, j, hrec, rfl⟩
        · have hreg' := (hout.1).lookup_isReg hreg
          exact ⟨⟨Int.natCast_nonneg reg, by simpa [parentRegisters, Chunk.IsReg] using hreg'⟩,
            hout, hom, rfl, Nat.le_refl _⟩
        · obtain ⟨hs', hm', hj', hr', hle'⟩ := ih hout hom hrec
          exact ⟨⟨Int.natCast_nonneg j, by simpa using hj'⟩, hs', hm', hr', hle'⟩
      obtain ⟨hwithin, hs', hm', hr', hle'⟩ := hc'
      refine ⟨⟨?_, hs'⟩, ⟨hfm.addCapture c, hm'⟩, by simp [parentCaptures, Frame.addCapture],
        rfl, by simp [parentCaptures, Frame.addCapture]⟩
      apply Frame.Sound.addCapture _ hwithin
      exact hf.mono (Nat.le_refl _) (Int.le_of_eq hr'.symm) hle'

theorem Frames.Sound.mono_globals {ng ng' : Nat} (hng : ng ≤ ng') :
    ∀ {fs : List Frame} {k : Nat}, Frames.Sound ng k fs → Frames.Sound ng' k fs
  | [], _, _ => trivial
  | _ :: _, _, ⟨hf, hrest⟩ =>
    ⟨hf.mono hng (Int.le_refl _) (Nat.le_refl _), Frames.Sound.mono_globals hng hrest⟩

namespace At

variable {g : Nat} {m : Mark} {ms : List Mark} {r : Resolver} {k : Nat} {f : Frame}
  {fs : List Frame}

theorem frames_nil (h : At g [] r k) : r.frames = [] := by
  have hm := h.meet
  cases hf : r.frames with
  | nil => rfl
  | cons f fs => rw [hf] at hm; exact hm.elim

theorem frames_cons (h : At g (m :: ms) r k) : ∃ f fs, r.frames = f :: fs := by
  have hm := h.meet
  cases hf : r.frames with
  | nil => rw [hf] at hm; exact hm.elim
  | cons f fs => exact ⟨f, fs, rfl⟩

theorem head_sound (h : At g (m :: ms) r k) (hr : r.frames = f :: fs) :
    f.Sound r.globals.size (parentRegisters fs) (parentCaptures fs) k := by
  have hs := h.sound
  unfold Resolver.Sound at hs
  rw [hr] at hs
  exact hs.1

theorem head_meets (h : At g (m :: ms) r k) (hr : r.frames = f :: fs) : f.Meets m := by
  have hm := h.meet
  rw [hr] at hm
  exact hm.1

theorem set_head (h : At g (m :: ms) r k) (hr : r.frames = f :: fs) {f' : Frame} {m' : Mark}
    {k' : Nat} (hs : f'.Sound r.globals.size (parentRegisters fs) (parentCaptures fs) k')
    (hm : f'.Meets m') : At g (m' :: ms) { r with frames := f' :: fs } k' := by
  have hsound := h.sound
  have hmeet := h.meet
  unfold Resolver.Sound at hsound
  rw [hr] at hsound hmeet
  exact ⟨⟨hs, hsound.2⟩, h.globals, ⟨hm, hmeet.2⟩⟩

theorem remark {m' : Mark} (h : At g (m :: ms) r k) (hr : r.frames = f :: fs) (hm : f.Meets m') :
    At g (m' :: ms) r k := by
  have hmeet := h.meet
  rw [hr] at hmeet
  refine ⟨h.sound, h.globals, ?_⟩
  rw [hr]
  exact ⟨hm, hmeet.2⟩

theorem weaken {m' : Mark} (h : At g (m' :: ms) r k) (hle : m.Le m') (hn : m'.next = m.next) :
    At g (m :: ms) r k := by
  obtain ⟨f, fs, hr⟩ := h.frames_cons
  have hm := h.head_meets hr
  have hmeet := h.meet
  rw [hr] at hmeet
  refine ⟨h.sound, h.globals, ?_⟩
  rw [hr]
  exact ⟨⟨hm.next.trans hn, hm.scopes.trans hle.scopes, hm.module.trans hle.module,
    hm.below.mono hle⟩, hmeet.2⟩

theorem lower {g' : Nat} (h : At g' ms r k) (hg : g ≤ g') : At g ms r k :=
  ⟨h.sound, Nat.le_trans hg h.globals, h.meet⟩

theorem isReg_lt (h : At g (m :: ms) r k) {x : Nat} (hx : m.IsReg x) : x < registerLimit := by
  obtain ⟨f, fs, hr⟩ := h.frames_cons
  exact (h.head_sound hr).reg_lt ((h.head_meets hr).below.isReg hx)

end At

end ScriptMachine.Compiler
