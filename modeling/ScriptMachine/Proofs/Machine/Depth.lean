import ScriptMachine.Proofs.Bytecode.Calls
import ScriptMachine.Proofs.Machine.Controls
/-!
# Counting calls from their events

Listeners that count calls up at each call site and down at each return site know how many
calls are under way, provided every function that runs brackets its calls
(`Chunk.Bracketed`). The count then equals the number of frames below the innermost one, plus
one while the innermost frame is inside a bracket (`Machine.Tracks`): every frame below the
innermost waits at the return site after its call, and the innermost one is inside a bracket
exactly between delivering the call's event and delivering the return's.
-/

namespace ScriptMachine

open Bytecode

/-! ## Function values on the heap -/

/-- Every function value on the heap has code that brackets its calls. -/
def Heap.Bracketed (h : Heap) : Prop :=
  ∀ loc c, h.get? loc = some (.closure c) → c.proto.Bracketed

/-- An object that is not a function value, or one whose code brackets its calls. -/
def Obj.Bracketed : Obj → Prop
  | .closure c => c.proto.Bracketed
  | _ => True

namespace Heap.Bracketed

variable {h h' : Heap}

theorem alloc (hb : h.Bracketed) {o : Obj} (ho : o.Bracketed) : (h.alloc o).2.Bracketed := by
  intro loc c hc
  simp only [Heap.alloc, Heap.get?, Array.getElem?_push] at hc
  split at hc
  · cases hc
    exact ho
  · exact hb loc c hc

theorem set (hb : h.Bracketed) (loc : Nat) {o : Obj} (ho : o.Bracketed) :
    (h.set loc o).Bracketed := by
  intro loc' c hc
  simp only [Heap.set, Heap.get?, Array.set!_eq_setIfInBounds, Array.getElem?_setIfInBounds] at hc
  split at hc
  · split at hc
    · cases hc
      exact ho
    · cases hc
  · exact hb loc' c hc

theorem arith (hb : h.Bracketed) {op : ArithOp} {a b v : Value}
    (he : h.arith op a b = .ok (v, h')) : h'.Bracketed := by
  unfold Heap.arith at he
  split at he
  · split at he
    · cases hc : checkOverflow (a.scalar + b.scalar) <;>
        simp only [hc, Except.map] at he <;> cases he
      exact hb
    · split at he
      · cases he
        exact hb
      · split at he <;> cases he <;> exact hb.alloc trivial
      · cases he
  · simp only [bind, Except.bind] at he
    split at he
    · cases he
    · split at he
      · cases he
      · cases he
        exact hb

theorem setIndex (hb : h.Bracketed) {container key value : Value}
    (he : h.setIndex container key value = .ok h') : h'.Bracketed := by
  unfold Heap.setIndex at he
  split at he
  case h_3 loc =>
    split at he
    case h_1 | h_2 =>
      simp only [Except.map] at he
      split at he
      · cases he
      · cases he
        exact hb.set _ trivial
    all_goals cases he
  -- a string, a range or a value that is no container: refused
  all_goals cases he

theorem newList (hb : h.Bracketed) (items : Array Value) : (h.newList items).2.Bracketed :=
  hb.alloc trivial

theorem newTuple (hb : h.Bracketed) (items : Array Value) : (h.newTuple items).2.Bracketed :=
  hb.alloc trivial

theorem newDict (hb : h.Bracketed) {pairs : List (Value × Value)} {v : Value}
    (he : h.newDict pairs = .ok (v, h')) : h'.Bracketed := by
  unfold Heap.newDict at he
  simp only [bind, Except.bind] at he
  split at he
  · cases he
  · cases he
    exact hb.alloc trivial

end Heap.Bracketed

theorem mem_of_elementOr {β : Type} {xs : Array β} {i : Int} {x : β}
    (h : elementOr xs i = .ok x) : x ∈ xs := by
  unfold elementOr at h
  split at h
  · cases h
    exact Array.getElem_mem _
  · cases h

/-! ## Where the frames stand -/

def Frame.site (g : Frame) : Chunk × Int := (g.proto, g.pc)

namespace Machine

variable {α : Type} {m m' : Machine α}

def sites (m : Machine α) : Array (Chunk × Int) := m.frames.map Frame.site

theorem sites_of_push {ys : Array Frame} {f : Frame} (hm : m.frames = ys.push f) :
    m.sites = (ys.map Frame.site).push f.site := by
  simp [sites, hm]

theorem top_of_push {ys : Array Frame} {f : Frame} (hm : m.frames = ys.push f) : m.top = f := by
  simp [top, hm]

theorem top_site {s : Array (Chunk × Int)} {c : Chunk} {p : Int} (hs : m.sites = s.push (c, p)) :
    m.top.proto = c ∧ m.top.pc = p := by
  rcases frames_eq_empty_or_push m with hm | ⟨ys, f, hm⟩
  · simp [sites, hm] at hs
  · rw [sites_of_push hm, Array.push_eq_push] at hs
    rw [top_of_push hm]
    simpa [Frame.site] using hs.1

theorem frames_modifyTop_of_push {ys : Array Frame} {f : Frame} (hm : m.frames = ys.push f)
    (g : Frame → Frame) : (m.modifyTop g).frames = ys.push (g f) := by
  rw [modifyTop_of_push hm g]

theorem sites_modifyTop {g : Frame → Frame} (hg : ∀ f, (g f).site = f.site) :
    (m.modifyTop g).sites = m.sites := by
  rcases frames_eq_empty_or_push m with hm | ⟨ys, f, hm⟩
  · simp [modifyTop, hm]
  · rw [sites_of_push (frames_modifyTop_of_push hm g), sites_of_push hm, hg]

@[simp] theorem registry_modifyTop (g : Frame → Frame) :
    (m.modifyTop g).registry = m.registry :=
  congrArg Controls.registry (controls_modifyTop g)

@[simp] theorem heap_modifyTop (g : Frame → Frame) : (m.modifyTop g).heap = m.heap := by
  unfold modifyTop
  split <;> rfl

theorem sites_jumpBy {s : Array (Chunk × Int)} {c : Chunk} {p : Int}
    (hs : m.sites = s.push (c, p)) (d : Int) : (m.jumpBy d).sites = s.push (c, p + d) := by
  rcases frames_eq_empty_or_push m with hm | ⟨ys, f, hm⟩
  · simp [sites, hm] at hs
  · rw [sites_of_push hm, Array.push_eq_push] at hs
    obtain ⟨hf, hys⟩ := hs
    simp only [Frame.site, Prod.mk.injEq] at hf
    rw [jumpBy, sites_of_push (frames_modifyTop_of_push hm _), hys]
    simp [Frame.site, hf]

@[simp] theorem heap_jumpBy (d : Int) : (m.jumpBy d).heap = m.heap := heap_modifyTop _

theorem setReg_eq {r : Int} {v : Value} (h : m.setReg r v = .ok m') :
    m' = m.modifyTop fun f => { f with registers := f.registers.set! r.toNat v } := by
  obtain ⟨_, -, h⟩ := bind_eq_ok.1 h
  exact (pure_eq_ok.1 h)

theorem sites_setReg {r : Int} {v : Value} (h : m.setReg r v = .ok m') : m'.sites = m.sites := by
  rw [setReg_eq h]
  exact sites_modifyTop fun _ => rfl

theorem heap_setReg {r : Int} {v : Value} (h : m.setReg r v = .ok m') : m'.heap = m.heap := by
  rw [setReg_eq h, heap_modifyTop]

@[simp] theorem sites_withHeap (h : Heap) : { m with heap := h }.sites = m.sites := rfl

@[simp] theorem sites_setGlobal (i : Nat) (v : Value) : (m.setGlobal i v).sites = m.sites := by
  unfold setGlobal
  split <;> rfl

@[simp] theorem heap_setGlobal (i : Nat) (v : Value) : (m.setGlobal i v).heap = m.heap := by
  unfold setGlobal
  split <;> rfl

@[simp] theorem sites_globalCell (name : String) : (m.globalCell name).2.sites = m.sites := by
  unfold globalCell
  split <;> rfl

@[simp] theorem heap_globalCell (name : String) : (m.globalCell name).2.heap = m.heap := by
  unfold globalCell
  split <;> rfl

theorem sites_capture {r : Int} {c : Nat} (h : m.capture r = .ok (c, m')) :
    m'.sites = m.sites ∧ m'.heap = m.heap := by
  obtain ⟨_, -, h⟩ := bind_eq_ok.1 h
  dsimp only at h
  split at h <;> cases h
  · exact ⟨rfl, rfl⟩
  · exact ⟨sites_modifyTop fun _ => rfl, heap_modifyTop _⟩

theorem sites_ret (v : Value) : (m.ret v).sites = m.sites.pop := by
  have hcl : (m.closeCells m.top).frames = m.frames := by rw [closeCells_eq]
  unfold ret
  dsimp only
  split
  · simp [sites, hcl, Array.map_pop]
  · rw [sites_modifyTop]
    · simp [sites, hcl, Array.map_pop]
    · intro f
      rfl

theorem heap_ret (v : Value) : (m.ret v).heap = m.heap := by
  have hcl : (m.closeCells m.top).heap = m.heap := by rw [closeCells_eq]
  unfold ret
  dsimp only
  split
  · exact hcl
  · rw [heap_modifyTop]
    exact hcl

@[simp] theorem sites_print (t : String) : (m.print t).sites = m.sites := rfl

@[simp] theorem heap_print (t : String) : (m.print t).heap = m.heap := rfl

theorem callNative_keeps {name : String} {args : Array Value} {v : Value}
    (h : m.callNative name args = .ok (v, m')) (hb : m.heap.Bracketed) :
    m'.sites = m.sites ∧ m'.heap.Bracketed := by
  unfold callNative at h
  dsimp only at h
  repeat' split at h
  all_goals simp only [bind_eq_ok, pure_eq_ok, throw_eq_ok, Prod.mk.injEq] at h
  all_goals grind [sites_print, heap_print, Heap.Bracketed.newList, Heap.Bracketed.newTuple, sites_withHeap]

theorem makeClosure_keeps {a idx : Nat} (h : m.makeClosure a idx = .ok m')
    (htop : m.top.proto.Bracketed) (hb : m.heap.Bracketed) :
    m'.sites = m.sites ∧ m'.heap.Bracketed := by
  unfold makeClosure at h
  dsimp only at h
  obtain ⟨proto, hproto, h⟩ := bind_eq_ok.1 h
  obtain ⟨⟨cells, m₁⟩, hfold, h⟩ := bind_eq_ok.1 h
  -- capturing opens cells on the frame's registers, which moves no frame and leaves the heap
  have hkeep : m₁.sites = m.sites ∧ m₁.heap = m.heap := by
    rw [← Array.foldlM_toList] at hfold
    refine foldlM_rel (fun acc acc' : Array Nat × Machine α =>
        acc'.2.sites = acc.2.sites ∧ acc'.2.heap = acc.2.heap) (fun _ => ⟨rfl, rfl⟩)
      (fun _ _ _ h₁ h₂ => ⟨h₂.1.trans h₁.1, h₂.2.trans h₁.2⟩) ?_ _ _ _ hfold
    rintro ⟨cells, m₂⟩ c acc' hstep
    dsimp only at hstep ⊢
    split at hstep
    · obtain ⟨⟨cell, m₃⟩, h₃, h₄⟩ := bind_eq_ok.1 hstep
      cases pure_eq_ok.1 h₄
      exact sites_capture h₃
    · obtain ⟨cell, -, h₄⟩ := bind_eq_ok.1 hstep
      cases pure_eq_ok.1 h₄
      exact ⟨rfl, rfl⟩
  refine ⟨(sites_setReg h).trans hkeep.1, ?_⟩
  rw [heap_setReg h]
  exact (hkeep.2 ▸ hb).alloc (htop.proto (mem_of_elementOr hproto))

theorem forLoop_sites {a : Nat} {sbx : Int} {s : Array (Chunk × Int)} {c : Chunk} {p : Int}
    (hs : m.sites = s.push (c, p)) (h : m.forLoop a sbx = .ok m') :
    m'.heap = m.heap ∧ (m'.sites = s.push (c, p) ∨ m'.sites = s.push (c, p + sbx)) := by
  unfold forLoop at h
  simp only [bind_eq_ok] at h
  obtain ⟨_, _, _, _, _, _, m₁, h₁, h⟩ := h
  have hs₁ := (sites_setReg h₁).trans hs
  split at h
  · simp only [bind_eq_ok] at h
    obtain ⟨_, _, m₂, h₂, h₃⟩ := h
    cases pure_eq_ok.1 h₃
    exact ⟨by rw [heap_jumpBy, heap_setReg h₂, heap_setReg h₁],
      .inr (sites_jumpBy ((sites_setReg h₂).trans hs₁) sbx)⟩
  · cases pure_eq_ok.1 h
    exact ⟨heap_setReg h₁, .inl hs₁⟩

theorem newFrame_eq {proto : Chunk} {caps : Array Nat} {links : Array String} {res : Nat}
    {f : Frame} (h : m.newFrame proto caps links res = .ok (f, m')) :
    f.proto = proto ∧ f.pc = 0 ∧ m' = { m with nextFrame := m.nextFrame + 1 } := by
  unfold newFrame at h
  dsimp only at h
  split at h
  · cases h
  · cases h
    exact ⟨rfl, rfl, rfl⟩

theorem call_keeps {base argc : Nat} (h : m.call base argc = .ok m') (hb : m.heap.Bracketed) :
    m'.heap.Bracketed ∧
      (m'.sites = m.sites ∨ ∃ c : Closure, c.proto.Bracketed ∧
        m'.sites = m.sites.push (c.proto, 0)) := by
  unfold call at h
  dsimp only at h
  obtain ⟨callee, -, h⟩ := bind_eq_ok.1 h
  split at h
  · obtain ⟨args, -, h⟩ := bind_eq_ok.1 h
    obtain ⟨⟨v, m₁⟩, h₁, h₂⟩ := bind_eq_ok.1 h
    obtain ⟨hs, hb₁⟩ := callNative_keeps h₁ hb
    exact ⟨heap_setReg h₂ ▸ hb₁, .inl ((sites_setReg h₂).trans hs)⟩
  · rename_i c _ hc
    obtain ⟨args, -, h⟩ := bind_eq_ok.1 h
    split at h
    · simp at h
    split at h
    · simp at h
    obtain ⟨⟨f, m₁⟩, h₁, h₂⟩ := bind_eq_ok.1 h
    cases pure_eq_ok.1 h₂
    obtain ⟨hproto, hpc, rfl⟩ := newFrame_eq (mapError_eq_ok.1 h₁)
    -- the callee is a function value on the heap
    have hcb : c.proto.Bracketed := by
      split at hc
      · split at hc
        · cases hc
          exact hb _ _ ‹_›
        · cases hc
      · cases hc
    refine ⟨hb, .inr ⟨c, hcb, ?_⟩⟩
    simp [sites, Frame.site, hproto, hpc]
  · simp at h

@[simp] theorem lift_eq_ok {β : Type} {r : Except Diagnostic β} {b : β} :
    lift r = .ok b ↔ r = .ok b :=
  mapError_eq_ok

def Lands (i : Instruction) (δ : Int) : Prop :=
  δ = 0 ∨ (δ = 1 ∧ i.skips = true) ∨ (δ = i.sbx ∧ (i.op?.any Op.isJump) = true)

section Exec

variable {i : Instruction} {s : Array (Chunk × Int)} {c : Chunk} {p : Int} {op : Op}

/-- The outcome of an instruction for the frames: a call may push one, a return pops the
innermost, and any other instruction moves the innermost by some `δ` it lands on. -/
def Moved (i : Instruction) (s : Array (Chunk × Int)) (c : Chunk) (p : Int)
    (m m' : Machine α) : Prop :=
  (i.op? = some .call ∧ (m'.sites = m.sites ∨
      ∃ cl : Closure, cl.proto.Bracketed ∧ m'.sites = m.sites.push (cl.proto, 0))) ∨
    (i.op? = some .ret ∧ m'.sites = s) ∨
    (i.op? ≠ some .call ∧ i.op? ≠ some .ret ∧ ∃ δ, Lands i δ ∧ m'.sites = s.push (c, p + δ))

theorem Moved.lands (hop : i.op? = some op) (hcall : op ≠ .call) (hret : op ≠ .ret) {δ : Int}
    (hδ : Lands i δ) (h : m'.sites = s.push (c, p + δ)) : Moved i s c p m m' :=
  .inr (.inr ⟨by simp [hop, hcall], by simp [hop, hret], δ, hδ, h⟩)

theorem Moved.stays (hop : i.op? = some op) (hcall : op ≠ .call) (hret : op ≠ .ret)
    (h : m'.sites = s.push (c, p)) : Moved i s c p m m' :=
  .lands hop hcall hret (.inl rfl) (by rw [h, Int.add_zero])

theorem Moved.skip (hop : i.op? = some op) (hcall : op ≠ .call) (hret : op ≠ .ret)
    {m₁ : Machine α} (hs : m₁.sites = s.push (c, p)) {b : Bool} (hskip : b = true → i.skips = true) :
    Moved i s c p m (if b then m₁.jumpBy 1 else m₁) := by
  cases b
  · exact .stays hop hcall hret hs
  · exact .lands hop hcall hret (.inr (.inl ⟨rfl, hskip rfl⟩)) (sites_jumpBy hs 1)

theorem Moved.jump (hop : i.op? = some op) (hcall : op ≠ .call) (hret : op ≠ .ret)
    (hjump : op.isJump = true) {m₁ : Machine α} (hs : m₁.sites = s.push (c, p)) :
    Moved i s c p m (m₁.jumpBy i.sbx) :=
  .lands hop hcall hret (.inr (.inr ⟨rfl, by simp [hop, hjump]⟩)) (sites_jumpBy hs _)

theorem exec_moved (hs : m.sites = s.push (c, p)) (hc : c.Bracketed) (hb : m.heap.Bracketed)
    (h : m.exec i = .ok m') : m'.heap.Bracketed ∧ Moved i s c p m m' := by
  have htop := (top_site hs).1
  unfold exec at h
  dsimp only at h
  split at h
  · simp at h
  rename_i op hop
  cases op <;> dsimp only at h
  case call =>
    obtain ⟨hb', hcall⟩ := call_keeps h hb
    exact ⟨hb', .inl ⟨hop, hcall⟩⟩
  case ret =>
    have hret : ∀ v, Moved i s c p m (m.ret v) := fun v =>
      .inr (.inl ⟨hop, by rw [sites_ret, hs, Array.pop_push]⟩)
    have hbr : ∀ v, (m.ret v).heap.Bracketed := fun v => by rw [heap_ret]; exact hb
    split at h <;> simp only [bind_eq_ok, pure_eq_ok] at h <;> obtain ⟨_, _, rfl⟩ := h <;>
      exact ⟨hbr _, hret _⟩
  case closure =>
    rw [← htop] at hc
    obtain ⟨hs', hb'⟩ := makeClosure_keeps h hc hb
    exact ⟨hb', .stays hop (by decide) (by decide) (hs'.trans hs)⟩
  case forLoop =>
    obtain ⟨hh, hs' | hs'⟩ := forLoop_sites hs h <;> rw [← hh] at hb
    · exact ⟨hb, .stays hop (by decide) (by decide) hs'⟩
    · exact ⟨hb, .lands hop (by decide) (by decide) (.inr (.inr ⟨rfl, by simp [hop, Op.isJump]⟩))
        hs'⟩
  case jmp =>
    cases pure_eq_ok.1 h
    exact ⟨by rw [heap_jumpBy]; exact hb, .jump hop (by decide) (by decide) rfl hs⟩
  case forPrep =>
    obtain ⟨m₁, h₁, h₂⟩ := bind_eq_ok.1 h
    cases pure_eq_ok.1 h₂
    exact ⟨by rw [heap_jumpBy, heap_setReg h₁]; exact hb,
      .jump hop (by decide) (by decide) rfl ((sites_setReg h₁).trans hs)⟩
  case loadBool =>
    obtain ⟨m₁, h₁, h₂⟩ := bind_eq_ok.1 h
    cases pure_eq_ok.1 h₂
    refine ⟨by split <;> simp [heap_setReg h₁, hb], ?_⟩
    exact .skip hop (by decide) (by decide) ((sites_setReg h₁).trans hs) fun hz => by
      have hc : i.c ≠ 0 := by simpa using hz
      simp [Instruction.skips, hop, hc]
  case eq | lt | le | isIn =>
    simp only [bind_eq_ok, pure_eq_ok] at h
    obtain ⟨_, _, _, _, _, _, rfl⟩ := h
    exact ⟨by split <;> simp [hb], .skip hop (by decide) (by decide) hs fun _ => by
      simp [Instruction.skips, hop, Op.isTest]⟩
  case test =>
    simp only [bind_eq_ok, pure_eq_ok] at h
    obtain ⟨_, _, rfl⟩ := h
    exact ⟨by split <;> simp [hb], .skip hop (by decide) (by decide) hs fun _ => by
      simp [Instruction.skips, hop, Op.isTest]⟩
  case loadNil =>
    have hkeep := foldlM_rel (fun m₁ m₂ : Machine α => m₂.sites = m₁.sites ∧ m₂.heap = m₁.heap)
      (fun _ => ⟨rfl, rfl⟩) (fun _ _ _ h₁ h₂ => ⟨h₂.1.trans h₁.1, h₂.2.trans h₁.2⟩)
      (fun _ _ _ hs => ⟨sites_setReg hs, heap_setReg hs⟩) _ _ _ h
    exact ⟨hkeep.2 ▸ hb, .stays hop (by decide) (by decide) (hkeep.1.trans hs)⟩
  case notify =>
    cases pure_eq_ok.1 h
    exact ⟨hb, .stays hop (by decide) (by decide) hs⟩
  -- the rest store into a register, a global or the heap, and move no frame
  all_goals refine ⟨?_, .stays hop (by decide) (by decide) ?_⟩
  all_goals simp only [bind_eq_ok, pure_eq_ok] at h
  all_goals grind [→ sites_setReg, → heap_setReg, sites_setGlobal, heap_setGlobal, sites_globalCell,
    heap_globalCell, sites_withHeap, → Heap.Bracketed.arith, → Heap.Bracketed.setIndex,
    → Heap.Bracketed.newDict, Heap.Bracketed.newList, Heap.Bracketed.newTuple, throw_eq_ok, lift_eq_ok]

end Exec

/-! ## The count of calls under way -/

/-- A count `d` of calls under way that the machine bears out: every function that runs, or can
be called, brackets its calls; every frame below the innermost waits inside the bracket of its
call; and `d` is the number of those frames, plus one while the innermost frame is inside a
bracket. -/
structure Tracks (m : Machine α) (d : Int) : Prop where
  heap : m.heap.Bracketed
  protos : ∀ x ∈ m.sites, x.1.Bracketed
  callers : ∀ (s : Array (Chunk × Int)) (c : Chunk) (p : Int), m.sites = s.push (c, p) →
    ∀ x ∈ s, x.1.insideCall x.2 = true
  count : ∀ (s : Array (Chunk × Int)) (c : Chunk) (p : Int), m.sites = s.push (c, p) →
    d = s.size + if c.insideCall p then 1 else 0

section Tracks

variable {d : Int} {s : Array (Chunk × Int)} {c : Chunk} {p : Int}

theorem tracks_of_push (hs : m.sites = s.push (c, p)) (hh : m.heap.Bracketed)
    (hprotos : ∀ x ∈ s, x.1.Bracketed) (hc : c.Bracketed)
    (hcallers : ∀ x ∈ s, x.1.insideCall x.2 = true)
    (hd : d = s.size + if c.insideCall p then 1 else 0) : m.Tracks d where
  heap := hh
  protos x hx := by
    rw [hs, Array.mem_push] at hx
    rcases hx with hx | rfl
    · exact hprotos x hx
    · exact hc
  callers s' c' p' hs' := by
    rw [hs, Array.push_eq_push] at hs'
    rw [← hs'.2]
    exact hcallers
  count s' c' p' hs' := by
    rw [hs, Array.push_eq_push, Prod.mk.injEq] at hs'
    obtain ⟨⟨rfl, rfl⟩, rfl⟩ := hs'
    exact hd

theorem Tracks.of_push (ht : m.Tracks d) (hs : m.sites = s.push (c, p)) :
    (∀ x ∈ s, x.1.Bracketed) ∧ c.Bracketed ∧ (∀ x ∈ s, x.1.insideCall x.2 = true) ∧
      d = s.size + if c.insideCall p then 1 else 0 :=
  ⟨fun x hx => ht.protos x (by rw [hs]; exact Array.mem_push_of_mem _ hx),
    ht.protos (c, p) (by rw [hs]; exact Array.mem_push_self),
    ht.callers s c p hs, ht.count s c p hs⟩

theorem Tracks.congr (ht : m.Tracks d) (hs : m'.sites = m.sites) (hh : m'.heap = m.heap) :
    m'.Tracks d :=
  ⟨hh ▸ ht.heap, hs ▸ ht.protos, hs ▸ ht.callers, hs ▸ ht.count⟩

theorem Tracks.singleStep (ht : m.Tracks d) {ys : Array Frame} {f : Frame}
    (hm : m.frames = ys.push f) (h0 : 0 ≤ f.pc)
    (hss : f.proto.siteAt f.pc.toNat .singleStep = true) : d = m.callDepth - 1 := by
  obtain ⟨k, hk⟩ := Int.eq_ofNat_of_zero_le h0
  rw [hk, Int.toNat_natCast] at hss
  obtain ⟨-, hc, -, hd⟩ := ht.of_push (by rw [sites_of_push hm, Frame.site, hk])
  have hout : f.proto.insideCall k = false := by
    rw [Chunk.insideCall_site hc.own (Chunk.opAt?_of_siteAt hss)]
    exact Bool.eq_false_iff.mpr fun hr => by cases Chunk.siteAt_unique hss hr
  rw [hd, hout, callDepth, hm, Array.size_push]
  simp

theorem Tracks.control (ht : m.Tracks d) (msg : Message) : (m.control msg).2.Tracks d :=
  ht.congr (by simp [Machine.control, sites]) (by simp [Machine.control])

theorem Tracks.idle (hh : m.heap.Bracketed) (hf : m.frames = #[]) : m.Tracks d where
  heap := hh
  protos x hx := by simp [sites, hf] at hx
  callers s c p hs := by simp [sites, hf] at hs
  count s c p hs := by simp [sites, hf] at hs

theorem Tracks.exec {n : Nat} {i : Instruction} {m₁ : Machine α} (ht : m.Tracks d)
    (hs : m.sites = s.push (c, n)) (hi : c.code[n]? = some i) (hn : i.op? ≠ some .notify)
    (hs₁ : m₁.sites = s.push (c, n + 1)) (hh₁ : m₁.heap = m.heap) (he : m₁.exec i = .ok m') :
    m'.Tracks d := by
  obtain ⟨hprotos, hc, hcallers, hd⟩ := ht.of_push hs
  have hcb := hc.own
  have hnotify : c.opAt? n ≠ some .notify := by simpa [Chunk.opAt?, hi] using hn
  obtain ⟨hb', hmoved⟩ := exec_moved hs₁ hc (hh₁ ▸ ht.heap) he
  rcases hmoved with ⟨hop, hsame | ⟨cl, hcl, hpush⟩⟩ | ⟨hop, hret⟩ |
    ⟨hncall, -, δ, hδ, hland⟩
  · -- a built-in: the innermost frame moves onto the return site, still inside the bracket
    have hin := Chunk.insideCall_call (by simp [Chunk.callAt_of_getElem? hi, hop] : c.callAt n)
    refine tracks_of_push (hsame.trans hs₁) hb' hprotos hc hcallers ?_
    rw [hd, hin.1, hin.2]
  · -- a function value: its frame starts outside every bracket of its code
    have hin := Chunk.insideCall_call (by simp [Chunk.callAt_of_getElem? hi, hop] : c.callAt n)
    refine tracks_of_push (hpush.trans (by rw [hs₁])) hb' ?_ hcl ?_ ?_
    · intro x hx
      rcases Array.mem_push.1 hx with hx | rfl
      · exact hprotos x hx
      · exact hc
    · intro x hx
      rcases Array.mem_push.1 hx with hx | rfl
      · exact hcallers x hx
      · exact hin.2
    · rw [hd, hin.1, Chunk.not_insideCall_zero hcl.own]
      simp
  · -- a return: the caller waits inside the bracket of its call
    have hout : c.insideCall n = false :=
      Chunk.not_insideCall_plain hcb (by simp [Chunk.callAt_of_getElem? hi, hop]) hnotify
    rcases frames_eq_empty_or_push m' with hm' | ⟨ys, f, hm'⟩
    · exact Tracks.idle hb' hm'
    · have hs' : s = (ys.map Frame.site).push f.site := hret ▸ sites_of_push hm'
      subst hs'
      have hf := hcallers f.site Array.mem_push_self
      refine tracks_of_push (sites_of_push hm') hb' (fun x hx => hprotos x
        (Array.mem_push_of_mem _ hx)) (hprotos f.site Array.mem_push_self)
        (fun x hx => hcallers x (Array.mem_push_of_mem _ hx)) ?_
      rw [hd, hout]
      simp [Frame.site] at hf
      simp [hf]
  · -- anything else lands outside every bracket
    have hcall : c.callAt n = false := by simpa [Chunk.callAt_of_getElem? hi] using hncall
    have hout : c.insideCall n = false := Chunk.not_insideCall_plain hcb hcall hnotify
    have hsite : c.siteAt n .funcCalled = false :=
      Bool.eq_false_iff.mpr fun h' => hnotify (Chunk.opAt?_of_siteAt h')
    have hland' : c.insideCall ((n : Int) + 1 + δ) = false := by
      rcases hδ with rfl | ⟨rfl, hskip⟩ | ⟨rfl, hjump⟩
      · rw [Int.add_zero]
        exact Chunk.not_insideCall_next hcb hcall hsite
      · rw [show (n : Int) + 1 + 1 = n + 2 by omega]
        exact Chunk.not_insideCall_skip hcb (by rw [Chunk.skipAt_of_getElem? hi, hskip])
      · rw [← Chunk.jumpTarget_of_getElem? hi]
        exact Chunk.not_insideCall_jump hcb (by rw [Chunk.jumpAt_of_getElem? hi, hjump])
    refine tracks_of_push hland hb' hprotos hc hcallers ?_
    rw [hd, hout, hland']

end Tracks

end Machine

/-- How the event of a notification moves a count of calls under way: up at a call, down at a
return but never below zero, and not at all at any other event. -/
def Bytecode.Notification.moveCount (n : Notification) (d : Int) : Int :=
  if n.kind = Kind.funcCalled.code then d + 1
  else if n.kind = Kind.funcReturned.code then (if d > 0 then d - 1 else 0)
  else d

namespace Machine

variable {α ω : Type} {m m' : Machine α}

/-- Listeners on registry `r` whose state keeps, in `count`, a count of calls under way: every
delivery at an event site moves it as `moveCount` says. -/
def Counting (hear : Hearing α ω) (count : ω → Int) (r : Option (Registry α)) : Prop :=
  ∀ (m m' : Machine α) (w w' : ω) (n : Notification), m.registry = r →
    m.dispatch hear w n = .ok (m', w') → count w' = n.moveCount (count w)

section Step

variable {d : Int} {s : Array (Chunk × Int)} {c : Chunk} {n : Nat} {i : Instruction}
  {nt : Notification}

theorem Tracks.notify (ht : m.Tracks d) (hs : m.sites = s.push (c, n))
    (hi : c.code[n]? = some i) (hop : i.op? = some .notify)
    (hnt : c.notifications[i.bx]? = some nt) (hs' : m'.sites = s.push (c, n + 1))
    (hh' : m'.heap = m.heap) : m'.Tracks (nt.moveCount d) := by
  obtain ⟨hprotos, hc, hcallers, hd⟩ := ht.of_push hs
  have hsite := Chunk.siteAt_of_getElem? hi hop hnt
  have hnotify : c.opAt? n = some .notify := by simp [Chunk.opAt?, hi, hop]
  have hat := Chunk.insideCall_site hc.own hnotify
  have hafter := Chunk.insideCall_after_site hc.own hnotify
  rw [hsite] at hat hafter
  refine tracks_of_push hs' (hh' ▸ ht.heap) hprotos hc hcallers ?_
  rw [hafter]
  rw [hat] at hd
  unfold Notification.moveCount
  have hne : Kind.funcCalled.code ≠ Kind.funcReturned.code := by decide
  by_cases hcalled : nt.kind = Kind.funcCalled.code
  · simp [hcalled, hne] at hd ⊢
    exact hd
  by_cases hreturned : nt.kind = Kind.funcReturned.code
  · -- inside the bracket the count is at least one, so it does not stop at zero
    simp [hreturned, hne.symm] at hd ⊢
    simp [hd]
  · simp [hcalled, hreturned, hd]

variable {hear : Hearing α ω} {count : ω → Int} {w w' : ω} {ys : Array Frame} {f : Frame}

theorem stepWith_next_cases (h : stepWith hear m w f i = .next m' w') :
    (i.op? = some .notify ∧
      ∃ n, f.proto.notifications[i.bx]? = some n ∧ m.dispatch hear w n = .ok (m', w')) ∨
      (i.op? ≠ some .notify ∧ m.exec i = .ok m' ∧ w' = w) := by
  rcases stepWith_next h with hn | ⟨he, hw⟩
  · exact .inl hn
  · by_cases hop : i.op? = some .notify
    · -- at an event site the step delivers the event and runs nothing
      unfold stepWith at h
      simp only [hop, beq_self_eq_true, if_true] at h
      split at h
      · split at h
        · cases h
          exact .inl ⟨hop, _, ‹_›, ‹_›⟩
        · cases h
      · cases h
    · exact .inr ⟨hop, he, hw⟩

theorem Tracks.step (hr : Counting hear count m.registry) (ht : m.Tracks (count w))
    (hm : m.frames = ys.push f) (h0 : 0 ≤ f.pc) (hlt : f.pc < f.proto.code.size)
    (ho : stepWith hear (m.modifyTop fun g => { g with pc := f.pc + 1 }) w f f.current =
      .next m' w') :
    m'.Tracks (count w') := by
  obtain ⟨k, hk⟩ := Int.eq_ofNat_of_zero_le h0
  have hklt : k < f.proto.code.size := by omega
  have hi : f.proto.code[k]? = some f.current := by
    simp [Frame.current, hk, Array.getD, hklt]
  have hs : m.sites = (ys.map Frame.site).push (f.proto, k) := by
    rw [sites_of_push hm, Frame.site, hk]
  -- the innermost frame already stands past the instruction when it runs
  have hs₁ : (m.modifyTop fun g => { g with pc := f.pc + 1 }).sites =
      (ys.map Frame.site).push (f.proto, k + 1) := by
    rw [sites_of_push (frames_modifyTop_of_push hm _)]
    simp [Frame.site, hk]
  rcases stepWith_next_cases ho with ⟨hop, nt, hnt, hd⟩ | ⟨hop, he, rfl⟩
  · obtain ⟨_, _, rfl⟩ := dispatch_asked hd
    rw [hr _ _ _ _ _ (registry_modifyTop _) hd]
    exact ht.notify hs hi hop hnt hs₁ (heap_modifyTop _)
  · exact ht.exec hs hi hop hs₁ (heap_modifyTop _) he

theorem stepWith_next_registry (h : stepWith hear m w f i = .next m' w') :
    m'.registry = m.registry := by
  rcases stepWith_next h with ⟨-, n, -, hd⟩ | ⟨he, -⟩
  · obtain ⟨p, s, rfl⟩ := dispatch_asked hd
    rfl
  · exact congrArg Controls.registry (exec_controls he)

@[simp] theorem heap_fail (d : Diagnostic) : (m.fail d).2.heap = m.heap := by
  simp [fail]

@[simp] theorem registry_terminate (s : Status) : (m.terminate s).registry = m.registry := by
  rw [terminate_eq]

@[simp] theorem registry_report (d : Diagnostic) : (m.report d).registry = m.registry := by
  rw [report_eq]

@[simp] theorem registry_fail (d : Diagnostic) : (m.fail d).2.registry = m.registry := by
  simp [fail]

theorem registry_execute (n : Nat) : (execute hear n m w).2.1.registry = m.registry := by
  induction n generalizing m w with
  | zero =>
    rcases frames_eq_empty_or_push m with hm | ⟨ys, f, hm⟩
    · rw [execute_empty hm]
    · rw [execute_zero hm]
  | succ n ih =>
    rcases frames_eq_empty_or_push m with hm | ⟨ys, f, hm⟩
    · rw [execute_empty hm]
    by_cases hin : 0 ≤ f.pc ∧ f.pc < f.proto.code.size
    case neg =>
      rw [execute_outside hm hin, registry_fail]
    cases ho : stepWith hear (m.modifyTop fun g => { g with pc := f.pc + 1 }) w f f.current with
    | failed e w₁ => rw [execute_failed hm hin.1 hin.2 ho, registry_fail]
    | broken t w₁ => rw [execute_broken hm hin.1 hin.2 ho, registry_fail, registry_modifyTop]
    | next m₁ w₁ =>
      have hreg : m₁.registry = m.registry := by
        rw [stepWith_next_registry ho, registry_modifyTop]
      by_cases hs₁ : m₁.stopRequested = true
      · rw [execute_stopped hm hin.1 hin.2 ho hs₁, registry_terminate]
        exact hreg
      by_cases hp₁ : m₁.pauseRequested = true
      · rw [execute_paused hm hin.1 hin.2 ho (by simpa using hs₁) hp₁]
        exact hreg
      rw [execute_carry hm hin.1 hin.2 ho (by simpa using hs₁) (by simpa using hp₁), ih, hreg]

/-- A run keeps the count borne out, whatever its fuel: so at every instruction it may stop
before, and when it ends. -/
theorem Tracks.execute (n : Nat) (hr : Counting hear count m.registry)
    (ht : m.Tracks (count w)) :
    (execute hear n m w).2.1.Tracks (count (execute hear n m w).2.2) := by
  induction n generalizing m w with
  | zero =>
    rcases frames_eq_empty_or_push m with hm | ⟨ys, f, hm⟩
    · rw [execute_empty hm]
      exact ht.congr rfl rfl
    · rw [execute_zero hm]
      exact ht
  | succ n ih =>
    rcases frames_eq_empty_or_push m with hm | ⟨ys, f, hm⟩
    · rw [execute_empty hm]
      exact ht.congr rfl rfl
    by_cases hin : 0 ≤ f.pc ∧ f.pc < f.proto.code.size
    case neg =>
      rw [execute_outside hm hin]
      exact Tracks.idle (by simpa using ht.heap) (by simp)
    cases ho : stepWith hear (m.modifyTop fun g => { g with pc := f.pc + 1 }) w f f.current with
    | failed e w₁ =>
      rw [execute_failed hm hin.1 hin.2 ho]
      exact Tracks.idle (by simpa using ht.heap) (by simp)
    | broken t w₁ =>
      rw [execute_broken hm hin.1 hin.2 ho]
      exact Tracks.idle (by simpa using ht.heap) (by simp)
    | next m₁ w₁ =>
      have ht₁ := ht.step hr hm hin.1 hin.2 ho
      have hr₁ : Counting hear count m₁.registry := by
        rw [stepWith_next_registry ho, registry_modifyTop]
        exact hr
      by_cases hs₁ : m₁.stopRequested = true
      · rw [execute_stopped hm hin.1 hin.2 ho hs₁]
        exact Tracks.idle (by simpa using ht₁.heap) (by simp)
      by_cases hp₁ : m₁.pauseRequested = true
      · rw [execute_paused hm hin.1 hin.2 ho (by simpa using hs₁) hp₁]
        exact ht₁.congr rfl rfl
      rw [execute_carry hm hin.1 hin.2 ho (by simpa using hs₁) (by simpa using hp₁)]
      exact ih hr₁ ht₁

theorem declare_keeps (names : Array String) :
    (names.foldl (fun m name => (m.globalCell name).2) m).heap = m.heap ∧
      (names.foldl (fun m name => (m.globalCell name).2) m).registry = m.registry := by
  rw [← Array.foldl_toList]
  induction names.toList generalizing m with
  | nil => exact ⟨rfl, rfl⟩
  | cons name rest ih =>
    rw [List.foldl_cons, (ih (m := (m.globalCell name).2)).1, (ih (m := (m.globalCell name).2)).2]
    exact ⟨heap_globalCell name, congrArg Controls.registry (controls_globalCell name)⟩

theorem registry_run {chunk : Chunk} {d : Option Diagnostic}
    (h : run hear n chunk m w = .ok (d, m', w')) : m'.registry = m.registry := by
  unfold run at h
  split at h
  · cases h
    simp
  split at h
  · cases h
    exact registry_fail _
  obtain ⟨⟨f, m₁⟩, hf, h⟩ := bind_eq_ok.1 h
  have hm' := congrArg (fun r => r.2.1.registry) (pure_eq_ok.1 h)
  obtain ⟨-, -, rfl⟩ := newFrame_eq hf
  simp only at hm'
  rw [hm', registry_execute]
  exact (declare_keeps chunk.globals).2

theorem tracks_run {chunk : Chunk} {d : Option Diagnostic} (hr : Counting hear count m.registry)
    (hc : chunk.Bracketed) (hh : m.heap.Bracketed)
    (hidle : ¬(m.status = .running ∨ m.status = .paused)) (h0 : count w = 0)
    (h : run hear n chunk m w = .ok (d, m', w')) : m'.Tracks (count w') := by
  cases hv : chunk.validate with
  | some e =>
    rw [run_invalid hidle hv] at h
    cases h
    exact Tracks.idle (by simpa using hh) (by simp)
  | none =>
    rw [run_valid hidle hv] at h
    obtain ⟨hheap, hreg⟩ := declare_keeps (m := m) chunk.globals
    generalize chunk.globals.foldl (fun m name => (m.globalCell name).2) m = m₀ at h hheap hreg
    cases hf : m₀.newFrame chunk #[] chunk.globals 0 with
    | error e => simp [hf, Except.map] at h
    | ok p =>
      obtain ⟨f, m₁⟩ := p
      simp only [hf, Except.map, Except.ok.injEq] at h
      obtain ⟨hproto, hpc, rfl⟩ := newFrame_eq hf
      -- the chunk's frame alone, at its first instruction: outside every bracket
      have ht : (Machine.started { m₀ with nextFrame := m₀.nextFrame + 1 } f).Tracks (count w) := by
        refine tracks_of_push (s := #[]) (c := chunk) (p := 0)
          (by simp [started, sites, Frame.site, hproto, hpc]) (by simpa [started, hheap] using hh)
          (by simp) hc (by simp) ?_
        rw [h0, Chunk.not_insideCall_zero hc.own]
        simp
      have hrun := Tracks.execute n (by simpa [started, hreg] using hr) ht
      rw [h] at hrun
      exact hrun

end Step

end Machine

end ScriptMachine
