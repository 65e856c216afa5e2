import Mathlib.Logic.Function.Iterate
import ScriptMachine.Proofs.Machine.Depth
import ScriptMachine.Debug.Session
/-!
# The debugger's depth

The debugger counts the calls under way by hearing their events: one up at each call, one down
at each return. On a registry where it hears each call and each return exactly once
(`DebuggerCounts`), its depth is a count `Machine.Counting` keeps, so along a run of code that
brackets its calls its depth is the number of frames below the innermost one whenever the
innermost is at a single-step site. Its stops are decided from that depth, so they follow the
frames: a step over stops at the next line no deeper than where it was asked, a step out at
the next line shallower, a step into at the next line.
-/

namespace ScriptMachine

theorem Kind.code_of_ofCode? {n : Nat} {k : Kind} (h : Kind.ofCode? n = some k) :
    k.code = n := by
  obtain ⟨hlt, rfl⟩ := List.getElem?_eq_some_iff.1 h
  simp only [Kind.all, List.length_cons, List.length_nil] at hlt
  rcases n with _ | _ | _ | _ | _ | _ | _ | _ | _ | _ | n
  all_goals first | rfl | omega

theorem Kind.code_inj {k k' : Kind} (h : k.code = k'.code) : k = k' := by
  have := Bytecode.Kind.ofCode?_code k
  rw [h, Bytecode.Kind.ofCode?_code] at this
  exact (Option.some.inj this).symm

theorem Bytecode.Notification.moveCount_of_kind {n : Bytecode.Notification} {k : Kind}
    (hk : Kind.ofCode? n.kind = some k) (d : Int) :
    n.moveCount d =
      if k = .funcCalled then d + 1
      else if k = .funcReturned then (if d > 0 then d - 1 else 0)
      else d := by
  have hcode := Kind.code_of_ofCode? hk
  unfold Bytecode.Notification.moveCount
  by_cases hc : k = .funcCalled
  · simp [hc, ← hcode]
  by_cases hr : k = .funcReturned
  · have hne : Kind.funcReturned.code ≠ Kind.funcCalled.code := by decide
    simp [hr, ← hcode, hne]
  · have hc' : n.kind ≠ Kind.funcCalled.code := fun h' => hc (Kind.code_inj (hcode.trans h'))
    have hr' : n.kind ≠ Kind.funcReturned.code := fun h' => hr (Kind.code_inj (hcode.trans h'))
    simp [hc, hr, hc', hr']

theorem Machine.kind_eventOf {α : Type} {m : Machine α} {k : Kind} {n : Bytecode.Notification}
    {e : Event} (h : m.eventOf k n = .ok (some e)) : e.kind = k := by
  cases k <;> simp only [eventOf, bind_eq_ok, pure_eq_ok] at h
  case comparison =>
    -- a failed comparison gives no event
    obtain ⟨_, _, _, _, h⟩ := h
    split at h <;> simp only [pure_eq_ok, Option.some.injEq, reduceCtorEq] at h
    rw [h]
    rfl
  case funcCalled =>
    split at h
    · simp [bind, Except.bind, throw, throwThe, MonadExceptOf.throw] at h
    · simp only [bind_eq_ok, pure_eq_ok, Option.some.injEq] at h
      obtain ⟨_, _, rfl⟩ := h
      rfl
  all_goals grind [Event.kind]

theorem foldlM_iterate {ε σ β γ : Type} {F : σ → β → Except ε σ} (get : σ → γ) (g : γ → γ)
    (p : β → Bool) (hF : ∀ acc b acc', F acc b = .ok acc' →
      get acc' = if p b then g (get acc) else get acc) :
    ∀ (l : List β) (acc acc' : σ), l.foldlM F acc = .ok acc' →
      get acc' = g^[l.countP p] (get acc)
  | [], acc, acc', h => by cases h; rfl
  | b :: l, acc, acc', h => by
    obtain ⟨acc₁, h₁, h₂⟩ := Machine.bind_eq_ok.1 h
    rw [foldlM_iterate get g p hF l acc₁ acc' h₂, hF acc b acc₁ h₁, List.countP_cons]
    by_cases hb : p b
    · simp [hb, Function.iterate_succ_apply]
    · simp [hb]

namespace Debug

open Bytecode Machine

def Notes.depth (n : Notes) : Int := n.debugger.depth

def Listener.isDebugger : Listener → Bool
  | .debugger => true
  | _ => false

/-- A registry on which the debugger hears every call and every return exactly once. -/
def DebuggerCounts (r : Registry Listener) : Prop :=
  (r.listeners .funcCalled).countP Listener.isDebugger = 1 ∧
    (r.listeners .funcReturned).countP Listener.isDebugger = 1

theorem debugger_hear {l : Listener} {e : Event} {sc : Scene} {n n' : Notes} {resp : Response}
    (h : hear l e sc n = .ok (n', resp)) :
    n'.debugger = if l.isDebugger then (n.debugger.hear e).1 else n.debugger := by
  cases l with
  | watch w =>
    simp only [hear] at h
    split at h <;> obtain ⟨_, _, h⟩ := bind_eq_ok.1 h <;> cases pure_eq_ok.1 h <;> rfl
  | record =>
    cases pure_eq_ok.1 h
    rfl
  | debugger =>
    simp only [hear] at h
    split at h <;> cases pure_eq_ok.1 h <;> simp_all [Listener.isDebugger]
  | profiler =>
    simp only [hear] at h
    split at h <;> cases pure_eq_ok.1 h <;> rfl

theorem Debugger.depth_hear (d : Debugger) (e : Event) :
    (d.hear e).1.depth =
      if e.kind = .funcCalled then d.depth + 1
      else if e.kind = .funcReturned then (if d.depth > 0 then d.depth - 1 else 0)
      else d.depth := by
  unfold Debugger.hear
  cases e <;> simp only [Event.kind, reduceCtorEq, if_true, if_false]
  case singleStep =>
    -- a stop changes the mode and the last stop, not the depth
    split <;> rfl

theorem depth_iterate_hear {e : Event} (hc : e.kind ≠ .funcCalled) (hr : e.kind ≠ .funcReturned)
    (k : Nat) (d : Debugger) : ((fun d : Debugger => (d.hear e).1)^[k] d).depth = d.depth := by
  induction k generalizing d with
  | zero => rfl
  | succ k ih =>
    rw [Function.iterate_succ_apply, ih, Debugger.depth_hear]
    simp [hc, hr]

theorem has_of_countP {r : Registry Listener} {k : Kind}
    (h : (r.listeners k).countP Listener.isDebugger = 1) : r.has k = true := by
  by_contra hno
  have hnil : r.listeners k = [] := by
    simp only [Registry.has, Bool.not_eq_true, List.any_eq_false, beq_iff_eq] at hno
    simp only [Registry.listeners, List.filterMap_eq_nil_iff]
    intro x hx
    simp [hno x hx]
  simp [hnil] at h

theorem eventOf_isSome {α : Type} {m : Machine α} {k : Kind} {n : Notification}
    {ev? : Option Event} (hk : k = .funcCalled ∨ k = .funcReturned) (h : m.eventOf k n = .ok ev?) :
    ev?.isSome = true := by
  rcases hk with rfl | rfl <;> simp only [eventOf] at h
  · split at h
    · simp [bind, Except.bind, throw, throwThe, MonadExceptOf.throw] at h
    · obtain ⟨_, _, h⟩ := bind_eq_ok.1 h
      cases pure_eq_ok.1 h
      rfl
  · obtain ⟨_, _, h⟩ := bind_eq_ok.1 h
    cases pure_eq_ok.1 h
    rfl

theorem counting_debugger {r : Registry Listener} (hr : DebuggerCounts r) :
    Counting hear Notes.depth (some r) := by
  intro m m' w w' nt hreg hd
  unfold Notes.depth
  unfold dispatch deliver at hd
  obtain ⟨listened, hl, hd⟩ := bind_eq_ok.1 hd
  rw [hreg] at hl
  cases hk : Kind.ofCode? nt.kind with
  | none => simp [hasKindCode, hk] at hl
  | some k =>
    rw [Notification.moveCount_of_kind hk]
    have hlisten : r.has k = listened := by simpa [hasKindCode, hk] using hl
    have hFC := has_of_countP hr.1
    have hFR := has_of_countP hr.2
    -- the debugger hears nothing at an event it does not listen to
    split at hd
    · cases pure_eq_ok.1 hd
      have hc : k ≠ .funcCalled := by rintro rfl; simp_all
      have hr' : k ≠ .funcReturned := by rintro rfl; simp_all
      simp [hc, hr']
    simp only [hk, Option.getD_some] at hd
    split at hd
    next ev? hev =>
      simp only [pure_bind] at hd
      split at hd
      next ev =>
        simp only [hreg, Option.map_some, Option.getD_some] at hd
        -- each listener hears the event; the debugger's part changes once per debugger
        have hfold := foldlM_iterate (fun acc : Machine Listener × Notes => acc.2.debugger)
          (fun d => (d.hear ev).1) Listener.isDebugger ?_ _ _ _ hd
        · have hkind := kind_eventOf hev
          dsimp only at hfold ⊢
          rw [hfold]
          by_cases hc : k = .funcCalled
          · subst hc
            rw [hr.1, Function.iterate_one, Debugger.depth_hear, hkind]
          by_cases hr' : k = .funcReturned
          · subst hr'
            rw [hr.2, Function.iterate_one, Debugger.depth_hear, hkind]
          · rw [depth_iterate_hear (hkind ▸ hc) (hkind ▸ hr')]
            simp [hc, hr']
        · rintro ⟨m₁, w₁⟩ l ⟨m₂, w₂⟩ hstep
          dsimp only at hstep
          split at hstep
          · cases hstep
            exact debugger_hear ‹_›
          · cases hstep
      next hnone =>
        -- only a comparison that fails yields no event
        cases pure_eq_ok.1 hd
        have hc : k ≠ .funcCalled := fun hc => by
          obtain ⟨ev, hev'⟩ := Option.isSome_iff_exists.1 (eventOf_isSome (.inl hc) hev)
          exact hnone ev hev'
        have hr' : k ≠ .funcReturned := fun hr' => by
          obtain ⟨ev, hev'⟩ := Option.isSome_iff_exists.1 (eventOf_isSome (.inr hr') hev)
          exact hnone ev hev'
        simp [hc, hr']
    next => simp at hd
    next => simp at hd

/-- Whether the debugger stops at a single step on `line` with the frames at depth `depth`: a
step into stops at once, a step over at a depth no greater than where it was asked, a step out
at a smaller one; and without such a step an enabled breakpoint on the line stops it. -/
def Debugger.stopsAt (d : Debugger) (depth line : Int) : Bool :=
  (match d.mode with
    | .into => true
    | .overCalls => decide (depth ≤ d.stepDepth)
    | .out => decide (depth < d.stepDepth)
    | .none => false) || d.hasBreakpoint line

theorem Debugger.hear_singleStep (d : Debugger) (sp : Span) :
    (d.hear (.singleStep sp)).2.map (·.depth) =
      if d.stopsAt d.depth sp.start.line then some d.depth else none := by
  unfold Debugger.hear Debugger.stopsAt
  -- by the step asked for, whether the depth allows it, and the breakpoint on the line
  cases d.mode
  case into => simp
  case none => cases hb : d.hasBreakpoint sp.start.line <;> simp [hb]
  case overCalls =>
    by_cases hs : d.depth ≤ d.stepDepth <;> cases hb : d.hasBreakpoint sp.start.line <;>
      simp [hs, hb]
  case out =>
    by_cases hs : d.depth < d.stepDepth <;> cases hb : d.hasBreakpoint sp.start.line <;>
      simp [hs, hb]

/-! ## Sessions -/

namespace Session

variable {s s' : Session}

def DepthTracked (r : Registry Listener) (s : Session) : Prop :=
  s.machine.registry = some r ∧ s.machine.Tracks s.notes.depth

theorem registry_eq_some (hr : DebuggerCounts s.registry) : s.machine.registry = some s.registry := by
  unfold Session.registry at hr ⊢
  cases h : s.machine.registry with
  | none => simp [h, DebuggerCounts, Registry.listeners] at hr
  | some r => rfl

theorem DepthTracked.resume {r : Registry Listener} (hr : DebuggerCounts r)
    (ht : s.DepthTracked r) (fuel : Nat) : (s.resume fuel).1.DepthTracked r := by
  obtain ⟨hreg, ht⟩ := ht
  unfold Session.resume
  rcases h : Machine.resume hear fuel s.machine s.notes with ⟨d, m, n⟩
  unfold Machine.resume at h
  split at h
  · cases h
    exact ⟨by simpa [Machine.control] using hreg, ht.control _⟩
  · have hrun : ({ s.machine with status := .running } : Machine Listener).Tracks s.notes.depth :=
      ht.congr rfl rfl
    have hex := Tracks.execute fuel (by simpa [hreg] using counting_debugger hr) hrun
    have hreg' : (execute hear fuel { s.machine with status := .running } s.notes).2.1.registry =
        s.machine.registry := registry_execute fuel
    rw [h] at hex hreg'
    exact ⟨hreg'.trans hreg, hex⟩

theorem DepthTracked.stop {r : Registry Listener} (ht : s.DepthTracked r) :
    s.stop.1.DepthTracked r := by
  obtain ⟨hreg, ht⟩ := ht
  unfold Session.stop
  rcases h : s.machine.stop with ⟨d, m⟩
  unfold Machine.stop at h
  split at h
  · cases h
    exact ⟨by simpa [Machine.control] using hreg, ht.control _⟩
  · cases h
    exact ⟨by simpa using hreg, Tracks.idle (by simpa using ht.heap) (by simp)⟩

theorem DepthTracked.withDebugger {r : Registry Listener} (ht : s.DepthTracked r)
    {g : Debugger → Except String Debugger} (hg : ∀ d d', g d = .ok d' → d'.depth = d.depth) :
    (s.withDebugger g).1.DepthTracked r := by
  unfold Session.withDebugger
  split
  · rename_i d' hd'
    exact ⟨ht.1, by simpa [Notes.depth, hg _ _ hd'] using ht.2⟩
  · exact ht

theorem depthTracked_run {fuel : Nat} {c : Chunk} {d : Option Diagnostic}
    (hr : DebuggerCounts s.registry) (hc : c.Bracketed) (hheap : s.machine.heap.Bracketed)
    (hdepth : s.notes.debugger.depth = 0)
    (hidle : ¬(s.machine.status = .running ∨ s.machine.status = .paused))
    (h : s.run fuel c = .ok (s', d)) : s'.DepthTracked s.registry := by
  have hreg := registry_eq_some hr
  obtain ⟨⟨d', m, n⟩, hrun, h⟩ := bind_eq_ok.1 h
  cases pure_eq_ok.1 h
  exact ⟨(registry_run hrun).trans hreg,
    tracks_run (by rw [hreg]; exact counting_debugger hr) hc hheap hidle hdepth hrun⟩

end Session

/-- What the host may do once a run has started: continue it, stop it, or change the debugger
without touching its depth, as asking for a step and setting breakpoints do. -/
inductive Continues : Session → Session → Prop
  | refl (s : Session) : Continues s s
  | resume {s s' : Session} (fuel : Nat) : Continues s s' → Continues s (s'.resume fuel).1
  | stop {s s' : Session} : Continues s s' → Continues s s'.stop.1
  | debugger {s s' : Session} (g : Debugger → Except String Debugger)
      (hg : ∀ d d', g d = .ok d' → d'.depth = d.depth) :
      Continues s s' → Continues s (s'.withDebugger g).1

theorem Continues.depthTracked {r : Registry Listener} (hr : DebuggerCounts r) {s s' : Session}
    (hc : Continues s s') (ht : s.DepthTracked r) : s'.DepthTracked r := by
  induction hc with
  | refl => exact ht
  | resume fuel _ ih => exact ih.resume hr fuel
  | stop _ ih => exact ih.stop
  | debugger g hg _ ih => exact ih.withDebugger hg

theorem singleStep_depth_of_bracketed {s s₁ s₂ : Session} {fuel : Nat} {c : Chunk}
    {d : Option Diagnostic} (hr : DebuggerCounts s.registry) (hc : c.Bracketed)
    (hheap : s.machine.heap.Bracketed) (hdepth : s.notes.debugger.depth = 0)
    (hidle : ¬(s.machine.status = .running ∨ s.machine.status = .paused))
    (hrun : s.run fuel c = .ok (s₁, d)) (hcont : Continues s₁ s₂) {ys : Array Frame} {f : Frame}
    (hm : s₂.machine.frames = ys.push f) (h0 : 0 ≤ f.pc)
    (hss : f.proto.siteAt f.pc.toNat .singleStep = true) :
    s₂.notes.debugger.depth = (s₂.machine.callDepth : Int) - 1 ∧
      ∀ sp : Span, (s₂.notes.debugger.hear (.singleStep sp)).2.map (·.depth) =
        if s₂.notes.debugger.stopsAt ((s₂.machine.callDepth : Int) - 1) sp.start.line then
          some ((s₂.machine.callDepth : Int) - 1) else none := by
  have ht := hcont.depthTracked hr (Session.depthTracked_run hr hc hheap hdepth hidle hrun)
  have hdepth₂ : s₂.notes.debugger.depth = (s₂.machine.callDepth : Int) - 1 :=
    ht.2.singleStep hm h0 hss
  refine ⟨hdepth₂, fun sp => ?_⟩
  rw [Debugger.hear_singleStep, hdepth₂]

end Debug

end ScriptMachine
