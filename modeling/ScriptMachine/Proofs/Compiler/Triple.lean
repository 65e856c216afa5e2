import ScriptMachine.Compiler.Emit
import ScriptMachine.Proofs.Compiler.Capture
/-!
# Contracts of compile steps

A program with a report yields no chunk, so what the compiler promises about its output needs to
hold only along runs that end with no report. `Triple o P act Q` says that a run of `act` from a
state where `P` holds that ends without reports also started without them, and ends where `Q`
holds of its result. Every contract also keeps `Resolver.Kept`.
-/

namespace ScriptMachine.Compiler

open Bytecode

/-- What every compile step keeps of the open functions: the event sites of their chunks, and
of the chunks nested in them, are all of kinds the options listen to, and their captures lead to
the bindings of the captured names. -/
structure Resolver.Kept (o : Options) (r : Resolver) : Prop where
  heard : ∀ f ∈ r.frames, f.chunk.Heard o.listened
  leads : CapturesLead r.frames

namespace Resolver.Kept

variable {o : Options} {r r' : Resolver} {f f' : Frame} {fs : List Frame}

theorem head (h : r.Kept o) (hr : r.frames = f :: fs) : f.chunk.Heard o.listened :=
  h.heard f (hr ▸ List.mem_cons_self ..)

theorem set_head (h : r.Kept o) (hr : r.frames = f :: fs) (hr' : r'.frames = f' :: fs)
    (hf : f'.chunk.Heard o.listened) (hc : f'.captured = f.captured)
    (hcap : f'.chunk.captures = f.chunk.captures) : r'.Kept o := by
  refine ⟨fun f'' hf'' => ?_, ?_⟩
  · rw [hr'] at hf''
    rcases List.mem_cons.mp hf'' with rfl | hmem
    · exact hf
    · exact h.heard f'' (hr ▸ List.mem_cons_of_mem _ hmem)
  · have hl := h.leads
    rw [hr] at hl
    rw [hr']
    exact hl.set_head hc hcap

theorem keep (h : r.Kept o) (hr : r.frames = f :: fs) (hr' : r'.frames = f' :: fs)
    (hn : f'.chunk.notifications = f.chunk.notifications) (hp : f'.chunk.protos = f.chunk.protos)
    (hc : f'.captured = f.captured) (hcap : f'.chunk.captures = f.chunk.captures) : r'.Kept o :=
  h.set_head hr hr' ((h.head hr).congr hn hp) hc hcap

theorem push (h : r.Kept o) (hr' : r'.frames = f :: r.frames) (hf : f.chunk.Heard o.listened)
    (hc : f.captured = []) : r'.Kept o := by
  refine ⟨fun f'' hf'' => ?_, hr' ▸ h.leads.push hc⟩
  rw [hr'] at hf''
  rcases List.mem_cons.mp hf'' with rfl | hmem
  · exact hf
  · exact h.heard f'' hmem

theorem pop (h : r.Kept o) (hr : r.frames = f :: fs) (hr' : r'.frames = fs) : r'.Kept o := by
  have hl := h.leads
  rw [hr] at hl
  refine ⟨fun f'' hf'' => h.heard f'' ?_, hr' ▸ hl.tail⟩
  rw [hr]
  exact List.mem_cons_of_mem _ (hr' ▸ hf'')

theorem captureIn {name : String} {i : Nat} {fs' : List Frame} (h : r.Kept o)
    (hcap : Compiler.captureIn name r.frames = some (i, fs')) (hr' : r'.frames = fs') :
    r'.Kept o := by
  obtain ⟨hl, hext, -⟩ := h.leads.captureIn hcap
  rw [← hr'] at hl hext
  exact ⟨Frame.heard_of_extends hext h.heard, hl⟩

end Resolver.Kept

/-- A compile step's contract over runs that end without a report. -/
def Triple {α : Type} (o : Options) (P : Resolver → Prop) (act : GenM α)
    (Q : α → Resolver → Prop) : Prop :=
  ∀ r a r', (act.run o).run r = .ok (a, r') → r'.reports = #[] →
    r.reports = #[] ∧ (P r → r.Kept o → Q a r' ∧ r'.Kept o)

namespace Triple

variable {α β : Type} {o : Options} {P P' : Resolver → Prop} {Q Q' : α → Resolver → Prop}

theorem bind_run (x : GenM α) (f : α → GenM β) (r : Resolver) :
    ((x >>= f).run o).run r = ((x.run o).run r).bind fun p => ((f p.1).run o).run p.2 := rfl

@[simp] theorem run_pure_bind {γ δ : Type} (x : γ) (f : γ → Except Fault δ) :
    (Pure.pure x : Except Fault γ).bind f = f x := rfl

@[simp] theorem run_error_bind {γ δ : Type} (e : Fault) (f : γ → Except Fault δ) :
    (Except.error e >>= f : Except Fault δ) = .error e := rfl

@[simp] theorem run_throw_bind {γ δ : Type} (e : Fault) (f : γ → ResolveM δ) (r : Resolver) :
    StateT.run ((MonadExcept.throw e : ResolveM γ) >>= f) r = .error e := rfl

theorem bind_eq_ok {γ δ : Type} {x : Except Fault γ} {f : γ → Except Fault δ} {b : δ}
    (h : (x >>= f) = .ok b) : ∃ a, x = .ok a ∧ f a = .ok b := by
  cases x with
  | error e => cases h
  | ok a => exact ⟨a, rfl, h⟩

theorem bind {x : GenM α} {f : α → GenM β} {R : β → Resolver → Prop}
    (hx : Triple o P x Q) (hf : ∀ a, Triple o (Q a) (f a) R) : Triple o P (x >>= f) R := by
  intro r b r' h hclean
  rw [bind_run] at h
  cases hx' : (x.run o).run r with
  | error e => rw [hx'] at h; cases h
  | ok p =>
    rw [hx'] at h
    obtain ⟨a, r₁⟩ := p
    obtain ⟨h₁, hf'⟩ := hf a r₁ b r' h hclean
    obtain ⟨h₀, hx''⟩ := hx r a r₁ hx' h₁
    refine ⟨h₀, fun hp hh => ?_⟩
    obtain ⟨hq, hh₁⟩ := hx'' hp hh
    exact hf' hq hh₁

theorem pure {a : α} (h : ∀ r, P r → Q a r) : Triple o P (Pure.pure a) Q := by
  intro r b r' hrun hclean
  cases hrun
  exact ⟨hclean, fun hp hh => ⟨h r hp, hh⟩⟩

theorem mono (hP : ∀ r, P' r → P r) (h : Triple o P act Q) (hQ : ∀ a r, Q a r → Q' a r) :
    Triple o P' act Q' := by
  intro r a r' hrun hclean
  obtain ⟨h₀, h₁⟩ := h r a r' hrun hclean
  refine ⟨h₀, fun hp hh => ?_⟩
  obtain ⟨hq, hh'⟩ := h₁ (hP r hp) hh
  exact ⟨hQ a r' hq, hh'⟩

theorem post {act : GenM α} (h : Triple o P act Q) (hQ : ∀ a r, Q a r → Q' a r) :
    Triple o P act Q' :=
  mono (fun _ hp => hp) h hQ

theorem pre {act : GenM α} (hP : ∀ r, P' r → P r) (h : Triple o P act Q) : Triple o P' act Q :=
  mono hP h fun _ _ hq => hq

theorem pure_and {act : GenM α} {c : Prop} (h : Triple o P act Q) :
    Triple o (fun r => c ∧ P r) act (fun a r => c ∧ Q a r) := by
  intro r a r' hrun hclean
  obtain ⟨h₀, h₁⟩ := h r a r' hrun hclean
  refine ⟨h₀, fun ⟨hc, hp⟩ hh => ?_⟩
  obtain ⟨hq, hh'⟩ := h₁ hp hh
  exact ⟨⟨hc, hq⟩, hh'⟩

theorem and_pure {act : GenM α} {c : Prop} (h : Triple o P act Q) :
    Triple o (fun r => P r ∧ c) act (fun a r => Q a r ∧ c) := by
  intro r a r' hrun hclean
  obtain ⟨h₀, h₁⟩ := h r a r' hrun hclean
  refine ⟨h₀, fun ⟨hp, hc⟩ hh => ?_⟩
  obtain ⟨hq, hh'⟩ := h₁ hp hh
  exact ⟨⟨hq, hc⟩, hh'⟩

theorem carry {act : GenM α} {c d : Prop} (hd : c → d) (h : Triple o (fun r => P r ∧ d) act Q) :
    Triple o (fun r => c ∧ P r) act (fun a r => c ∧ Q a r) :=
  pre (fun _ ⟨hc, hp⟩ => ⟨hc, hp, hd hc⟩) (pure_and h)

theorem vacuous {act : GenM α} {Q'' : α → Resolver → Prop} (h : Triple o P act Q) :
    Triple o (fun _ => False) act Q'' := by
  intro r a r' hrun hclean
  exact ⟨(h r a r' hrun hclean).1, fun hf _ => hf.elim⟩

theorem assume {c d : Prop} {Q₀ : α → Resolver → Prop} {act : GenM α}
    (h₀ : Triple o (fun r => P r ∧ d) act Q₀) (h : c → Triple o P act Q) :
    Triple o (fun r => c ∧ P r) act Q := by
  intro r a r' hrun hclean
  exact ⟨(h₀ r a r' hrun hclean).1, fun ⟨hc, hp⟩ hh => (h hc r a r' hrun hclean).2 hp hh⟩

theorem throw {e : Fault} : Triple o P (throw e : GenM α) Q := by
  intro r a r' hrun
  cases hrun

theorem throw_bind {β : Type} {e : Fault} {f : α → GenM β} {R : β → Resolver → Prop} :
    Triple o P ((MonadExcept.throw e : GenM α) >>= f) R := by
  intro r a r' hrun
  cases hrun

theorem exists_pre {γ : Type} [inst : Nonempty γ] {P : γ → Resolver → Prop} {act : GenM α}
    (h : ∀ g, Triple o (P g) act Q) : Triple o (fun r => ∃ g, P g r) act Q := by
  intro r a r' hrun hclean
  refine ⟨(h (Classical.choice inst) r a r' hrun hclean).1, ?_⟩
  rintro ⟨g, hg⟩ hh
  exact (h g r a r' hrun hclean).2 hg hh

theorem liftM_run {x : ResolveM α} (r : Resolver) :
    ((liftM x : GenM α).run o).run r = x.run r := rfl

theorem liftM_bind {x : ResolveM α} {f : α → ResolveM β} :
    (liftM (x >>= f) : GenM β) = liftM x >>= fun a => liftM (f a) := rfl

theorem liftM_pure {a : α} : (liftM (Pure.pure a : ResolveM α) : GenM α) = Pure.pure a := rfl

theorem read {Q : Options → Resolver → Prop} (h : ∀ r, P r → Q o r) :
    Triple o P (MonadReader.read : GenM Options) Q := by
  intro r a r' hrun hclean
  cases hrun
  exact ⟨hclean, fun hp hh => ⟨h r hp, hh⟩⟩

theorem ite {c : Prop} [Decidable c] {x y : GenM α} (hx : c → Triple o P x Q)
    (hy : ¬c → Triple o P y Q) : Triple o P (if c then x else y) Q := by
  by_cases hc : c
  · rw [if_pos hc]
    exact hx hc
  · rw [if_neg hc]
    exact hy hc

/-- A walk over a list keeps an invariant that every element's step keeps. -/
theorem forM {γ : Type} {xs : List γ} {f : γ → GenM PUnit} {I : Resolver → Prop}
    (h : ∀ x ∈ xs, Triple o I (f x) fun _ => I) : Triple o I (xs.forM f) fun _ => I := by
  induction xs with
  | nil => exact pure fun _ hi => hi
  | cons x rest ih =>
    exact bind (h x (List.mem_cons_self ..)) fun _ =>
      ih fun y hy => h y (List.mem_cons_of_mem _ hy)

theorem forM_count {γ : Type} {xs : List γ} {f : γ → GenM PUnit} {I : Nat → Resolver → Prop}
    (h : ∀ j, ∀ x ∈ xs, Triple o (I j) (f x) fun _ => I (j + 1)) :
    ∀ j, Triple o (I j) (xs.forM f) fun _ => I (j + xs.length) := by
  induction xs with
  | nil => exact fun j => pure fun _ hi => hi
  | cons x rest ih =>
    intro j
    refine bind (h j x (List.mem_cons_self ..)) fun _ => ?_
    have := ih (fun j y hy => h j y (List.mem_cons_of_mem _ hy)) (j + 1)
    simpa only [List.length_cons, Nat.add_assoc, Nat.add_comm 1] using this

/-- A fold over a list keeps an invariant of the accumulator and the state. -/
theorem foldlM {γ : Type} {xs : List γ} {f : β → γ → GenM β} {init : β}
    {I : β → Resolver → Prop} (h : ∀ acc, ∀ x ∈ xs, Triple o (I acc) (f acc x) I) :
    Triple o (I init) (xs.foldlM f init) I := by
  induction xs generalizing init with
  | nil => exact pure fun _ hi => hi
  | cons x rest ih =>
    exact bind (h init x (List.mem_cons_self ..)) fun acc =>
      ih fun acc' y hy => h acc' y (List.mem_cons_of_mem _ hy)

theorem liftM_forIn {γ : Type} (xs : List γ) (b : β) (f : γ → β → ResolveM (ForInStep β)) :
    (liftM (forIn xs b f) : GenM β) = forIn xs b fun x b => liftM (f x b) := by
  induction xs generalizing b with
  | nil => rfl
  | cons x rest ih =>
    simp only [List.forIn_cons]
    rw [liftM_bind]
    congr 1
    funext step
    cases step with
    | done b' => rfl
    | yield b' => exact ih b'

theorem forIn_count {γ : Type} {xs : List γ} {f : γ → PUnit → GenM (ForInStep PUnit)}
    {I : Nat → Resolver → Prop}
    (h : ∀ j x, Triple o (I j) (f x ⟨⟩) fun step r => step = .yield ⟨⟩ ∧ I (j + 1) r) :
    ∀ j, Triple o (I j) (forIn xs ⟨⟩ f) fun _ => I (j + xs.length) := by
  induction xs with
  | nil => exact fun j => pure fun _ hi => hi
  | cons x rest ih =>
    intro j
    simp only [List.forIn_cons]
    refine bind (h j x) fun step => ?_
    intro r a r' hrun hclean
    cases step with
    | done b =>
      cases hrun
      exact ⟨hclean, fun hs _ => nomatch hs.1⟩
    | yield b =>
      obtain ⟨h₀, h₁⟩ := ih (j + 1) r a r' hrun hclean
      refine ⟨h₀, fun hs hh => ?_⟩
      have := h₁ hs.2 hh
      simpa [Nat.add_assoc, Nat.add_comm 1] using this

end Triple

end ScriptMachine.Compiler
