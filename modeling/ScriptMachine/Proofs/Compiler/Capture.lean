import Mathlib.Data.List.Forall2
import ScriptMachine.Proofs.Compiler.Frames
/-!
# Captured variables lead to their binding

A name the innermost function does not bind is looked for along the functions enclosing it,
innermost first. `captureIn` has every function on the way capture it, and a function that
already captures the name reuses its capture. The capture a name resolves to therefore leads,
one enclosing function at a time, to the register binding the name in the nearest enclosing
function that binds it (`Capture.Leads`); each function captures a name at most once; and a
name that resolves to a global is bound by no enclosing function below the top level.
-/

namespace ScriptMachine

open Bytecode Compiler

/-- Where a captured variable leads along the functions enclosing its own (innermost first):
to the register binding the name in the nearest of them that binds it, through one capture of
each function in between. The top level keeps its names in globals, so a chain never reaches
it. -/
inductive Bytecode.Capture.Leads (name : String) : Capture → List Frame → Prop
  | parent {c : Capture} {parent : Frame} {rest : List Frame} {reg : Nat}
      (hmod : parent.module = false) (hin : c.inParent = true) (hidx : c.index = reg)
      (hreg : parent.lookup name = some reg) : c.Leads name (parent :: rest)
  | outer {c c' : Capture} {parent : Frame} {rest : List Frame} {i : Nat}
      (hmod : parent.module = false) (hin : c.inParent = false) (hidx : c.index = i)
      (hnone : parent.lookup name = none) (hcap : parent.chunk.captures[i]? = some c')
      (hnext : c'.Leads name rest) : c.Leads name (parent :: rest)

/-- A function after capturing more names: the same kind of function with the same scopes,
event sites and nested chunks, whose earlier captures keep their indices. -/
structure Compiler.Frame.Extends (f f' : Frame) : Prop where
  module : f'.module = f.module
  scopes : f'.scopes = f.scopes
  notifications : f'.chunk.notifications = f.chunk.notifications
  protos : f'.chunk.protos = f.chunk.protos
  captures : ∀ (i : Nat) (c : Capture), f.chunk.captures[i]? = some c →
    f'.chunk.captures[i]? = some c

theorem Compiler.Frame.Extends.refl (f : Frame) : f.Extends f :=
  ⟨rfl, rfl, rfl, rfl, fun _ _ h => h⟩

theorem Compiler.Frame.Extends.lookup {f f' : Frame} (h : f.Extends f') (name : String) :
    f'.lookup name = f.lookup name := by
  unfold Frame.lookup
  rw [h.scopes]

theorem Compiler.Frame.extends_addCapture (f : Frame) (c : Capture) :
    f.Extends (f.addCapture c).2 := by
  refine ⟨rfl, rfl, rfl, rfl, fun i c' h => ?_⟩
  have hlt : i < f.chunk.captures.size := (Array.getElem?_eq_some_iff.mp h).1
  simp only [Frame.addCapture, Array.getElem?_push, Nat.ne_of_lt hlt, if_false, h]

theorem Compiler.Frame.getElem?_addCapture (f : Frame) (c : Capture) :
    (f.addCapture c).2.chunk.captures[(f.addCapture c).1]? = some c := by
  simp [Frame.addCapture]

theorem Compiler.Frame.heard_of_extends {ks : List Kind} :
    ∀ {fs fs' : List Frame}, List.Forall₂ Frame.Extends fs fs' →
      (∀ f ∈ fs, f.chunk.Heard ks) → ∀ f ∈ fs', f.chunk.Heard ks
  | _, _, .nil, _ => by simp
  | _, _, .cons he hrest, h => by
    intro f' hf'
    rcases List.mem_cons.mp hf' with rfl | hmem
    · exact (h _ (List.mem_cons_self ..)).congr he.notifications he.protos
    · exact heard_of_extends hrest (fun f hf => h f (List.mem_cons_of_mem _ hf)) f' hmem

theorem Bytecode.Capture.Leads.mono {name : String} {c : Capture} {fs : List Frame}
    (h : c.Leads name fs) : ∀ {fs'}, List.Forall₂ Frame.Extends fs fs' → c.Leads name fs' := by
  induction h with
  | parent hmod hin hidx hreg =>
    intro fs' hext
    obtain ⟨f', rest', hf, -, rfl⟩ := List.forall₂_cons_left_iff.mp hext
    exact .parent (hf.module.trans hmod) hin hidx ((hf.lookup _).trans hreg)
  | outer hmod hin hidx hnone hcap hnext ih =>
    intro fs' hext
    obtain ⟨f', rest', hf, hrest, rfl⟩ := List.forall₂_cons_left_iff.mp hext
    exact .outer (hf.module.trans hmod) hin hidx ((hf.lookup _).trans hnone)
      (hf.captures _ _ hcap) (ih hrest)

namespace Compiler

/-- Every open function captures each name at most once, and each of its captures leads to the
binding of its name along the functions enclosing it. -/
def CapturesLead : List Frame → Prop
  | [] => True
  | f :: outer => (f.captured.map Prod.fst).Nodup ∧
      (∀ n i, (n, i) ∈ f.captured →
        ∃ c, f.chunk.captures[i]? = some c ∧ c.name = n ∧ c.Leads n outer) ∧
      CapturesLead outer

/-- Some enclosing function below the top level binds the name to a register. -/
inductive BoundOutside (name : String) : List Frame → Prop
  | here {parent : Frame} {rest : List Frame} (hmod : parent.module = false)
      (hbound : parent.lookup name ≠ none) : BoundOutside name (parent :: rest)
  | up {parent : Frame} {rest : List Frame} (hmod : parent.module = false)
      (hrest : BoundOutside name rest) : BoundOutside name (parent :: rest)

namespace CapturesLead

variable {f f' : Frame} {fs : List Frame}

theorem set_head (h : CapturesLead (f :: fs)) (hc : f'.captured = f.captured)
    (hcap : f'.chunk.captures = f.chunk.captures) : CapturesLead (f' :: fs) := by
  obtain ⟨hnodup, hlead, hout⟩ := h
  refine ⟨hc ▸ hnodup, fun n i hmem => ?_, hout⟩
  rw [hcap]
  exact hlead n i (hc ▸ hmem)

theorem push (h : CapturesLead fs) (hc : f.captured = []) : CapturesLead (f :: fs) :=
  ⟨by simp [hc], fun _ _ hmem => by simp [hc] at hmem, h⟩

theorem tail (h : CapturesLead (f :: fs)) : CapturesLead fs :=
  h.2.2

end CapturesLead

theorem not_mem_of_lookup_eq_none {β : Type} {l : List (String × β)} {k : String}
    (h : l.lookup k = none) : k ∉ l.map Prod.fst := by
  simp only [List.mem_map, not_exists, not_and]
  intro p hp hk
  have hne := List.lookup_eq_none_iff.mp h p hp
  simp [hk] at hne

/-- Capturing a name along the open functions keeps each name captured once and every capture
leading to its binding; the functions are only extended, and the index found is a capture of
the innermost function leading to the binding of the name. -/
theorem CapturesLead.captureIn {name : String} {fs : List Frame} :
    ∀ {fs' : List Frame} {i : Nat}, CapturesLead fs → captureIn name fs = some (i, fs') →
      CapturesLead fs' ∧ List.Forall₂ Frame.Extends fs fs' ∧
        ∃ f' outer' c, fs' = f' :: outer' ∧ f'.chunk.captures[i]? = some c ∧ c.name = name ∧
          c.Leads name outer' := by
  induction fs with
  | nil => intro _ _ _ h; cases h
  | cons f outer ih =>
    intro fs' i hinv h
    obtain ⟨hnodup, hlead, hout⟩ := hinv
    rcases captureIn_eq_some h with
      ⟨hj, rfl⟩ | ⟨hnone, parent, pp, c, outer', rfl, hmod, hc, rfl, rfl⟩
    · -- the innermost function already captures the name
      obtain ⟨c, hc, hn, hl⟩ := hlead name i (mem_of_lookup_eq_some hj)
      exact ⟨⟨hnodup, hlead, hout⟩, List.forall₂_same.mpr fun f _ => Frame.Extends.refl f,
        f, outer, c, rfl, hc, hn, hl⟩
    · -- the new capture, and the enclosing functions after capturing along them
      have hc' : CapturesLead outer' ∧ List.Forall₂ Frame.Extends (parent :: pp) outer' ∧
          c.name = name ∧ c.Leads name outer' := by
        rcases hc with ⟨reg, hreg, rfl, rfl⟩ | ⟨hpnone, j, hrec, rfl⟩
        · exact ⟨hout, List.forall₂_same.mpr fun f _ => Frame.Extends.refl f, rfl,
            .parent hmod rfl rfl hreg⟩
        · obtain ⟨hout', hext, f', outer', c', rfl, hc', -, hl'⟩ := ih hout hrec
          have hpe := (List.forall₂_cons.mp hext).1
          exact ⟨hout', hext, rfl, .outer (hpe.module.trans hmod) rfl rfl
            ((hpe.lookup name).trans hpnone) hc' hl'⟩
      obtain ⟨hout', hext, hname, hl⟩ := hc'
      refine ⟨⟨?_, ?_, hout'⟩, .cons (Frame.extends_addCapture f c) hext, _, outer', c, rfl,
        Frame.getElem?_addCapture f c, hname, hl⟩
      · simp only [Frame.addCapture, List.map_cons, List.nodup_cons]
        exact ⟨hname ▸ not_mem_of_lookup_eq_none hnone, hnodup⟩
      · intro n j hmem
        simp only [Frame.addCapture, List.mem_cons, Prod.mk.injEq] at hmem
        rcases hmem with ⟨rfl, rfl⟩ | hmem
        · exact ⟨c, Frame.getElem?_addCapture f c, rfl, hname ▸ hl⟩
        · obtain ⟨c₀, hc₀, hn₀, hl₀⟩ := hlead n j hmem
          exact ⟨c₀, (Frame.extends_addCapture f c).captures j c₀ hc₀, hn₀, hl₀.mono hext⟩

theorem not_boundOutside_of_captureIn {name : String} {outer : List Frame} :
    ∀ {f : Frame}, captureIn name (f :: outer) = none → ¬ BoundOutside name outer := by
  induction outer with
  | nil => intro _ _ hb; cases hb
  | cons parent pp ih =>
    intro f h hb
    unfold Compiler.captureIn at h
    split at h
    · cases h
    · dsimp only at h
      split at h
      · -- the top level binds no name in registers
        cases hb with
        | here hmod _ => simp_all
        | up hmod _ => simp_all
      · rename_i hmod
        rw [Option.map_eq_none_iff] at h
        split at h
        · cases h
        · rename_i hpnone
          have hrest := ih (Option.map_eq_none_iff.mp h)
          cases hb with
          | here _ hbound => exact hbound hpnone
          | up _ hb' => exact hrest hb'

theorem Resolver.globalSlot_run {name : String} {r r' : Resolver} {i : Nat}
    (h : (Resolver.globalSlot name).run r = .ok (i, r')) :
    r'.frames = r.frames ∧ r'.globals[i]? = some name := by
  simp only [Resolver.globalSlot, StateT.run_bind, StateT.run_get, pure_bind] at h
  split at h
  · rename_i j hj
    cases h
    rw [Array.idxOf?_eq_map_finIdxOf?_val] at hj
    obtain ⟨j, hfin, rfl⟩ := Option.map_eq_some_iff.mp hj
    exact ⟨rfl, Array.getElem?_eq_some_iff.mpr ⟨j.isLt, (Array.finIdxOf?_eq_some_iff.mp hfin).1⟩⟩
  · simp only [StateT.run_bind, StateT.run_set, pure_bind, StateT.run_pure] at h
    cases h
    simp

/-- Name resolution follows lexical scope. A name is a register of the innermost function when
it binds it; otherwise it is a capture of that function leading to the binding in the nearest
enclosing function that binds the name; otherwise it is the global slot of that name, and no
enclosing function below the top level binds it. Resolving keeps every function capturing each
name once, with every capture leading to its binding. -/
theorem find_lexical {name : String} {r r' : Resolver} {v : Variable}
    (hinv : CapturesLead r.frames) (hrun : (Resolver.find name).run r = .ok (v, r')) :
    CapturesLead r'.frames ∧ ∃ f fs, r.frames = f :: fs ∧
      (f.lookup name = some v.index ∧ v.place = .register ∨
       f.lookup name = none ∧ v.place = .capture ∧ (∃ f' fs' c, r'.frames = f' :: fs' ∧
         f'.chunk.captures[v.index]? = some c ∧ c.name = name ∧ c.Leads name fs') ∨
       f.lookup name = none ∧ v.place = .global ∧ ¬ BoundOutside name fs ∧
         r'.globals[v.index]? = some name) := by
  cases hr : r.frames with
  | nil =>
    simp only [Resolver.find, Resolver.frame, StateT.run_bind, StateT.run_get, pure_bind,
      hr] at hrun
    cases hrun
  | cons f fs =>
    rw [hr] at hinv
    simp only [Resolver.find, Resolver.frame, StateT.run_bind, StateT.run_get, StateT.run_pure,
      pure_bind, hr] at hrun
    split at hrun
    · rename_i reg hreg
      cases hrun
      exact ⟨hr ▸ hinv, f, fs, rfl, .inl ⟨hreg, rfl⟩⟩
    · rename_i hnone
      simp only [StateT.run_bind, StateT.run_get, pure_bind, hr] at hrun
      split at hrun
      · rename_i i frames hcap
        simp only [StateT.run_bind, StateT.run_modify, pure_bind, StateT.run_pure] at hrun
        cases hrun
        obtain ⟨hinv', -, f', fs', c, hfs, hc, hn, hl⟩ := hinv.captureIn hcap
        exact ⟨hfs ▸ hinv', f, fs, rfl, .inr (.inl ⟨hnone, rfl, f', fs', c, hfs, hc, hn, hl⟩)⟩
      · rename_i hcap
        simp only [StateT.run_bind] at hrun
        rcases hg : (Resolver.globalSlot name).run r with _ | ⟨j, r''⟩
        · rw [hg] at hrun; cases hrun
        · rw [hg] at hrun
          cases hrun
          obtain ⟨hfr, hslot⟩ := Resolver.globalSlot_run hg
          refine ⟨by simp only [hfr, hr]; exact hinv, f, fs, rfl,
            .inr (.inr ⟨hnone, rfl, not_boundOutside_of_captureIn hcap, hslot⟩)⟩

/-- A name bound two functions out is captured through the function in between. -/
theorem find_lexical_two_levels :
    ∃ v r', (Resolver.find "x").run { frames := [{ chunk := { name := "g" }, module := false },
        { chunk := { name := "h" }, module := false },
        { chunk := { name := "f", registers := 1 }, scopes := [{ names := [("x", 0)], base := 0 }],
          next := 1, module := false },
        { chunk := { name := "m" }, module := true }] } = .ok (v, r') ∧
      v.place = .capture ∧ CapturesLead r'.frames := by
  obtain ⟨v, r', hrun⟩ : ∃ v r', (Resolver.find "x").run { frames :=
      [{ chunk := { name := "g" }, module := false }, { chunk := { name := "h" }, module := false },
        { chunk := { name := "f", registers := 1 }, scopes := [{ names := [("x", 0)], base := 0 }],
          next := 1, module := false },
        { chunk := { name := "m" }, module := true }] } = .ok (v, r') := ⟨_, _, rfl⟩
  obtain ⟨hinv, f, fs, hfs, hplace⟩ := find_lexical (by simp [CapturesLead]) hrun
  refine ⟨v, r', hrun, ?_, hinv⟩
  simp only [List.cons.injEq] at hfs
  obtain ⟨rfl, rfl⟩ := hfs
  rcases hplace with ⟨hreg, -⟩ | ⟨-, hcap, -⟩ | ⟨-, -, hb, -⟩
  · simp [Frame.lookup] at hreg
  · exact hcap
  · exact absurd (.up rfl (.here rfl (by simp [Frame.lookup]))) hb

end Compiler

end ScriptMachine
