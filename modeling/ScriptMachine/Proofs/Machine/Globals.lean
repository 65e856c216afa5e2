import ScriptMachine.Proofs.Machine.Surface
import ScriptMachine.Proofs.Machine.Depth
import Mathlib.Data.List.Nodup
/-!
# The global table

Globals live in one table of cells, shared by every chunk and every function value: a chunk's
slots name their globals, and `GETGLOBAL` and `SETGLOBAL` find the cell by that name. Only
declaring a name (`globalCell`) and storing into a cell (`setGlobal`) change the table; every
other step leaves it as it was.
-/

namespace ScriptMachine

open Bytecode

def Global.byProgram (g : Global) : Bool := g.defined && !g.native

namespace Machine

variable {α ω : Type}

def table (m : Machine α) : Array Global × Array Nat := (m.globals, m.order)

/-- A well-formed global table: one cell per name, and an order of definitions that lists each
global a program defined, once, and nothing else. -/
structure TableKept (m : Machine α) : Prop where
  names : (m.globals.toList.map Global.name).Nodup
  order : m.order.toList.Nodup
  joined : ∀ i, i ∈ m.order.toList ↔ ∃ g, m.globals[i]? = some g ∧ g.byProgram = true

/-- The table of `m'` grew from that of `m`: well formed if it was, every cell where it was
with its name and defined if it was, and the order of definitions extended at its end. -/
structure TableGrows (m m' : Machine α) : Prop where
  kept : m.TableKept → m'.TableKept
  stays : ∀ (i : Nat) (g : Global), m.globals[i]? = some g →
    ∃ g' : Global, m'.globals[i]? = some g' ∧ g'.name = g.name ∧
      (g.defined = true → g'.defined = true)
  order : m.order.toList <+: m'.order.toList

namespace TableGrows

variable {m m₁ m₂ : Machine α}

theorem refl (m : Machine α) : TableGrows m m :=
  ⟨id, fun _ g h => ⟨g, h, rfl, id⟩, List.prefix_refl _⟩

theorem trans (h₁ : TableGrows m m₁) (h₂ : TableGrows m₁ m₂) : TableGrows m m₂ where
  kept := h₂.kept ∘ h₁.kept
  stays i g hg := by
    obtain ⟨g₁, hg₁, hn₁, hd₁⟩ := h₁.stays i g hg
    obtain ⟨g₂, hg₂, hn₂, hd₂⟩ := h₂.stays i g₁ hg₁
    exact ⟨g₂, hg₂, hn₂.trans hn₁, hd₂ ∘ hd₁⟩
  order := h₁.order.trans h₂.order

theorem of_table (h : m₁.table = m.table) : TableGrows m m₁ := by
  obtain ⟨hg, ho⟩ := Prod.mk.inj h
  refine ⟨fun hk => ?_, fun i g hi => ⟨g, hg ▸ hi, rfl, id⟩, ho ▸ List.prefix_refl _⟩
  exact ⟨hg ▸ hk.names, ho ▸ hk.order, fun i => by rw [hg, ho]; exact hk.joined i⟩

end TableGrows

/-! ## The two steps that change the table -/

section Change

variable {m : Machine α}

theorem TableKept.lt_of_mem (hk : m.TableKept) {i : Nat} (hi : i ∈ m.order.toList) :
    i < m.globals.size := by
  obtain ⟨g, hg, -⟩ := (hk.joined i).1 hi
  exact (Array.getElem?_eq_some_iff.1 hg).1

theorem globalCell_grows (name : String) : TableGrows m (m.globalCell name).2 := by
  unfold globalCell
  split
  · exact TableGrows.refl m
  rename_i hnone
  have hcell (i : Nat) : (m.globals.push { name := name })[i]? =
      if i = m.globals.size then some { name := name } else m.globals[i]? := Array.getElem?_push
  refine ⟨fun hk => ⟨?_, hk.order, fun i => ?_⟩, fun i g hg => ⟨g, ?_, rfl, id⟩, List.prefix_refl _⟩
  · -- the new name is none of the old ones
    have hfresh : ∀ g ∈ m.globals, g.name ≠ name := fun g hg => by
      simpa using Array.findIdx?_eq_none_iff.1 hnone g hg
    simpa [List.nodup_append] using ⟨hk.names, hfresh⟩
  · by_cases hi : i = m.globals.size
    · -- the new cell is undefined, and the order lists only old cells
      have hout : i ∉ m.order.toList := fun hmem => absurd (hk.lt_of_mem hmem) (by omega)
      rw [hi] at hout ⊢
      simpa [hcell, Global.byProgram] using hout
    · simp only [hcell, hi, if_false]
      exact hk.joined i
  · rw [hcell, if_neg (Nat.ne_of_lt (Array.getElem?_eq_some_iff.1 hg).1)]
    exact hg

theorem TableKept.not_mem_order (hk : m.TableKept) {j : Nat} {g : Global}
    (hg : m.globals[j]? = some g) (hp : g.byProgram = false) : j ∉ m.order.toList := fun hin => by
  obtain ⟨g₁, hg₁, hp₁⟩ := (hk.joined j).1 hin
  rw [hg] at hg₁
  cases hg₁
  simp [hp] at hp₁

theorem map_name_set {gs : Array Global} {j : Nat} {g g' : Global} (hg : gs[j]? = some g)
    (hname : g'.name = g.name) :
    (gs.set! j g').toList.map Global.name = gs.toList.map Global.name := by
  have hjl : j < (gs.toList.map Global.name).length := by
    simpa using (Array.getElem?_eq_some_iff.1 hg).1
  have hget : (gs.toList.map Global.name)[j] = g.name := by
    simp [(Array.getElem?_eq_some_iff.1 hg).2]
  rw [Array.set!_eq_setIfInBounds, Array.toList_setIfInBounds, List.map_set, hname, ← hget,
    List.set_getElem_self]

theorem getElem?_set!_of_lt {gs : Array Global} {j : Nat} (hj : j < gs.size) (g : Global)
    (i : Nat) : (gs.set! j g)[i]? = if i = j then some g else gs[i]? := by
  rw [Array.set!_eq_setIfInBounds, Array.getElem?_setIfInBounds]
  by_cases hi : i = j
  · simp [hi, hj]
  · simp [hi, Ne.symm hi]

theorem setGlobal_of_cell {j : Nat} {g : Global} (hg : m.globals[j]? = some g) (v : Value) :
    m.setGlobal j v = { m with
      globals := m.globals.set! j { g with value := v, defined := true, native := false },
      order := if g.byProgram then m.order else m.order.push j } := by
  have hjoin : (!g.defined || g.native) = !g.byProgram := by
    unfold Global.byProgram
    cases g.defined <;> cases g.native <;> rfl
  unfold setGlobal
  simp only [hg, hjoin]
  cases g.byProgram <;> rfl

theorem TableKept.setGlobal (hk : m.TableKept) {j : Nat} {g : Global}
    (hg : m.globals[j]? = some g) (v : Value) : (m.setGlobal j v).TableKept := by
  rw [setGlobal_of_cell hg]
  have hj : j < m.globals.size := (Array.getElem?_eq_some_iff.1 hg).1
  generalize hnew : { g with value := v, defined := true, native := false } = g'
  have hprog : g'.byProgram = true := by rw [← hnew]; rfl
  refine ⟨by rw [map_name_set hg (by rw [← hnew])]; exact hk.names, ?_, fun i => ?_⟩
  · cases hp : g.byProgram
    · simpa [List.nodup_append] using
        ⟨hk.order, fun a ha hja => hk.not_mem_order hg hp (by simpa [hja] using ha)⟩
    · simpa using hk.order
  · rw [getElem?_set!_of_lt hj]
    by_cases hi : i = j
    · -- the stored cell is a global of the program, listed before or joining now
      subst hi
      cases hp : g.byProgram
      · simp [hprog]
      · simp [hprog, (hk.joined i).2 ⟨g, hg, hp⟩]
    · cases g.byProgram <;> simp [hi, hk.joined i]

theorem setGlobal_grows (j : Nat) (v : Value) : TableGrows m (m.setGlobal j v) := by
  cases hg : m.globals[j]? with
  | none =>
    -- no such cell: nothing is stored
    have hnone : m.setGlobal j v = m := by unfold setGlobal; rw [hg]
    rw [hnone]
    exact TableGrows.refl m
  | some g =>
    have hj : j < m.globals.size := (Array.getElem?_eq_some_iff.1 hg).1
    refine ⟨fun hk => hk.setGlobal hg v, fun i g₀ hg₀ => ?_, ?_⟩
    · rw [setGlobal_of_cell hg]
      dsimp only
      rw [getElem?_set!_of_lt hj]
      by_cases hi : i = j
      · subst hi
        rw [hg] at hg₀
        cases hg₀
        exact ⟨_, if_pos rfl, rfl, fun _ => rfl⟩
      · exact ⟨g₀, by rw [if_neg hi]; exact hg₀, rfl, id⟩
    · rw [setGlobal_of_cell hg]
      cases g.byProgram
      · show m.order.toList <+: (m.order.push j).toList
        rw [Array.toList_push]
        exact List.prefix_append _ _
      · exact List.prefix_refl _

theorem defineGlobal_grows (name : String) (v : Value) : TableGrows m (m.defineGlobal name v) :=
  (globalCell_grows name).trans (setGlobal_grows _ v)

theorem declare_grows (names : Array String) :
    TableGrows m (names.foldl (fun m name => (m.globalCell name).2) m) := by
  rw [← Array.foldl_toList]
  induction names.toList generalizing m with
  | nil => exact TableGrows.refl m
  | cons name rest ih => exact (globalCell_grows name).trans ih

end Change

/-! ## Every other step leaves the table alone -/

section Keeps

variable {m m' : Machine α}

theorem table_dataBlind : DataBlind (table : Machine α → Array Global × Array Nat) :=
  ⟨fun _ _ => rfl, fun _ _ => rfl, fun _ _ => rfl, fun _ _ => rfl, fun _ _ => rfl⟩

@[simp] theorem table_modifyTop (g : Frame → Frame) : (m.modifyTop g).table = m.table :=
  table_dataBlind.modifyTop g

@[simp] theorem table_jumpBy (d : Int) : (m.jumpBy d).table = m.table := table_modifyTop _

@[simp] theorem table_print (s : String) : (m.print s).table = m.table := rfl

@[simp] theorem table_withHeap (h : Heap) : { m with heap := h }.table = m.table := rfl

@[simp] theorem table_withFrames (fs : Array Frame) : { m with frames := fs }.table = m.table :=
  rfl

@[simp] theorem table_withStatus (s : Status) : { m with status := s }.table = m.table := rfl

@[simp] theorem table_started (f : Frame) : (m.started f).table = m.table := rfl

@[simp] theorem table_report (d : Diagnostic) : (m.report d).table = m.table := by
  rw [report_eq]
  rfl

@[simp] theorem table_terminate (s : Status) : (m.terminate s).table = m.table := by
  rw [terminate_eq]
  rfl

@[simp] theorem table_fail (d : Diagnostic) : (m.fail d).2.table = m.table := by
  unfold fail
  simp

@[simp] theorem table_closeCells (f : Frame) : (m.closeCells f).table = m.table :=
  table_dataBlind.closeCells f

@[simp] theorem table_ret (v : Value) : (m.ret v).table = m.table := table_dataBlind.ret v

theorem table_setReg {r : Int} {v : Value} (h : m.setReg r v = .ok m') : m'.table = m.table :=
  table_dataBlind.setReg h

theorem exec_grows {i : Instruction} (h : m.exec i = .ok m') : TableGrows m m' := by
  unfold exec at h
  dsimp only at h
  split at h
  · simp at h
  rename_i op _
  cases op <;> dsimp only at h
  case setGlobal =>
    simp only [bind_eq_ok, pure_eq_ok] at h
    obtain ⟨name, -, v, -, rfl⟩ := h
    exact (globalCell_grows name).trans (setGlobal_grows _ v)
  all_goals refine TableGrows.of_table ?_
  case loadNil => exact foldlM_keeps table (fun _ _ _ hs => table_setReg hs) _ _ _ h
  case ret =>
    split at h <;> simp only [bind_eq_ok, pure_eq_ok] at h <;> obtain ⟨_, _, rfl⟩ := h <;>
      exact table_ret _
  case call => exact table_dataBlind.call h
  case closure => exact table_dataBlind.makeClosure h
  case forLoop => exact table_dataBlind.forLoop h
  case notify => rw [pure_eq_ok.1 h]
  -- the rest read operands, then store into a register or the heap, or jump
  all_goals simp only [bind_eq_ok, pure_eq_ok] at h
  all_goals grind [table_setReg, table_jumpBy, table_withHeap, throw_eq_ok]

end Keeps

/-! ## Runs and calls of the host -/

section Runs

variable {hear : Hearing α ω} {m m' : Machine α} {w w' : ω}

theorem stepWith_next_grows {f : Frame} {i : Instruction}
    (h : stepWith hear m w f i = .next m' w') : TableGrows m m' := by
  rcases stepWith_next h with ⟨-, n, -, hd⟩ | ⟨he, -⟩
  · obtain ⟨p, s, rfl⟩ := dispatch_asked hd
    exact TableGrows.of_table rfl
  · exact exec_grows he

theorem execute_grows (n : Nat) (m : Machine α) (w : ω) :
    TableGrows m (execute hear n m w).2.1 := by
  induction n generalizing m w with
  | zero =>
    rcases frames_eq_empty_or_push m with hm | ⟨ys, f, hm⟩
    · rw [execute_empty hm]
      exact TableGrows.of_table rfl
    · rw [execute_zero hm]
      exact TableGrows.refl m
  | succ n ih =>
    rcases frames_eq_empty_or_push m with hm | ⟨ys, f, hm⟩
    · rw [execute_empty hm]
      exact TableGrows.of_table rfl
    by_cases hin : 0 ≤ f.pc ∧ f.pc < f.proto.code.size
    case neg =>
      rw [execute_outside hm hin]
      exact TableGrows.of_table (table_fail _)
    cases ho : stepWith hear (m.modifyTop fun g => { g with pc := f.pc + 1 }) w f f.current with
    | failed e w₁ =>
      rw [execute_failed hm hin.1 hin.2 ho]
      exact TableGrows.of_table (table_fail _)
    | broken t w₁ =>
      rw [execute_broken hm hin.1 hin.2 ho]
      exact TableGrows.of_table ((table_fail _).trans (table_modifyTop _))
    | next m₁ w₁ =>
      have hstep : TableGrows m m₁ :=
        (TableGrows.of_table (table_modifyTop _)).trans (stepWith_next_grows ho)
      by_cases hs₁ : m₁.stopRequested = true
      · rw [execute_stopped hm hin.1 hin.2 ho hs₁]
        exact hstep.trans (TableGrows.of_table (table_terminate _))
      by_cases hp₁ : m₁.pauseRequested = true
      · rw [execute_paused hm hin.1 hin.2 ho (by simpa using hs₁) hp₁]
        exact hstep.trans (TableGrows.of_table rfl)
      rw [execute_carry hm hin.1 hin.2 ho (by simpa using hs₁) (by simpa using hp₁)]
      exact hstep.trans (ih m₁ w₁)

theorem run_grows {n : Nat} {chunk : Chunk} {d : Option Diagnostic}
    (h : run hear n chunk m w = .ok (d, m', w')) : TableGrows m m' := by
  by_cases hbusy : m.status = .running ∨ m.status = .paused
  · rw [run_busy hbusy] at h
    cases h
    exact TableGrows.of_table (table_report _)
  cases hv : chunk.validate with
  | some e =>
    rw [run_invalid hbusy hv] at h
    cases h
    exact TableGrows.of_table (table_fail _)
  | none =>
    rw [run_valid hbusy hv] at h
    have hdecl := declare_grows (m := m) chunk.globals
    generalize chunk.globals.foldl (fun m name => (m.globalCell name).2) m = m₀ at h hdecl
    cases hf : m₀.newFrame chunk #[] chunk.globals 0 with
    | error e => simp [hf, Except.map] at h
    | ok p =>
      obtain ⟨f, m₁⟩ := p
      simp only [hf, Except.map, Except.ok.injEq] at h
      have hrun := @execute_grows _ _ hear n (m₁.started f) w
      rw [h] at hrun
      exact hdecl.trans ((TableGrows.of_table (table_dataBlind.newFrame hf)).trans
        ((TableGrows.of_table (table_started f)).trans hrun))

theorem perform_grows {c : Call} {d : Option Diagnostic}
    (hc : perform hear m w c = .ok (d, m', w')) : TableGrows m m' := by
  cases c with
  | run fuel chunk => exact run_grows hc
  | resume fuel =>
    simp only [perform, resume, Except.ok.injEq] at hc
    split at hc
    · cases hc
      exact TableGrows.of_table (table_report _)
    · have hrun := @execute_grows _ _ hear fuel { m with status := .running } w
      rw [hc] at hrun
      exact (TableGrows.of_table (table_withStatus .running)).trans hrun
  | stop =>
    simp only [perform, stop, Except.ok.injEq] at hc
    split at hc
    · cases hc
      exact TableGrows.of_table (table_report _)
    · cases hc
      exact TableGrows.of_table (table_terminate _)
  | pause | latePause | lateStop =>
    cases hc
    exact TableGrows.of_table (table_report _)
  | define name v =>
    cases hc
    exact defineGlobal_grows name v

theorem performAll_grows (cs : List Call) (m : Machine α) (w : ω) :
    TableGrows m (performAll hear cs (m, w)).1 := by
  induction cs generalizing m w with
  | nil => exact TableGrows.refl m
  | cons c cs ih =>
    simp only [performAll]
    split
    · exact (perform_grows ‹_›).trans (ih _ _)
    · exact ih m w

theorem performAll_append (cs₁ cs₂ : List Call) (s : Machine α × ω) :
    performAll hear (cs₁ ++ cs₂) s = performAll hear cs₂ (performAll hear cs₁ s) := by
  induction cs₁ generalizing s with
  | nil => rfl
  | cons c cs ih =>
    obtain ⟨m, w⟩ := s
    simp only [List.cons_append, performAll]
    split <;> exact ih _

end Runs

theorem tableKept_create (registry : Option (Registry α)) (collecting : Bool) (maxDepth : Int) :
    (create registry collecting maxDepth).TableKept where
  names := by simp [create, nativeNames]
  order := by simp [create]
  -- every built-in is native, so none is a global of a program
  joined i := by
    simp only [create, Array.toList_empty, List.not_mem_nil, false_iff, not_exists, not_and]
    intro g hg
    obtain ⟨n, -, rfl⟩ := List.mem_map.1 (List.mem_of_getElem? (by simpa using hg))
    simp [Global.byProgram]

/-! ## What the table shows -/

section Views

variable {m m' : Machine α}

theorem globalVars_names (m : Machine α) :
    m.globalVars.map Prod.fst =
      m.order.toList.filterMap fun i => m.globals[i]?.map Global.name := by
  unfold globalVars
  rw [List.map_filterMap]
  refine List.filterMap_congr fun i _ => ?_
  cases m.globals[i]? <;> rfl

theorem TableKept.listed_nodup (hk : m.TableKept) : (m.globalVars.map Prod.fst).Nodup := by
  rw [globalVars_names]
  refine hk.order.filterMap fun i i' n hi hi' => ?_
  have hn : (m.globals.toList.map Global.name)[i]? = some n := by simpa using hi
  have hn' : (m.globals.toList.map Global.name)[i']? = some n := by simpa using hi'
  have hlt : i < (m.globals.toList.map Global.name).length :=
    (List.getElem?_eq_some_iff.1 hn).1
  exact (List.getElem?_inj hlt hk.names).1 (hn.trans hn'.symm)

theorem TableKept.mem_listed (hk : m.TableKept) (name : String) :
    name ∈ m.globalVars.map Prod.fst ↔ ∃ g ∈ m.globals, g.name = name ∧ g.byProgram = true := by
  rw [globalVars_names, List.mem_filterMap]
  constructor
  · rintro ⟨i, hi, hn⟩
    obtain ⟨g, hg, hp⟩ := (hk.joined i).1 hi
    rw [hg, Option.map_some, Option.some.injEq] at hn
    exact ⟨g, Array.mem_of_getElem? hg, hn, hp⟩
  · rintro ⟨g, hg, rfl, hp⟩
    obtain ⟨i, hi, rfl⟩ := Array.getElem_of_mem hg
    exact ⟨i, (hk.joined i).2 ⟨_, by simp [hi], hp⟩, by simp [hi]⟩

theorem TableGrows.listed_prefix (hg : TableGrows m m') (hk : m.TableKept) :
    m.globalVars.map Prod.fst <+: m'.globalVars.map Prod.fst := by
  rw [globalVars_names, globalVars_names]
  obtain ⟨rest, hrest⟩ := hg.order
  rw [← hrest, List.filterMap_append]
  -- each cell the old order lists is in the new table with its name
  have hsame : m.order.toList.filterMap (fun i => m'.globals[i]?.map Global.name) =
      m.order.toList.filterMap (fun i => m.globals[i]?.map Global.name) := by
    refine List.filterMap_congr fun i hi => ?_
    obtain ⟨g, hgi, -⟩ := (hk.joined i).1 hi
    obtain ⟨g', hg', hn, -⟩ := hg.stays i g hgi
    rw [hgi, hg', Option.map_some, Option.map_some, hn]
  rw [hsame]
  exact List.prefix_append _ _

theorem TableGrows.globalIndex? (hg : TableGrows m m') {name : String} {i : Nat}
    (h : m.globalIndex? name = some i) : m'.globalIndex? name = some i := by
  unfold Machine.globalIndex? at h ⊢
  obtain ⟨hi, hp, hbefore⟩ := Array.findIdx?_eq_some_iff_getElem.1 h
  obtain ⟨g', hg', hn, -⟩ := hg.stays i _ (Array.getElem?_eq_getElem hi)
  have hi' : i < m'.globals.size := (Array.getElem?_eq_some_iff.1 hg').1
  refine Array.findIdx?_eq_some_iff_getElem.2 ⟨hi', ?_, fun j hj => ?_⟩
  · simpa [(Array.getElem?_eq_some_iff.1 hg').2, hn] using hp
  · obtain ⟨gj', hgj', hnj, -⟩ := hg.stays j _ (Array.getElem?_eq_getElem (Nat.lt_trans hj hi))
    rw [(Array.getElem?_eq_some_iff.1 hgj').2, hnj]
    exact hbefore j hj

theorem lookupGlobal_isSome_iff {name : String} :
    (m.lookupGlobal name).isSome = true ↔
      ∃ i g, m.globalIndex? name = some i ∧ m.globals[i]? = some g ∧ g.defined = true := by
  unfold lookupGlobal
  split
  · rename_i i hi
    split
    · rename_i g hg
      by_cases hd : g.defined = true <;> simp [hi, hg, hd]
    · rename_i hg
      simp [hi, hg]
  · rename_i hi
    simp [hi]

theorem TableGrows.lookupGlobal_isSome (hg : TableGrows m m') {name : String}
    (h : (m.lookupGlobal name).isSome = true) : (m'.lookupGlobal name).isSome = true := by
  obtain ⟨i, g, hi, hgi, hd⟩ := lookupGlobal_isSome_iff.1 h
  obtain ⟨g', hg', -, hd'⟩ := hg.stays i g hgi
  exact lookupGlobal_isSome_iff.2 ⟨i, g', hg.globalIndex? hi, hg', hd' hd⟩

theorem exec_getGlobal_undefined {i : Instruction} {name : String}
    (hop : i.op? = some .getGlobal) (hname : elementOr m.top.links i.bx = .ok name)
    (hu : m.lookupGlobal name = none) :
    m.exec i = .error (.error (Diagnostic.runtime .undefinedVariable [.text name])) := by
  unfold exec
  simp only [hop, hname, bind, Except.bind]
  split
  · -- the name has a cell, which is not defined
    rename_i j hj
    have hlt : j < m.globals.size := (Array.findIdx?_eq_some_iff_getElem.1 hj).1
    have hnd : (m.globals.getD j default).defined = false := by
      simpa [lookupGlobal, hj, Array.getD_eq_getD_getElem?, Array.getElem?_eq_getElem hlt] using hu
    rw [hnd]
    rfl
  · rfl

end Views

theorem global_table_sound (hear : Hearing α ω) (registry : Option (Registry α))
    (collecting : Bool) (maxDepth : Int) (w : ω) (cs₁ cs₂ : List Call) :
    let m₁ := (performAll hear cs₁ (create registry collecting maxDepth, w)).1
    let m₂ := (performAll hear (cs₁ ++ cs₂) (create registry collecting maxDepth, w)).1
    (m₂.globals.toList.map Global.name).Nodup ∧ (m₂.globalVars.map Prod.fst).Nodup ∧
    (∀ name, name ∈ m₂.globalVars.map Prod.fst ↔
      ∃ g ∈ m₂.globals, g.name = name ∧ g.byProgram = true) ∧
    m₁.globalVars.map Prod.fst <+: m₂.globalVars.map Prod.fst ∧
    (∀ name, (m₁.lookupGlobal name).isSome = true → (m₂.lookupGlobal name).isSome = true) ∧
    ∀ (i : Instruction) (name : String), i.op? = some .getGlobal →
      elementOr m₂.top.links i.bx = .ok name → m₂.lookupGlobal name = none →
      m₂.exec i = .error (.error (Diagnostic.runtime .undefinedVariable [.text name])) := by
  intro m₁ m₂
  have hk₁ : m₁.TableKept :=
    (performAll_grows cs₁ _ w).kept (tableKept_create registry collecting maxDepth)
  -- the later calls go on from where the earlier ones left the machine
  have hgrow : TableGrows m₁ m₂ := by
    show TableGrows m₁ (performAll hear (cs₁ ++ cs₂) _).1
    rw [performAll_append]
    exact performAll_grows cs₂ _ _
  have hk₂ : m₂.TableKept := hgrow.kept hk₁
  exact ⟨hk₂.names, hk₂.listed_nodup, hk₂.mem_listed, hgrow.listed_prefix hk₁,
    fun _ h => hgrow.lookupGlobal_isSome h,
    fun _ _ hop hname hu => exec_getGlobal_undefined hop hname hu⟩

end Machine

end ScriptMachine
