import ScriptMachine.Proofs.Compiler.Steps
import ScriptMachine.Compiler.Constants
import ScriptMachine.Proofs.Wire.Floats
import Mathlib
/-!
# The constant pool

Each function keeps its constants in one pool, with a cache of the ids handed out: numbers by
bit pattern (so `0` and `-0` are two constants) and texts by content. Along any sequence of
requests to a pool and cache that start empty, the pool holds the distinct constants asked for,
once each, in the order they were first asked for (`poolAfter`), each request gets
`registerLimit` plus the position of its constant there (`idAfter`), and the cache answers as a
search of the pool would (`Caches`, `mapM_ask_run`). Main statement: `constant_pool_dedup`.
-/

namespace ScriptMachine.Compiler

open Bytecode

def ConstKey.value : ConstKey → Value
  | .bits b => .num (Float.ofBits b)
  | .text s => .str s

/-- The key of a pooled constant; values other than numbers and texts are never pooled. -/
def constKey? : Value → Option ConstKey
  | .num x => some (.bits x.toBits)
  | .str s => some (.text s)
  | _ => none

inductive ConstRequest where
  | number (x : Float)
  | text (s : String)
  | value (v : Value)

namespace ConstRequest

def ask : ConstRequest → ResolveM Nat
  | .number x => Resolver.numberId x
  | .text s => Resolver.textId s
  | .value v => Resolver.constantId v

/-- The constant a request asks for, by its key. A value asks for itself when it is a text or a
number; nothing asks for `0`, a truth value for `1` or `0`, and a value with no number for
`0`. -/
def key : ConstRequest → ConstKey
  | .number x => .bits x.toBits
  | .text s => .text s
  | .value (.str s) => .text s
  | .value .none => .bits (0 : Float).toBits
  | .value (.bool b) => .bits (if b then (1 : Float) else 0).toBits
  | .value (.num x) => .bits x.toBits
  | .value _ => .bits (0 : Float).toBits

@[simp] theorem number_key_value (x : Float) : (number x).key.value = .num x := by
  simp [key, ConstKey.value]

@[simp] theorem text_key_value (s : String) : (text s).key.value = .str s := rfl

theorem constKey?_key_value (q : ConstRequest) : constKey? q.key.value = some q.key := by
  rcases q with x | s | ((_ | _ | _ | _ | _ | _ | _))
  all_goals simp [key, ConstKey.value, constKey?]

end ConstRequest

/-! ## The pool a sequence of requests builds -/

def firstKeys (rs : List ConstRequest) : List ConstKey := (rs.map ConstRequest.key).eraseDups

/-- The pool after requests, starting empty: the constants asked for, each once, in the order
they were first asked for. -/
def poolAfter (rs : List ConstRequest) : Array Value := ((firstKeys rs).map ConstKey.value).toArray

/-- The id of a constant after requests: `registerLimit` plus its place in the pool. -/
def idAfter (rs : List ConstRequest) (k : ConstKey) : Nat := registerLimit + (firstKeys rs).idxOf k

theorem eraseDups_concat {α : Type} [BEq α] [LawfulBEq α] (l : List α) (a : α) :
    (l ++ [a]).eraseDups = if a ∈ l then l.eraseDups else l.eraseDups ++ [a] := by
  rw [List.eraseDups_append]
  by_cases ha : a ∈ l <;> simp [ha, List.removeAll, List.eraseDups_cons]

theorem nodup_eraseDups {α : Type} [BEq α] [LawfulBEq α] (l : List α) : l.eraseDups.Nodup := by
  induction l using List.reverseRecOn with
  | nil => simp
  | append_singleton l a ih =>
    rw [eraseDups_concat]
    split
    · exact ih
    · rename_i ha
      exact ih.append (List.nodup_singleton a) (by simpa using ha)

theorem firstKeys_concat (rs : List ConstRequest) (q : ConstRequest) :
    firstKeys (rs ++ [q]) =
      if q.key ∈ rs.map ConstRequest.key then firstKeys rs else firstKeys rs ++ [q.key] := by
  simp only [firstKeys, List.map_append, List.map_cons, List.map_nil]
  exact eraseDups_concat _ _

theorem nodup_firstKeys (rs : List ConstRequest) : (firstKeys rs).Nodup := nodup_eraseDups _

theorem mem_firstKeys {rs : List ConstRequest} {k : ConstKey} :
    k ∈ firstKeys rs ↔ k ∈ rs.map ConstRequest.key := List.mem_eraseDups

theorem idAfter_append {rs : List ConstRequest} {k : ConstKey} (hk : k ∈ rs.map ConstRequest.key)
    (more : List ConstRequest) : idAfter (rs ++ more) k = idAfter rs k := by
  have hpre : firstKeys (rs ++ more) =
      firstKeys rs ++ ((more.map ConstRequest.key).removeAll (rs.map ConstRequest.key)).eraseDups := by
    simp only [firstKeys, List.map_append, List.eraseDups_append]
  rw [idAfter, idAfter, hpre, List.idxOf_append_of_mem (mem_firstKeys.2 hk)]

theorem constKey?_firstKeys (rs : List ConstRequest) :
    ((firstKeys rs).map ConstKey.value).map constKey? = (firstKeys rs).map some := by
  rw [List.map_map]
  refine List.map_congr_left fun k hk => ?_
  obtain ⟨q, -, rfl⟩ := List.mem_map.1 (mem_firstKeys.1 hk)
  exact ConstRequest.constKey?_key_value q

theorem findIdx?_poolAfter {same : Value → Bool} {k : ConstKey}
    (hsame : ∀ u, same u = (constKey? u == some k)) (rs : List ConstRequest) :
    (poolAfter rs).findIdx? same =
      if k ∈ rs.map ConstRequest.key then some ((firstKeys rs).idxOf k) else none := by
  -- `same` compares keys, and the pool's keys are the keys requested
  have hsome : ((· == some k) ∘ some : ConstKey → Bool) = (· == k) := by
    funext k'
    simp
  rw [poolAfter, List.findIdx?_toArray, show same = (· == some k) ∘ constKey? from funext hsame,
    ← List.findIdx?_map, constKey?_firstKeys, List.findIdx?_map, hsome,
    List.findIdx?_eq_guard_findIdx_lt]
  by_cases hk : k ∈ rs.map ConstRequest.key
  · have hmem : k ∈ firstKeys rs := mem_firstKeys.2 hk
    simp [Option.guard, hk, hmem, List.idxOf]
  · have hge : ¬ (firstKeys rs).idxOf k < (firstKeys rs).length := by
      rw [List.idxOf_lt_length_iff, mem_firstKeys]
      exact hk
    simp [Option.guard, hk, List.idxOf] at hge ⊢
    exact hge

/-- The cache of a pool holding the constants of earlier requests: it holds the id of each
constant asked for, and of no other. -/
def Caches (rs : List ConstRequest) (cc : ConstantCache) : Prop :=
  ∀ k, cc.find? k = if k ∈ rs.map ConstRequest.key then some (idAfter rs k) else none

theorem caches_nil : Caches [] {} := fun k => by simp

namespace Caches

variable {rs : List ConstRequest} {cc : ConstantCache} {q : ConstRequest}

theorem hit (h : Caches rs cc) (hk : q.key ∈ rs.map ConstRequest.key) : Caches (rs ++ [q]) cc := by
  intro k
  rw [h k]
  by_cases hold : k ∈ rs.map ConstRequest.key
  · rw [if_pos hold, if_pos (by simp [hold]), idAfter_append hold]
  · have hnew : k ∉ (rs ++ [q]).map ConstRequest.key := by
      simp only [List.map_append, List.map_cons, List.map_nil, List.mem_append,
        List.mem_singleton, not_or]
      exact ⟨hold, fun e => hold (e ▸ hk)⟩
    rw [if_neg hold, if_neg hnew]

theorem remember (h : Caches rs cc) (q : ConstRequest) :
    Caches (rs ++ [q]) (cc.remember q.key (idAfter (rs ++ [q]) q.key)) := by
  intro k
  by_cases hq : k = q.key
  · subst hq
    rw [ConstantCache.find?_remember_self, if_pos (by simp)]
  · rw [ConstantCache.find?_remember_of_ne _ _ hq, h k]
    by_cases hold : k ∈ rs.map ConstRequest.key
    · rw [if_pos hold, if_pos (by simp [hold]), idAfter_append hold]
    · have hnew : k ∉ (rs ++ [q]).map ConstRequest.key := by
        simp only [List.map_append, List.map_cons, List.map_nil, List.mem_append,
          List.mem_singleton, not_or]
        exact ⟨hold, hq⟩
      rw [if_neg hold, if_neg hnew]

theorem find?_eq_findIdx? (h : Caches rs cc) (k : ConstKey) :
    cc.find? k = ((poolAfter rs).findIdx? fun u => constKey? u == some k).map (registerLimit + ·) := by
  rw [h k, findIdx?_poolAfter (fun _ => rfl)]
  split <;> rfl

end Caches

/-! ## One request -/

/-- The resolver with the pool and the cache of the innermost function replaced. -/
def setPool (r : Resolver) (f : Frame) (outer : List Frame) (pool : Array Value)
    (cc : ConstantCache) : Resolver :=
  { r with frames := { f with chunk := { f.chunk with constants := pool }, consts := cc } :: outer }

section Request

variable {r : Resolver} {f : Frame} {outer : List Frame}

theorem setPool_self (hr : r.frames = f :: outer) :
    setPool r f outer f.chunk.constants f.consts = r := by
  rcases r with ⟨frames, globals, reports, begun, finished⟩
  subst hr
  -- a chunk nests chunks, so it has no eta: take the frame's chunk apart
  rcases f with ⟨⟨⟩⟩
  rfl

theorem setPool_setPool (r : Resolver) (f : Frame) (outer : List Frame) (p p' : Array Value)
    (cc cc' : ConstantCache) :
    setPool (setPool r f outer p cc)
        { f with chunk := { f.chunk with constants := p }, consts := cc } outer p' cc' =
      setPool r f outer p' cc' := rfl

theorem intern_run (q : ConstRequest) {k : ConstKey} {v : Value} (hk : q.key = k)
    (hv : k.value = v) (rs : List ConstRequest) (hr : r.frames = f :: outer)
    (hpool : f.chunk.constants = poolAfter rs) (hcache : Caches rs f.consts) :
    ∃ cc, (Resolver.intern k v).run r =
        pure (idAfter (rs ++ [q]) q.key, setPool r f outer (poolAfter (rs ++ [q])) cc) ∧
      Caches (rs ++ [q]) cc := by
  subst hk
  simp only [Resolver.intern, StateT.run_bind, Resolver.frame_run hr, pure_bind]
  rw [hcache q.key]
  by_cases hk : q.key ∈ rs.map ConstRequest.key
  · -- a constant the cache holds: its id, and nothing changes
    have hsame_pool : poolAfter (rs ++ [q]) = poolAfter rs := by
      simp [poolAfter, firstKeys_concat, hk]
    refine ⟨f.consts, ?_, hcache.hit hk⟩
    simp only [hk, if_true, StateT.run_pure, hsame_pool, ← hpool, setPool_self hr]
    rw [idAfter_append hk]
  · -- a new constant: appended with the next id, which the cache remembers
    have hnew : firstKeys (rs ++ [q]) = firstKeys rs ++ [q.key] := by
      simp [firstKeys_concat, hk]
    have hid : registerLimit + f.chunk.constants.size = idAfter (rs ++ [q]) q.key := by
      rw [idAfter, hnew, List.idxOf_append_of_notMem (by rwa [mem_firstKeys]), hpool]
      simp [poolAfter]
    refine ⟨f.consts.remember q.key (idAfter (rs ++ [q]) q.key), ?_, hcache.remember q⟩
    simp only [hk, if_false, StateT.run_bind, Resolver.modifyFrame_run hr, StateT.run_pure,
      pure_bind, hid]
    rw [← hv]
    simp [setPool, poolAfter, hnew, List.push_toArray, hpool]

theorem numberId_run (x : Float) {q : ConstRequest} (hq : q.key = .bits x.toBits)
    (rs : List ConstRequest) (hr : r.frames = f :: outer)
    (hpool : f.chunk.constants = poolAfter rs) (hcache : Caches rs f.consts) :
    ∃ cc, (Resolver.numberId x).run r =
        pure (idAfter (rs ++ [q]) q.key, setPool r f outer (poolAfter (rs ++ [q])) cc) ∧
      Caches (rs ++ [q]) cc :=
  intern_run q hq (by simp [ConstKey.value]) rs hr hpool hcache

theorem textId_run (t : String) {q : ConstRequest} (hq : q.key = .text t)
    (rs : List ConstRequest) (hr : r.frames = f :: outer)
    (hpool : f.chunk.constants = poolAfter rs) (hcache : Caches rs f.consts) :
    ∃ cc, (Resolver.textId t).run r =
        pure (idAfter (rs ++ [q]) q.key, setPool r f outer (poolAfter (rs ++ [q])) cc) ∧
      Caches (rs ++ [q]) cc :=
  intern_run q hq rfl rs hr hpool hcache

theorem ask_run (q : ConstRequest) (rs : List ConstRequest) (hr : r.frames = f :: outer)
    (hpool : f.chunk.constants = poolAfter rs) (hcache : Caches rs f.consts) :
    ∃ cc, q.ask.run r =
        pure (idAfter (rs ++ [q]) q.key, setPool r f outer (poolAfter (rs ++ [q])) cc) ∧
      Caches (rs ++ [q]) cc := by
  rcases q with x | t | v
  · exact numberId_run x rfl rs hr hpool hcache
  · exact textId_run t rfl rs hr hpool hcache
  · -- a value asks as the text it is, or as the number it coerces to
    cases v with
    | str t => exact textId_run t rfl rs hr hpool hcache
    | _ => exact numberId_run _ rfl rs hr hpool hcache

/-- Requests in turn: each gets the id of its constant, which later requests do not move, the
pool grows by the new constants in the order they are asked for, and the cache keeps up. -/
theorem mapM_ask_run (rs done : List ConstRequest) (hr : r.frames = f :: outer)
    (hpool : f.chunk.constants = poolAfter done) (hcache : Caches done f.consts) :
    ∃ cc, (rs.mapM ConstRequest.ask).run r =
        pure (rs.map fun q => idAfter (done ++ rs) q.key,
          setPool r f outer (poolAfter (done ++ rs)) cc) ∧
      Caches (done ++ rs) cc := by
  induction rs generalizing done r f with
  | nil => exact ⟨f.consts, by simp [setPool_self hr, ← hpool], by simpa using hcache⟩
  | cons q rs ih =>
    obtain ⟨cc₁, hrun₁, hcache₁⟩ := ask_run q done hr hpool hcache
    -- after the first request the pool and the cache are those of `done ++ [q]`
    obtain ⟨cc, hrun, hcache'⟩ := ih (done ++ [q]) (r := setPool r f outer (poolAfter (done ++ [q])) cc₁)
      (f := { f with chunk := { f.chunk with constants := poolAfter (done ++ [q]) }, consts := cc₁ })
      rfl rfl hcache₁
    have hstay : idAfter (done ++ q :: rs) q.key = idAfter (done ++ [q]) q.key := by
      rw [← List.singleton_append, ← List.append_assoc]
      exact idAfter_append (by simp) rs
    refine ⟨cc, ?_, by simpa using hcache'⟩
    simp only [List.mapM_cons, StateT.run_bind, hrun₁, pure_bind, hrun, StateT.run_pure,
      List.append_assoc, List.singleton_append, List.map_cons, hstay, setPool_setPool]

end Request

/-- What requests do to a function whose pool starts empty. -/
structure Dedups (rs : List ConstRequest) (r : Resolver) (f : Frame) (outer : List Frame) :
    Prop where
  /-- Each request gets `registerLimit` plus the position of its constant among the distinct
  constants in the order they were first asked for, the pool ends holding exactly those, the
  cache ends answering for each as a search of the pool would, and nothing else of the
  compiler's state changes. -/
  run : ∃ cc : ConstantCache, (rs.mapM ConstRequest.ask).run r =
      .ok (rs.map fun q => idAfter rs q.key,
        { r with frames := { f with chunk := { f.chunk with constants := poolAfter rs },
                                    consts := cc } :: outer }) ∧
    ∀ k, cc.find? k =
      ((poolAfter rs).findIdx? fun u => constKey? u == some k).map (registerLimit + ·)
  /-- The entry an id names holds the constant asked for. -/
  reads_back : ∀ q ∈ rs, (poolAfter rs)[idAfter rs q.key - registerLimit]? = some q.key.value
  /-- Two requests get one id exactly when they ask for numbers with one bit pattern or for
  equal texts. -/
  same_id : ∀ q₁ ∈ rs, ∀ q₂ ∈ rs, idAfter rs q₁.key = idAfter rs q₂.key ↔ q₁.key = q₂.key
  /-- No two entries hold numbers with one bit pattern or equal texts. -/
  distinct : ((poolAfter rs).toList.map constKey?).Nodup
  /-- The pool has one entry per distinct constant asked for. -/
  size : (poolAfter rs).size = (rs.map ConstRequest.key).toFinset.card

/-- The constant pool deduplicates exactly: along any sequence of requests for numbers, texts
and values to a function whose pool and cache start empty, the pool ends holding each constant
asked for once, in the order in which they were first asked for, and each request gets the id of
the entry holding its constant. -/
theorem constant_pool_dedup (rs : List ConstRequest) (r : Resolver) (f : Frame)
    (outer : List Frame) (hr : r.frames = f :: outer) (hempty : f.chunk.constants = #[])
    (hfresh : f.consts = {}) : Dedups rs r f outer where
  run := by
    obtain ⟨cc, hrun, hcache⟩ := mapM_ask_run rs [] hr hempty (hfresh ▸ caches_nil)
    exact ⟨cc, hrun, hcache.find?_eq_findIdx?⟩
  reads_back q hq := by
    simp [idAfter, poolAfter, List.getElem?_idxOf (mem_firstKeys.2 (List.mem_map_of_mem hq))]
  same_id q₁ hq₁ q₂ _ := by
    rw [idAfter, idAfter, Nat.add_left_cancel_iff]
    exact List.idxOf_inj (mem_firstKeys.2 (List.mem_map_of_mem hq₁))
  distinct := by
    rw [poolAfter, List.toList_toArray, constKey?_firstKeys]
    exact (nodup_firstKeys rs).map (fun _ _ h => Option.some_injective _ h)
  size := by
    have hsets : (firstKeys rs).toFinset = (rs.map ConstRequest.key).toFinset := by
      ext k
      simp only [List.mem_toFinset, mem_firstKeys]
    rw [← hsets, List.toFinset_card_of_nodup (nodup_firstKeys rs)]
    simp [poolAfter]

/-- The pool's laws for requests of zero, negative zero, nothing, the text `0` and false, asked
of a new function. -/
theorem constant_pool_dedup_zeros :
    let f : Frame := { chunk := { name := "t" }, module := false }
    (({ frames := [f] } : Resolver).frames = f :: [] ∧ f.chunk.constants = #[] ∧ f.consts = {}) ∧
      Dedups [.number 0, .number (-0), .value .none, .text "0", .value (.bool false)]
        { frames := [f] } f [] :=
  ⟨⟨rfl, rfl, rfl⟩, constant_pool_dedup _ _ _ _ rfl rfl rfl⟩

-- zero and negative zero get two ids, while nothing and false ask for zero itself
example : [.number 0, .number (-0), .value .none, .text "0", .value (.bool false)].map
    (fun q => idAfter [.number 0, .number (-0), .value .none, .text "0", .value (.bool false)]
      (ConstRequest.key q)) = [250, 251, 250, 252, 250] := by
  decide

end ScriptMachine.Compiler
