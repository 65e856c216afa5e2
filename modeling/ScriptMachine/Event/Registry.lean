import ScriptMachine.Event.Basic
/-!
# Listener registries

A registry holds listeners, each subscribed to one event kind under a handle. Listeners of a
kind hear its events in the order they were registered; a handle removes its listener once.
Listeners are values of any type `α`: what hearing an event does is given separately, where the
events are delivered.

A recorder keeps the events it hears, to be written out later (with the heap as it is then).
-/

namespace ScriptMachine

/-- Names one subscription: its kind and its number within the registry. -/
structure Handle where
  kind : Kind
  id : Nat
  deriving Repr, DecidableEq, Inhabited

/-- Subscriptions of listeners of type `α`, in registration order. -/
structure Registry (α : Type) where
  nextId : Nat := 0
  subscriptions : List (Handle × α) := []
  deriving Inhabited

namespace Registry

variable {α : Type}

def register (r : Registry α) (k : Kind) (l : α) : Handle × Registry α :=
  let h : Handle := ⟨k, r.nextId + 1⟩
  (h, { r with nextId := r.nextId + 1, subscriptions := r.subscriptions ++ [(h, l)] })

def unregister (r : Registry α) (h : Handle) : Bool × Registry α :=
  if r.subscriptions.any (·.1 == h) then
    (true, { r with subscriptions := r.subscriptions.filter (·.1 != h) })
  else (false, r)

def listeners (r : Registry α) (k : Kind) : List α :=
  r.subscriptions.filterMap fun (h, l) => if h.kind == k then some l else none

def has (r : Registry α) (k : Kind) : Bool := r.subscriptions.any (·.1.kind == k)

def kinds (r : Registry α) : List Kind := Kind.all.filter r.has

end Registry

/-- Whether an optional registry has a listener for kind number `n`: none without a registry;
a number past the kinds is an index fault. -/
def hasKindCode {α : Type} (r : Option (Registry α)) (n : Nat) : Except String Bool :=
  match r with
  | none => .ok false
  | some r =>
    match Kind.ofCode? n with
    | some k => .ok (r.has k)
    | none => .error s!"runtime error: index out of range [{n}] with length {Kind.all.length}"

structure Recorder where
  events : Array Event := #[]
  deriving Inhabited

namespace Recorder

def hear (r : Recorder) (e : Event) : Recorder := ⟨r.events.push e⟩

def strings (r : Recorder) (h : Heap) : List String := r.events.toList.map (Event.render h)

def ofKind (r : Recorder) (k : Kind) : List Event := r.events.toList.filter (·.kind == k)

end Recorder

end ScriptMachine
