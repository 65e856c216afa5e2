import ScriptMachine.Machine.Step
/-!
# Running programs

`Machine.run` starts a chunk as the top-level function and executes instructions until the
stack empties (the run completes), an instruction fails (the run stops with a fatal report), or
a listener asks to pause or stop. `Machine.resume` continues a paused run.
-/

namespace ScriptMachine

open Bytecode

/-- What a listener asks of the run after hearing an event. -/
structure Response where
  pause : Bool := false
  stop : Bool := false
  deriving Inhabited

/-- What listeners see of the machine while hearing an event. -/
structure Scene where
  heap : Heap
  globals : List (String × Value)
  /-- The innermost frame's live locals, or the fault of reading them. -/
  locals : Except String (List (String × Value))

/-- A listener's view of the machine: live with what it sees while its event is heard, stale
once the event is delivered, when it shows no variables. -/
inductive Inspector where
  | live (sc : Scene)
  | stale

namespace Inspector

def globals? : Inspector → Option (List (String × Value))
  | live sc => some sc.globals
  | stale => none

def locals? : Inspector → Option (Except String (List (String × Value)))
  | live sc => some sc.locals
  | stale => none

end Inspector

/-- How listeners hear events: the listener, the event, what it sees, and the listeners' state;
a fault while hearing breaks the run. -/
abbrev Hearing (α ω : Type) := α → Event → Scene → ω → Except String (ω × Response)

namespace Machine

variable {α ω : Type}

def operandOf (m : Machine α) (id : Int) (name : String) : Except Trap Operand := do
  pure ⟨name, ← m.rk id⟩

/-- Evaluates comparison code `op` for an event: codes past the table test membership. -/
def evalComparison (h : Heap) (op : Int) (l r : Value) : Except Diagnostic Bool :=
  match op with
  | 0 => h.less l r
  | 1 => (h.lessEqual l r).map (!·)
  | 2 => h.lessEqual l r
  | 3 => (h.less l r).map (!·)
  | 4 => .ok (h.equal l r)
  | 5 => .ok !(h.equal l r)
  | _ => h.contains r l

def tagsOf (m : Machine α) (descs : Array TagDesc) (withValues : Bool) :
    Except Trap (List TagView) :=
  descs.toList.mapM fun d => do
    let values ← if withValues then some <$> d.values.toList.mapM m.rk else pure none
    pure { name := d.name, args := d.args.toList, values := values }

/-- The event a notification describes, read from the innermost frame; none for a failed
comparison. -/
def eventOf (m : Machine α) (k : Kind) (n : Notification) : Except Trap (Option Event) := do
  let s := n.span
  match k with
  | .assignment => pure (some (.assignment s n.name n.storage (← m.rk n.value)))
  | .subscriptAssignment =>
    let key ← m.rk n.key
    pure (some (.subscriptAssignment s n.name n.storage key (← m.rk n.value)))
  | .binary =>
    let l ← m.operandOf n.left n.leftName
    let r ← m.operandOf n.right n.rightName
    pure (some (.binary s l n.op r (← m.reg n.result)))
  | .unary =>
    let x ← m.operandOf n.left n.leftName
    pure (some (.unary s n.op x (← m.reg n.result)))
  | .comparison =>
    let l ← m.operandOf n.left n.leftName
    let r ← m.operandOf n.right n.rightName
    match evalComparison m.heap n.op l.value r.value with
    | .ok b => pure (some (.comparison s l n.op r b))
    | .error _ => pure none
  | .funcCalled =>
    if n.argc < 0 then throw (.crash CollectError.tooManyText)
    let args ← sliceOr m.top.registers (n.func + 1) (n.func + 1 + n.argc)
    pure (some (.funcCalled s n.name args.toList))
  | .funcReturned => pure (some (.funcReturned s n.name (← m.reg n.result)))
  | .singleStep => pure (some (.singleStep s))
  | .vtagEntered => pure (some (.vtagEntered s (← m.tagsOf n.tags false)))
  | .vtagExited => pure (some (.vtagExited s (← m.tagsOf n.tags true)))

def scene (m : Machine α) : Scene := ⟨m.heap, m.globalVars, m.localVars⟩

/-- Hands event `ev` of kind `k` to the listeners of that kind in turn, each seeing the scene as
it was before the first; their requests to pause or stop add up. A listener's fault is returned
with the listeners' state as it was when the fault happened. -/
def deliver (hear : Hearing α ω) (m : Machine α) (w : ω) (k : Kind) (ev : Event) :
    Except (String × ω) (Machine α × ω) :=
  let listeners := (m.registry.map (·.listeners k)).getD []
  let sc := m.scene
  listeners.foldlM (fun (acc : Machine α × ω) l =>
    let (m, w) := acc
    match hear l ev sc w with
    | .ok (w, r) =>
      .ok ({ m with pauseRequested := m.pauseRequested || r.pause,
                    stopRequested := m.stopRequested || r.stop }, w)
    | .error t => .error (t, w)) (m, w)

/-- Delivers the event of a notification to its listeners. A fault, in building the event or in
a listener, is returned with the listeners' state as it was when the fault happened. -/
def dispatch (hear : Hearing α ω) (m : Machine α) (w : ω) (n : Notification) :
    Except (String × ω) (Machine α × ω) := do
  let listened ← (hasKindCode m.registry n.kind).mapError (·, w)
  if !listened then return (m, w)
  let k := (Kind.ofCode? n.kind).getD .assignment
  let ev? ← match m.eventOf k n with
    | .ok e => pure e
    | .error (.crash t) => throw (t, w)
    | .error (.error d) => throw (d.text, w)
  let some ev := ev? | return (m, w)
  m.deliver hear w k ev

inductive Outcome (α ω : Type) where
  | next (m : Machine α) (w : ω)
  /-- A runtime error of the program. -/
  | failed (d : Diagnostic) (w : ω)
  /-- A fault of malformed bytecode, with its text. -/
  | broken (text : String) (w : ω)

/-- Carries out instruction `i` of frame `f`, delivering events at an event site. -/
def stepWith (hear : Hearing α ω) (m : Machine α) (w : ω) (f : Frame) (i : Instruction) :
    Outcome α ω :=
  if i.op? == some .notify then
    match f.proto.notifications[i.bx]? with
    | some n => match m.dispatch hear w n with
      | .ok (m, w) => .next m w
      | .error (t, w) => .broken t w
    | none => .broken (indexFault i.bx f.proto.notifications.size) w
  else
    match m.exec i with
    | .ok m => .next m w
    | .error (.crash t) => .broken t w
    | .error (.error d) => .failed d w

/-- Executes instructions until the run ends, pauses, or the fuel is used up. The result is the
report of a failure, if the run failed. A failing instruction is blamed at its own span; a fault
of malformed bytecode at the instruction after it. -/
def execute (hear : Hearing α ω) (fuel : Nat) (m : Machine α) (w : ω) :
    Option Diagnostic × Machine α × ω :=
  match m.frames.back? with
  | none => (none, { m with status := .completed }, w)
  | some f =>
    match fuel with
    | 0 => (none, m, w)
    | fuel + 1 =>
      let pc := f.pc
      let stopWith (d : Diagnostic) (m : Machine α) (w : ω) :=
        let (d, m) := m.fail d
        (some d, m, w)
      if pc ≥ f.proto.code.size then
        stopWith (invalidBytecode ("fell off the end of " ++ f.proto.name)) m w
      else if pc < 0 then stopWith (invalidBytecode (indexFault pc f.proto.code.size)) m w
      else
        let i := f.proto.code.getD pc.toNat default
        let m := m.modifyTop fun f => { f with pc := pc + 1 }
        match stepWith hear m w f i with
        | .failed d w => stopWith d (m.modifyTop fun f => { f with pc := pc }) w
        | .broken t w => stopWith (invalidBytecode t) m w
        | .next m w =>
          if m.stopRequested then
            (none, { m with stopRequested := false, pauseRequested := false }.terminate .stopped, w)
          else if m.pauseRequested then
            (none, { m with pauseRequested := false, status := .paused }, w)
          else execute hear fuel m w

/-- Starts a chunk as the top-level function. A run already under way or paused is refused,
and a chunk that fails validation stops the machine with a report of invalid bytecode. A chunk
asking for a negative number of registers cannot get its frame: that fault is not a report of
the machine but ends the run from outside it, as the error. -/
def run (hear : Hearing α ω) (fuel : Nat) (chunk : Chunk) (m : Machine α) (w : ω) :
    Except String (Option Diagnostic × Machine α × ω) :=
  if m.status == .running || m.status == .paused then
    let (d, m) := m.control .busy
    .ok (some d, m, w)
  else
    match chunk.validate with
    | some e =>
      let (d, m) := m.fail (invalidBytecode e)
      .ok (some d, m, w)
    | none => do
      let m := chunk.globals.foldl (fun m name => (m.globalCell name).2) m
      let (f, m) ← m.newFrame chunk #[] chunk.globals 0
      let m := { m with frames := #[f], pauseRequested := false, stopRequested := false,
                        status := .running }
      return execute hear fuel m w

def resume (hear : Hearing α ω) (fuel : Nat) (m : Machine α) (w : ω) :
    Option Diagnostic × Machine α × ω :=
  if m.status != .paused then
    let (d, m) := m.control .notPaused
    (some d, m, w)
  else execute hear fuel { m with status := .running } w

def stop (m : Machine α) : Option Diagnostic × Machine α :=
  if m.status != .paused then
    let (d, m) := m.control .notPaused
    (some d, m)
  else (none, m.terminate .stopped)

def pause (m : Machine α) : Diagnostic × Machine α := m.control .pauseOutsideNotification

def globalsView (m : Machine α) : Option (List (String × Value)) :=
  if m.status == .paused then some m.globalVars else none

def localsView (m : Machine α) : Option (Except String (List (String × Value))) :=
  if m.status == .paused && !m.frames.isEmpty then some m.localVars else none

def latePause (m : Machine α) : Diagnostic × Machine α := m.control .pauseOutsideNotification

def lateStop (m : Machine α) : Diagnostic × Machine α := m.control .notRunning

end Machine

end ScriptMachine
