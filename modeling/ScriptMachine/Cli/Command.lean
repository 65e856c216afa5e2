import ScriptMachine.Cli.Flags
import ScriptMachine.Project.Settings
import ScriptMachine.Store.File
import ScriptMachine.Debug.Session
import ScriptMachine.Samples
import ScriptMachine.Bytecode.Listing
import ScriptMachine.Text.Calendar
/-!
# The command line

`seed [options] <command> [arguments]`, with the commands `samples`, `disasm`, `run` and
`store put|ls|rm`. A reference names a chunk image file, else a sample, else a stored chunk by
hash prefix. The exit status is 0 on success, 1 on failure and 2 on a usage mistake.
-/

namespace ScriptMachine.Cli

open Files Project Bytecode Compiler Debug

inductive Failure where
  /-- A usage mistake, already explained. -/
  | usage
  | error (text : String)
  deriving Inhabited

abbrev Work := ExceptT Failure (StateT (Array Diagnostic) Host)

def say (t : String) : Work Unit := (Host.out t : Host Unit)

def warn (t : String) : Work Unit := (Host.err t : Host Unit)

def refuse {α : Type} (t : String) : Work α := do
  warn t
  throw .usage

def failWith {α : Type} (reporter text : String) : Work α := do
  modify (·.push (Diagnostic.generic reporter text))
  throw (.error text)

def failure {α : Type} (text : String) : Work α := throw (.error text)

def programFlags : FlagSet :=
  ⟨"", [⟨"config", .text, "Directory to start searching for seed.toml", "."⟩,
        ⟨"v", .integer, "Log verbosity (overrides seed.toml when >= 0)", "-1"⟩]⟩

def samplesFlags : FlagSet :=
  ⟨"samples", [⟨"o", .text, "Write compiled samples to this directory", ""⟩,
               ⟨"listen", .text, "Event kinds to compile notifications for", ""⟩]⟩

def disasmFlags : FlagSet :=
  ⟨"disasm", [⟨"listen", .text, "Event kinds to compile notifications for (samples only)", ""⟩]⟩

def runFlags : FlagSet :=
  ⟨"run", [⟨"trace", .text, "Event kinds to print as they fire", ""⟩,
           ⟨"step", .switch, "Pause before every line and show variables", "false"⟩,
           ⟨"break", .text, "Comma separated lines to pause at", ""⟩,
           ⟨"profile", .switch, "Print call and line counts when the run ends", "false"⟩]⟩

def usageText : String :=
  "Usage: seed [options] <command> [arguments]\n\nOptions:\n" ++ programFlags.defaults ++
  "\nCommands:\n" ++
  "  samples [-o DIR] [-listen KINDS]   List or compile the built-in samples\n" ++
  "  disasm FILE|HASH|SAMPLE            Print a chunk\x27s disassembly\n" ++
  "  run [-trace KINDS] [-step] FILE|HASH|SAMPLE\n" ++
  "                                     Run a chunk, printing traced events\n" ++
  "  store put FILE...                  Add chunk files to the store\n" ++
  "  store ls                           List stored chunks\n" ++
  "  store rm HASH                      Remove a stored chunk\n" ++
  "\nKINDS is a comma separated list of event kinds, or \"all\".\n"

def flagsOf (fs : FlagSet) (args : List String) : Work Given :=
  match fs.parse args with
  | .parsed g => pure g
  | .help => refuse fs.usage
  | .failed msg => refuse (msg ++ "\n" ++ fs.usage)

def kindsOf (list : String) : Work (List Kind) :=
  match Kind.parseList list with
  | .ok ks => pure ks
  | .error e => refuse ("Error: " ++ e ++ "\n")

def modeOf (cfg : Settings) : Mode := (Mode.ofName? cfg.mode).getD .script

/-- Compiles a sample with notifications for some event kinds. -/
def compileSample (cfg : Settings) (s : Samples.Sample) (kinds : List Kind) : Work Chunk :=
  match compile s.program { mode := modeOf cfg, listened := kinds } with
  | .chunk c => pure c
  | .errors first all => do
    modify (· ++ all)
    failure first.text
  | .fault f => failure f.text

/-- The notifications of a chunk and of every function inside it. -/
def notificationCount (c : Chunk) : Nat :=
  c.notifications.size + (c.protos.attach.toList.map fun ⟨p, _⟩ => notificationCount p).foldl (· + ·) 0
termination_by c
decreasing_by
  have := Array.sizeOf_lt_of_mem ‹p ∈ c.protos›
  cases c
  simp_all
  omega

def openStore (cfg : Settings) : Work Store.ChunkStore := do
  match ← (Store.openAt cfg.storeLocation : Host _) with
  | .ok s => pure s
  | .error e => failWith Reporter.store e.text

/-- The chunk a reference names: a chunk image file, else a sample compiled with
notifications for `kinds`, else a stored chunk. -/
def loadChunk (cfg : Settings) (ref : String) (kinds : List Kind) : Work Chunk := do
  match ← (Host.read ref : Host _) with
  | .ok data =>
    match Wire.unmarshal .canonical data with
    | .ok c => pure c
    | .error e => failure (ref ++ ": " ++ e.text)
  | .error e =>
    if e.reason != .notFound then failure e.text
    else match Samples.lookup? ref with
      | some s => compileSample cfg s kinds
      | none =>
        let s ← openStore cfg
        match s.get ref with
        | .ok c => pure c
        | .error e => failWith Reporter.store e.text

/-- `samples`: lists the samples, or compiles each into a directory. -/
def samplesCommand (cfg : Settings) (args : List String) : Work Unit := do
  let g ← flagsOf samplesFlags args
  let kinds ← kindsOf (g.text "listen" "")
  let dir := g.text "o" ""
  if dir.isEmpty then
    for s in Samples.all do
      say (padRight s.name 12 ++ " " ++ s.description ++ "\n")
    return
  match ← (Host.makeDirs dir : Host _) with
  | .error e => failure ("creating " ++ dir ++ ": " ++ e.text)
  | .ok () => pure ()
  for s in Samples.all do
    let c ← compileSample cfg s kinds
    let data ← match Wire.marshal .canonical {} c with
      | .ok data => pure data
      | .error e => failure e.text
    let path := join [dir, s.name ++ ".sbc"]
    match ← (Host.save path data : Host _) with
    | .error e => failure ("writing " ++ path ++ ": " ++ e.text)
    | .ok () => pure ()
    say ("wrote " ++ path ++ " (" ++ toString c.code.size ++ " instructions, " ++
      toString (notificationCount c) ++ " notifications)\n")

/-- `disasm`: prints a chunk's listing. -/
def disasmCommand (cfg : Settings) (args : List String) : Work Unit := do
  let g ← flagsOf disasmFlags args
  let ref ← match g.args with
    | [ref] => pure ref
    | _ => refuse "Usage: seed disasm [-listen KINDS] FILE|HASH|SAMPLE\n"
  let kinds ← kindsOf (g.text "listen" "")
  let c ← loadChunk cfg ref kinds
  let text := c.listing {}
  say (if text.endsWith "\n" then text else text ++ "\n")

/-- The value of a decimal integer: an optional sign and at least one digit. -/
def decimalValue? (s : String) : Option Int :=
  let (negative, body) := match s.toList with
    | '+' :: r => (false, r)
    | '-' :: r => (true, r)
    | r => (false, r)
  if body.isEmpty || !body.all Char.isDigit then none
  else
    let n : Int := body.foldl (fun acc c => acc * 10 + (c.toNat - '0'.toNat)) 0
    some (if negative then -n else n)

/-- The breakpoint lines of a comma list; a part that is not a positive 64-bit number is
returned as the mistake. -/
def breakLines (list : String) : Except String (List Int) :=
  if Text.trim list == "" then .ok []
  else (list.splitOn ",").mapM fun part =>
    let t := Text.trim part
    match decimalValue? t with
    | some n => if 1 ≤ n && n < ((Nat.pow 2 63 : Nat) : Int) then .ok n else .error part
    | none => .error part

def runFuel : Nat := 50000000

/-- Prints what the listeners noted and what the program printed since the last time, and
forgets them. -/
def flush (s : Session) : Work Session := do
  for x in s.notes.sightings do
    match x with
    | .event t _ => warn ("trace: " ++ t ++ "\n")
    | .stop e => warn (e.text ++ "\n")
    | .hot _ => pure ()
  say s.machine.output
  pure { s with notes := { s.notes with sightings := #[] },
                machine := { s.machine with output := "" } }

def variablesText (h : Heap) (vs : List (String × Value)) : String :=
  " ".intercalate (vs.map fun (n, v) => n ++ "=" ++ h.repr v)

/-- Prints the locals (when there are any) and the globals of a paused run. -/
def showVariables (m : Machine Listener) : Work Unit := do
  match m.localsView with
  | some (.ok ls) =>
    if !ls.isEmpty then warn ("  locals:  " ++ variablesText m.heap ls ++ "\n")
  | _ => pure ()
  match m.globalsView with
  | some gs => warn ("  globals: " ++ variablesText m.heap gs ++ "\n")
  | none => pure ()

/-- Asks what to do while a run is paused, at most `fuel` times: `q` (or the end of input)
stops the run, `s`, `n` and `o` step into, over and out, anything else continues (stepping
into with `-step`). -/
def debugLoop (step : Bool) : Nat → Session → Work (Session × Option Diagnostic)
  | 0, s => pure (s, none)
  | fuel + 1, s => do
    if s.machine.status != .paused then return (s, none)
    showVariables s.machine
    warn "-- paused [c]ontinue [s]tep [n]ext [o]ut [q]uit: "
    let (line, ended) ← (Host.line : Host _)
    let cmd := Text.trim line
    let cmd := if ended && cmd.isEmpty then "q" else cmd
    if cmd == "q" then return s.stop
    let mode? : Option StepMode := match cmd with
      | "s" => some .into
      | "n" => some .overCalls
      | "o" => some .out
      | _ => if step then some .into else none
    let s := match mode? with
      | some mode => (s.withDebugger fun d => .ok (d.step mode)).1
      | none => s
    let (s, d) := s.resume runFuel
    let s ← flush s
    match d with
    | some d => return (s, some d)
    | none => debugLoop step fuel s

def showProfile (p : Profiler) : Work Unit := do
  let st := p.stats
  warn ("profile: " ++ toString st.calls ++ " calls to " ++ toString st.functions ++
    " functions, " ++ toString st.lineEntries ++ " line entries\n")
  for f in p.profiles do
    warn ("  " ++ padRight f.name 12 ++ " " ++ padLeft ' ' (toString f.calls) 8 ++
      (if f.hot then " (hot)" else "") ++ "\n")

/-- The session of a run: trace listeners for some kinds, the debugger when stepping or
breaking, and the profiler when asked for. -/
def runSession (cfg : Settings) (kinds : List Kind) (step profile : Bool) (lines : List Int) :
    Session :=
  let s := (Session.create true cfg.maxCallDepth).listen kinds {} |>.1
  let s := if step || !lines.isEmpty then
      let s := (s.withDebugger fun d => .ok (lines.foldl (fun d l =>
        (d.setBreakpoint l).toOption.getD d) d)).1
      let s := s.attachDebugger
      if step then (s.withDebugger fun d => .ok (d.step .into)).1 else s
    else s
  if profile then s.attachProfiler none else s

/-- `run`: runs a chunk under the listeners its flags ask for. -/
def runCommand (cfg : Settings) (args : List String) : Work Unit := do
  let g ← flagsOf runFlags args
  let ref ← match g.args with
    | [ref] => pure ref
    | _ => refuse ("Usage: seed run [-trace KINDS] [-step] [-break LINES] [-profile] " ++
      "FILE|HASH|SAMPLE\n")
  let kinds ← kindsOf (g.text "trace" "")
  let lines ← match breakLines (g.text "break" "") with
    | .ok ls => pure ls
    | .error part => refuse ("Error: invalid line " ++ Text.quote part ++ "\n")
  let step := g.switch "step"
  let s := runSession cfg kinds step (g.switch "profile") lines
  let c ← loadChunk cfg ref s.registry.kinds
  let (s, d) ← match s.run runFuel c with
    | .ok r => pure r
    | .error t => refuse ("panic: " ++ t ++ "\n")
  let s ← flush s
  let (s, d) ← match d with
    | some d => pure (s, some d)
    | none => debugLoop step runFuel s
  if g.switch "profile" then showProfile s.notes.profiler
  modify (· ++ s.machine.diagnostics)
  match d with
  | some d => failure d.text
  | none => pure ()

/-- `store`: adds chunk files, lists the stored chunks, or removes one. -/
def storeCommand (cfg : Settings) (args : List String) : Work Unit := do
  let (sub, rest) ← match args with
    | sub :: rest => pure (sub, rest)
    | [] => refuse "Usage: seed store [put|ls|rm] ...\n"
  let s ← openStore cfg
  match sub with
  | "put" =>
    if rest.isEmpty then refuse "Usage: seed store put FILE...\n"
    let mut s := s
    for path in rest do
      let data ← match ← (Host.read path : Host _) with
        | .ok data => pure data
        | .error e => failure e.text
      let c ← match Wire.unmarshal .canonical data with
        | .ok c => pure c
        | .error e => failure (path ++ ": " ++ e.text)
      let (hash, s') ← match s.put {} c (← (Host.now : Host _)) with
        | .ok r => pure r
        | .error e => failWith Reporter.store e.text
      match ← (s'.commit : Host _) with
      | .ok () => pure ()
      | .error e => failWith Reporter.store e.text
      s := s'
      say (hash ++ "  " ++ path ++ "\n")
  | "ls" =>
    for e in s.list do
      say (String.ofList (e.hash.toList.take 16) ++ "  " ++ padRight e.name 12 ++ " " ++
        padLeft ' ' (toString e.data.length) 6 ++ "  " ++ Text.dateTimeText e.created ++ "\n")
  | "rm" =>
    let ref ← match rest with
      | [ref] => pure ref
      | _ => refuse "Usage: seed store rm HASH\n"
    let hash ← match s.resolve ref with
      | .ok h => pure h
      | .error e => failWith Reporter.store e.text
    let (_, s) := s.delete hash
    match ← (s.commit : Host _) with
    | .ok () => pure ()
    | .error e => failWith Reporter.store e.text
    say ("removed " ++ hash ++ "\n")
  | other => refuse ("Unknown store subcommand: " ++ other ++ "\n")

def dispatch (cfg : Settings) (cmd : String) (args : List String) : Work Unit :=
  match cmd with
  | "samples" => samplesCommand cfg args
  | "disasm" => disasmCommand cfg args
  | "run" => runCommand cfg args
  | "store" => storeCommand cfg args
  | _ => refuse ("Unknown command: " ++ cmd ++ "\n")

/-- The whole program: reads the flags and settings, opens the log file, runs the command,
prints the reports, and gives the exit status. -/
def program (args : List String) : Host Nat := do
  match programFlags.parse args with
  | .help => Host.err usageText; return 0
  | .failed msg => Host.err (msg ++ "\n" ++ usageText); return 2
  | .parsed g =>
    let cfg ← match ← find (g.text "config" ".") with
      | .ok cfg => pure cfg
      | .error e =>
        Host.err ("Error loading configuration: " ++ e.text ++ "\n")
        return 1
    let v := g.integer "v" (-1)
    let cfg := if v ≥ 0 then { cfg with verbosity := v } else cfg
    if cfg.verbosity ≥ -3 && !cfg.logLocation.isEmpty then
      match ← Host.openAppend cfg.logLocation with
      | .ok () => pure ()
      | .error e =>
        Host.err ("log file error: " ++ e.text ++ "\n")
        return 1
    match g.args with
    | [] => Host.err usageText; return 2
    | cmd :: rest =>
      let (r, reports) ← (dispatch cfg cmd rest).run.run #[]
      for d in reports do Host.err (d.text ++ "\n")
      match r with
      | .ok () => return 0
      | .error .usage => return 2
      | .error (.error t) =>
        if reports.isEmpty then Host.err ("Error: " ++ t ++ "\n")
        return 1

end ScriptMachine.Cli
