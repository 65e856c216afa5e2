import ScriptMachine.Store.Basic
import ScriptMachine.Files.Host
/-!
# Stores kept in files

A store at a path other than `:memory:` lives in one file: the magic `SDB1`, the SHA-256
digest of the rest, and the canonical encoding of an array of entries `[hash, name, bytes,
time]`. The digest makes any file that this module did not write, or that was changed since,
unreadable as a store, and such a file is refused as not being a database. Opening makes the
file's directory and, when the file is missing or empty, an empty store. The path `:memory:`
opens a fresh store that lives only as long as it is open.
-/

namespace ScriptMachine.Store

open Files Wire

def memoryPath : String := ":memory:"

def fileMagic : List UInt8 := [0x53, 0x44, 0x42, 0x31]

def encodeEntries (es : List Entry) : List UInt8 :=
  let body := (Item.array (es.map fun e =>
    .array [.ofString e.hash, .ofString e.name, .bytes e.data, .nat e.created])).encode
  fileMagic ++ Digest.sha256 body ++ body

def decodeEntries (bytes : List UInt8) : Option (List Entry) :=
  if bytes.isEmpty then some []
  else if bytes.take 4 != fileMagic then none
  else if Digest.sha256 (bytes.drop 36) != (bytes.drop 4).take 32 then none
  else match readOne (bytes.drop 36) with
    | some (.array items) => items.mapM fun i => match i with
      | .array [.text h, .text n, .bytes d, .nat t] => do
        pure ⟨← String.fromUTF8? (ByteArray.mk h.toArray),
              ← String.fromUTF8? (ByteArray.mk n.toArray), d, t⟩
      | _ => none
    | _ => none

def cannotOpen : String := "setting busy timeout: unable to open database file: out of memory (14)"

/-- Opens the store at a path, making its directory and file when missing. -/
def openAt (path : String) : Host (Except StoreError ChunkStore) := do
  if path == memoryPath then return .ok { path := path }
  match ← Host.makeDirs (dir path) with
  | .error e => return .error (.storage ("creating store directory: " ++ e.text))
  | .ok () => pure ()
  match ← Host.read path with
  | .ok bytes =>
    match decodeEntries bytes with
    | some es => return .ok { path := path, entries := es }
    | none => return .error (.storage "creating table: file is not a database (26)")
  | .error e =>
    if e.reason != .notFound then return .error (.storage cannotOpen)
    match ← Host.save path (encodeEntries []) with
    | .ok () => return .ok { path := path }
    | .error _ => return .error (.storage cannotOpen)

def ChunkStore.commit (s : ChunkStore) : Host (Except StoreError Unit) := do
  if s.path == memoryPath then return .ok ()
  match ← Host.save s.path (encodeEntries s.entries) with
  | .ok () => return .ok ()
  | .error e => return .error (.storage ("saving chunk: " ++ e.text))

end ScriptMachine.Store
