import ScriptMachine.Digest.Sha256
import ScriptMachine.Wire.Chunk
/-!
# Chunk store

A store keeps chunk images under the SHA-256 hex of their bytes, with a name and the time they
were stored. Storing the same bytes again keeps the first entry. A hash can be given by any
prefix that matches exactly one stored hash; the empty prefix matches nothing. Reading an entry
checks that its bytes still hash to its address.
-/

namespace ScriptMachine.Store

open Bytecode Wire

structure Entry where
  hash : String
  name : String
  data : List UInt8
  created : Nat
  deriving Repr, DecidableEq, Inhabited

inductive StoreError where
  /-- No stored hash matches, with the prefix asked for (none for the empty prefix). -/
  | notFound (prefixText : Option String)
  | ambiguous (prefixText : String)
  | corrupt (hash actual : String)
  | undecodable (ref : String) (e : ImageError)
  | unencodable (e : ImageError)
  /-- A failure of the storage underneath, with its text. -/
  | storage (text : String)
  deriving Inhabited, DecidableEq

namespace StoreError

def text : StoreError → String
  | .notFound none => "chunk not found"
  | .notFound (some p) => p ++ ": chunk not found"
  | .ambiguous p => p ++ ": ambiguous hash prefix"
  | .corrupt h a => "chunk " ++ h ++ " is corrupt: content hashes to " ++ a
  | .undecodable r e => "decoding chunk " ++ r ++ ": " ++ e.text
  | .unencodable e => "encoding chunk: " ++ e.text
  | .storage t => t

def kind : StoreError → String
  | .notFound _ => "ErrNotFound"
  | .ambiguous _ => "ErrAmbiguous"
  | _ => "Error"

end StoreError

def hashOf (bytes : List UInt8) : String := Digest.hexDigest bytes

/-- A store: where it lives and what it holds, in the order stored. -/
structure ChunkStore where
  path : String
  entries : List Entry := []
  deriving Inhabited

namespace ChunkStore

def putEncoded (s : ChunkStore) (name : String) (data : List UInt8) (now : Nat) :
    String × ChunkStore :=
  let h := hashOf data
  if s.entries.any (·.hash == h) then (h, s)
  else (h, { s with entries := s.entries ++ [⟨h, name, data, now⟩] })

def put (s : ChunkStore) (heap : Heap) (c : Chunk) (now : Nat) :
    Except StoreError (String × ChunkStore) :=
  match marshal .canonical heap c with
  | .error e => .error (.unencodable e)
  | .ok data => .ok (s.putEncoded c.name data now)

def has (s : ChunkStore) (hash : String) : Bool := s.entries.any (·.hash == hash)

def resolve (s : ChunkStore) (p : String) : Except StoreError String :=
  if p.isEmpty then .error (.notFound none)
  else match (s.entries.filter (p.isPrefixOf ·.hash)).take 2 with
    | [] => .error (.notFound (some p))
    | [e] => .ok e.hash
    | _ => .error (.ambiguous p)

/-- The stored bytes a prefix names, checked against their hash. -/
def getEncoded (s : ChunkStore) (p : String) : Except StoreError (List UInt8) := do
  let full ← s.resolve p
  match s.entries.find? (·.hash == full) with
  | none => throw (.notFound (some p))
  | some e =>
    let actual := hashOf e.data
    if actual != full then throw (.corrupt full actual)
    pure e.data

def get (s : ChunkStore) (p : String) : Except StoreError Chunk := do
  let data ← s.getEncoded p
  match unmarshal .canonical data with
  | .ok c => pure c
  | .error e => throw (.undecodable p e)

def list (s : ChunkStore) : List Entry :=
  s.entries.mergeSort fun a b =>
    a.created < b.created || (a.created == b.created &&
      (a.name < b.name || (a.name == b.name && a.hash ≤ b.hash)))

def delete (s : ChunkStore) (hash : String) : Bool × ChunkStore :=
  (s.has hash, { s with entries := s.entries.filter (·.hash != hash) })

def overwrite (s : ChunkStore) (hash : String) (data : List UInt8) : ChunkStore :=
  { s with entries := s.entries.map fun e => if e.hash == hash then { e with data := data } else e }

end ChunkStore

end ScriptMachine.Store
