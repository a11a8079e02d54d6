-- Streams: which draws are wanted, and the draws.
import SeededStreams.Generator

namespace SeededStreams

/-- What is wanted: draws of one kind from a source, after some that are dropped. -/
structure Request where
  source : Source
  kind : Kind := .u64
  /-- The count of draws. -/
  count : Nat
  /-- The count of draws that are dropped before the first one. -/
  skip : Nat := 0
deriving DecidableEq

namespace Request

/-- Checks that the source gives draws of the kind. -/
def validate (r : Request) : Except StreamFault Unit :=
  if r.source.supports r.kind then .ok ()
  else .error (.unsupported r.source.algorithm r.kind)

/-- The draws of a request. The kind is checked first, then the seed, and
both before anything is drawn. -/
def stream (r : Request) : Except StreamFault (List Draw) := do
  r.validate
  match Generator.ofSource r.source with
  | .error e => .error (.seed e)
  | .ok g =>
    let g ← g.discard r.kind r.skip
    let (draws, _) ← g.drawMany r.kind r.count
    return draws

end Request

end SeededStreams
