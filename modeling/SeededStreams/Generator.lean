-- Generators: what a source starts, and the draws that are taken from it.
import SeededStreams.Source.Basic
import SeededStreams.Steps

namespace SeededStreams

/-- A running generator. -/
inductive Generator where
  | twister (t : Twister)
  | xoshiro (x : Xoshiro)
deriving DecidableEq

/-- Why there is no stream. -/
inductive StreamFault where
  /-- The seed is refused. -/
  | seed (fault : SeedFault)
  /-- The generator does not give draws of this kind. -/
  | unsupported (algorithm : String) (kind : Kind)
deriving DecidableEq

/-- The text of a fault. -/
def StreamFault.message : StreamFault → String
  | seed fault => fault.message
  | unsupported algorithm kind =>
    "Unsupported draw: " ++ algorithm ++ " cannot produce " ++ kind.name ++ " draws"

namespace Generator

/-- The generator that a source starts. -/
def ofSource : Source → Except SeedFault Generator
  | .twisterSeed seed => .ok (twister (Twister.ofSeed seed))
  | .twisterKey key => do return twister (← Twister.ofKey key)
  | .xoshiroState state => do return xoshiro (← Xoshiro.ofState state)
  | .xoshiroSpread seed => do return xoshiro (← Xoshiro.ofSplitMix seed)

/-- The name of the algorithm. -/
def algorithm : Generator → String
  | twister _ => Twister.algorithm
  | xoshiro _ => Xoshiro.algorithm

/-- The next word, and the generator after it. -/
def next : Generator → Word × Generator
  | twister t =>
    let (w, t) := t.next
    (w, twister t)
  | xoshiro x =>
    let (w, x) := x.next
    (w, xoshiro x)

/-- Asks for a draw of a kind: the answer, and the generator after it. A draw
that is not supported takes no word. -/
def ask (kind : Kind) (g : Generator) : Except StreamFault Draw × Generator :=
  match g, kind with
  | twister t, kind =>
    let (w, t) := t.next
    (.ok (kind.draw w), twister t)
  | xoshiro x, .u64 =>
    let (w, x) := x.next
    (.ok (.word w), xoshiro x)
  | g, kind => (.error (.unsupported g.algorithm kind), g)

/-- The next draw of a kind, with the generator after it when there is one. -/
def nextDraw (kind : Kind) (g : Generator) : Except StreamFault (Draw × Generator) :=
  match g.ask kind with
  | (.ok d, g) => .ok (d, g)
  | (.error e, _) => .error e

/-- Takes `n` draws of a kind and drops them. -/
def discard (kind : Kind) : Nat → Generator → Except StreamFault Generator
  | 0, g => .ok g
  | n + 1, g =>
    match g.nextDraw kind with
    | .ok (_, g) => discard kind n g
    | .error e => .error e

/-- `drawMany` with the draws found so far, the last one first. -/
def drawOnto (kind : Kind) : Nat → List Draw → Generator → Except StreamFault (List Draw × Generator)
  | 0, found, g => .ok (found.reverse, g)
  | n + 1, found, g =>
    match g.nextDraw kind with
    | .ok (d, g) => drawOnto kind n (d :: found) g
    | .error e => .error e

/-- Takes `n` draws of a kind, in order, and stops at the first that is refused. -/
def drawMany (kind : Kind) (n : Nat) (g : Generator) : Except StreamFault (List Draw × Generator) :=
  drawOnto kind n [] g

end Generator

end SeededStreams
