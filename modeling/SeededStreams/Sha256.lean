-- The hash function SHA-256 on lists of bytes.

namespace SeededStreams.Sha256

/-- The eight words of a chaining value. -/
structure State where
  a : UInt32
  b : UInt32
  c : UInt32
  d : UInt32
  e : UInt32
  f : UInt32
  g : UInt32
  h : UInt32
deriving DecidableEq, Repr

namespace State

/-- The chaining value before the first block. -/
def initial : State :=
  { a := 0x6a09e667, b := 0xbb67ae85, c := 0x3c6ef372, d := 0xa54ff53a
    e := 0x510e527f, f := 0x9b05688c, g := 0x1f83d9ab, h := 0x5be0cd19 }

/-- Adds two chaining values word by word. -/
def add (s t : State) : State :=
  { a := s.a + t.a, b := s.b + t.b, c := s.c + t.c, d := s.d + t.d
    e := s.e + t.e, f := s.f + t.f, g := s.g + t.g, h := s.h + t.h }

/-- The words of a chaining value in order. -/
def words (s : State) : List UInt32 := [s.a, s.b, s.c, s.d, s.e, s.f, s.g, s.h]

end State

/-- Turns a word to the right by `k` places. -/
def rotateRight (x k : UInt32) : UInt32 := (x >>> k) ||| (x <<< (32 - k))

/-- The constants of the 64 rounds. -/
def constants : Vector UInt32 64 := #v[
  0x428a2f98, 0x71374491, 0xb5c0fbcf, 0xe9b5dba5, 0x3956c25b, 0x59f111f1, 0x923f82a4, 0xab1c5ed5,
  0xd807aa98, 0x12835b01, 0x243185be, 0x550c7dc3, 0x72be5d74, 0x80deb1fe, 0x9bdc06a7, 0xc19bf174,
  0xe49b69c1, 0xefbe4786, 0x0fc19dc6, 0x240ca1cc, 0x2de92c6f, 0x4a7484aa, 0x5cb0a9dc, 0x76f988da,
  0x983e5152, 0xa831c66d, 0xb00327c8, 0xbf597fc7, 0xc6e00bf3, 0xd5a79147, 0x06ca6351, 0x14292967,
  0x27b70a85, 0x2e1b2138, 0x4d2c6dfc, 0x53380d13, 0x650a7354, 0x766a0abb, 0x81c2c92e, 0x92722c85,
  0xa2bfe8a1, 0xa81a664b, 0xc24b8b70, 0xc76c51a3, 0xd192e819, 0xd6990624, 0xf40e3585, 0x106aa070,
  0x19a4c116, 0x1e376c08, 0x2748774c, 0x34b0bcb5, 0x391c0cb3, 0x4ed8aa4a, 0x5b9cca4f, 0x682e6ff3,
  0x748f82ee, 0x78a5636f, 0x84c87814, 0x8cc70208, 0x90befffa, 0xa4506ceb, 0xbef9a3f7, 0xc67178f2]

/-! ## The message in blocks -/

/-- The bytes of a number, `count` of them, the highest first. -/
def bigEndian (count n : Nat) : List UInt8 :=
  (List.range count).map fun i => UInt8.ofNat (n >>> (8 * (count - 1 - i)))

/-- A message with a set bit, zeros and its length in bits after it, so that
the whole is a whole count of blocks. -/
def pad (message : List UInt8) : List UInt8 :=
  message ++ 0x80 :: (List.replicate ((119 - message.length % 64) % 64) 0 ++
    bigEndian 8 (8 * message.length))

/-- Four bytes at a time as a word, the highest first. -/
def wordsOf : List UInt8 → List UInt32
  | p :: q :: r :: s :: rest =>
    ((p.toUInt32 <<< 24) ||| (q.toUInt32 <<< 16) ||| (r.toUInt32 <<< 8) ||| s.toUInt32) ::
      wordsOf rest
  | _ => []

/-- The first `count` blocks of 16 words. -/
def blocks : Nat → List UInt32 → List (Vector UInt32 16)
  | 0, _ => []
  | count + 1, ws => Vector.ofFn (fun i : Fin 16 => ws.getD i 0) :: blocks count (ws.drop 16)

/-! ## The rounds of a block -/

/-- The word of the schedule for round `t`, and the last 16 words of the
schedule with it in its place. -/
def schedule (window : Vector UInt32 16) (t : Nat) : UInt32 × Vector UInt32 16 :=
  have (k : Nat) : k % 16 < 16 := Nat.mod_lt k (by decide)
  if t < 16 then (window[t % 16], window)
  else
    let w2 := window[(t + 14) % 16]
    let w15 := window[(t + 1) % 16]
    let s0 := rotateRight w15 7 ^^^ rotateRight w15 18 ^^^ (w15 >>> 3)
    let s1 := rotateRight w2 17 ^^^ rotateRight w2 19 ^^^ (w2 >>> 10)
    let w := window[t % 16] + s0 + window[(t + 9) % 16] + s1
    (w, window.set (t % 16) w)

/-- One round. -/
def round (x : State × Vector UInt32 16) (t : Fin 64) : State × Vector UInt32 16 :=
  let (s, window) := x
  let (w, window) := schedule window t
  let s1 := rotateRight s.e 6 ^^^ rotateRight s.e 11 ^^^ rotateRight s.e 25
  let choice := (s.e &&& s.f) ^^^ (~~~s.e &&& s.g)
  let t1 := s.h + s1 + choice + constants[t] + w
  let s0 := rotateRight s.a 2 ^^^ rotateRight s.a 13 ^^^ rotateRight s.a 22
  let majority := (s.a &&& s.b) ^^^ (s.a &&& s.c) ^^^ (s.b &&& s.c)
  ({ a := t1 + (s0 + majority), b := s.a, c := s.b, d := s.c
     e := s.d + t1, f := s.e, g := s.f, h := s.g }, window)

/-- The chaining value after one more block. -/
def compress (s : State) (block : Vector UInt32 16) : State :=
  s.add (Fin.foldl 64 round (s, block)).1

/-- The hash of a message: 32 bytes. -/
def hash (message : List UInt8) : List UInt8 :=
  let ws := wordsOf (pad message)
  let final := (blocks (ws.length / 16) ws).foldl compress State.initial
  final.words.flatMap fun w => bigEndian 4 w.toNat

end SeededStreams.Sha256
