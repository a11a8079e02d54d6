-- Readers of records. A record is written as an object, with its members in
-- any order, or as a list, with its members in the order of their slots.
import SeededStreams.Json.Reader

namespace SeededStreams.Json

/-- One member of a record. `σ` is what is known of the record while it is read. -/
structure Slot (σ : Type) where
  name : String
  /-- The member may be left out. -/
  optional : Bool
  isFilled : σ → Bool
  /-- Reads the value of the member. -/
  fill : σ → Reader σ

/-- How a record is read. -/
structure Shape (σ α : Type) where
  /-- What a fault calls the record. -/
  label : String
  slots : List (Slot σ)
  start : σ
  /-- The record, once all members have been read. -/
  finish : σ → Except Fault α

namespace Shape

variable {σ α : Type}

/-- What a fault says of a list that is too short for the record. -/
def lengthLabel (shape : Shape σ α) : String :=
  shape.label ++ " with " ++ shape.slots.length.repr ++ " elements"

/-- Reads one member of an object. A member that no slot has is passed over;
a second one with the same key is refused before its value is read. -/
def member (shape : Shape σ α) (room : Nat) (state : σ) (key s : List Char) :
    Except Fault (σ × List Char) :=
  match shape.slots.find? fun slot => slot.name.toList == key with
  | some slot =>
    if slot.isFilled state then .error (.duplicateField slot.name)
    else do slot.fill state room (← colon s)
  | none => do return (state, ← Skip.value (← colon s))

/-- Reads the members from a list, `before` of which have been passed. -/
def inOrder (shape : Shape σ α) (room : Nat) :
    List (Slot σ) → (before : Nat) → σ → List Char → Except Fault (σ × List Char)
  | [], _, state, s => do return (state, ← endOfList s)
  | slot :: slots, before, state, s => do
    match ← nextElement (before == 0) s with
    | .done _ =>
      if slot.optional then inOrder shape room slots (before + 1) state s
      else .error (.wrongLength before shape.lengthLabel)
    | .more s =>
      let (state, s) ← slot.fill state room s
      inOrder shape room slots (before + 1) state s

/-- Reads a record. -/
def read (shape : Shape σ α) : Reader α := fun room s => do
  let (state, s) ←
    match dropBlank s with
    | '[' :: s =>
      match room with
      | 0 => .error .tooDeep
      | room + 1 => inOrder shape room shape.slots 0 shape.start s
    | '\x7b' :: s =>
      match room with
      | 0 => .error .tooDeep
      | room + 1 => object (member shape room) shape.start s
    | s => .error (wrongAt shape.label s)
  return (← shape.finish state, s)

end Shape

/-- A member that has to be there. -/
def require {α : Type} (name : String) : Option α → Except Fault α
  | some a => .ok a
  | none => .error (.missingField name)

end SeededStreams.Json
