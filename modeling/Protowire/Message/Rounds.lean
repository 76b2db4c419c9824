import Protowire.Message.Merge
import Protowire.Wire.Cursor

/-!
Decoding with a cursor, where nothing is known of when it ends. Each loop is told how many rounds it
may still make, and what it calls in a round may make only those that are left after it. Where one
more round is needed, there is no outcome. Going down into a message or a group takes no round, and
the limit on nesting bounds no loop.
-/

namespace Protowire.Rounds

open Wire

/-! ### Skipping -/

mutual

/-- Skips the value after a tag. -/
def skipField (rounds number : Nat) (wire : WireType) (c : Cursor) :
    Option (Except DecodeError Unit × Cursor) :=
  if wire = .startGroup then skipGroup rounds number c
  else some (c.run (skipPlain number wire))
termination_by (rounds, 2)

/-- Skips a group behind the tag that opens it. The counter comes down on every way out. -/
def skipGroup (rounds number : Nat) (c : Cursor) : Option (Except DecodeError Unit × Cursor) :=
  if c.limit ≤ c.depth then some (.error (.recursionLimitExceeded c.limit.toNat), c)
  else do
    let (result, c) ← skipRecords rounds number { c with depth := c.depth + 1 }
    return (result, { c with depth := c.depth - 1 })
termination_by (rounds, 1)

/-- Skips the records of a group, one in each round, and in one more the tag that closes it. -/
def skipRecords (rounds number : Nat) (c : Cursor) : Option (Except DecodeError Unit × Cursor) :=
  if c.isEmpty then some (.error (.unterminatedGroup number), c)
  else
    match rounds with
    | 0 => none
    | rounds + 1 =>
      match c.run readTag with
      | (.error e, c) => some (.error e, c)
      | (.ok (inner, wire), c) =>
        if wire = .endGroup then
          some (if inner = number then .ok () else .error (.unexpectedEndGroup inner), c)
        else do
          match ← skipField rounds inner wire c with
          | (.error e, c) => return (.error e, c)
          | (.ok (), c) => skipRecords rounds number c
termination_by (rounds, 0)

end

/-! ### Merging -/

/-- The outcome of merging: the message in any case, the cursor behind what was read, and what went
wrong. -/
structure Outcome where
  message : Message
  cursor : Cursor
  error? : Option DecodeError

variable (S : Schema)

mutual

/-- Merges all that is left to read into a message, the field behind one tag in each round. -/
def mergeMessage (rounds : Nat) (m : Message) (c : Cursor) : Option Outcome :=
  match c.nextField with
  | (.error e, c) => some ⟨m, c, some e⟩
  | (.ok none, c) => some ⟨m, c, none⟩
  | (.ok (some (number, wire)), c) =>
    match rounds with
    | 0 => none
    | rounds + 1 =>
      if wire = .endGroup then some ⟨m, c, some (.unexpectedEndGroup number)⟩
      else do
        let after ← (match (S.type m.type).field? number with
          | some f => mergeField rounds m f wire c
          | none => (skipField rounds number wire c).map fun
            | (.error e, c) => ⟨m, c, some e⟩
            | (.ok (), c) => ⟨m, c, none⟩)
        match after.error? with
        | some _ => return after
        | none => mergeMessage rounds after.message after.cursor
termination_by (rounds, 0)

/-- Merges the value of a declared field, behind a tag with this wire type. -/
def mergeField (rounds : Nat) (m : Message) (f : Field) (wire : WireType) (c : Cursor) :
    Option Outcome :=
  if f.repeated && f.kind.packable && wire = .lengthDelimited then
    match c.readPacked with
    | (.error e, c) => some ⟨m, c, some e⟩
    | (.ok inner, c) => do
      match ← decodeItems rounds f.kind inner with
      | (.error e, _) => return ⟨m, c, some e⟩
      | (.ok vs, _) => return ⟨m.appendItems f.number vs, c, none⟩
  else if wire ≠ f.kind.wire then
    some ⟨m, c, some (.wireTypeMismatch (S.fullName m.type) f.number f.kind.wire wire)⟩
  else
    match f.kind, m.target? f with
    | .message _, some x =>
      match c.readNested with
      | (.error e, c) => some ⟨m, c, some e⟩
      | (.ok inner, c) => do
        let inside ← mergeMessage rounds x inner
        return ⟨m.insert f.number (.message inside.message), c, inside.error?⟩
    | kind, _ => do
      match ← decodeValue rounds kind c with
      | (.error e, c) => return ⟨m, c, some e⟩
      | (.ok v, c) => return ⟨m.take S f v, c, none⟩
termination_by (rounds, 3)

/-- All the values in a packed region, one in each round. -/
def decodeItems (rounds : Nat) (kind : Kind) (c : Cursor) :
    Option (Except DecodeError (List Value) × Cursor) :=
  if c.isEmpty then some (.ok [], c)
  else
    match rounds with
    | 0 => none
    | rounds + 1 => do
      match ← decodeValue rounds kind c with
      | (.error e, c) => return (.error e, c)
      | (.ok v, c) =>
        let (vs, c) ← decodeItems rounds kind c
        return ((v :: ·) <$> vs, c)
termination_by (rounds, 2)

/-- One value. That of a message is a new one, with the whole of a body merged into it. -/
def decodeValue (rounds : Nat) (kind : Kind) (c : Cursor) :
    Option (Except DecodeError Value × Cursor) :=
  match kind with
  | .scalar s => some (c.run s.read)
  | .message t =>
    match c.readNested with
    | (.error e, c) => some (.error e, c)
    | (.ok inner, c) => do
      let inside ← mergeMessage rounds (Message.empty t) inner
      match inside.error? with
      | some e => return (.error e, c)
      | none => return (.ok (.message inside.message), c)
termination_by (rounds, 1)

end

end Protowire.Rounds
