import Protowire.Window
import Protowire.Wire.Skip

/-!
A cursor on the bytes of a message: a window, how many messages and groups are open, and how many
may be, the last two in 32 bits. Skipping a group counts up on the way in and down on every way out.
What the counter should show after each of these steps is kept beside it, so that one can tell
whether it ever wrapped.
-/

namespace Protowire

namespace Wire

/-- What skipping leaves of the bytes and of the counter. -/
structure Skipped (bs : List UInt8) where
  result : Except DecodeError Unit
  rest : List UInt8
  depth : UInt32
  /-- The exact results of counting up and down, first to last. -/
  counts : List Int
  shorter : result = .ok () → rest.length ≤ bs.length

mutual

/-- Skips the value after a tag. -/
def skipValue (limit depth : UInt32) (number : Nat) (wire : WireType) (bs : List UInt8) :
    Skipped bs :=
  if wire = .startGroup then
    if limit ≤ depth then ⟨.error (.recursionLimitExceeded limit.toNat), bs, depth, [], nofun⟩
    else
      let inside := skipRecords limit (depth + 1) number bs
      ⟨inside.result, inside.rest, inside.depth - 1,
        (depth.toNat + 1 : Int) :: (inside.counts ++ [(inside.depth.toNat - 1 : Int)]),
        inside.shorter⟩
  else
    match h : skipPlain number wire bs with
    | .error e rest => ⟨.error e, rest, depth, [], nofun⟩
    | .ok () rest => ⟨.ok (), rest, depth, [],
        fun _ => Nat.le_of_lt ((advances_skipPlain number wire).lt h)⟩
termination_by (bs.length, 1)

/-- Skips the records of a group and the tag that closes it. -/
def skipRecords (limit depth : UInt32) (number : Nat) (bs : List UInt8) : Skipped bs :=
  if bs.isEmpty then ⟨.error (.unterminatedGroup number), bs, depth, [], nofun⟩
  else
    match ht : readTag bs with
    | .error e rest => ⟨.error e, rest, depth, [], nofun⟩
    | .ok (inner, wire) rest =>
      have tagged := advances_readTag.lt ht
      if wire = .endGroup then
        if inner = number then ⟨.ok (), rest, depth, [], fun _ => Nat.le_of_lt tagged⟩
        else ⟨.error (.unexpectedEndGroup inner), rest, depth, [], nofun⟩
      else
        let value := skipValue limit depth inner wire rest
        match hv : value.result with
        | .error e => ⟨.error e, value.rest, value.depth, value.counts, nofun⟩
        | .ok () =>
          have skipped := value.shorter hv
          let more := skipRecords limit value.depth number value.rest
          ⟨more.result, more.rest, more.depth, value.counts ++ more.counts,
            fun h => Nat.le_trans (more.shorter h) (Nat.le_trans skipped (Nat.le_of_lt tagged))⟩
termination_by (bs.length, 0)
decreasing_by
  · exact Prod.Lex.left _ _ tagged
  · exact Prod.Lex.left _ _ (Nat.lt_of_le_of_lt skipped tagged)

end

end Wire

structure Cursor where
  window : Window
  depth : UInt32
  limit : UInt32

namespace Cursor

/-- Whether nothing is left to read. -/
def isEmpty (c : Cursor) : Bool := c.window.size == 0

/-- Runs a reader on what is left to read. -/
def run {α : Type} (c : Cursor) (r : Reader DecodeError α) : Except DecodeError α × Cursor :=
  ((c.window.run r).1, { c with window := (c.window.run r).2 })

/-- The next tag, or none at the end. -/
def nextField (c : Cursor) : Except DecodeError (Option (Nat × WireType)) × Cursor :=
  c.run Wire.nextTag

/-- Splits off the region that a length delimits, as a cursor of the same depth. -/
def readPacked (c : Cursor) : Except DecodeError Cursor × Cursor :=
  match c.run Wire.readLength with
  | (.error e, c) => (.error e, c)
  | (.ok length, c) =>
    match c.window.cut length with
    | (.error e, window) => (.error (.buffer e), { c with window })
    | (.ok inner, window) => (.ok { c with window := inner }, { c with window })

/-- Splits off the body of a nested message, one level deeper. Depth is checked first. -/
def readNested (c : Cursor) : Except DecodeError Cursor × Cursor :=
  if c.limit ≤ c.depth then (.error (.recursionLimitExceeded c.limit.toNat), c)
  else
    match c.readPacked with
    | (.error e, c) => (.error e, c)
    | (.ok inner, c) => (.ok { inner with depth := inner.depth + 1 }, c)

/-- What skipping a value does from here. -/
def skipped (c : Cursor) (number : Nat) (wire : WireType) : Wire.Skipped c.window.unread :=
  Wire.skipValue c.limit c.depth number wire c.window.unread

/-- Skips the value after a tag; what is left to read stays at the end of the window. -/
def skipField (c : Cursor) (number : Nat) (wire : WireType) : Except DecodeError Unit × Cursor :=
  let skipped := c.skipped number wire
  (skipped.result, ⟨c.window.keepLast skipped.rest.length, skipped.depth, c.limit⟩)

end Cursor

end Protowire
