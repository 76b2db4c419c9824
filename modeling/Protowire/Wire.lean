import Protowire.Varint

/-!
The wire layer: what a tag says, what can be wrong with a message's bytes, and how deep messages and
groups may nest.
-/

namespace Protowire

/-- How the value after a tag is delimited. -/
inductive WireType
  | varint | fixed64 | lengthDelimited | startGroup | endGroup | fixed32
  deriving DecidableEq, Repr

namespace WireType

def code : WireType → Nat
  | varint => 0
  | fixed64 => 1
  | lengthDelimited => 2
  | startGroup => 3
  | endGroup => 4
  | fixed32 => 5

def ofCode? : Nat → Option WireType
  | 0 => some varint
  | 1 => some fixed64
  | 2 => some lengthDelimited
  | 3 => some startGroup
  | 4 => some endGroup
  | 5 => some fixed32
  | _ => none

def name : WireType → String
  | varint => "varint"
  | fixed64 => "fixed64"
  | lengthDelimited => "length-delimited"
  | startGroup => "start-group"
  | endGroup => "end-group"
  | fixed32 => "fixed32"

@[simp] theorem ofCode?_code (w : WireType) : ofCode? w.code = some w := by cases w <;> rfl

theorem code_lt (w : WireType) : w.code < 6 := by cases w <;> decide

end WireType

def minFieldNumber : Nat := 1

def maxFieldNumber : Nat := 0x1fffffff

/-- A field number and a wire type in one 32-bit word. Of a number above `maxFieldNumber` the high
bits are lost. -/
def tag (number : Nat) (wire : WireType) : Nat := number * 8 % UInt32.size + wire.code

inductive DecodeError
  | buffer (cause : BufferError)
  | invalidFieldNumber (number : Nat)
  | invalidWireType (code : Nat)
  | wireTypeMismatch (message : String) (number : Nat) (expected actual : WireType)
  | unexpectedEndGroup (number : Nat)
  | unterminatedGroup (number : Nat)
  | lengthOverflow (length remaining : Nat)
  | recursionLimitExceeded (limit : Nat)
  | messageTooLarge (size max : Nat)
  | unknownType (name : String)
  deriving DecidableEq, Repr

def DecodeError.message : DecodeError → String
  | .buffer cause => s!"malformed input: {cause.message}"
  | .invalidFieldNumber number => s!"invalid field number {number}"
  | .invalidWireType code => s!"invalid wire type {code}"
  | .wireTypeMismatch message number expected actual =>
    s!"field {number} of {message}: expected {expected.name} wire type, found {actual.name}"
  | .unexpectedEndGroup number => s!"unexpected end group for field {number}"
  | .unterminatedGroup number => s!"unterminated group for field {number}"
  | .lengthOverflow length remaining =>
    s!"length prefix {length} exceeds remaining {remaining} bytes"
  | .recursionLimitExceeded limit => s!"recursion limit of {limit} exceeded"
  | .messageTooLarge size max => s!"message of {size} bytes exceeds limit of {max}"
  | .unknownType name => "unknown message type `" ++ name ++ "`"

/-- How many messages and groups are open, and how many may be. -/
structure Nesting where
  depth : Nat
  limit : Nat
  deriving DecidableEq, Repr

def Nesting.deeper (n : Nesting) : Nesting := ⟨n.depth + 1, n.limit⟩

/-- What a decoder lets pass. -/
structure Limits where
  recursion : Nat := 100
  size : Nat := 64 * 1024 * 1024
  deriving DecidableEq, Repr

def Limits.default : Limits := {}

/-- At the top of a message: nothing is open. -/
def Limits.nesting (limits : Limits) : Nesting := ⟨0, limits.recursion⟩

end Protowire
