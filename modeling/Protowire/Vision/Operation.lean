import Protowire.Vision.Any
import Protowire.Vision.Status

/-!
Long-running operations and what they carry: a result that is an error or a response, the state of a
batch, and the oneofs of the requests that start one.
-/

namespace Protowire.Vision

/-! ### Results -/

inductive ResultCase
  | notSet | error | response
  deriving DecidableEq, Repr

def ResultCase.number : ResultCase → Nat
  | notSet => 0
  | error => 4
  | response => 5

def ResultCase.name : ResultCase → String
  | notSet => "NotSet"
  | error => "Error"
  | response => "Response"

namespace Operation

def metadata (op : Message) : Option Message := op.message? 2

def response (op : Message) : Option Message := op.message? 5

variable (S : Schema)

def resultCase (op : Message) : ResultCase :=
  match op.whichOneof? S 0 with
  | some 4 => .error
  | some 5 => .response
  | _ => .notSet

def clearResult (op : Message) : Message := op.clearOneof S 0

/-- What a packed part holds; none when the part is absent or holds another type. -/
def unpackPart (part : Option Message) (t : TypeId) : Except DecodeError (Option Message) :=
  match part with
  | some any => Any.unpack S any t
  | none => .ok none

def metadataAs (op : Message) (t : TypeId) : Except DecodeError (Option Message) :=
  unpackPart S (metadata op) t

def responseAs (op : Message) (t : TypeId) : Except DecodeError (Option Message) :=
  unpackPart S (response op) t

end Operation

/-! ### States of a batch -/

inductive BatchState
  | unspecified | processing | successful | failed | cancelled
  deriving DecidableEq, Repr

namespace BatchState

def all : List BatchState := [.unspecified, .processing, .successful, .failed, .cancelled]

def number (s : BatchState) : Int32 := Int32.ofNat s.ctorIdx

def ofNumber? (n : Int32) : Option BatchState := all.find? (·.number = n)

def name : BatchState → String
  | unspecified => "Unspecified"
  | processing => "Processing"
  | successful => "Successful"
  | failed => "Failed"
  | cancelled => "Cancelled"

/-- The name of the value in the schema. -/
def schemaName (s : BatchState) : String := (batchState.nameOf? s.number).getD "STATE_UNSPECIFIED"

/-- Whether the state can no longer change. -/
def isTerminal : BatchState → Bool
  | successful | failed | cancelled => true
  | unspecified | processing => false

@[simp] theorem ofNumber?_number (s : BatchState) : ofNumber? s.number = some s := by
  cases s <;> rfl

end BatchState

/-! ### Sources and targets -/

inductive SourceCase
  | notSet | gcsSource
  deriving DecidableEq, Repr

def SourceCase.number : SourceCase → Nat
  | notSet => 0
  | gcsSource => 1

def SourceCase.name : SourceCase → String
  | notSet => "NotSet"
  | gcsSource => "GcsSource"

/-- Where an import takes its data from. -/
def sourceCase (S : Schema) (config : Message) : SourceCase :=
  match config.whichOneof? S 0 with
  | some 1 => .gcsSource
  | _ => .notSet

inductive TargetCase
  | notSet | productSetPurgeConfig | deleteOrphanProducts
  deriving DecidableEq, Repr

def TargetCase.number : TargetCase → Nat
  | notSet => 0
  | productSetPurgeConfig => 2
  | deleteOrphanProducts => 3

def TargetCase.name : TargetCase → String
  | notSet => "NotSet"
  | productSetPurgeConfig => "ProductSetPurgeConfig"
  | deleteOrphanProducts => "DeleteOrphanProducts"

/-- What a purge deletes. -/
def targetCase (S : Schema) (request : Message) : TargetCase :=
  match request.whichOneof? S 0 with
  | some 2 => .productSetPurgeConfig
  | some 3 => .deleteOrphanProducts
  | _ => .notSet

def clearTarget (S : Schema) (request : Message) : Message := request.clearOneof S 0

end Protowire.Vision
