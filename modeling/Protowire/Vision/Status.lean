import Protowire.Vision.Schema

/-!
The status of a call: a code, a text, and details. Codes have numbers; a number that is no code's
counts as unknown.
-/

namespace Protowire.Vision

inductive Code
  | ok | cancelled | unknown | invalidArgument | deadlineExceeded | notFound | alreadyExists
  | permissionDenied | resourceExhausted | failedPrecondition | aborted | outOfRange | unimplemented
  | internal | unavailable | dataLoss | unauthenticated
  deriving DecidableEq, Repr

namespace Code

def all : List Code :=
  [.ok, .cancelled, .unknown, .invalidArgument, .deadlineExceeded, .notFound, .alreadyExists,
    .permissionDenied, .resourceExhausted, .failedPrecondition, .aborted, .outOfRange,
    .unimplemented, .internal, .unavailable, .dataLoss, .unauthenticated]

def number (c : Code) : Int32 := Int32.ofNat c.ctorIdx

def ofNumber? (n : Int32) : Option Code := all.find? (·.number = n)

def name : Code → String
  | ok => "Ok"
  | cancelled => "Cancelled"
  | unknown => "Unknown"
  | invalidArgument => "InvalidArgument"
  | deadlineExceeded => "DeadlineExceeded"
  | notFound => "NotFound"
  | alreadyExists => "AlreadyExists"
  | permissionDenied => "PermissionDenied"
  | resourceExhausted => "ResourceExhausted"
  | failedPrecondition => "FailedPrecondition"
  | aborted => "Aborted"
  | outOfRange => "OutOfRange"
  | unimplemented => "Unimplemented"
  | internal => "Internal"
  | unavailable => "Unavailable"
  | dataLoss => "DataLoss"
  | unauthenticated => "Unauthenticated"

end Code

namespace Status

def code (status : Message) : Int32 := status.int32 1

def text (status : Message) : String := status.string 2

def withCode (S : Schema) (c : Code) (text : String) : Message :=
  ((Message.empty TypeName.status.id).put S 1 (.int32 c.number)).put S 2 (.string text)

def kind (status : Message) : Code := (Code.ofNumber? (code status)).getD .unknown

def isOk (status : Message) : Bool := code status = Code.ok.number

def display (status : Message) : String := s!"status {(kind status).name}: {text status}"

end Status

end Protowire.Vision
