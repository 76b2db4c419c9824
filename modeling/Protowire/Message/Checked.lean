import Protowire.Message

/-!
Writes that are refused, with the message left as it was, unless the field is declared, is singular
or repeated as the write needs, and the value fits.
-/

namespace Protowire

/-- Why a write was refused. -/
inductive FieldError
  | unknownField (message : String) (number : Nat)
  | kindMismatch (message field expected : String)
  | repeated (message field : String)
  | notRepeated (message field : String)
  deriving DecidableEq, Repr

def FieldError.message : FieldError → String
  | .unknownField message number => s!"{message} has no field {number}"
  | .kindMismatch message field expected =>
    "field `" ++ field ++ "` of " ++ message ++ " expects " ++ expected
  | .repeated message field => "field `" ++ field ++ "` of " ++ message ++ " is repeated"
  | .notRepeated message field => "field `" ++ field ++ "` of " ++ message ++ " is not repeated"

/-- A write that may be refused. What it returns and what it leaves in the message are separate, so
that a refusal could in principle leave a message half written. -/
abbrev Write := ExceptT FieldError (StateM Message)

namespace Write

variable (S : Schema)

def lookup (n : Nat) : Write Field := do
  let m ← get
  match (S.type m.type).field? n with
  | some f => return f
  | none => throw (.unknownField (S.fullName m.type) n)

def singular (n : Nat) : Write Field := do
  let f ← lookup S n
  if f.repeated then throw (.repeated (S.fullName (← get).type) f.name)
  return f

def repeated (n : Nat) : Write Field := do
  let f ← lookup S n
  if !f.repeated then throw (.notRepeated (S.fullName (← get).type) f.name)
  return f

/-- The value in the form in which the field stores it. -/
def fitted (f : Field) (v : Value) : Write Value := do
  let v := f.kind.normalize v
  if !f.kind.accepts S v then throw (.kindMismatch (S.fullName (← get).type) f.name f.kind.name)
  return v

def set (n : Nat) (v : Value) : Write Unit := do
  let f ← singular S n
  let v ← fitted S f v
  modify (·.store S f v)

def setItems (n : Nat) (vs : List Value) : Write Unit := do
  let f ← repeated S n
  let vs ← vs.mapM (fitted S f)
  modify (·.putItems S n vs)

def add (n : Nat) (v : Value) (index : Option Nat) : Write Unit := do
  let f ← repeated S n
  let v ← fitted S f v
  modify (·.addItem S n v index)

end Write

namespace Message

/-- The message after a write, or why the write was refused. -/
def written (m : Message) (w : Write Unit) : Except FieldError Message :=
  match w.run m with
  | (.ok (), m') => .ok m'
  | (.error e, _) => .error e

variable (S : Schema) (m : Message)

def set (n : Nat) (v : Value) : Except FieldError Message := m.written (Write.set S n v)

def setItems (n : Nat) (vs : List Value) : Except FieldError Message :=
  m.written (Write.setItems S n vs)

def add (n : Nat) (v : Value) (index : Option Nat) : Except FieldError Message :=
  m.written (Write.add S n v index)

end Message

end Protowire
