import Protowire.Message
import Protowire.Record

/-!
Merging bytes into a message, record by record: a scalar replaces, elements are added at the end,
and the body of a message that is already there is merged into it. A failure keeps all that the
records before it have done; if it arises inside the body of a message that is there, it also keeps
what that body had done.
-/

namespace Protowire

open Wire

/-- The outcome of merging: the message in any case, the bytes not read, and what went wrong. -/
structure Merged where
  message : Message
  rest : List UInt8
  error? : Option DecodeError

namespace Message

/-- The message that a body for this field is merged into, if there is one. -/
def target? (m : Message) (f : Field) : Option Message :=
  if f.repeated then none else m.message? f.number

/-- Stores what was read for a declared field. -/
def take (S : Schema) (m : Message) (f : Field) (v : Value) : Message :=
  if f.repeated then m.appendItems f.number [v] else m.store S f v

/-- Stores a field's message after a body was merged into it. -/
def takeMessage (S : Schema) (m : Message) (f : Field) (x : Message) : Message :=
  match m.target? f with
  | some _ => m.insert f.number (.message x)
  | none => m.take S f (.message x)

/-- What a failure inside a body leaves. -/
def keepTarget (m : Message) (f : Field) (x : Message) : Message :=
  match m.target? f with
  | some _ => m.insert f.number (.message x)
  | none => m

end Message

/-- Merges all of the bytes into a message. -/
def merge (S : Schema) (nesting : Nesting) (m : Message) (bs : List UInt8) : Merged :=
  if bs.isEmpty then ⟨m, [], none⟩
  else
    match _ : Record.read (S.type m.type) nesting bs with
    | .error e rest => ⟨m, rest, some e⟩
    | .ok .unknown rest => merge S nesting m rest
    | .ok (.value f v) rest => merge S nesting (m.take S f v) rest
    | .ok (.packed f vs) rest => merge S nesting (m.appendItems f.number vs) rest
    | .ok (.body f t bytes) rest =>
      let inner := merge S nesting.deeper ((m.target? f).getD (Message.empty t)) bytes
      match inner.error? with
      | some e => ⟨m.keepTarget f inner.message, rest, some e⟩
      | none => merge S nesting (m.takeMessage S f inner.message) rest
termination_by bs.length
decreasing_by
  all_goals have shorter := Record.read_ok ‹_›
  all_goals simp only [Record.bytes, List.length_nil] at shorter
  all_goals omega

namespace Message

/-- Merges bytes into a message that nothing contains, with the default limits. -/
def mergeBytes (S : Schema) (m : Message) (bs : List UInt8) : Merged :=
  merge S Limits.default.nesting m bs

/-- A new message from all of the bytes. The size limit is checked before anything is read. -/
def decode (S : Schema) (t : TypeId) (limits : Limits) (bs : List UInt8) :
    Except DecodeError Message :=
  if limits.size < bs.length then .error (.messageTooLarge bs.length limits.size)
  else
    let merged := merge S limits.nesting (empty t) bs
    match merged.error? with
    | some e => .error e
    | none => .ok merged.message

end Message

end Protowire
