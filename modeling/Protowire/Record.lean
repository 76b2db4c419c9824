import Protowire.Wire.Scalar

/-!
A record is what one tag of a message says: a tag and the value behind it. Reading one looks only at
the declared fields and never at what a message holds, so a message's bytes split into records in
one way. The body of a nested message stays bytes here.
-/

namespace Protowire

open Reader Wire

inductive Record
  /-- A field that is not declared, skipped. -/
  | unknown
  | value (field : Field) (value : Value)
  /-- Elements of a repeated field, together under one tag. -/
  | packed (field : Field) (values : List Value)
  | body (field : Field) (type : TypeId) (bytes : List UInt8)

namespace Record

/-- The value of a declared field, behind a tag with this wire type. -/
def readField (T : MessageType) (nesting : Nesting) (f : Field) (wire : WireType) :
    Reader DecodeError Record := fun bs =>
  match f.kind with
  | .scalar s =>
    if f.repeated && s.packable && wire = .lengthDelimited then
      match readBytes bs with
      | .error e rest => .error e rest
      | .ok region rest =>
        match s.readAll region with
        | .ok vs => .ok (packed f vs) rest
        | .error e => .error e rest
    else if wire = s.wire then (value f <$> s.read) bs
    else .error (.wireTypeMismatch T.fullName f.number s.wire wire) bs
  | .message t =>
    if wire = .lengthDelimited then ((fun (bytes, _) => body f t bytes) <$> readNested nesting) bs
    else .error (.wireTypeMismatch T.fullName f.number .lengthDelimited wire) bs

def read (T : MessageType) (nesting : Nesting) : Reader DecodeError Record := fun bs =>
  match readTag bs with
  | .error e rest => .error e rest
  | .ok (number, wire) rest =>
    if wire = .endGroup then .error (.unexpectedEndGroup number) rest
    else
      match T.field? number with
      | some f => readField T nesting f wire rest
      | none => ((fun _ => unknown) <$> skipField nesting number wire) rest

/-- The bytes of a record's body, if it is one of a message. -/
def bytes : Record → List UInt8
  | body _ _ bytes => bytes
  | _ => []

theorem readField_ok {T : MessageType} {nesting : Nesting} {f : Field} {wire : WireType}
    {bs rest : List UInt8} {r : Record} (h : readField T nesting f wire bs = .ok r rest) :
    r.bytes.length + rest.length < bs.length := by
  cases hk : f.kind with
  | scalar s =>
    simp only [readField, hk] at h
    split at h
    · split at h
      · cases h
      · rename_i hb
        have := advances_readBytes.lt hb
        split at h
        · cases h
          simpa [bytes] using this
        · cases h
    · split at h
      · simp only [Functor.map, EStateM.map] at h
        split at h
        · rename_i hr
          cases h
          simpa [bytes] using s.advances_read.lt hr
        · cases h
      · cases h
  | message t =>
    simp only [readField, hk] at h
    split at h
    · simp only [Functor.map, EStateM.map] at h
      split at h
      · rename_i hn
        cases h
        exact (readNested_ok hn).1
      · cases h
    · cases h

/-- A record uses up its tag, so its body and what follows it are shorter than the input. -/
theorem read_ok {T : MessageType} {nesting : Nesting} {bs rest : List UInt8} {r : Record}
    (h : read T nesting bs = .ok r rest) : r.bytes.length + rest.length < bs.length := by
  simp only [read] at h
  split at h
  · cases h
  · rename_i ht
    have tagged := advances_readTag.lt ht
    split at h
    · cases h
    · split at h
      · exact Nat.lt_trans (readField_ok h) tagged
      · simp only [Functor.map, EStateM.map] at h
        split at h
        · rename_i hs
          cases h
          have := skipField_ok hs
          simp only [bytes, List.length_nil]
          omega
        · cases h

end Record

end Protowire
