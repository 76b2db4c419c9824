import Protowire.Wire
import Protowire.ZigZag

/-!
Readers and written forms of what stands between tags: numbers, lengths, texts, and the regions that
a length delimits.
-/

namespace Protowire.Wire

open Reader

/-! ### Reading -/

def readVarint : Reader DecodeError Nat := mapError .buffer Varint.read

/-- A field number and the wire type of the value that follows. Of two faults the number's comes
first. -/
def readTag : Reader DecodeError (Nat × WireType) := fun bs =>
  match readVarint bs with
  | .error e rest => .error e rest
  | .ok word rest =>
    if UInt32.size ≤ word then .error (.invalidFieldNumber (word / 8)) rest
    else if word / 8 < minFieldNumber then .error (.invalidFieldNumber (word / 8)) rest
    else
      match WireType.ofCode? (word % 8) with
      | some wire => .ok (word / 8, wire) rest
      | none => .error (.invalidWireType (word % 8)) rest

/-- The next tag, or none at the end of the input. -/
def nextTag : Reader DecodeError (Option (Nat × WireType))
  | [] => .ok none []
  | b :: bs => (some <$> readTag) (b :: bs)

/-- A length, checked against what is left. -/
def readLength : Reader DecodeError Nat := fun bs =>
  match readVarint bs with
  | .error e rest => .error e rest
  | .ok length rest =>
    if rest.length < length then .error (.lengthOverflow length rest.length) rest
    else .ok length rest

/-- The bytes that a length in front of them delimits. -/
def readBytes : Reader DecodeError (List UInt8) := do
  mapError .buffer (take (← readLength))

def readString : Reader DecodeError String := do
  mapError .buffer (utf8 (← readLength))

def readInt32 : Reader DecodeError Int32 := Nat.toInt32 <$> readVarint

def readInt64 : Reader DecodeError Int64 := Nat.toInt64 <$> readVarint

def readUInt32 : Reader DecodeError UInt32 := Nat.toUInt32 <$> readVarint

def readUInt64 : Reader DecodeError UInt64 := Nat.toUInt64 <$> readVarint

def readSInt32 : Reader DecodeError Int32 := (ZigZag.decode32 ·.toUInt32) <$> readVarint

def readSInt64 : Reader DecodeError Int64 := (ZigZag.decode64 ·.toUInt64) <$> readVarint

def readBool : Reader DecodeError Bool := (· != 0) <$> readVarint

def readFixed32 : Reader DecodeError UInt32 := Nat.toUInt32 <$> mapError .buffer (fixed 4)

def readFixed64 : Reader DecodeError UInt64 := Nat.toUInt64 <$> mapError .buffer (fixed 8)

def readSFixed32 : Reader DecodeError Int32 := Nat.toInt32 <$> mapError .buffer (fixed 4)

def readSFixed64 : Reader DecodeError Int64 := Nat.toInt64 <$> mapError .buffer (fixed 8)

/-- The body of a nested message and the nesting inside it. Depth is checked before the length. -/
def readNested (nesting : Nesting) : Reader DecodeError (List UInt8 × Nesting) := fun bs =>
  if nesting.limit ≤ nesting.depth then .error (.recursionLimitExceeded nesting.limit) bs
  else ((·, nesting.deeper) <$> readBytes) bs

/-! ### Writing -/

def writeTag (number : Nat) (wire : WireType) : List UInt8 := Varint.encode (tag number wire)

def delimited (bs : List UInt8) : List UInt8 := Varint.encode bs.length ++ bs

/-- A tag and the bytes it delimits. -/
def writeDelimited (number : Nat) (bs : List UInt8) : List UInt8 :=
  writeTag number .lengthDelimited ++ delimited bs

/-- Negative numbers are written in 64 bits. -/
def writeInt32 (n : Int32) : List UInt8 := Varint.encode n.toInt64.toUInt64.toNat

def writeInt64 (n : Int64) : List UInt8 := Varint.encode n.toUInt64.toNat

def writeUInt32 (n : UInt32) : List UInt8 := Varint.encode n.toNat

def writeUInt64 (n : UInt64) : List UInt8 := Varint.encode n.toNat

def writeSInt32 (n : Int32) : List UInt8 := Varint.encode (ZigZag.encode32 n).toNat

def writeSInt64 (n : Int64) : List UInt8 := Varint.encode (ZigZag.encode64 n).toNat

def writeBool (b : Bool) : List UInt8 := Varint.encode b.toNat

def writeFixed32 (n : UInt32) : List UInt8 := littleEndian 4 n.toNat

def writeFixed64 (n : UInt64) : List UInt8 := littleEndian 8 n.toNat

def writeSFixed32 (n : Int32) : List UInt8 := writeFixed32 n.toUInt32

def writeSFixed64 (n : Int64) : List UInt8 := writeFixed64 n.toUInt64

def writeString (s : String) : List UInt8 := delimited s.toUTF8.data.toList

/-! ### Every success uses up input -/

theorem advances_readVarint : Advances readVarint := advances_mapError Varint.advances_read _

theorem advances_readTag : Advances readTag := by
  intro bs t rest h
  simp only [readTag] at h
  split at h
  · cases h
  · rename_i hv
    have := advances_readVarint.lt hv
    split at h
    · cases h
    · split at h
      · cases h
      · split at h
        · cases h
          exact this
        · cases h

theorem advances_readLength : Advances readLength := by
  intro bs n rest h
  simp only [readLength] at h
  split at h
  · cases h
  · rename_i hv
    have := advances_readVarint.lt hv
    split at h
    · cases h
    · cases h
      exact this

theorem advances_fixed {width : Nat} (h : 0 < width) :
    Advances (mapError DecodeError.buffer (fixed width)) :=
  advances_mapError (advances_map (advances_take h) _) _

/-- A delimited region is shorter than the input it was cut from, and so is what follows it. -/
theorem readBytes_ok {bs body rest : List UInt8} (h : readBytes bs = .ok body rest) :
    body.length + rest.length < bs.length := by
  simp only [readBytes, bind, EStateM.bind] at h
  split at h
  · rename_i n r hn
    have hlt := advances_readLength.lt hn
    simp only [mapError] at h
    split at h
    · rename_i ht
      cases h
      obtain ⟨rfl, hlen⟩ := take_ok ht
      simp only [List.length_append] at hlt
      omega
    · cases h
  · cases h

theorem advances_readBytes : Advances readBytes := by
  intro bs body rest h
  have := readBytes_ok h
  omega

theorem utf8_ok {n : Nat} {bs rest : List UInt8} {s : String} (h : utf8 n bs = .ok s rest) :
    ∃ text, take n bs = .ok text rest := by
  simp only [utf8] at h
  split at h
  · cases h
  · rename_i text r ht
    split at h
    · cases h
      exact ⟨text, ht⟩
    · cases h

theorem advances_readString : Advances readString := by
  intro bs s rest h
  simp only [readString, bind, EStateM.bind] at h
  split at h
  · rename_i n r hn
    have hlt := advances_readLength.lt hn
    simp only [mapError] at h
    split at h
    · rename_i ht
      cases h
      obtain ⟨text, ht⟩ := utf8_ok ht
      obtain ⟨rfl, hlen⟩ := take_ok ht
      simp only [List.length_append] at hlt
      omega
    · cases h
  · cases h

theorem readNested_ok {nesting inner : Nesting} {bs body rest : List UInt8}
    (h : readNested nesting bs = .ok (body, inner) rest) :
    body.length + rest.length < bs.length ∧ inner = nesting.deeper := by
  simp only [readNested] at h
  split at h
  · cases h
  · simp only [Functor.map, EStateM.map] at h
    split at h
    · rename_i hb
      cases h
      exact ⟨readBytes_ok hb, rfl⟩
    · cases h

end Protowire.Wire
