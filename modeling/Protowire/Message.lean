import Protowire.Value

/-!
Reading and writing the fields of a message. Writes keep three rules: a number that the type does
not declare is ignored, setting a member of a oneof group unsets the others, and a default is not
stored in a field that does not track presence. They do not ask whether a value fits its field.
-/

namespace Protowire

/-- `xs` with `a` in front of position `i`, or at the end when there is no such position. -/
def insertAt {α : Type} (xs : List α) (a : α) : Option Nat → List α
  | some i => xs.take i ++ a :: xs.drop i
  | none => xs ++ [a]

namespace Message

def empty (t : TypeId) : Message := ⟨t, []⟩

def isEmpty (m : Message) : Bool := m.fields.isEmpty

/-! ### Reading -/

def get? (m : Message) (n : Nat) : Option Value := FieldMap.get? m.fields n

/-- Whether a field is set. An empty list does not count. -/
def has (m : Message) (n : Nat) : Bool :=
  match m.get? n with
  | some (.list items) => !items.isEmpty
  | some _ => true
  | none => false

/-- The elements of a repeated field. -/
def items (m : Message) (n : Nat) : List Value := ((m.get? n).bind Value.list?).getD []

/-- The value of a field as seen through `view`, or a default when it is unset or another type. -/
def getD {α : Type} (m : Message) (n : Nat) (view : Value → Option α) (default : α) : α :=
  ((m.get? n).bind view).getD default

def string (m : Message) (n : Nat) : String := m.getD n Value.string? ""

def bytes (m : Message) (n : Nat) : List UInt8 := m.getD n Value.bytes? []

/-- The number in a 32-bit integer or enum field. -/
def int32 (m : Message) (n : Nat) : Int32 := m.getD n Value.int32? 0

def message? (m : Message) (n : Nat) : Option Message := (m.get? n).bind Value.message?

/-- The member of a oneof group that is set: the first in the order of the group. -/
def whichOneof? (S : Schema) (m : Message) (group : Nat) : Option Nat :=
  ((S.type m.type).oneof? group).bind fun g => g.members.find? (FieldMap.contains m.fields ·)

/-- The set fields that the type declares. -/
def declared (S : Schema) (m : Message) : List (Field × Value) :=
  m.fields.filterMap fun (n, v) => ((S.type m.type).field? n).map (·, v)

/-! ### Writing -/

def insert (m : Message) (n : Nat) (v : Value) : Message := ⟨m.type, FieldMap.insert m.fields n v⟩

def clearAll (m : Message) (ns : List Nat) : Message := ⟨m.type, FieldMap.eraseAll m.fields ns⟩

def clear (m : Message) (n : Nat) : Message := ⟨m.type, FieldMap.erase m.fields n⟩

def clearOneof (S : Schema) (m : Message) (group : Nat) : Message :=
  match (S.type m.type).oneof? group with
  | some g => m.clearAll g.members
  | none => m

/-- Sets a declared field. -/
def store (S : Schema) (m : Message) (f : Field) (v : Value) : Message :=
  let m := m.clearAll ((S.type m.type).rivals f)
  if !f.tracksPresence && v.isDefault then m.clear f.number else m.insert f.number v

def put (S : Schema) (m : Message) (n : Nat) (v : Value) : Message :=
  match (S.type m.type).field? n with
  | some f => m.store S f v
  | none => m

/-- Replaces the elements of a repeated field. -/
def putItems (S : Schema) (m : Message) (n : Nat) (vs : List Value) : Message :=
  if vs.isEmpty then m.clear n
  else if ((S.type m.type).field? n).isSome then m.insert n (.list vs)
  else m

/-- Adds elements at the end of a repeated field. -/
def appendItems (m : Message) (n : Nat) (vs : List Value) : Message :=
  if vs.isEmpty then m else m.insert n (.list (m.items n ++ vs))

/-- Adds one element to a repeated field, in front of a position or at the end. -/
def addItem (S : Schema) (m : Message) (n : Nat) (v : Value) (index : Option Nat) : Message :=
  if ((S.type m.type).field? n).isSome then m.insert n (.list (insertAt (m.items n) v index)) else m

/-- Stores a message in a field, or clears the field. -/
def putMessage (S : Schema) (m : Message) (n : Nat) : Option Message → Message
  | some x => m.put S n (.message x)
  | none => m.clear n

/-! ### What a write changes -/

@[simp] theorem get?_empty (t : TypeId) (k : Nat) : (empty t).get? k = none := rfl

theorem get?_insert (m : Message) (n k : Nat) (v : Value) :
    (m.insert n v).get? k = if k = n then some v else m.get? k :=
  FieldMap.get?_insert ..

theorem get?_clearAll (m : Message) (ns : List Nat) (k : Nat) :
    (m.clearAll ns).get? k = if k ∈ ns then none else m.get? k :=
  FieldMap.get?_eraseAll ..

theorem get?_clear (m : Message) (n k : Nat) :
    (m.clear n).get? k = if k = n then none else m.get? k :=
  FieldMap.get?_erase ..

@[simp] theorem type_insert (m : Message) (n : Nat) (v : Value) : (m.insert n v).type = m.type :=
  rfl

@[simp] theorem type_clearAll (m : Message) (ns : List Nat) : (m.clearAll ns).type = m.type := rfl

@[simp] theorem type_clear (m : Message) (n : Nat) : (m.clear n).type = m.type := rfl

@[simp] theorem type_clearOneof (S : Schema) (m : Message) (group : Nat) :
    (m.clearOneof S group).type = m.type := by
  simp only [clearOneof]
  split <;> rfl

@[simp] theorem type_store (S : Schema) (m : Message) (f : Field) (v : Value) :
    (m.store S f v).type = m.type := by
  simp only [store]
  split <;> rfl

@[simp] theorem type_put (S : Schema) (m : Message) (n : Nat) (v : Value) :
    (m.put S n v).type = m.type := by
  simp only [put]
  split
  · exact type_store ..
  · rfl

@[simp] theorem type_putItems (S : Schema) (m : Message) (n : Nat) (vs : List Value) :
    (m.putItems S n vs).type = m.type := by
  simp only [putItems]
  split
  · rfl
  · split <;> rfl

@[simp] theorem type_appendItems (m : Message) (n : Nat) (vs : List Value) :
    (m.appendItems n vs).type = m.type := by
  simp only [appendItems]
  split <;> rfl

theorem appendItems_appendItems (m : Message) (n : Nat) (vs ws : List Value) :
    (m.appendItems n vs).appendItems n ws = m.appendItems n (vs ++ ws) := by
  cases vs with
  | nil => rfl
  | cons v vs =>
    cases ws with
    | nil => rw [List.append_nil, appendItems]; rfl
    | cons w ws =>
      have hitems : (m.insert n (.list (m.items n ++ v :: vs))).items n = m.items n ++ v :: vs := by
        rw [items, get?_insert, if_pos rfl]
        rfl
      simp only [appendItems, List.isEmpty_cons, Bool.false_eq_true, ↓reduceIte, hitems]
      simp [insert]

end Message

end Protowire
