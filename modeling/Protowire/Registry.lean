import Protowire.Message.Merge

/-!
Registries: message types by full name. Adding a type also adds the types of its message fields, and
theirs, as far as the names are not registered yet. A type whose name is registered replaces the one
that has it, and its fields are not looked at.
-/

namespace Protowire

/-- The types of the message fields. -/
def MessageType.references (T : MessageType) : List TypeId :=
  T.fields.filterMap fun f =>
    match f.kind with
    | .message t => some t
    | .scalar _ => none

/-- Type positions by full name, each name once. -/
structure Registry where
  entries : List (String × TypeId)
  deriving DecidableEq, Repr

namespace Registry

def empty : Registry := ⟨[]⟩

def find? (r : Registry) (name : String) : Option TypeId := r.entries.lookup name

def contains (r : Registry) (name : String) : Bool := (r.find? name).isSome

def size (r : Registry) : Nat := r.entries.length

def isEmpty (r : Registry) : Bool := r.entries.isEmpty

/-- The names, ordered by code points. -/
def names (r : Registry) : List String := (r.entries.map (·.1)).mergeSort (· ≤ ·)

/-- Registers a type under its name, in place of the one that has the name. -/
def put (S : Schema) (r : Registry) (t : TypeId) : Registry :=
  ⟨(S.fullName t, t) :: r.entries.filter fun e => !decide (e.1 = S.fullName t)⟩

/-- The schema's types whose names are not registered yet. -/
def missing (S : Schema) (r : Registry) : List MessageType :=
  S.types.toList.filter fun T => !r.contains T.fullName

theorem lookup_filter_ne {name n : String} (h : name ≠ n) (entries : List (String × TypeId)) :
    (entries.filter fun e => !decide (e.1 = n)).lookup name = entries.lookup name := by
  induction entries with
  | nil => rfl
  | cons e entries ih =>
    obtain ⟨k, t⟩ := e
    by_cases hk : k = n
    · subst hk
      simp [List.lookup_cons, beq_false_of_ne h, ih]
    · simp [hk, List.lookup_cons, ih]

theorem contains_put (S : Schema) (r : Registry) (t : TypeId) (name : String) :
    (r.put S t).contains name = (decide (name = S.fullName t) || r.contains name) := by
  by_cases h : name = S.fullName t
  · simp [contains, find?, put, h]
  · simp [contains, find?, put, h, List.lookup_cons, beq_false_of_ne h, lookup_filter_ne h]

theorem missing_put (S : Schema) (r : Registry) (t : TypeId) :
    (r.put S t).missing S = (r.missing S).filter fun T => !decide (T.fullName = S.fullName t) := by
  simp [missing, List.filter_filter, contains_put]

theorem length_missing_put_le (S : Schema) (r : Registry) (t : TypeId) :
    ((r.put S t).missing S).length ≤ (r.missing S).length := by
  rw [missing_put]
  exact List.length_filter_le ..

/-- Registering a new name leaves fewer missing ones, unless the type is none of the schema's. -/
theorem length_missing_put_lt {S : Schema} {r : Registry} {t : TypeId} (ht : t < S.types.size)
    (h : r.contains (S.fullName t) = false) :
    ((r.put S t).missing S).length < (r.missing S).length := by
  have htype : S.type t = S.types[t] := by simp [Schema.type, ht]
  have hmem : S.type t ∈ r.missing S := by
    simp only [missing, List.mem_filter]
    refine ⟨?_, by simpa [Schema.fullName] using h⟩
    rw [htype]
    exact Array.mem_toList_iff.mpr (Array.getElem_mem ht)
  rw [missing_put]
  refine Nat.lt_of_le_of_ne (List.length_filter_le ..) fun heq => ?_
  have := List.length_filter_eq_length_iff.mp heq _ hmem
  simp [Schema.fullName] at this

/-- Registers the types that are `pending`, the first one first, and what they refer to. -/
def addAll (S : Schema) (r : Registry) : (pending : List TypeId) → Registry
  | [] => r
  | t :: pending =>
    if r.contains (S.fullName t) then addAll S (r.put S t) pending
    else addAll S (r.put S t) ((S.type t).references ++ pending)
termination_by pending => ((r.missing S).length, pending.length)
decreasing_by
  · rcases Nat.lt_or_eq_of_le (length_missing_put_le S r t) with h | h
    · exact Prod.Lex.left _ _ h
    · rw [h]
      exact Prod.Lex.right _ (Nat.lt_succ_self _)
  · rename_i hnew
    by_cases ht : t < S.types.size
    · exact Prod.Lex.left _ _ (length_missing_put_lt ht (by simpa using hnew))
    · have hrefs : (S.type t).references = [] := by
        simp [Schema.type, Nat.le_of_not_lt ht, MessageType.empty, MessageType.references]
      rw [hrefs, List.nil_append]
      rcases Nat.lt_or_eq_of_le (length_missing_put_le S r t) with h | h
      · exact Prod.Lex.left _ _ h
      · rw [h]
        exact Prod.Lex.right _ (Nat.lt_succ_self _)

/-- Registers a type and what it refers to. -/
def add (S : Schema) (r : Registry) (t : TypeId) : Registry := addAll S r [t]

def ofTypes (S : Schema) (ts : List TypeId) : Registry := ts.foldl (add S) empty

/-! ### Type URLs -/

/-- What stands in front of a type's name in its URL. -/
def urlBase : String := "type.googleapis.com/"

/-- The part of a URL after its last slash. -/
def nameOfUrl (url : String) : String :=
  String.ofList (url.toList.reverse.takeWhile (· ≠ '/')).reverse

def findUrl? (r : Registry) (url : String) : Option TypeId := r.find? (nameOfUrl url)

/-! ### Messages of registered types -/

def create? (r : Registry) (name : String) : Option Message := (r.find? name).map Message.empty

def decode (S : Schema) (r : Registry) (name : String) (limits : Limits) (bs : List UInt8) :
    Except DecodeError Message :=
  match r.find? name with
  | some t => Message.decode S t limits bs
  | none => .error (.unknownType name)

end Registry

end Protowire
