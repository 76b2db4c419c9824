import Protowire.Proofs.Message.Grammar

/-!
Unknown fields are transparent. Complete records whose numbers a type does not declare may stand
between any two records of a message: what is merged behind them merges as if they were not there,
errors and half-finished states included. What is inside their groups is never taken for fields of
the type, so it may have any numbers and wire types, the declared ones among them.
-/

namespace Protowire

open Reader Wire

/-- Complete records, none of which has a number that the type declares. Groups nest at most `room`
deep in them. -/
inductive UndeclaredRun (T : MessageType) (room : Nat) : List UInt8 → Prop
  | nil : UndeclaredRun T room []
  | cons {number : Nat} {wire : WireType} {tag value rest : List UInt8}
    (hfield : T.field? number = none) (htag : TagForm tag (number, wire))
    (hvalue : ValueForm room number wire value) (hrest : UndeclaredRun T room rest) :
    UndeclaredRun T room (tag ++ value ++ rest)

variable {S : Schema} {nesting : Nesting} {m : Message} {T T' : MessageType}

/-- Behind the tag of a field that neither of two types declares, both read the same, whether that
succeeds or fails. -/
theorem Record.read_eq_of_undeclared {number : Nat} {wire : WireType} {tag : List UInt8}
    (hT : T.field? number = none) (hT' : T'.field? number = none)
    (htag : TagForm tag (number, wire)) (rest : List UInt8) :
    Record.read T nesting (tag ++ rest) = Record.read T' nesting (tag ++ rest) := by
  simp only [Record.read, reads_readTag.ok htag, hT, hT']

/-- Each record of the run is one step of the merge, and the step leaves the message as it is. -/
theorem UndeclaredRun.merge {u : List UInt8} (hu : UndeclaredRun (S.type m.type) nesting.room u)
    (b : List UInt8) : merge S nesting m (u ++ b) = Protowire.merge S nesting m b := by
  induction hu with
  | nil => rfl
  | cons hfield htag hvalue _ ih =>
    rw [List.append_assoc, merge_form (.unknown hfield htag hvalue) rfl, ih]

/-- Merging passes over undeclared records wherever one record ends, and how it reads such a record
does not depend on what else a type declares. -/
theorem unknown_fields_transparent (S : Schema) (nesting : Nesting) (m : Message) :
    (∀ a u b, (merge S nesting m a).error? = none →
      UndeclaredRun (S.type m.type) nesting.room u →
      merge S nesting m (a ++ u ++ b) = merge S nesting m (a ++ b)) ∧
    (∀ T number wire tag rest, (S.type m.type).field? number = none → T.field? number = none →
      TagForm tag (number, wire) →
      Record.read (S.type m.type) nesting (tag ++ rest) = Record.read T nesting (tag ++ rest)) := by
  constructor
  · intro a u b ha hu
    have htype : (merge S nesting m a).message.type = m.type := type_merge S nesting m a
    calc
      merge S nesting m (a ++ u ++ b)
      _ = merge S nesting (merge S nesting m a).message (u ++ b) := by
        rw [List.append_assoc, merge_append ha]
      _ = merge S nesting (merge S nesting m a).message b := UndeclaredRun.merge (htype ▸ hu) b
      _ = merge S nesting m (a ++ b) := (merge_append ha b).symm
  · intro T number wire tag rest hfield hfield' htag
    exact Record.read_eq_of_undeclared hfield hfield' htag rest

section

open Vision

/-- A group with a record that bears the number of the flag but no flag, then a number under a tag
that takes two bytes. -/
def undeclaredRecords : List UInt8 := [123, 26, 1, 255, 124, 200, 0, 5]

theorem undeclaredRun_undeclaredRecords :
    UndeclaredRun (schema.type TypeName.operation.id) 100 undeclaredRecords := by
  have hopen : TagForm [123] (15, .startGroup) :=
    ⟨123, ⟨.last (by decide), by decide, by decide⟩, by decide, by decide, rfl⟩
  have hinner : TagForm [26] (3, .lengthDelimited) :=
    ⟨26, ⟨.last (by decide), by decide, by decide⟩, by decide, by decide, rfl⟩
  have hclose : TagForm [124] (15, .endGroup) :=
    ⟨124, ⟨.last (by decide), by decide, by decide⟩, by decide, by decide, rfl⟩
  have hlong : TagForm [200, 0] (9, .varint) :=
    ⟨72, ⟨.more (by decide) (.last (by decide)), by decide, by decide⟩, by decide, by decide, rfl⟩
  have hbody : PlainForm .lengthDelimited [1, 255] :=
    ⟨[255], [1], ⟨.last (by decide), by decide, by decide⟩, rfl⟩
  have hnumber : PlainForm .varint [5] := ⟨5, .last (by decide), by decide, by decide⟩
  have hgroup : ValueForm 100 15 .startGroup [26, 1, 255, 124] :=
    ⟨by decide, [26, 1, 255], [124], .plain hinner hbody .nil, hclose, rfl⟩
  exact .cons (by cbv) hopen hgroup (.cons (by cbv) hlong hnumber .nil)

/-- Behind a name and the undeclared records the flag is cut off; and a group that does not end is
no better against another type. -/
theorem cut_off_behind_undeclared :
    merge schema Limits.default.nesting ⟨TypeName.operation.id, [(3, .bool true)]⟩
        ([10, 1, 120] ++ undeclaredRecords ++ [24]) =
      merge schema Limits.default.nesting ⟨TypeName.operation.id, [(3, .bool true)]⟩
        ([10, 1, 120] ++ [24]) ∧
    Record.read (schema.type TypeName.operation.id) Limits.default.nesting ([123] ++ [26]) =
      Record.read TypeName.any.definition Limits.default.nesting ([123] ++ [26]) := by
  obtain ⟨hmerge, hread⟩ := unknown_fields_transparent schema Limits.default.nesting
    ⟨TypeName.operation.id, [(3, .bool true)]⟩
  refine ⟨hmerge _ _ _ (by cbv) undeclaredRun_undeclaredRecords, ?_⟩
  exact hread _ 15 .startGroup _ _ (by cbv) (by decide)
    ⟨123, ⟨.last (by decide), by decide, by decide⟩, by decide, by decide, rfl⟩

end

end Protowire
