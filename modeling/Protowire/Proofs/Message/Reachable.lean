import Protowire.Proofs.Message.Checked
import Protowire.Proofs.Message.Merge
import Protowire.Proofs.Plain.ToMessage
import Protowire.Proofs.Vision.Schema

/-!
The messages that a program can come to hold. A run starts with a new message, a decoded one or one
from plain form and goes on with checked writes, unsetting and merging, whatever the arguments are
and whether or not each step succeeds; the messages handed over in arguments come from such runs.
Every message on the way is canonical: each step keeps the invariant, the ones that fail included,
and a refused write moves nothing.
-/

namespace Protowire

/-- The writes that check their arguments. -/
inductive CheckedWrite
  | set (n : Nat) (v : Value)
  | setItems (n : Nat) (vs : List Value)
  | add (n : Nat) (v : Value) (index : Option Nat)

namespace CheckedWrite

/-- The values that are handed over. -/
def values : CheckedWrite → List Value
  | set _ v | add _ v _ => [v]
  | setItems _ vs => vs

def program (S : Schema) : CheckedWrite → Write Unit
  | set n v => Write.set S n v
  | setItems n vs => Write.setItems S n vs
  | add n v index => Write.add S n v index

end CheckedWrite

/-- One step of a run. -/
inductive Operation
  | checked (w : CheckedWrite)
  | clear (n : Nat)
  | clearOneof (group : Nat)
  | clearEverything
  | merge (nesting : Nesting) (bs : List UInt8)

namespace Operation

/-- The message that a step leaves, refused or failed as it may be. -/
def after (S : Schema) (m : Message) : Operation → Message
  | checked w => ((w.program S).run m).2
  | clear n => m.clear n
  | clearOneof group => m.clearOneof S group
  | clearEverything => Message.empty m.type
  | merge nesting bs => (Protowire.merge S nesting m bs).message

/-- The messages that stand in the arguments of a step. -/
def arguments : Operation → List Message
  | checked w => w.values.flatMap Value.messages
  | _ => []

end Operation

/-- The messages that runs over the types of a schema lead to. -/
inductive Reachable (S : Schema) : Message → Prop
  | new {t : TypeId} (ht : t < S.types.size) : Reachable S (Message.empty t)
  | decoded {t : TypeId} {limits : Limits} {bs : List UInt8} {m : Message}
    (ht : t < S.types.size) (h : Message.decode S t limits bs = .ok m) : Reachable S m
  | fromPlain {t : TypeId} {v : Plain} {m : Message} (ht : t < S.types.size)
    (h : Message.ofPlain S t v = .ok m) : Reachable S m
  | step {m : Message} (hm : Reachable S m) (op : Operation)
    (harguments : ∀ x ∈ op.arguments, Reachable S x) : Reachable S (op.after S m)

variable {S : Schema} {m : Message}

/-! ### What one step keeps -/

theorem Value.Canonical.normalize {v : Value} (hv : v.Canonical S) (kind : Kind) :
    (kind.normalize v).Canonical S := by
  rw [Kind.normalize.eq_def]
  split
  · exact fun x hx => nomatch hx
  · exact hv

theorem Message.Canonical.clearOneof (hm : m.Canonical S) (group : Nat) :
    (m.clearOneof S group).Canonical S := by
  rw [Message.clearOneof]
  split
  · exact hm.clearAll _
  · exact hm

/-- Whatever a checked write does, it leaves a canonical message. -/
theorem CheckedWrite.writes_canonical (hS : S.WellFormed) (hm : m.Canonical S) (w : CheckedWrite)
    (hvalues : ∀ v ∈ w.values, v.Canonical S) :
    Write.Writes (w.program S) m (Message.Canonical S) := by
  cases w with
  | set n v =>
    have hv := hvalues v (List.mem_singleton.mpr rfl)
    refine (Write.writes_set S m n v).mono ?_
    rintro _ ⟨f, hf, hsingular, haccepts, rfl⟩
    exact hm.store hS hf hsingular haccepts (hv.normalize f.kind)
  | setItems n vs =>
    refine (Write.writes_setItems S m n vs).mono ?_
    rintro _ ⟨f, hf, hrepeated, haccepts, rfl⟩
    refine hm.putItems hS hf hrepeated (List.forall_mem_map.mpr fun v hv => ?_)
    exact ⟨haccepts v hv, (hvalues v hv).normalize f.kind⟩
  | add n v index =>
    have hv := hvalues v (List.mem_singleton.mpr rfl)
    refine (Write.writes_add S m n v index).mono ?_
    rintro _ ⟨f, hf, hrepeated, haccepts, rfl⟩
    exact hm.addItem hS hf hrepeated haccepts (hv.normalize f.kind)

theorem Operation.after_canonical (hS : S.WellFormed) (hm : m.Canonical S) (op : Operation)
    (harguments : ∀ x ∈ op.arguments, x.Canonical S) : (op.after S m).Canonical S := by
  cases op with
  | checked w =>
    refine (w.writes_canonical hS hm fun v hv x hx => ?_).left hm
    exact harguments x (List.mem_flatMap.mpr ⟨v, hv, hx⟩)
  | clear n => exact hm.clear n
  | clearOneof group => exact hm.clearOneof group
  | clearEverything => exact .empty hm.type_lt
  | merge nesting bs => exact hm.merge hS

/-! ### What a run keeps -/

/-- The induction is on the run, and with it on the runs that its arguments come from. -/
theorem Reachable.canonical (hS : S.WellFormed) (hm : Reachable S m) : m.Canonical S := by
  induction hm with
  | new ht => exact .empty ht
  | decoded ht h => exact .decode hS ht h
  | fromPlain ht h => exact (Message.ofPlain_canonical hS ht h).1
  -- the arguments are messages of other runs, for which the induction vouches as well
  | step _ op _ ihm iharguments => exact op.after_canonical hS ihm iharguments

/-- Every message on every run is canonical, and a write that is refused leaves the message as it
was. -/
theorem representation_invariant (hS : S.WellFormed) (hm : Reachable S m) :
    m.Canonical S ∧ ∀ (w : CheckedWrite) (e : FieldError),
      ((w.program S).run m).1 = .error e → ((w.program S).run m).2 = m := by
  refine ⟨hm.canonical hS, fun w e he => ?_⟩
  cases w with
  | set n v => exact (Write.writes_set S m n v).unchanged he
  | setItems n vs => exact (Write.writes_setItems S m n vs).unchanged he
  | add n v index => exact (Write.writes_add S m n v index).unchanged he

section

open Vision

/-- An operation whose metadata has taken in a body up to a fault. -/
def interruptedOperation : Message :=
  ⟨TypeName.operation.id, [(2, .message ⟨TypeName.any.id, [(1, .string "u")]⟩)]⟩

theorem reachable_interruptedOperation : Reachable schema interruptedOperation := by
  have hdecoded : Message.decode schema TypeName.operation.id Limits.default [18, 3, 10, 1, 116] =
      .ok ⟨TypeName.operation.id, [(2, .message ⟨TypeName.any.id, [(1, .string "t")]⟩)]⟩ := by
    cbv
  have hstep := (Reachable.decoded (id_lt_size .operation) hdecoded).step
    (.merge Limits.default.nesting [18, 4, 10, 1, 117, 24]) (List.forall_mem_nil _)
  have hafter : (Operation.merge Limits.default.nesting [18, 4, 10, 1, 117, 24]).after schema
      ⟨TypeName.operation.id, [(2, .message ⟨TypeName.any.id, [(1, .string "t")]⟩)]⟩ =
        interruptedOperation := by
    cbv
  rwa [hafter] at hstep

/-- The flag of the operation does not take a number. -/
theorem interrupted_operation_refuses :
    interruptedOperation.Canonical schema ∧
      ((Write.set schema 3 (.int32 1)).run interruptedOperation).2 = interruptedOperation := by
  obtain ⟨hcanonical, hrefused⟩ :=
    representation_invariant schema_wellFormed reachable_interruptedOperation
  refine ⟨hcanonical, hrefused (.set 3 (.int32 1))
    (.kindMismatch "google.longrunning.Operation" "done" "bool") ?_⟩
  rfl

end

end Protowire
