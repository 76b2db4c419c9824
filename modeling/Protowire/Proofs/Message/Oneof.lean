import Protowire.Proofs.Message.Local

/-!
A oneof group as a register. Whatever happens to a message, only a few events concern the group: a
member is set, a body arrives for a member, a member or the whole group is unset. The register is
what these events make of an empty one: the last write wins, except that a body for the message that
is there goes into it, and unsetting leaves it alone only if it is some other member that is unset
(`Oneof.register_eq_some_iff`).
-/

namespace Protowire

/-- Whether the field is a member of the oneof group at this position. -/
def Field.joins (f : Field) (group : Nat) : Bool := !f.repeated && f.oneof = some group

theorem Field.joins_iff {f : Field} {group : Nat} :
    f.joins group ↔ f.repeated = false ∧ f.oneof = some group := by
  simp [joins]

namespace Oneof

/-- The member that is set, with its value. -/
abbrev Active := Option (Nat × Value)

/-- What the register shows in the field of a member. -/
def held (active : Active) (n : Nat) : Option Value :=
  active.bind fun (k, v) => if k = n then some v else none

/-- What can happen to a oneof group. -/
inductive Event
  | set (n : Nat) (v : Value)
  /-- A body for the message in field `n`, whose type is `t`. -/
  | body (n : Nat) (t : TypeId) (nesting : Nesting) (bytes : List UInt8)
  | clear (n : Nat)
  | clearAll

namespace Event

/-- The member that an event sets. -/
def number? : Event → Option Nat
  | set n _ | body n _ _ _ => some n
  | clear _ | clearAll => none

def apply (S : Schema) (active : Active) : Event → Active
  | set n v => some (n, v)
  | body n t nesting bytes =>
    let x := ((held active n).bind Value.message?).getD (Message.empty t)
    some (n, .message (merge S nesting x bytes).message)
  | clear n => active.filter (·.1 ≠ n)
  | clearAll => none

/-- What a record of a merge is for the group. -/
def ofRecord (group : Nat) (nesting : Nesting) : Record → List Event
  | .value f v => if f.joins group then [set f.number v] else []
  | .body f t bytes => if f.joins group then [body f.number t nesting.deeper bytes] else []
  | _ => []

/-- What setting a field is for the group. A repeated field is no member, but should it name the
group, then setting it unsets the members. -/
def ofStore (group : Nat) (f : Field) (v : Value) : List Event :=
  if f.joins group then [set f.number v]
  else if f.oneof = some group then [clearAll]
  else []

end Event

/-- What a new register holds after some events. -/
def register (S : Schema) (events : List Event) : Active := events.foldl (Event.apply S) none

end Oneof

variable {S : Schema} {T : MessageType} {types group n k : Nat} {f : Field} {v : Value}
  {g : OneofGroup}

/-! ### The members of a group -/

namespace MessageType.WellFormed

theorem mem_members_iff_joins (hT : T.WellFormed types) (hg : T.oneof? group = some g)
    (hf : T.field? n = some f) : n ∈ g.members ↔ f.joins group := by
  rw [hT.mem_members_iff hf hg, Field.joins_iff]

theorem field?_of_mem_members (hT : T.WellFormed types) (hg : T.oneof? group = some g)
    (hn : n ∈ g.members) : ∃ f, T.field? n = some f ∧ f.joins group := by
  obtain ⟨f, hf, rfl, _⟩ := (hT.members group g hg n).mp hn
  have hfield := hT.field?_number hf
  exact ⟨f, hfield, (hT.mem_members_iff_joins hg hfield).mp hn⟩

/-- No other group has a member in common with this one. -/
theorem oneof_unique (hT : T.WellFormed types) {i j : Nat} {g' : OneofGroup}
    (hg : T.oneof? i = some g) (hg' : T.oneof? j = some g') (hn : n ∈ g.members)
    (hn' : n ∈ g'.members) : j = i := by
  obtain ⟨f, hf, hjoins⟩ := hT.field?_of_mem_members hg hn
  have hjoins' := (hT.mem_members_iff_joins hg' hf).mp hn'
  rw [Field.joins_iff] at hjoins hjoins'
  exact Option.some.inj (hjoins'.2.symm.trans hjoins.2)

/-- The fields outside a group have nothing to do with its members. -/
theorem apart_of_mem_members (hT : T.WellFormed types) (hg : T.oneof? group = some g)
    (hn : n ∉ g.members) (hk : k ∈ g.members) : T.Apart n k := by
  refine ⟨fun h => hn (h ▸ hk), ?_⟩
  by_contra hexcludes
  obtain ⟨_, g', hg', hn', hk'⟩ := MessageType.excludes_iff.mp (by simpa using hexcludes)
  obtain ⟨j, hj⟩ := List.mem_iff_getElem?.mp hg'
  obtain rfl := hT.oneof_unique hg hj hk hk'
  obtain rfl : g = g' := Option.some.inj (hg.symm.trans hj)
  exact hn hn'

/-- Setting a field unsets the members of the group that it names, apart from itself. -/
theorem mem_rivals_iff_of_mem_members (hT : T.WellFormed types) (hg : T.oneof? group = some g)
    (hk : k ∈ g.members) : k ∈ T.rivals f ↔ f.oneof = some group ∧ k ≠ f.number := by
  unfold MessageType.rivals
  constructor
  · intro h
    split at h
    · rename_i g' hg'
      obtain ⟨j, hj, hg'⟩ := Option.bind_eq_some_iff.mp hg'
      simp only [List.mem_filter, decide_eq_true_eq] at h
      exact ⟨hT.oneof_unique hg hg' hk h.1 ▸ hj, h.2⟩
    · cases h
  · rintro ⟨honeof, hne⟩
    have hg' : f.oneof.bind T.oneof? = some g := by rw [honeof]; exact hg
    simp only [hg', List.mem_filter, decide_eq_true_eq]
    exact ⟨hk, hne⟩

end MessageType.WellFormed

namespace Oneof

variable {active : Active} {events : List Event}

/-! ### The register -/

@[simp] theorem register_nil (S : Schema) : register S [] = none := rfl

theorem register_append (S : Schema) (events events' : List Event) :
    register S (events ++ events') = events'.foldl (Event.apply S) (register S events) :=
  List.foldl_append

theorem held_eq_some_iff : held active n = some v ↔ active = some (n, v) := by
  cases active with
  | none => simp [held]
  | some a =>
    obtain ⟨k, w⟩ := a
    simp only [held, Option.bind_some]
    split <;> simp_all

theorem held_clear (S : Schema) (active : Active) (n k : Nat) :
    held (Event.apply S active (.clear n)) k = if k = n then none else held active k := by
  cases active with
  | none => simp [held, Event.apply]
  | some a =>
    simp only [Event.apply, Option.filter_some, held]
    grind

/-- Unsetting other members leaves the register as it is. -/
theorem foldl_clear (S : Schema) (h : ∀ e ∈ events, ∃ k, k ≠ n ∧ e = .clear k) :
    events.foldl (Event.apply S) (some (n, v)) = some (n, v) := by
  induction events with
  | nil => rfl
  | cons e events ih =>
    obtain ⟨⟨k, hne, rfl⟩, hevents⟩ := List.forall_mem_cons.mp h
    have happly : Event.apply S (some (n, v)) (.clear k) = some (n, v) := by
      simp [Event.apply, hne.symm]
    rw [List.foldl_cons, happly, ih hevents]

/-- The register holds what the last event that set a member has left, if all that came after it
unset other members. -/
theorem register_eq_some_iff : register S events = some (n, v) ↔
    ∃ before e after, events = before ++ e :: after ∧ e.number? = some n ∧
      e.apply S (register S before) = some (n, v) ∧
        ∀ later ∈ after, ∃ k, k ≠ n ∧ later = .clear k := by
  constructor
  · induction events using List.reverseRecOn with
    | nil => simp
    | append_singleton events e ih =>
      rw [register_append]
      intro h
      cases e with
      | set k w =>
        have hk : k = n := congrArg Prod.fst (Option.some.inj h)
        exact ⟨events, .set k w, [], rfl, congrArg some hk, h, by simp⟩
      | body k t nesting bytes =>
        have hk : k = n := congrArg Prod.fst (Option.some.inj h)
        exact ⟨events, .body k t nesting bytes, [], rfl, congrArg some hk, h, by simp⟩
      | clear k =>
        obtain ⟨hheld, hne⟩ := Option.filter_eq_some_iff.mp h
        obtain ⟨before, e, after, rfl, hnumber, happly, hafter⟩ := ih hheld
        refine ⟨before, e, after ++ [.clear k], by simp, hnumber, happly, ?_⟩
        have hne : n ≠ k := by simpa using hne
        exact List.forall_mem_append.mpr ⟨hafter, by simpa using hne.symm⟩
      | clearAll => cases h
  · rintro ⟨before, e, after, rfl, _, happly, hafter⟩
    rw [register_append, List.foldl_cons, happly, foldl_clear S hafter]

end Oneof

end Protowire
