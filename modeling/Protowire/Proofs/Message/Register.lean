import Protowire.Proofs.Message.Encoded
import Protowire.Proofs.Message.Oneof
import Protowire.Proofs.Message.Reachable

/-!
What a message shows of a oneof group is what the group's register holds. The events of a step are
told from its arguments, those of a merge from the records that its bytes consist of by the wire
grammar (`Oneof.Move.Brings`). A new message shows an empty register, and each step of a run,
whatever it is, changes the members of the group as its events change the register
(`Oneof.Shows.move`); other fields have nothing to do with the members. So it holds on every run,
for what is read and for what is encoded.
-/

namespace Protowire

open Reader Wire

namespace Oneof

/-- One step of a run: those that `Operation` lists, and the writes that check nothing. -/
inductive Move
  | operation (op : Operation)
  | put (n : Nat) (v : Value)
  | putMessage (n : Nat) (x? : Option Message)
  | putItems (n : Nat) (vs : List Value)
  | addItem (n : Nat) (v : Value) (index : Option Nat)

namespace Move

variable (S : Schema) (group : Nat) (m : Message)

def after : Move → Message
  | operation op => op.after S m
  | put n v => m.put S n v
  | putMessage n x? => m.putMessage S n x?
  | putItems n vs => m.putItems S n vs
  | addItem n v index => m.addItem S n v index

/-- Field `n` is no member of the group. -/
def Outside (n : Nat) : Prop :=
  ∀ f, (S.type m.type).field? n = some f → f.joins group = false

/-- If field `n` is a member of the group, the value fits it. -/
def Suits (n : Nat) (v : Value) : Prop :=
  ∀ f, (S.type m.type).field? n = some f → f.joins group → f.kind.accepts S v

/-- Merging succeeds, and what is stored in a member unchecked would pass the checks. -/
def Legal : Move → Prop
  | operation (.merge nesting bs) => (merge S nesting m bs).error? = none
  | put n v => Suits S group m n v
  | putMessage n (some x) => Suits S group m n (.message x)
  | putItems n _ | addItem n _ _ => Outside S group m n
  | _ => True

/-- What setting a field by its number is for the group. -/
def stores (n : Nat) (value : Field → Value) : List Event :=
  match (S.type m.type).field? n with
  | some f => Event.ofStore group f (value f)
  | none => []

/-- What a checked write of a value is for the group: nothing, unless the field takes the value. -/
def sets (n : Nat) (v : Value) : List Event :=
  match (S.type m.type).field? n with
  | some f =>
    if !f.repeated && f.kind.accepts S (f.kind.normalize v) then
      Event.ofStore group f (f.kind.normalize v)
    else []
  | none => []

/-- These events are what a step is for the group. Those of a merge are the records that its bytes
consist of, in their order. -/
def Brings (events : List Event) : Move → Prop
  | operation (.checked (.set n v)) => events = sets S group m n v
  | operation (.checked _) => events = []
  | operation (.clear n) => events = [.clear n]
  | operation (.clearOneof i) => events = if i = group then [.clearAll] else []
  | operation .clearEverything => events = [.clearAll]
  | operation (.merge nesting bs) =>
    ∃ rs, Record.Forms (S.type m.type) nesting.room bs rs ∧
      events = rs.flatMap (Event.ofRecord group nesting)
  | put n v => events = stores S group m n fun _ => v
  | putMessage n (some x) => events = stores S group m n fun _ => .message x
  | putMessage n none => events = [.clear n]
  | putItems _ _ | addItem _ _ _ => events = []

end Move

/-- What runs from a new message lead to, with the events on the way. -/
inductive Run (S : Schema) (group : Nat) (t : TypeId) : List Event → Message → Prop
  | new : Run S group t [] (Message.empty t)
  | step {events later : List Event} {m : Message} (hrun : Run S group t events m) (move : Move)
    (hlegal : move.Legal S group m) (hbrings : move.Brings S group m later) :
    Run S group t (events ++ later) (move.after S m)

/-- The records of the member that is set. -/
def records (S : Schema) (T : MessageType) (active : Active) : List (Nat × List UInt8) :=
  (active.bind fun (n, v) => (T.field? n).map fun f => (n, encodeElement S f v)).toList

end Oneof

variable {S : Schema} {types room group n : Nat} {t : TypeId} {nesting : Nesting} {m m' : Message}
  {f : Field} {v : Value} {g : OneofGroup} {r : Record} {bs form : List UInt8}

namespace Oneof

variable {active : Active} {events : List Event}

/-! ### What a message shows -/

/-- The message shows what the register holds, and that is a value that fits. -/
structure Shows (S : Schema) (t : TypeId) (g : OneofGroup) (m : Message) (active : Active) :
    Prop where
  type : m.type = t
  ascending : FieldMap.Ascending m.fields
  shown : ∀ k ∈ g.members, m.get? k = held active k
  fits : ∀ n v, active = some (n, v) → n ∈ g.members ∧
    ∀ f, (S.type t).field? n = some f → f.kind.accepts S v

namespace Shows

theorem empty (S : Schema) (t : TypeId) (g : OneofGroup) : Shows S t g (.empty t) none :=
  ⟨rfl, List.Pairwise.nil, fun _ _ => rfl, fun _ _ h => nomatch h⟩

/-- A change that the members do not notice. -/
theorem frame (h : Shows S t g m active) (htype : m'.type = m.type)
    (hascending : FieldMap.Ascending m'.fields) (hget : ∀ k ∈ g.members, m'.get? k = m.get? k) :
    Shows S t g m' active :=
  ⟨htype.trans h.type, hascending, fun k hk => (hget k hk).trans (h.shown k hk), h.fits⟩

theorem clearAll (h : Shows S t g m active) {ns : List Nat} (hns : ∀ k ∈ g.members, k ∈ ns) :
    Shows S t g (m.clearAll ns) none := by
  refine ⟨h.type, h.ascending.eraseAll ns, fun k hk => ?_, fun _ _ hnone => nomatch hnone⟩
  rw [Message.get?_clearAll, if_pos (hns k hk)]
  rfl

theorem clear (h : Shows S t g m active) (n : Nat) :
    Shows S t g (m.clear n) (Event.apply S active (.clear n)) := by
  refine ⟨h.type, h.ascending.erase n, fun k hk => ?_, fun j v hj => ?_⟩
  · rw [Message.get?_clear, h.shown k hk, held_clear]
  · exact h.fits j v (Option.filter_eq_some_iff.mp hj).1

section

variable (hT : (S.type t).WellFormed types) (hg : (S.type t).oneof? group = some g)

include hT hg

theorem set (h : Shows S t g m active) (htype : m'.type = m.type)
    (hascending : FieldMap.Ascending m'.fields) (hf : (S.type t).field? n = some f)
    (hjoins : f.joins group) (haccepts : f.kind.accepts S v) (hset : m'.get? n = some v)
    (hunset : ∀ k ∈ g.members, k ≠ n → m'.get? k = none) : Shows S t g m' (some (n, v)) := by
  refine ⟨htype.trans h.type, hascending, fun k hk => ?_, ?_⟩
  · by_cases hkn : k = n
    · simp [hkn, hset, held]
    · simp [hunset k hk hkn, held, Ne.symm hkn]
  · rintro _ _ ⟨⟩
    refine ⟨(hT.mem_members_iff_joins hg hf).mpr hjoins, fun f' hf' => ?_⟩
    rw [hf] at hf'
    cases hf'
    exact haccepts

/-- Setting a field unsets its rivals, so it is an event for the group even if it is a default that
is set. -/
theorem store (h : Shows S t g m active) (hf : (S.type t).field? n = some f)
    (haccepts : f.joins group → f.kind.accepts S v) :
    Shows S t g (m.store S f v) ((Event.ofStore group f v).foldl (Event.apply S) active) := by
  have hnumber := MessageType.number_of_field? hf
  have htype := m.type_store S f v
  have hascending : FieldMap.Ascending (m.store S f v).fields :=
    Message.ascending_store h.ascending f v
  have hchanged := m.changed_store S f v
  rw [h.type] at hchanged
  have hrivals {k : Nat} (hk : k ∈ g.members) :
      k ∈ (S.type t).rivals f ↔ f.oneof = some group ∧ k ≠ n := by
    rw [hT.mem_rivals_iff_of_mem_members hg hk, hnumber]
  have hmember := hT.mem_members_iff_joins hg hf
  rw [Event.ofStore]
  split
  · rename_i hjoins
    have honeof := (Field.joins_iff.mp hjoins).2
    refine h.set hT hg htype hascending (hnumber ▸ hf) hjoins (haccepts hjoins) ?_
      fun k hk hkn => ?_
    · rw [hchanged, if_pos rfl]
      simp [Field.tracksPresence, honeof]
    · rw [hchanged, if_neg hkn, if_pos ((hrivals hk).mpr ⟨honeof, hnumber ▸ hkn⟩)]
  · rename_i hjoins
    have hne {k : Nat} (hk : k ∈ g.members) : k ≠ n := fun h => hjoins (hmember.mp (h ▸ hk))
    split
    · rename_i honeof
      refine ⟨htype.trans h.type, hascending, fun k hk => ?_, fun j w hnone => ?_⟩
      · rw [hchanged, hnumber, if_neg (hne hk), if_pos ((hrivals hk).mpr ⟨honeof, hne hk⟩)]
        rfl
      · cases hnone
    · rename_i honeof
      refine h.frame htype hascending fun k hk => ?_
      rw [hchanged, hnumber, if_neg (hne hk), if_neg fun hk' => honeof ((hrivals hk).mp hk').1]

theorem take (h : Shows S t g m active) (hf : (S.type t).field? n = some f)
    (hjoins : f.joins group) (haccepts : f.kind.accepts S v) :
    Shows S t g (m.take S f v) (some (f.number, v)) := by
  have hsingular := (Field.joins_iff.mp hjoins).1
  have hstored := h.store hT hg hf fun _ => haccepts
  rwa [Event.ofStore, if_pos hjoins, ← Message.take_of_singular hsingular] at hstored

/-- The message that a body for a member goes into is the one that the register holds. -/
theorem active_of_target (h : Shows S t g m active) (hf : (S.type t).field? n = some f)
    (hjoins : f.joins group) {y : Message} (htarget : m.target? f = some y) :
    active = some (f.number, .message y) := by
  obtain rfl := MessageType.number_of_field? hf
  obtain ⟨_, hy⟩ := Message.target?_eq_some_iff.mp htarget
  rwa [h.shown _ ((hT.mem_members_iff_joins hg hf).mpr hjoins), held_eq_some_iff] at hy

/-- A message that comes into a member replaces what the register holds, whether it has been made
from the message there or not. -/
theorem takeMessage (h : Shows S t g m active) (hf : (S.type t).field? n = some f)
    (hjoins : f.joins group) {x : Message} (haccepts : f.kind.accepts S (.message x)) :
    Shows S t g (m.takeMessage S f x) (some (f.number, .message x)) := by
  obtain rfl := MessageType.number_of_field? hf
  rw [Message.takeMessage]
  split
  · rename_i y htarget
    have hy := h.active_of_target hT hg hf hjoins htarget
    refine h.set hT hg rfl (h.ascending.insert _ _) hf hjoins haccepts ?_ fun k hk hkn => ?_
    · rw [Message.get?_insert, if_pos rfl]
    · rw [Message.get?_insert, if_neg hkn, h.shown k hk, hy]
      simp [held, Ne.symm hkn]
  · exact h.take hT hg hf hjoins haccepts

/-- What a body is merged into is of the type of its field, and stays so. -/
theorem accepts_merge (h : Shows S t g m active) (hf : (S.type t).field? n = some f)
    (hjoins : f.joins group) {u : TypeId} (hkind : f.kind = .message u) (nesting : Nesting)
    (bytes : List UInt8) :
    f.kind.accepts S
      (.message (merge S nesting ((m.target? f).getD (Message.empty u)) bytes).message) := by
  obtain rfl := MessageType.number_of_field? hf
  have hname : S.fullName ((m.target? f).getD (Message.empty u)).type = S.fullName u := by
    cases htarget : m.target? f with
    | none => rfl
    | some y =>
      have hy := h.active_of_target hT hg hf hjoins htarget
      have haccepts := (h.fits _ _ hy).2 f hf
      rwa [hkind, Kind.accepts, decide_eq_true_eq] at haccepts
  rw [hkind, Kind.accepts, type_merge, decide_eq_true_eq]
  exact hname

/-- A body for a member that goes through. -/
theorem body (h : Shows S t g m active) (hf : (S.type t).field? n = some f)
    (hjoins : f.joins group) {u : TypeId} (hkind : f.kind = .message u) {bytes : List UInt8}
    (hafter : m.after S nesting (.body f u bytes) = (m', none)) :
    Shows S t g m' (Event.apply S active (.body f.number u nesting.deeper bytes)) := by
  have htaken := h.takeMessage hT hg hf hjoins
    (h.accepts_merge hT hg hf hjoins hkind nesting.deeper bytes)
  obtain rfl := MessageType.number_of_field? hf
  have htarget : m.target? f = (held active f.number).bind Value.message? := by
    rw [Message.target?_of_singular (Field.joins_iff.mp hjoins).1, Message.message?,
      h.shown _ ((hT.mem_members_iff_joins hg hf).mpr hjoins)]
  simp only [Message.after] at hafter
  split at hafter <;> cases hafter
  rw [htarget] at htaken ⊢
  exact htaken

/-- One record that goes through. -/
theorem record (h : Shows S t g m active) (hform : Record.Form (S.type t) room form r)
    (hafter : m.after S nesting r = (m', none)) :
    Shows S t g m' ((Event.ofRecord group nesting r).foldl (Event.apply S) active) := by
  obtain ⟨n, _, hfield⟩ := hform.complete
  have htype : m'.type = m.type := Message.type_of_after hafter
  have hascending : FieldMap.Ascending (m.after S nesting r).1.fields :=
    Message.ascending_after h.ascending r
  have hlocal : LocalAt S (S.type t) n (fun m => m.after S nesting r) :=
    localAt_after hT hform hfield
  -- outside the group a record is no event, and what it changes is not in the group
  have houtside (hn : n ∉ g.members) : Shows S t g m' active := by
    refine h.frame htype (by rwa [hafter] at hascending) fun k hk => ?_
    have hget := hlocal.get?_of_apart (hT.apart_of_mem_members hg hn hk) (by rw [h.type])
    rwa [hafter] at hget
  have hmember {f : Field} (hf : (S.type t).field? n = some f) :=
    hT.mem_members_iff_joins hg hf
  cases hform with
  | unknown =>
    cases hafter
    exact h
  | packed _ _ hrepeated =>
    refine houtside fun hn => ?_
    have hsingular := (Field.joins_iff.mp ((hmember hfield.symm).mp hn)).1
    rw [hsingular] at hrepeated
    cases hrepeated
  | @value _ f s v _ _ _ hkind _ hvalue =>
    have hf := hfield.symm
    rw [Event.ofRecord]
    split
    · rename_i hjoins
      cases hafter
      exact h.take hT hg hf hjoins (by rw [hkind]; exact hvalue.accepts)
    · rename_i hjoins
      exact houtside fun hn => hjoins ((hmember hf).mp hn)
  | @body _ f u _ _ bytes _ hkind =>
    have hf := hfield.symm
    rw [Event.ofRecord]
    split
    · rename_i hjoins
      exact h.body hT hg hf hjoins hkind hafter
    · rename_i hjoins
      exact houtside fun hn => hjoins ((hmember hf).mp hn)

/-- The induction is on the records of the merge. -/
theorem merge {rs : List Record} (h : Shows S t g m active)
    (hrecords : Record.Forms (S.type t) nesting.room bs rs)
    (hok : (merge S nesting m bs).error? = none) :
    Shows S t g (merge S nesting m bs).message
      ((rs.flatMap (Event.ofRecord group nesting)).foldl (Event.apply S) active) := by
  induction hrecords generalizing m active with
  | nil =>
    rw [merge_nil]
    exact h
  | @cons form rest r rs hform _ ih =>
    obtain ⟨m', e?, hafter⟩ : ∃ m' e?, m.after S nesting r = (m', e?) := ⟨_, _, rfl⟩
    have hr : Record.read (S.type m.type) nesting (form ++ rest) = .ok r rest := by
      rw [h.type]
      exact hform.read rest
    rw [merge_record hr, hafter] at hok ⊢
    cases e? with
    | some e => cases hok
    | none =>
      rw [List.flatMap_cons, List.foldl_append]
      exact ih (h.record hT hg hform hafter) hok

end

/-! ### One step -/

section

variable (hT : (S.type t).WellFormed types) (hg : (S.type t).oneof? group = some g)

include hT hg

theorem put (h : Shows S t g m active) (hsuits : Move.Suits S group m n v) :
    Shows S t g (m.put S n v)
      ((Move.stores S group m n fun _ => v).foldl (Event.apply S) active) := by
  cases hf : (S.type m.type).field? n with
  | some f =>
    rw [Message.put, Move.stores, hf]
    exact h.store hT hg (h.type ▸ hf) (hsuits f hf)
  | none =>
    rw [Message.put, Move.stores, hf]
    exact h

/-- No member has the number of a field outside the group. -/
theorem ne_of_outside (h : Shows S t g m active) (houtside : Move.Outside S group m n) :
    ∀ k ∈ g.members, k ≠ n := by
  rintro k hk rfl
  obtain ⟨f, hf, hmember⟩ := hT.field?_of_mem_members hg hk
  rw [houtside f (h.type.symm ▸ hf)] at hmember
  cases hmember

theorem insert_outside (h : Shows S t g m active) (houtside : Move.Outside S group m n)
    (v : Value) : Shows S t g (m.insert n v) active := by
  refine h.frame rfl (h.ascending.insert _ _) fun k hk => ?_
  rw [Message.get?_insert, if_neg (h.ne_of_outside hT hg houtside k hk)]

theorem putItems (h : Shows S t g m active) (houtside : Move.Outside S group m n)
    (vs : List Value) : Shows S t g (m.putItems S n vs) active := by
  rw [Message.putItems]
  split
  · refine h.frame rfl (h.ascending.erase _) fun k hk => ?_
    rw [Message.get?_clear, if_neg (h.ne_of_outside hT hg houtside k hk)]
  · split
    · exact h.insert_outside hT hg houtside _
    · exact h

theorem addItem (h : Shows S t g m active) (houtside : Move.Outside S group m n) (v : Value)
    (index : Option Nat) : Shows S t g (m.addItem S n v index) active := by
  rw [Message.addItem]
  split
  · exact h.insert_outside hT hg houtside _
  · exact h

/-- A checked write of a value is an event if the field takes it; otherwise it is refused. -/
theorem checkedSet (h : Shows S t g m active) (n : Nat) (v : Value) :
    Shows S t g ((Write.set S n v).run m).2
      ((Move.sets S group m n v).foldl (Event.apply S) active) := by
  rw [Move.sets]
  obtain ⟨e, hrun⟩ | ⟨m', hrun, f, hf, hsingular, haccepts, rfl⟩ := Write.writes_set S m n v
  · rw [hrun]
    cases hf : (S.type m.type).field? n with
    | none => exact h
    | some f =>
      simp only [Write.refused_set hrun hf, Bool.false_eq_true, ↓reduceIte]
      exact h
  · simp only [hrun, hf, hsingular, haccepts, Bool.not_false, Bool.and_self, ↓reduceIte]
    exact h.store hT hg (h.type ▸ hf) fun _ => haccepts

/-- The other checked writes are for repeated fields, which are no members. -/
theorem checked (h : Shows S t g m active) (w : CheckedWrite)
    (hbrings : Move.Brings S group m events (.operation (.checked w))) :
    Shows S t g ((w.program S).run m).2 (events.foldl (Event.apply S) active) := by
  have houtside {n : Nat} {f : Field} (hf : (S.type m.type).field? n = some f)
      (hrepeated : f.repeated) : Move.Outside S group m n := by
    intro f' hf'
    rw [hf] at hf'
    cases hf'
    simp [Field.joins, hrepeated]
  cases w with
  | set n v =>
    cases hbrings
    exact h.checkedSet hT hg n v
  | setItems n vs =>
    cases hbrings
    have hwrites : Write.Writes (Write.setItems S n vs) m (Shows S t g · active) := by
      refine (Write.writes_setItems S m n vs).mono ?_
      rintro _ ⟨f, hf, hrepeated, _, rfl⟩
      exact h.putItems hT hg (houtside hf hrepeated) _
    exact hwrites.left h
  | add n v index =>
    cases hbrings
    have hwrites : Write.Writes (Write.add S n v index) m (Shows S t g · active) := by
      refine (Write.writes_add S m n v index).mono ?_
      rintro _ ⟨f, hf, hrepeated, _, rfl⟩
      exact h.addItem hT hg (houtside hf hrepeated) _ index
    exact hwrites.left h

theorem clearOneof (h : Shows S t g m active) (i : Nat) :
    Shows S t g (m.clearOneof S i)
      ((if i = group then [Event.clearAll] else []).foldl (Event.apply S) active) := by
  rw [Message.clearOneof, h.type]
  by_cases hi : i = group
  · rw [hi, hg, if_pos rfl]
    exact h.clearAll fun _ hk => hk
  · rw [if_neg hi]
    split
    · -- the members of another group are not members of this one
      rename_i g' hg'
      refine h.frame rfl (h.ascending.eraseAll _) fun k hk => ?_
      rw [Message.get?_clearAll, if_neg fun hk' => hi (hT.oneof_unique hg hg' hk hk')]
    · exact h

/-- Whatever the step is, the message goes on to show what the register holds. -/
theorem move (h : Shows S t g m active) (move : Move) (hlegal : move.Legal S group m)
    (hbrings : move.Brings S group m events) :
    Shows S t g (move.after S m) (events.foldl (Event.apply S) active) := by
  cases move with
  | operation op =>
    cases op with
    | checked w => exact h.checked hT hg w hbrings
    | clear n =>
      cases hbrings
      exact h.clear n
    | clearOneof i =>
      cases hbrings
      exact h.clearOneof hT hg i
    | clearEverything =>
      cases hbrings
      exact h.type ▸ empty S t g
    | merge nesting bs =>
      obtain ⟨rs, hrecords, rfl⟩ := hbrings
      exact h.merge hT hg (h.type ▸ hrecords) hlegal
  | put n v =>
    cases hbrings
    exact h.put hT hg hlegal
  | putMessage n x? =>
    cases x? with
    | some x =>
      cases hbrings
      exact h.put hT hg hlegal
    | none =>
      cases hbrings
      exact h.clear n
  | putItems n vs =>
    cases hbrings
    exact h.putItems hT hg hlegal vs
  | addItem n v index =>
    cases hbrings
    exact h.addItem hT hg hlegal v index

end

/-! ### What is read and written of the group -/

theorem whichOneof?_eq (h : Shows S t g m active) (hg : (S.type t).oneof? group = some g) :
    m.whichOneof? S group = active.map (·.1) := by
  rw [← h.type] at hg
  cases active with
  | none => exact Message.whichOneof?_eq_none hg fun k hk => h.shown k hk
  | some a =>
    obtain ⟨n, v⟩ := a
    have hn := (h.fits n v rfl).1
    refine Message.whichOneof?_eq_some hg hn ?_ fun k hk hset => ?_
    · simp [h.shown n hn, held]
    · obtain ⟨w, hw⟩ := Option.ne_none_iff_exists'.mp hset
      rw [h.shown k hk, held_eq_some_iff] at hw
      cases hw
      rfl

/-- Of the fields other than the one that the register names, none is a member. -/
theorem not_mem_members (h : Shows S t g m active) {p : Nat × Value} (hp : p ∈ m.fields)
    (hne : ∀ n v, active = some (n, v) → p.1 ≠ n) : p.1 ∉ g.members := by
  intro hk
  have hget : m.get? p.1 = some p.2 := h.ascending.get?_eq_some_iff.mpr hp
  rw [h.shown _ hk, held_eq_some_iff] at hget
  exact hne _ _ hget rfl

/-- The member that is set stands between fields outside the group. -/
theorem exists_fields (h : Shows S t g m (some (n, v))) :
    ∃ front back, m.fields = front ++ (n, v) :: back ∧ (∀ p ∈ front, p.1 ∉ g.members) ∧
      ∀ p ∈ back, p.1 ∉ g.members := by
  have hget : m.get? n = some v :=
    (h.shown n (h.fits n v rfl).1).trans (held_eq_some_iff.mpr rfl)
  obtain ⟨front, back, hfields⟩ := List.append_of_mem (FieldMap.mem_of_get? hget)
  have hascending := h.ascending
  rw [hfields, FieldMap.Ascending, List.pairwise_append, List.pairwise_cons] at hascending
  obtain ⟨_, ⟨hback, _⟩, hfront⟩ := hascending
  have houtside {p : Nat × Value} (hp : p ∈ m.fields) (hne : p.1 ≠ n) : p.1 ∉ g.members := by
    refine h.not_mem_members hp ?_
    rintro _ _ ⟨⟩
    exact hne
  refine ⟨front, back, hfields, fun p hp => ?_, fun p hp => ?_⟩
  · exact houtside (by simp [hfields, hp]) (Nat.ne_of_lt (hfront p hp _ List.mem_cons_self))
  · exact houtside (by simp [hfields, hp]) (Nat.ne_of_gt (hback p hp))

/-- The bytes of a message hold one record for the group, or none. -/
theorem encode (h : Shows S t g m active) (hT : (S.type t).WellFormed types)
    (hg : (S.type t).oneof? group = some g) (hlength : (m.encode S).length < 2 ^ 64) :
    ∃ rs, SplitsInto (m.encode S) rs ∧
      rs.filter (·.1 ∈ g.members) = records S (S.type t) active := by
  have hnone {rs : List (Nat × List UInt8)} (hrs : ∀ r ∈ rs, r.1 ∉ g.members) :
      rs.filter (·.1 ∈ g.members) = [] :=
    List.filter_eq_nil_iff.mpr fun r hr => by simpa using hrs r hr
  have houtside {fields : List (Nat × Value)} (hfields : ∀ p ∈ fields, p.1 ∉ g.members) :
      RecordsOf (· ∉ g.members) (encodeFields S (S.type t) fields) :=
    recordsOf_encodeFields hT S hfields
  rw [Message.encode_eq, h.type] at hlength ⊢
  cases active with
  | none =>
    have hfields := houtside fun p hp => h.not_mem_members hp fun _ _ hactive => nomatch hactive
    obtain ⟨rs, hsplit, hrs⟩ := hfields hlength
    exact ⟨rs, hsplit, hnone hrs⟩
  | some a =>
    obtain ⟨n, v⟩ := a
    obtain ⟨hn, hfits⟩ := h.fits n v rfl
    obtain ⟨f, hf, hjoins⟩ := hT.field?_of_mem_members hg hn
    obtain ⟨front, back, hfields, hfront, hback⟩ := h.exists_fields
    -- a member tracks presence, so it is written whatever it holds
    have htracks : f.tracksPresence := by
      simp [Field.tracksPresence, (Field.joins_iff.mp hjoins).2]
    have hown : encodeField S f v = encodeElement S f v :=
      encodeField_of_singular (hfits f hf) (by simp [htracks])
    rw [hfields, encodeFields_append, encodeFields, hf] at hlength ⊢
    simp only [hown, List.length_append] at hlength ⊢
    obtain ⟨rs, hsplit, hrs⟩ := houtside hfront (by omega)
    obtain ⟨rs', hsplit', hrs'⟩ := houtside hback (by omega)
    have hform : RecordForm 0 n (encodeElement S f v) :=
      recordForm_encodeElement hT hf (hfits f hf) (by omega)
    refine ⟨rs ++ (n, encodeElement S f v) :: rs', hsplit.append (hsplit'.cons hform), ?_⟩
    rw [List.filter_append, List.filter_cons, hnone hrs, hnone hrs', records]
    simp [hn, hf]

end Shows

theorem Run.shows (hT : (S.type t).WellFormed types) (hg : (S.type t).oneof? group = some g)
    (hrun : Run S group t events m) : Shows S t g m (register S events) := by
  induction hrun with
  | new => exact .empty S t g
  | step _ move hlegal hbrings ih =>
    rw [register_append]
    exact ih.move hT hg move hlegal hbrings

/-- Every legal step is something for the group, if only nothing at all. -/
theorem Move.Legal.brings {move : Move} (h : move.Legal S group m) :
    ∃ events, move.Brings S group m events := by
  cases move with
  | operation op =>
    cases op with
    | merge nesting bs =>
      obtain ⟨rs, hrecords⟩ := exists_forms h
      exact ⟨_, rs, hrecords, rfl⟩
    | checked w => cases w <;> exact ⟨_, rfl⟩
    | _ => exact ⟨_, rfl⟩
  | putMessage n x? => cases x? <;> exact ⟨_, rfl⟩
  | _ => exact ⟨_, rfl⟩

end Oneof

/-- Over a whole run, a oneof group is a register. It names the member that was set last, unless
that member, the group or all fields have been unset since; this member holds what was set last, or
what the bodies behind it have made of that, and the others are unset. Of the group just this member
is written, be it a default. And a run goes on with any step that is legal. -/
theorem oneof_is_register {events : List Oneof.Event} (hT : (S.type t).WellFormed types)
    (hg : (S.type t).oneof? group = some g) (hrun : Oneof.Run S group t events m) :
    m.whichOneof? S group = (Oneof.register S events).map (·.1) ∧
      (∀ n ∈ g.members, m.get? n = Oneof.held (Oneof.register S events) n) ∧
      (∀ n v, Oneof.register S events = some (n, v) ↔
        ∃ before e after, events = before ++ e :: after ∧ e.number? = some n ∧
          e.apply S (Oneof.register S before) = some (n, v) ∧
            ∀ later ∈ after, ∃ k, k ≠ n ∧ later = .clear k) ∧
      ((m.encode S).length < UInt64.size → ∃ rs, SplitsInto (m.encode S) rs ∧
        rs.filter (·.1 ∈ g.members) =
          Oneof.records S (S.type t) (Oneof.register S events)) ∧
      ∀ move : Oneof.Move, move.Legal S group m →
        ∃ later, Oneof.Run S group t (events ++ later) (move.after S m) := by
  have hshows := hrun.shows hT hg
  refine ⟨hshows.whichOneof?_eq hg, hshows.shown, fun n v => Oneof.register_eq_some_iff,
    hshows.encode hT hg, fun move hlegal => ?_⟩
  obtain ⟨later, hbrings⟩ := hlegal.brings
  exact ⟨later, hrun.step move hlegal hbrings⟩

section

open Vision

/-- A purge that first reads what to purge and is then told, with a default, not to delete orphans.
-/
def purgeEvents : List Oneof.Event :=
  [.body 2 TypeName.productSetPurgeConfig.id Limits.default.nesting.deeper [10, 1, 97],
    .set 3 (.bool false)]

def purged : Message := ⟨TypeName.purgeProductsRequest.id, [(3, .bool false)]⟩

theorem forms_purgeConfig :
    Record.Forms (schema.type TypeName.purgeProductsRequest.id) 100 [18, 3, 10, 1, 97]
      [.body (.choice 2 "product_set_purge_config" (.message TypeName.productSetPurgeConfig.id) 0)
        TypeName.productSetPurgeConfig.id [10, 1, 97]] := by
  have htag : TagForm [18] (2, .lengthDelimited) :=
    ⟨18, ⟨.last (by decide), by decide, by decide⟩, by decide, by decide, rfl⟩
  have hbytes : DelimitedForm [3, 10, 1, 97] [10, 1, 97] :=
    ⟨[3], ⟨.last (by decide), by decide, by decide⟩, rfl⟩
  exact .cons (.body (by cbv) rfl (by decide) htag hbytes) .nil

theorem run_purged : Oneof.Run schema 0 TypeName.purgeProductsRequest.id purgeEvents purged := by
  have hnew : Oneof.Run schema 0 TypeName.purgeProductsRequest.id []
      (Message.empty TypeName.purgeProductsRequest.id) := .new
  have hmerges : (merge schema Limits.default.nesting
      (Message.empty TypeName.purgeProductsRequest.id) [18, 3, 10, 1, 97]).error? = none := by
    cbv
  have hread := hnew.step (.operation (.merge Limits.default.nesting [18, 3, 10, 1, 97])) hmerges
    ⟨_, forms_purgeConfig, rfl⟩
  have hrun := hread.step (.operation (.checked (.set 3 (.bool false)))) trivial rfl
  convert hrun using 1
  · cbv
  · cbv

/-- The member that was set last is the target, although it holds a default, and the bytes have it.
-/
theorem purge_target_is_default : purged.whichOneof? schema 0 = some 3 ∧
    purged.get? 3 = some (.bool false) ∧ purged.get? 2 = none ∧
      ∃ rs, SplitsInto (purged.encode schema) rs ∧
        rs.filter (·.1 ∈ [2, 3]) = [(3, [24, 0])] := by
  have hgroup : (schema.type TypeName.purgeProductsRequest.id).oneof? 0 =
      some ⟨"target", [2, 3]⟩ := by
    cbv
  obtain ⟨hwhich, hheld, _, hencode, _⟩ :=
    oneof_is_register (schema_wellFormed.type _) hgroup run_purged
  have hregister : Oneof.register schema purgeEvents = some (3, .bool false) := by cbv
  have hrecords : Oneof.records schema (schema.type TypeName.purgeProductsRequest.id)
      (some (3, .bool false)) = [(3, [24, 0])] := by
    cbv
  have hlength : (purged.encode schema).length < UInt64.size := by cbv
  rw [hregister] at hwhich hheld hencode
  rw [hrecords] at hencode
  exact ⟨hwhich, hheld 3 (by decide), hheld 2 (by decide), hencode hlength⟩

end

end Protowire
