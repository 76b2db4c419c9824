import Protowire.Message.Checked
import Protowire.Proofs.Message.Canonical

/-!
What the checked writes do. Each is a row of checks with one write behind it, and a check never
touches the message, so a write is either refused with the message as it was or does all of what it
should with values that fit.
-/

namespace Protowire

namespace Write

variable {α β : Type} {S : Schema} {m : Message} {P : α → Prop} {Q : β → Prop}

/-- A check leaves the message as it is, and what passes it is as it should be. -/
structure Checks (w : Write α) (m : Message) (P : α → Prop) : Prop where
  unchanged : (w.run m).2 = m
  passed : ∀ a, (w.run m).1 = .ok a → P a

theorem run_bind (w : Write α) (f : α → Write β) (m : Message) :
    (w >>= f).run m =
      match w.run m with
      | (.ok a, m') => (f a).run m'
      | (.error e, m') => (.error e, m') := by
  rw [ExceptT.run_bind]
  show StateT.bind _ _ m = _
  rcases hw : w.run m with ⟨_ | _, _⟩ <;> simp [StateT.bind, hw] <;> rfl

theorem Checks.cases {w : Write α} (h : Checks w m P) :
    (∃ e, w.run m = (.error e, m)) ∨ ∃ a, P a ∧ w.run m = (.ok a, m) := by
  obtain ⟨hunchanged, hpassed⟩ := h
  rcases hw : w.run m with ⟨e | a, m'⟩
  · rw [hw] at hunchanged
    exact .inl ⟨e, by rw [← hunchanged]⟩
  · rw [hw] at hunchanged hpassed
    exact .inr ⟨a, hpassed a rfl, by rw [← hunchanged]⟩

theorem checks_pure {a : α} (h : P a) : Checks (pure a) m P :=
  ⟨rfl, fun _ hb => Except.ok.inj hb ▸ h⟩

theorem checks_throw (e : FieldError) : Checks (throw e) m P := ⟨rfl, fun _ h => nomatch h⟩

theorem checks_get : Checks get m (· = m) := ⟨rfl, fun _ h => (Except.ok.inj h).symm⟩

theorem Checks.bind {w : Write α} {f : α → Write β} (h : Checks w m P)
    (hf : ∀ a, P a → Checks (f a) m Q) : Checks (w >>= f) m Q := by
  rcases h.cases with ⟨e, hw⟩ | ⟨a, ha, hw⟩
  · refine ⟨?_, fun b hb => ?_⟩
    · rw [run_bind, hw]
    · rw [run_bind, hw] at hb
      cases hb
  · have hrun : (w >>= f).run m = (f a).run m := by rw [run_bind, hw]
    exact ⟨by rw [hrun]; exact (hf a ha).unchanged, by rw [hrun]; exact (hf a ha).passed⟩

/-- A write is refused and changes nothing, or it is done and leaves what it should. -/
def Writes (w : Write Unit) (m : Message) (R : Message → Prop) : Prop :=
  (∃ e, w.run m = (.error e, m)) ∨ ∃ m', w.run m = (.ok (), m') ∧ R m'

variable {R R' : Message → Prop}

theorem writes_modify {g : Message → Message} (h : R (g m)) : Writes (modify g) m R :=
  .inr ⟨g m, rfl, h⟩

theorem Checks.write {w : Write α} {f : α → Write Unit} (h : Checks w m P)
    (hf : ∀ a, P a → Writes (f a) m R) : Writes (w >>= f) m R := by
  rcases h.cases with ⟨e, hw⟩ | ⟨a, ha, hw⟩
  · exact .inl ⟨e, by rw [run_bind, hw]⟩
  · have hrun : (w >>= f).run m = (f a).run m := by rw [run_bind, hw]
    rw [Writes, hrun]
    exact hf a ha

theorem Writes.mono {w : Write Unit} (h : Writes w m R) (hR : ∀ m', R m' → R' m') :
    Writes w m R' := by
  rcases h with h | ⟨m', hw, hm'⟩
  · exact .inl h
  · exact .inr ⟨m', hw, hR m' hm'⟩

theorem Writes.unchanged {w : Write Unit} (h : Writes w m R) {e : FieldError}
    (he : (w.run m).1 = .error e) : (w.run m).2 = m := by
  rcases h with ⟨e', hw⟩ | ⟨m', hw, _⟩
  · rw [hw]
  · rw [hw] at he
    cases he

theorem Writes.left {w : Write Unit} (h : Writes w m R) (hm : R m) : R (w.run m).2 := by
  rcases h with ⟨e, hw⟩ | ⟨m', hw, hm'⟩
  · rw [hw]
    exact hm
  · rw [hw]
    exact hm'

/-! ### The checks -/

variable {n : Nat}

theorem checks_lookup (S : Schema) (m : Message) (n : Nat) :
    Checks (lookup S n) m (fun f => (S.type m.type).field? n = some f) := by
  refine checks_get.bind fun m' hm' => ?_
  rw [hm']
  split
  · exact checks_pure ‹_›
  · exact checks_throw _

theorem checks_singular (S : Schema) (m : Message) (n : Nat) :
    Checks (singular S n) m
      (fun f => (S.type m.type).field? n = some f ∧ f.repeated = false) := by
  refine (checks_lookup S m n).bind fun f hf => ?_
  split
  · exact checks_get.bind fun _ _ => checks_throw _
  · rename_i hsingular
    exact checks_pure ⟨hf, by simpa using hsingular⟩

theorem checks_repeated (S : Schema) (m : Message) (n : Nat) :
    Checks (repeated S n) m (fun f => (S.type m.type).field? n = some f ∧ f.repeated) := by
  refine (checks_lookup S m n).bind fun f hf => ?_
  split
  · exact checks_get.bind fun _ _ => checks_throw _
  · rename_i hrepeated
    exact checks_pure ⟨hf, by simpa using hrepeated⟩

theorem checks_fitted (S : Schema) (m : Message) (f : Field) (v : Value) :
    Checks (fitted S f v) m (fun w => w = f.kind.normalize v ∧ f.kind.accepts S w) := by
  simp only [fitted]
  split
  · exact checks_get.bind fun _ _ => checks_throw _
  · rename_i haccepts
    exact checks_pure ⟨rfl, by simpa using haccepts⟩

/-- The elements are checked one after the other; the first that does not fit is the error. -/
theorem checks_items (S : Schema) (m : Message) (f : Field) (vs : List Value) :
    Checks (vs.mapM (fitted S f)) m (fun ws => ws = vs.map f.kind.normalize ∧
      ∀ v ∈ vs, f.kind.accepts S (f.kind.normalize v)) := by
  induction vs with
  | nil => exact checks_pure ⟨rfl, List.forall_mem_nil _⟩
  | cons v vs ih =>
    rw [List.mapM_cons]
    refine (checks_fitted S m f v).bind fun w ⟨hw, haccepts⟩ => ?_
    refine ih.bind fun ws ⟨hws, hall⟩ => checks_pure ?_
    exact ⟨by rw [hw, hws, List.map_cons], List.forall_mem_cons.mpr ⟨hw ▸ haccepts, hall⟩⟩

/-! ### The writes -/

theorem writes_set (S : Schema) (m : Message) (n : Nat) (v : Value) :
    Writes (set S n v) m (fun m' => ∃ f, (S.type m.type).field? n = some f ∧
      f.repeated = false ∧ f.kind.accepts S (f.kind.normalize v) ∧
        m' = m.store S f (f.kind.normalize v)) := by
  refine (checks_singular S m n).write fun f ⟨hf, hsingular⟩ => ?_
  refine (checks_fitted S m f v).write fun w ⟨hw, haccepts⟩ => writes_modify ?_
  exact ⟨f, hf, hsingular, hw ▸ haccepts, by rw [hw]⟩

/-- A value that fits a singular field is set. -/
theorem run_set {f : Field} {v : Value} (hf : (S.type m.type).field? n = some f)
    (hsingular : f.repeated = false) (haccepts : f.kind.accepts S (f.kind.normalize v)) :
    (set S n v).run m = (.ok (), m.store S f (f.kind.normalize v)) := by
  have hlookup : (lookup S n).run m = (.ok f, m) := by
    rw [lookup, run_bind]
    simp only [show (get : Write Message).run m = (.ok m, m) from rfl, hf]
    rfl
  have hchecked : (singular S n).run m = (.ok f, m) := by
    rw [singular, run_bind, hlookup]
    simp only [hsingular]
    rfl
  have hfitted : (fitted S f v).run m = (.ok (f.kind.normalize v), m) := by
    simp only [fitted, haccepts]
    rfl
  rw [set, run_bind, hchecked]
  simp only [run_bind, hfitted]
  rfl

/-- What is refused does not fit the field, or the field is repeated. -/
theorem refused_set {f : Field} {v : Value} {e : FieldError}
    (h : (set S n v).run m = (.error e, m)) (hf : (S.type m.type).field? n = some f) :
    (!f.repeated && f.kind.accepts S (f.kind.normalize v)) = false := by
  by_contra htakes
  simp only [Bool.not_eq_false, Bool.and_eq_true, Bool.not_eq_true'] at htakes
  rw [run_set hf htakes.1 htakes.2] at h
  cases h

theorem writes_setItems (S : Schema) (m : Message) (n : Nat) (vs : List Value) :
    Writes (setItems S n vs) m (fun m' => ∃ f, (S.type m.type).field? n = some f ∧ f.repeated ∧
      (∀ v ∈ vs, f.kind.accepts S (f.kind.normalize v)) ∧
        m' = m.putItems S n (vs.map f.kind.normalize)) := by
  refine (checks_repeated S m n).write fun f ⟨hf, hrepeated⟩ => ?_
  refine (checks_items S m f vs).write fun ws ⟨hws, haccepts⟩ => writes_modify ?_
  exact ⟨f, hf, hrepeated, haccepts, by rw [hws]⟩

theorem writes_add (S : Schema) (m : Message) (n : Nat) (v : Value) (index : Option Nat) :
    Writes (add S n v index) m (fun m' => ∃ f, (S.type m.type).field? n = some f ∧ f.repeated ∧
      f.kind.accepts S (f.kind.normalize v) ∧
        m' = m.addItem S n (f.kind.normalize v) index) := by
  refine (checks_repeated S m n).write fun f ⟨hf, hrepeated⟩ => ?_
  refine (checks_fitted S m f v).write fun w ⟨hw, haccepts⟩ => writes_modify ?_
  exact ⟨f, hf, hrepeated, hw ▸ haccepts, by rw [hw]⟩

end Write

end Protowire
