/-!
Values by field number, as a list of pairs in ascending order of numbers.
-/

namespace Protowire

abbrev FieldMap (α : Type) := List (Nat × α)

namespace FieldMap

variable {α : Type}

def get? (m : FieldMap α) (n : Nat) : Option α := m.lookup n

def contains (m : FieldMap α) (n : Nat) : Bool := (m.get? n).isSome

def erase (m : FieldMap α) (n : Nat) : FieldMap α := m.filter (·.1 ≠ n)

def eraseAll (m : FieldMap α) (ns : List Nat) : FieldMap α := m.filter (·.1 ∉ ns)

/-- Puts a value in its place, instead of the one that is there. -/
def insert : FieldMap α → Nat → α → FieldMap α
  | [], n, a => [(n, a)]
  | (k, b) :: rest, n, a =>
    if n < k then (n, a) :: (k, b) :: rest
    else if n = k then (n, a) :: rest
    else (k, b) :: insert rest n a

/-- Numbers ascend, so no number stands twice. -/
def Ascending (m : FieldMap α) : Prop := m.Pairwise (·.1 < ·.1)

@[simp] theorem get?_nil (n : Nat) : get? ([] : FieldMap α) n = none := rfl

theorem get?_cons (k n : Nat) (b : α) (m : FieldMap α) :
    get? ((k, b) :: m) n = if n = k then some b else get? m n := by
  simp only [get?, List.lookup_cons]
  by_cases h : n = k
  · simp [h]
  · simp [h, beq_false_of_ne h]

theorem get?_insert (m : FieldMap α) (n k : Nat) (a : α) :
    get? (insert m n a) k = if k = n then some a else get? m k := by
  induction m with
  | nil => simp [insert, get?_cons]
  | cons p m ih =>
    obtain ⟨j, b⟩ := p
    simp only [insert]
    split
    · simp only [get?_cons]
    · split
      · subst_vars
        simp only [get?_cons]
        split <;> rfl
      · simp only [get?_cons, ih]
        split
        · split
          · omega
          · rfl
        · rfl

theorem get?_eraseAll (m : FieldMap α) (ns : List Nat) (k : Nat) :
    get? (eraseAll m ns) k = if k ∈ ns then none else get? m k := by
  induction m with
  | nil => simp [eraseAll]
  | cons p m ih =>
    obtain ⟨j, b⟩ := p
    simp only [eraseAll, List.filter_cons] at ih ⊢
    by_cases hj : j ∈ ns
    · simp only [hj, not_true, decide_false, Bool.false_eq_true, ↓reduceIte, ih, get?_cons]
      split
      · rfl
      · split
        · subst_vars
          contradiction
        · rfl
    · simp only [hj, not_false_eq_true, decide_true, ↓reduceIte, get?_cons, ih]
      split
      · subst_vars
        simp [hj]
      · rfl

theorem erase_eq_eraseAll (m : FieldMap α) (n : Nat) : erase m n = eraseAll m [n] := by
  simp [erase, eraseAll]

theorem get?_erase (m : FieldMap α) (n k : Nat) :
    get? (erase m n) k = if k = n then none else get? m k := by
  simp [erase_eq_eraseAll, get?_eraseAll]

theorem Ascending.eraseAll {m : FieldMap α} (h : m.Ascending) (ns : List Nat) :
    (eraseAll m ns).Ascending :=
  List.Pairwise.sublist List.filter_sublist h

theorem Ascending.erase {m : FieldMap α} (h : m.Ascending) (n : Nat) : (erase m n).Ascending :=
  List.Pairwise.sublist List.filter_sublist h

/-- Inserting brings in nothing but what is inserted. -/
theorem mem_insert {m : FieldMap α} {n : Nat} {a : α} {q : Nat × α} (h : q ∈ insert m n a) :
    q = (n, a) ∨ q ∈ m := by
  induction m with
  | nil => exact Or.inl (List.mem_singleton.mp h)
  | cons p m ih =>
    simp only [insert] at h
    split at h
    · exact List.mem_cons.mp h
    · split at h
      · exact (List.mem_cons.mp h).imp_right (List.mem_cons_of_mem _)
      · rcases List.mem_cons.mp h with rfl | h
        · exact Or.inr List.mem_cons_self
        · exact (ih h).imp_right (List.mem_cons_of_mem _)

theorem Ascending.insert {m : FieldMap α} (h : m.Ascending) (n : Nat) (a : α) :
    (insert m n a).Ascending := by
  induction m with
  | nil => simp [FieldMap.insert, Ascending]
  | cons p m ih =>
    obtain ⟨hp, hm⟩ := List.pairwise_cons.mp h
    simp only [FieldMap.insert]
    split
    · rename_i hlt
      refine List.pairwise_cons.mpr ⟨fun q hq => ?_, h⟩
      rcases List.mem_cons.mp hq with rfl | hq
      · exact hlt
      · exact Nat.lt_trans hlt (hp q hq)
    · split
      · rename_i heq
        exact List.pairwise_cons.mpr ⟨heq ▸ hp, hm⟩
      · refine List.pairwise_cons.mpr ⟨fun q hq => ?_, ih hm⟩
        rcases mem_insert hq with rfl | hq
        · show p.1 < n
          omega
        · exact hp q hq

theorem get?_eq_none_iff {m : FieldMap α} {n : Nat} : get? m n = none ↔ ∀ p ∈ m, p.1 ≠ n := by
  induction m with
  | nil => simp
  | cons p m ih =>
    obtain ⟨k, b⟩ := p
    simp only [get?_cons, List.forall_mem_cons, ← ih]
    split <;> simp_all [eq_comm]

theorem mem_of_get? {m : FieldMap α} {n : Nat} {a : α} (h : get? m n = some a) : (n, a) ∈ m := by
  induction m with
  | nil => cases h
  | cons p m ih =>
    obtain ⟨k, b⟩ := p
    rw [get?_cons] at h
    split at h
    · rename_i hk
      cases h
      exact hk ▸ List.mem_cons_self
    · exact List.mem_cons_of_mem _ (ih h)

theorem Ascending.get?_eq_some_iff {m : FieldMap α} (h : m.Ascending) {n : Nat} {a : α} :
    get? m n = some a ↔ (n, a) ∈ m := by
  refine ⟨mem_of_get?, fun hmem => ?_⟩
  induction m with
  | nil => cases hmem
  | cons p m ih =>
    obtain ⟨k, b⟩ := p
    obtain ⟨hp, hm⟩ := List.pairwise_cons.mp h
    rw [get?_cons]
    rcases List.mem_cons.mp hmem with heq | hmem
    · cases heq
      exact if_pos rfl
    · have hlt : k < n := hp _ hmem
      rw [if_neg (by omega)]
      exact ih hm hmem

/-- What is larger than all goes to the end. -/
theorem insert_of_forall_lt {m : FieldMap α} {n : Nat} (a : α) (h : ∀ p ∈ m, p.1 < n) :
    insert m n a = m ++ [(n, a)] := by
  induction m with
  | nil => rfl
  | cons p m ih =>
    obtain ⟨k, b⟩ := p
    obtain ⟨hk, hm⟩ := List.forall_mem_cons.mp h
    simp only at hk
    rw [insert, if_neg (by omega), if_neg (by omega), ih hm, List.cons_append]

@[simp] theorem insert_insert (m : FieldMap α) (n : Nat) (a b : α) :
    insert (insert m n a) n b = insert m n b := by
  induction m with
  | nil => simp [insert]
  | cons p m ih =>
    obtain ⟨k, c⟩ := p
    simp only [insert]
    split
    · simp [insert]
    · split
      · simp [insert]
      · rename_i hlt hne
        simp [insert, hlt, hne, ih]

theorem eraseAll_of_get?_eq_none {m : FieldMap α} {ns : List Nat}
    (h : ∀ n ∈ ns, get? m n = none) : eraseAll m ns = m := by
  refine List.filter_eq_self.mpr fun p hp => ?_
  simp only [decide_eq_true_eq]
  intro hmem
  exact get?_eq_none_iff.mp (h _ hmem) p hp rfl

end FieldMap

end Protowire
