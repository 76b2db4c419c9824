import Mathlib
import Protowire.FieldMap

/-!
Maps with ascending numbers as functions of the number: one is known by what it holds under each
number. With `get?` of every operation at hand this is how two ways to the same map are compared.
-/

namespace Protowire.FieldMap

variable {α : Type}

/-- A map with all entries of another one put in place of its own. -/
def insertAll (m entries : FieldMap α) : FieldMap α :=
  entries.foldl (fun acc p => acc.insert p.1 p.2) m

/-- The entries with these numbers and no others. -/
def keep (m : FieldMap α) (kept : Nat → Bool) : FieldMap α := m.filter (kept ·.1)

theorem Ascending.nodup {m : FieldMap α} (h : m.Ascending) : m.Nodup := by
  refine List.Pairwise.imp (fun {p q} hlt => ?_) h
  rintro rfl
  exact Nat.lt_irrefl _ hlt

theorem Ascending.ext {m m' : FieldMap α} (h : m.Ascending) (h' : m'.Ascending)
    (hget : ∀ k, m.get? k = m'.get? k) : m = m' := by
  have hmem (p : Nat × α) : p ∈ m ↔ p ∈ m' := by
    rw [← h.get?_eq_some_iff, ← h'.get?_eq_some_iff, hget]
  have hperm : m.Perm m' := (List.perm_ext_iff_of_nodup h.nodup h'.nodup).mpr hmem
  refine hperm.eq_of_pairwise (fun p q _ _ hpq hqp => ?_) h h'
  exact absurd (Nat.lt_trans hpq hqp) (Nat.lt_irrefl _)

theorem Ascending.keep {m : FieldMap α} (h : m.Ascending) (kept : Nat → Bool) :
    (m.keep kept).Ascending :=
  List.Pairwise.sublist List.filter_sublist h

theorem get?_keep (m : FieldMap α) (kept : Nat → Bool) (k : Nat) :
    get? (m.keep kept) k = if kept k then get? m k else none := by
  induction m with
  | nil => simp [FieldMap.keep]
  | cons p m ih =>
    obtain ⟨j, b⟩ := p
    simp only [FieldMap.keep, List.filter_cons] at ih ⊢
    by_cases hkj : k = j
    · subst hkj
      by_cases hk : kept k
      · simp [hk, get?_cons]
      · simpa [hk] using ih
    · rw [get?_cons, if_neg hkj]
      split
      · rw [get?_cons, if_neg hkj, ih]
      · exact ih

theorem Ascending.insertAll {m : FieldMap α} (h : m.Ascending) (entries : FieldMap α) :
    (m.insertAll entries).Ascending := by
  induction entries generalizing m with
  | nil => exact h
  | cons p entries ih => exact ih (h.insert p.1 p.2)

/-- The numbers of the entries have to differ, since the last of several is put in place but the
first is the one that is found. -/
theorem get?_insertAll (m : FieldMap α) {entries : FieldMap α} (h : entries.Ascending) (k : Nat) :
    get? (m.insertAll entries) k = (get? entries k).or (get? m k) := by
  induction entries generalizing m with
  | nil => rfl
  | cons p entries ih =>
    obtain ⟨j, a⟩ := p
    obtain ⟨hj, hentries⟩ := List.pairwise_cons.mp h
    have hstep : FieldMap.insertAll m ((j, a) :: entries) = (m.insert j a).insertAll entries := rfl
    rw [hstep, ih _ hentries, get?_insert, get?_cons]
    split
    · rename_i hk
      have hnone : get? entries k = none :=
        get?_eq_none_iff.mpr fun q hq => hk ▸ Nat.ne_of_gt (hj q hq)
      rw [hnone]
      rfl
    · rfl

theorem eraseAll_comm (m : FieldMap α) (ns ks : List Nat) :
    eraseAll (eraseAll m ns) ks = eraseAll (eraseAll m ks) ns := by
  simp only [eraseAll, List.filter_filter, Bool.and_comm]

theorem Ascending.eraseAll_insert {m : FieldMap α} (h : m.Ascending) (ns : List Nat) (n : Nat)
    (a : α) :
    FieldMap.eraseAll (m.insert n a) ns =
      if n ∈ ns then m.eraseAll ns else (m.eraseAll ns).insert n a := by
  split
  · rename_i hn
    refine ((h.insert n a).eraseAll ns).ext (h.eraseAll ns) fun k => ?_
    simp only [get?_eraseAll, get?_insert]
    grind
  · rename_i hn
    refine ((h.insert n a).eraseAll ns).ext ((h.eraseAll ns).insert n a) fun k => ?_
    simp only [get?_eraseAll, get?_insert]
    grind

/-- What is smaller than all goes to the front. -/
theorem insert_of_forall_gt {m : FieldMap α} {n : Nat} (a : α) (h : ∀ p ∈ m, n < p.1) :
    insert m n a = (n, a) :: m := by
  cases m with
  | nil => rfl
  | cons p m => exact if_pos (h p List.mem_cons_self)

/-- What comes behind all entries is found there, and the others are found as before. -/
theorem get?_snoc {m : FieldMap α} {n : Nat} (h : ∀ p ∈ m, p.1 < n) (a : α) (k : Nat) :
    get? (m ++ [(n, a)]) k = if k = n then some a else get? m k := by
  rw [← insert_of_forall_lt a h, get?_insert]

end Protowire.FieldMap
