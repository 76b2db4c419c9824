import Protowire.Proofs.Schema
import Protowire.Registry

/-!
What ends up in a registry. Registration is a recursion: a type is registered, and if its name is
new, the types of its fields follow before the next one (`Registry.Descent`). So a registry is what
is left of the types that have been visited (`Registry.exists_descent`): under a name it has the one
that was visited last, whereas the first one is the one whose fields have been followed
(`Descent.followed`). Where a name stands for one type only, these are the same, and the types of
its fields have been visited too.
-/

namespace Protowire

namespace Schema

/-- Type `t` has a message field of type `u`. -/
def Refers (S : Schema) (t u : TypeId) : Prop := u ∈ (S.type t).references

instance (S : Schema) (t u : TypeId) : Decidable (S.Refers t u) :=
  inferInstanceAs (Decidable (u ∈ (S.type t).references))

/-- One of the types, or one that is reached from them through message fields. -/
def Reached (S : Schema) (ts : List TypeId) (u : TypeId) : Prop :=
  ∃ t ∈ ts, Relation.ReflTransGen S.Refers t u

/-- Of the types that are reached, no other one has the name of `t`. -/
def Sole (S : Schema) (ts : List TypeId) (t : TypeId) : Prop :=
  ∀ u, S.Reached ts u → S.fullName u = S.fullName t → u = t

variable {S : Schema} {ts : List TypeId} {t u : TypeId}

theorem Reached.of_mem (h : t ∈ ts) : S.Reached ts t := ⟨t, h, .refl⟩

theorem Reached.of_references (h : S.Reached (S.type t).references u) (ht : t ∈ ts) :
    S.Reached ts u := by
  obtain ⟨v, hv, hreach⟩ := h
  exact ⟨t, ht, .head hv hreach⟩

theorem Reached.mono {us : List TypeId} (h : S.Reached ts u) (hsub : ts ⊆ us) : S.Reached us u := by
  obtain ⟨t, ht, hreach⟩ := h
  exact ⟨t, hsub ht, hreach⟩

theorem WellFormed.lt_of_refers (hS : S.WellFormed) (h : S.Refers t u) : u < S.types.size := by
  obtain ⟨f, hf, hkind⟩ := List.mem_filterMap.mp h
  cases hfk : f.kind with
  | scalar s => simp [hfk] at hkind
  | message v =>
    simp only [hfk, Option.some.injEq] at hkind
    exact hkind ▸ (hS.type t).references f hf v hfk

theorem WellFormed.lt_of_reached (hS : S.WellFormed) (hts : ∀ t ∈ ts, t < S.types.size)
    (h : S.Reached ts u) : u < S.types.size := by
  obtain ⟨t, ht, hreach⟩ := h
  cases hreach with
  | refl => exact hts _ ht
  | tail _ hlast => exact hS.lt_of_refers hlast

/-- In a well-formed schema each type is the only one of its name. -/
theorem WellFormed.sole (hS : S.WellFormed) (hts : ∀ t ∈ ts, t < S.types.size)
    (ht : S.Reached ts t) : S.Sole ts t := fun _ hu hname =>
  hS.eq_of_fullName_eq (hS.lt_of_reached hts hu) (hS.lt_of_reached hts ht) hname

end Schema

namespace Registry

/-- Registers types one after the other, without those that they refer to. -/
def putAll (S : Schema) (r : Registry) (ts : List TypeId) : Registry := ts.foldl (put S) r

/-- Registering types and, behind each one whose name is new, the types of its fields, with all
types that are visited on the way. -/
inductive Descent (S : Schema) : Registry → (pending visited : List TypeId) → Prop
  | nil {r : Registry} : Descent S r [] []
  | known {r : Registry} {t : TypeId} {rest outer : List TypeId}
    (hknown : r.contains (S.fullName t)) (tail : Descent S (r.put S t) rest outer) :
    Descent S r (t :: rest) (t :: outer)
  | fresh {r : Registry} {t : TypeId} {rest inner outer : List TypeId}
    (hnew : r.contains (S.fullName t) = false)
    (inside : Descent S (r.put S t) (S.type t).references inner)
    (tail : Descent S ((r.put S t).putAll S inner) rest outer) :
    Descent S r (t :: rest) (t :: (inner ++ outer))

variable {S : Schema} {r : Registry} {t u : TypeId} {name : String}
  {ts us pending visited inner outer : List TypeId}

/-! ### Registering types one after the other -/

theorem find?_put (S : Schema) (r : Registry) (t : TypeId) (name : String) :
    (r.put S t).find? name = if name = S.fullName t then some t else r.find? name := by
  by_cases h : name = S.fullName t
  · simp [find?, put, h]
  · simp [find?, put, h, List.lookup_cons, beq_false_of_ne h, lookup_filter_ne h]

@[simp] theorem putAll_nil (S : Schema) (r : Registry) : r.putAll S [] = r := rfl

@[simp] theorem putAll_cons (S : Schema) (r : Registry) (t : TypeId) (ts : List TypeId) :
    r.putAll S (t :: ts) = (r.put S t).putAll S ts := rfl

theorem putAll_append (S : Schema) (r : Registry) (ts us : List TypeId) :
    r.putAll S (ts ++ us) = (r.putAll S ts).putAll S us := List.foldl_append

/-- The last one of a name is found under it. -/
theorem find?_putAll (S : Schema) (r : Registry) (ts : List TypeId) (name : String) :
    (r.putAll S ts).find? name =
      (ts.reverse.find? (S.fullName · = name)).or (r.find? name) := by
  induction ts generalizing r with
  | nil => rfl
  | cons t ts ih =>
    rw [putAll_cons, ih, find?_put, List.reverse_cons, List.find?_append, Option.or_assoc]
    congr 1
    by_cases h : S.fullName t = name
    · simp [h]
    · simp [h, Ne.symm h]

theorem contains_putAll : (r.putAll S ts).contains name ↔
    r.contains name ∨ ∃ t ∈ ts, S.fullName t = name := by
  rw [contains, find?_putAll, Option.isSome_or, Bool.or_eq_true, List.find?_isSome, or_comm]
  simp [contains]

theorem mem_of_find?_putAll (h : (Registry.empty.putAll S ts).find? name = some t) :
    t ∈ ts ∧ S.fullName t = name := by
  have hfind : ts.reverse.find? (S.fullName · = name) = some t := by
    rwa [find?_putAll, show Registry.empty.find? name = none from rfl, Option.or_none] at h
  exact ⟨List.mem_reverse.mp (List.mem_of_find?_eq_some hfind),
    by simpa using List.find?_some hfind⟩

/-! ### The recursion -/

namespace Descent

theorem append (h : Descent S r ts inner) (h' : Descent S (r.putAll S inner) us outer) :
    Descent S r (ts ++ us) (inner ++ outer) := by
  induction h with
  | nil => exact h'
  | known hknown _ ih => exact .known hknown (ih h')
  | @fresh r t rest inside outside hnew hinside _ _ ih =>
    rw [List.cons_append, List.cons_append, List.append_assoc]
    rw [putAll_cons, putAll_append] at h'
    exact .fresh hnew hinside (ih h')

/-- The types that are pending are visited in two parts, and so is what they lead to. -/
theorem split (h : Descent S r (ts ++ us) visited) : ∃ inner outer, visited = inner ++ outer ∧
    Descent S r ts inner ∧ Descent S (r.putAll S inner) us outer := by
  induction ts generalizing r visited with
  | nil => exact ⟨[], visited, rfl, .nil, h⟩
  | cons t ts ih =>
    cases h with
    | known hknown tail =>
      obtain ⟨inner, outer, rfl, hinner, houter⟩ := ih tail
      exact ⟨t :: inner, outer, rfl, .known hknown hinner, houter⟩
    | @fresh _ _ _ inside _ hnew hinside tail =>
      obtain ⟨inner, outer, rfl, hinner, houter⟩ := ih tail
      refine ⟨t :: (inside ++ inner), outer, by simp, .fresh hnew hinside hinner, ?_⟩
      rwa [putAll_cons, putAll_append]

theorem subset (h : Descent S r pending visited) : pending ⊆ visited := by
  induction h with
  | nil => exact List.Subset.refl _
  | known _ _ ih => exact List.cons_subset_cons _ ih
  | fresh _ _ _ _ ih => exact List.cons_subset_cons _ (List.subset_append_of_subset_right _ ih)

theorem reached (h : Descent S r pending visited) (hu : u ∈ visited) : S.Reached pending u := by
  induction h with
  | nil => cases hu
  | known _ _ ih =>
    rcases List.mem_cons.mp hu with rfl | hu
    · exact .of_mem List.mem_cons_self
    · exact (ih hu).mono (List.subset_cons_self _ _)
  | fresh _ _ _ ihinside ihtail =>
    rcases List.mem_cons.mp hu with rfl | hu
    · exact .of_mem List.mem_cons_self
    · rcases List.mem_append.mp hu with hu | hu
      · exact (ihinside hu).of_references List.mem_cons_self
      · exact (ihtail hu).mono (List.subset_cons_self _ _)

/-- Of the types that are visited under a new name, the first one has its fields followed. -/
theorem followed (h : Descent S r pending visited) (hnew : r.contains name = false)
    (hfirst : visited.find? (S.fullName · = name) = some u) :
    (S.type u).references ⊆ visited := by
  induction h with
  | nil => cases hfirst
  | @known r t rest outer hknown _ ih =>
    -- the name of this type is not new, so the first of the new name comes later
    have hne : name ≠ S.fullName t := by
      rintro rfl
      simp [hnew] at hknown
    rw [List.find?_cons_of_neg (by simpa using hne.symm)] at hfirst
    refine List.subset_cons_of_subset _ (ih ?_ hfirst)
    rw [contains_put, hnew, Bool.or_false, decide_eq_false hne]
  | @fresh r t rest inner outer _ hinside _ ihinside ihtail =>
    by_cases hname : S.fullName t = name
    · rw [List.find?_cons_of_pos (by simpa using hname), Option.some.injEq] at hfirst
      subst hfirst
      exact List.subset_cons_of_subset _ (List.subset_append_of_subset_left _ hinside.subset)
    · rw [List.find?_cons_of_neg (by simpa using hname), List.find?_append] at hfirst
      have hnew' : (r.put S t).contains name = false := by
        rw [contains_put, hnew, Bool.or_false, decide_eq_false (Ne.symm hname)]
      refine List.subset_cons_of_subset _ ?_
      cases hinner : inner.find? (S.fullName · = name) with
      | some v =>
        rw [hinner, Option.some_or, Option.some.injEq] at hfirst
        subst hfirst
        exact List.subset_append_of_subset_left _ (ihinside hnew' hinner)
      | none =>
        rw [hinner, Option.none_or] at hfirst
        refine List.subset_append_of_subset_right _ (ihtail ?_ hfirst)
        rw [← Bool.not_eq_true, contains_putAll, hnew']
        simpa using List.find?_eq_none.mp hinner

end Descent

/-- The recursion comes to an end, and what has been visited then makes the registry. -/
theorem exists_descent_addAll (S : Schema) (r : Registry) (pending : List TypeId) :
    ∃ visited, Descent S r pending visited ∧ addAll S r pending = r.putAll S visited := by
  fun_induction addAll S r pending with
  | case1 r => exact ⟨[], .nil, rfl⟩
  | case2 r t pending hknown ih =>
    obtain ⟨visited, hvisited, heq⟩ := ih
    exact ⟨t :: visited, .known hknown hvisited, heq⟩
  | case3 r t pending hnew ih =>
    obtain ⟨visited, hvisited, heq⟩ := ih
    obtain ⟨inner, outer, rfl, hinner, houter⟩ := hvisited.split
    exact ⟨t :: (inner ++ outer), .fresh (by simpa using hnew) hinner houter, heq⟩

theorem exists_descent (S : Schema) (r : Registry) (ts : List TypeId) :
    ∃ visited, Descent S r ts visited ∧ ts.foldl (add S) r = r.putAll S visited := by
  induction ts generalizing r with
  | nil => exact ⟨[], .nil, rfl⟩
  | cons t ts ih =>
    obtain ⟨inner, hinner, hadd⟩ := exists_descent_addAll S r [t]
    obtain ⟨outer, houter, heq⟩ := ih (r.putAll S inner)
    refine ⟨inner ++ outer, hinner.append houter, ?_⟩
    rw [List.foldl_cons, add, hadd, heq, putAll_append]

/-! ### Types that are alone in their names -/

section

variable (h : Descent S .empty ts visited) (hu : u ∈ visited) (hsole : S.Sole ts u)

include h hu hsole

theorem Descent.references_subset : (S.type u).references ⊆ visited := by
  obtain ⟨v, hv⟩ : ∃ v, visited.find? (S.fullName · = S.fullName u) = some v :=
    Option.isSome_iff_exists.mp (List.find?_isSome.mpr ⟨u, hu, by simp⟩)
  have hreached := h.reached (List.mem_of_find?_eq_some hv)
  have heq : v = u := hsole v hreached (by simpa using List.find?_some hv)
  exact h.followed rfl (heq ▸ hv)

theorem Descent.find?_eq : (Registry.empty.putAll S visited).find? (S.fullName u) = some u := by
  have hcontains : (Registry.empty.putAll S visited).contains (S.fullName u) :=
    contains_putAll.mpr (.inr ⟨u, hu, rfl⟩)
  obtain ⟨v, hv⟩ := Option.isSome_iff_exists.mp hcontains
  obtain ⟨hmem, hname⟩ := mem_of_find?_putAll hv
  rw [hv, hsole v (h.reached hmem) hname]

end

/-! ### Well-formed schemas -/

section

variable (hS : S.WellFormed) (hts : ∀ t ∈ ts, t < S.types.size)

include hS hts

/-- What was asked for is found under its name. -/
theorem find?_ofTypes (ht : t ∈ ts) : (ofTypes S ts).find? (S.fullName t) = some t := by
  obtain ⟨visited, h, heq⟩ := exists_descent S .empty ts
  rw [ofTypes, heq]
  exact h.find?_eq (h.subset ht) (hS.sole hts (.of_mem ht))

/-- What a registered type refers to is found under its name. -/
theorem find?_ofTypes_of_reference (ht : (ofTypes S ts).find? (S.fullName t) = some t)
    (hu : u ∈ (S.type t).references) : (ofTypes S ts).find? (S.fullName u) = some u := by
  obtain ⟨visited, h, heq⟩ := exists_descent S .empty ts
  rw [ofTypes, heq] at ht ⊢
  have hmem := (mem_of_find?_putAll ht).1
  have hsub := h.references_subset hmem (hS.sole hts (h.reached hmem))
  exact h.find?_eq (hsub hu) (hS.sole hts (h.reached (hsub hu)))

end

/-! ### Type URLs -/

/-- A name without slashes is what its URL names. -/
theorem nameOfUrl_append (h : '/' ∉ name.toList) : nameOfUrl (urlBase ++ name) = name := by
  have hbase : urlBase.toList.reverse = '/' :: "moc.sipaelgoog.epyt".toList := by
    simp [urlBase]
  have hname : ∀ c ∈ name.toList.reverse, decide (c ≠ '/') := by
    intro c hc
    simp only [decide_eq_true_eq]
    rintro rfl
    exact h (List.mem_reverse.mp hc)
  rw [nameOfUrl, String.toList_append, List.reverse_append, hbase,
    List.takeWhile_append_of_pos hname]
  simp

end Registry

end Protowire
