import Protowire.Proofs.Registry

/-!
A registry is the closure of the types that were added. If each name stands for one type, the
visited types are those that message fields lead to, and the registry has just these, each under its
name; so neither the order of the types nor their repetition matters. When two types share a name,
the later one takes the place of the earlier one, but its fields are not followed, and what only
they lead to is missing.
-/

namespace Protowire.Registry

variable {S : Schema} {r r' : Registry} {t u : TypeId} {name : String} {ts us visited : List TypeId}

/-! ### Names -/

/-- No name has two entries. -/
def Single (r : Registry) : Prop := (r.entries.map (·.1)).Nodup

theorem Single.put (h : r.Single) (S : Schema) (t : TypeId) : (r.put S t).Single := by
  rw [Single, Registry.put, List.map_cons, List.nodup_cons]
  refine ⟨fun hmem => ?_, h.sublist (List.filter_sublist.map _)⟩
  obtain ⟨e, he, hname⟩ := List.mem_map.mp hmem
  simpa [hname] using (List.mem_filter.mp he).2

theorem Single.putAll (h : r.Single) (S : Schema) (ts : List TypeId) : (r.putAll S ts).Single := by
  induction ts generalizing r with
  | nil => exact h
  | cons t ts ih => exact ih (h.put S t)

theorem single_ofTypes (S : Schema) (ts : List TypeId) : (ofTypes S ts).Single := by
  obtain ⟨visited, _, heq⟩ := exists_descent S .empty ts
  have hempty : Registry.empty.Single := List.nodup_nil
  rw [ofTypes, heq]
  exact hempty.putAll S visited

theorem mem_of_find? (h : r.find? name = some t) : (name, t) ∈ r.entries := by
  obtain ⟨front, back, heq, _⟩ := List.lookup_eq_some_iff.mp h
  simp [heq]

theorem Single.find?_eq_some_iff (h : r.Single) :
    r.find? name = some t ↔ (name, t) ∈ r.entries := by
  refine ⟨mem_of_find?, fun hmem => ?_⟩
  obtain ⟨u, hu⟩ : ∃ u, r.find? name = some u :=
    Option.isSome_iff_exists.mp (List.lookup_isSome_iff.mpr ⟨_, hmem, by simp⟩)
  have heq := List.inj_on_of_nodup_map h (mem_of_find? hu) hmem rfl
  rw [hu, (Prod.mk.inj heq).2]

theorem mem_names : name ∈ r.names ↔ r.contains name := by
  rw [names, List.mem_mergeSort, List.mem_map, contains, find?, List.lookup_isSome_iff]
  simp only [beq_iff_eq, eq_comm (a := name)]

/-- The names ascend, so no name stands twice. -/
theorem Single.names_ascend (h : r.Single) : r.names.Pairwise (· < ·) := by
  have hle : r.names.Pairwise (· ≤ ·) := List.pairwise_mergeSort' (· ≤ ·) _
  have hne : r.names.Pairwise (· ≠ ·) := (List.mergeSort_perm _ _).nodup_iff.mpr h
  exact (hle.and hne).imp fun hab => lt_of_le_of_ne hab.1 hab.2

theorem names_eq_of_perm (h : r.entries.Perm r'.entries) : r.names = r'.names :=
  List.Perm.eq_of_pairwise (fun _ _ _ _ => le_antisymm) (List.pairwise_mergeSort' (· ≤ ·) _)
    (List.pairwise_mergeSort' (· ≤ ·) _)
    (((List.mergeSort_perm _ _).trans (h.map _)).trans (List.mergeSort_perm _ _).symm)

/-- Registries that find the same types have the same entries. -/
theorem Single.perm (h : r.Single) (h' : r'.Single) (hfind : ∀ name, r.find? name = r'.find? name) :
    r.entries.Perm r'.entries := by
  refine (List.perm_ext_iff_of_nodup (.of_map _ h) (.of_map _ h')).mpr fun e => ?_
  rw [← h.find?_eq_some_iff, ← h'.find?_eq_some_iff, hfind]

/-! ### The closure -/

section

variable (hsole : ∀ t, S.Reached ts t → S.Sole ts t)

include hsole

/-- The induction is on the path that leads to the type. -/
theorem Descent.mem_of_reached (h : Descent S .empty ts visited) (hu : S.Reached ts u) :
    u ∈ visited := by
  obtain ⟨t, ht, hreach⟩ := hu
  induction hreach with
  | refl => exact h.subset ht
  | tail hpath hrefers ih => exact h.references_subset ih (hsole _ ⟨t, ht, hpath⟩) hrefers

theorem find?_ofTypes_eq_some_iff :
    (ofTypes S ts).find? name = some t ↔ S.Reached ts t ∧ S.fullName t = name := by
  obtain ⟨visited, h, heq⟩ := exists_descent S .empty ts
  rw [ofTypes, heq]
  constructor
  · intro hfind
    obtain ⟨hmem, hname⟩ := mem_of_find?_putAll hfind
    exact ⟨h.reached hmem, hname⟩
  · rintro ⟨hreached, rfl⟩
    exact h.find?_eq (h.mem_of_reached hsole hreached) (hsole t hreached)

end

/-- Where a name stands for one type only, registration ends and the registry is the closure of the
types that are added: its names are those of all types that are reached, in order and each once;
under each of them it has this type and under any other name nothing. Adding the same types in
another order or several times makes no difference. -/
theorem registry_is_closure (hnames : ∀ t u, S.Reached ts t → S.Reached ts u →
      S.fullName t = S.fullName u → t = u) :
    (∃ visited, Descent S .empty ts visited ∧ ofTypes S ts = Registry.empty.putAll S visited) ∧
      (ofTypes S ts).names.Pairwise (· < ·) ∧
      (∀ name, name ∈ (ofTypes S ts).names ↔ ∃ t, S.Reached ts t ∧ S.fullName t = name) ∧
      (∀ name t, (ofTypes S ts).find? name = some t ↔ S.Reached ts t ∧ S.fullName t = name) ∧
      ∀ us, (∀ t, t ∈ us ↔ t ∈ ts) →
        (ofTypes S us).names = (ofTypes S ts).names ∧
          (∀ name, (ofTypes S us).find? name = (ofTypes S ts).find? name) ∧
            (ofTypes S us).entries.Perm (ofTypes S ts).entries := by
  have hsole (t : TypeId) (ht : S.Reached ts t) : S.Sole ts t := fun u hu hname =>
    hnames u t hu ht hname
  have hfind {name : String} {t : TypeId} :
      (ofTypes S ts).find? name = some t ↔ S.Reached ts t ∧ S.fullName t = name :=
    find?_ofTypes_eq_some_iff hsole
  refine ⟨exists_descent S .empty ts, (single_ofTypes S ts).names_ascend, fun name => ?_,
    fun name t => hfind, fun us hus => ?_⟩
  · rw [mem_names, contains, Option.isSome_iff_exists]
    simp only [hfind]
  · have hreached (t : TypeId) : S.Reached us t ↔ S.Reached ts t :=
      ⟨fun h => h.mono fun u => (hus u).mp, fun h => h.mono fun u => (hus u).mpr⟩
    have hsole' (t : TypeId) (ht : S.Reached us t) : S.Sole us t := fun u hu hname =>
      hsole t ((hreached t).mp ht) u ((hreached u).mp hu) hname
    have heq (name : String) : (ofTypes S us).find? name = (ofTypes S ts).find? name := by
      ext t
      rw [hfind, find?_ofTypes_eq_some_iff hsole', hreached]
    have hperm := (single_ofTypes S us).perm (single_ofTypes S ts) heq
    exact ⟨names_eq_of_perm hperm, heq, hperm⟩

/-- Trees and forests hold each other, and trees hold trees; a stone is in neither. -/
def forest : Schema := ⟨#[
  ⟨"test.Tree", [.many 1 "leaves" (.message 1), .one 2 "subtree" (.message 0),
    .one 3 "home" (.message 2)], []⟩,
  ⟨"test.Leaf", [.one 1 "id" (.scalar .uint32)], []⟩,
  ⟨"test.Forest", [.many 1 "trees" (.message 0)], []⟩,
  ⟨"test.Stone", [], []⟩]⟩

/-- With a tree and a forest the leaf is registered, and the stone is not. -/
theorem forest_has_leaf :
    (∀ t u, forest.Reached [0, 2] t → forest.Reached [0, 2] u →
        forest.fullName t = forest.fullName u → t = u) ∧
      "test.Leaf" ∈ (ofTypes forest [0, 2]).names ∧
        (ofTypes forest [0, 2]).find? "test.Forest" = some 2 ∧
          (ofTypes forest [0, 2]).find? "test.Stone" = none ∧
            (ofTypes forest [2, 0, 0]).names = (ofTypes forest [0, 2]).names := by
  have hS : forest.WellFormed := by decide
  have hlt : ∀ t ∈ [0, 2], t < forest.types.size := by decide
  have hnames : ∀ t u, forest.Reached [0, 2] t → forest.Reached [0, 2] u →
      forest.fullName t = forest.fullName u → t = u := fun t u ht hu hname =>
    hS.sole hlt hu t ht hname
  obtain ⟨_, _, hmem, hfind, hsame⟩ := registry_is_closure hnames
  have hleaf : forest.Reached [0, 2] 1 := ⟨0, by simp, .single (by decide)⟩
  have hforest : forest.Reached [0, 2] 2 := .of_mem (by simp)
  exact ⟨hnames, (hmem _).mpr ⟨1, hleaf, by decide⟩, (hfind _ _).mpr ⟨hforest, by decide⟩, by cbv,
    (hsame [2, 0, 0] (by simp [or_comm])).1⟩

/-! ### Shared names -/

/-- Of the types that are visited under a name, the last one is found and the first one has had its
fields followed. So after a type is added its name is registered, and so are the types of the fields
of every registered type that is the only one of its name, and all that is reached from the added
type through such types. -/
theorem add_registers (S : Schema) (ts : List TypeId) (d : TypeId) :
    ((ofTypes S ts).add S d).contains (S.fullName d) ∧
      (∃ visited, Descent S .empty (ts ++ [d]) visited ∧
        (∀ name, ((ofTypes S ts).add S d).find? name =
          visited.reverse.find? (S.fullName · = name)) ∧
        ∀ name u, visited.find? (S.fullName · = name) = some u →
          ∀ v ∈ (S.type u).references, ((ofTypes S ts).add S d).contains (S.fullName v)) ∧
      (∀ name u, ((ofTypes S ts).add S d).find? name = some u → S.Sole (ts ++ [d]) u →
        ∀ v ∈ (S.type u).references, ((ofTypes S ts).add S d).contains (S.fullName v)) ∧
      ∀ u, Relation.ReflTransGen (fun t u => S.Sole (ts ++ [d]) t ∧ S.Refers t u) d u →
        ((ofTypes S ts).add S d).contains (S.fullName u) := by
  obtain ⟨visited, h, heq⟩ := exists_descent S .empty (ts ++ [d])
  have hadd : (ofTypes S ts).add S d = Registry.empty.putAll S visited := by
    rw [← heq, List.foldl_append]
    rfl
  have hcontains {u : TypeId} (hu : u ∈ visited) :
      (Registry.empty.putAll S visited).contains (S.fullName u) :=
    contains_putAll.mpr (.inr ⟨u, hu, rfl⟩)
  have hd : d ∈ visited := h.subset (by simp)
  rw [hadd]
  refine ⟨hcontains hd, ⟨visited, h, fun name => ?_, fun name u hu v hv => ?_⟩,
    fun name u hu hsole v hv => ?_, fun u hu => hcontains ?_⟩
  · rw [find?_putAll, show Registry.empty.find? name = none from rfl, Option.or_none]
  · exact hcontains (h.followed rfl hu hv)
  · exact hcontains (h.references_subset (mem_of_find?_putAll hu).1 hsole hv)
  · induction hu with
    | refl => exact hd
    | tail _ hlast ih => exact h.references_subset ih hlast.1 hlast.2

/-- Two types of one name, of which the second one has a leaf, and a box for the second one. -/
def clash : Schema := ⟨#[
  ⟨"test.Part", [], []⟩,
  ⟨"test.Part", [.one 1 "leaf" (.message 2)], []⟩,
  ⟨"test.Leaf", [], []⟩,
  ⟨"test.Box", [.one 1 "part" (.message 1)], []⟩]⟩

/-- No other type is a box, so the name of its part is registered with it. -/
theorem box_registers_part : clash.Sole [0, 3] 3 ∧
    ((ofTypes clash [0]).add clash 3).contains "test.Part" := by
  have hsole : clash.Sole [0, 3] 3 := by
    intro u _ hname
    match u with
    | 0 | 1 | 2 => exact absurd hname (by decide)
    | 3 => rfl
    | n + 4 => simp [Schema.fullName, Schema.type, clash, MessageType.empty] at hname
  obtain ⟨_, _, _, hreached⟩ := add_registers clash [0] 3
  exact ⟨hsole, hreached 1 (.single ⟨hsole, by decide⟩)⟩

/-- The first part has no fields. The second one takes its place, but its leaf is not registered. -/
theorem leaf_of_second_part_missing :
    clash.Reached [1] 2 ∧ ((ofTypes clash [0]).add clash 1).find? "test.Part" = some 1 ∧
      2 ∈ (clash.type 1).references ∧
        ((ofTypes clash [0]).add clash 1).contains (clash.fullName 2) = false := by
  refine ⟨⟨1, by simp, .single (by decide)⟩, ?_, by decide, ?_⟩
  · cbv
  · cbv

end Protowire.Registry
