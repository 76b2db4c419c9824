import Protowire.Proofs.Plain.RoundTrip

/-!
When the spellings of fields can be told apart. Camel case loses nothing of a name in snake case,
since its capitals show where the underscores were (`snakeCase_camelCase`). So two fields are never
spelled alike, unless one is repeated and the other has its name with `_list` behind it: what the
plain key of the first marks is what the name of the second says.
-/

namespace Protowire

/-! ### Letters -/

namespace Text

variable {c : Char}

theorem isLower_iff : c.isLower ↔ 97 ≤ c.toNat ∧ c.toNat ≤ 122 := by
  rw [Char.isLower, Bool.and_eq_true, decide_eq_true_eq, decide_eq_true_eq]
  rfl

theorem isUpper_iff : c.isUpper ↔ 65 ≤ c.toNat ∧ c.toNat ≤ 90 := by
  rw [Char.isUpper, decide_eq_true_eq]
  rfl

theorem isDigit_iff : c.isDigit ↔ 48 ≤ c.toNat ∧ c.toNat ≤ 57 := by
  rw [Char.isDigit, Bool.and_eq_true, decide_eq_true_eq, decide_eq_true_eq]
  rfl

/-- The capital of a small letter. -/
def capital (c : Char) : Char := Char.ofNat (c.toNat - 32)

theorem toNat_capital (h : c.isLower) : (capital c).toNat = c.toNat - 32 := by
  obtain ⟨hlow, hhigh⟩ := isLower_iff.mp h
  have hvalid : (c.toNat - 32).isValidChar := .inl (by omega)
  rw [capital, Char.toNat_ofNat, if_pos hvalid]

theorem isUpper_capital (h : c.isLower) : (capital c).isUpper := by
  rw [isUpper_iff, toNat_capital h]
  rw [isLower_iff] at h
  omega

theorem uppercase_eq_capital (h : c.isLower) : uppercase c = [capital c] := by
  obtain ⟨hlow, hhigh⟩ := isLower_iff.mp h
  have hexpansions : ∀ p ∈ upperExpansions, 128 ≤ p.1 := by decide +kernel
  have hnone : upperExpansions.find? (·.1 = c.toNat) = none := by
    refine List.find?_eq_none.mpr fun p hp heq => ?_
    have hlarge := hexpansions p hp
    rw [decide_eq_true_eq] at heq
    omega
  -- the small letters are the first of the runs
  obtain ⟨runs, hruns⟩ : ∃ runs, upperRuns = (0x61, 0x7A, 1, 0x41) :: runs := ⟨_, rfl⟩
  have hfirst : 0x61 ≤ c.toNat ∧ c.toNat ≤ 0x7A ∧ (c.toNat - 0x61) % 1 = 0 := by omega
  simp only [uppercase, hnone, hruns]
  simp only [hfirst, and_self, decide_true, List.find?_cons_of_pos]
  congr 2
  omega

end Text

open Text

/-! ### Names in snake case -/

/-- A small letter, and small letters and digits behind it. -/
inductive Segment : List Char → Prop
  | mk {c : Char} {cs : List Char} (first : c.isLower) (more : ∀ d ∈ cs, d.isLower ∨ d.isDigit) :
    Segment (c :: cs)

/-- Segments with single underscores between them. -/
inductive SnakeCase : List Char → Prop
  | segment {s : List Char} (h : Segment s) : SnakeCase s
  | join {s t : List Char} (h : Segment s) (rest : SnakeCase t) : SnakeCase (s ++ '_' :: t)

/-- Puts an underscore in front of every capital, and the small letter in place of it. -/
def snakeCase (s : List Char) : List Char :=
  s.flatMap fun c => if c.isUpper then ['_', Char.ofNat (c.toNat + 32)] else [c]

variable {s t : List Char} {c : Char}

theorem Segment.chars (h : Segment s) : ∀ c ∈ s, c.isLower ∨ c.isDigit := by
  obtain ⟨hfirst, hmore⟩ := h
  exact List.forall_mem_cons.mpr ⟨.inl hfirst, hmore⟩

theorem SnakeCase.chars (h : SnakeCase s) : ∀ c ∈ s, c.isLower ∨ c.isDigit ∨ c = '_' := by
  induction h with
  | segment h => exact fun c hc => (h.chars c hc).imp_right .inl
  | join h rest ih =>
    intro c hc
    rcases List.mem_append.mp hc with hc | hc
    · exact (h.chars c hc).imp_right .inl
    · rcases List.mem_cons.mp hc with rfl | hc
      · exact .inr (.inr rfl)
      · exact ih c hc

theorem SnakeCase.append (hs : SnakeCase s) (ht : SnakeCase t) : SnakeCase (s ++ '_' :: t) := by
  induction hs with
  | segment h => exact .join h ht
  | join h rest ih =>
    rw [List.append_assoc, List.cons_append]
    exact .join h ih

theorem snakeCase_append (s t : List Char) : snakeCase (s ++ t) = snakeCase s ++ snakeCase t :=
  List.flatMap_append

theorem snakeCase_of_not_upper (h : ∀ c ∈ s, ¬c.isUpper) : snakeCase s = s := by
  induction s with
  | nil => rfl
  | cons c s ih =>
    obtain ⟨hc, hs⟩ := List.forall_mem_cons.mp h
    rw [← List.singleton_append, snakeCase_append, ih hs, snakeCase, List.flatMap_singleton,
      if_neg hc]

theorem snakeCase_capital (h : c.isLower) (s : List Char) :
    snakeCase (capital c :: s) = '_' :: c :: snakeCase s := by
  have hback : Char.ofNat ((capital c).toNat + 32) = c := by
    have hlow := (isLower_iff.mp h).1
    rw [toNat_capital h, Nat.sub_add_cancel (by omega), Char.ofNat_toNat]
  rw [snakeCase, List.flatMap_cons, if_pos (isUpper_capital h), hback]
  rfl

theorem not_isUpper (h : c.isLower ∨ c.isDigit ∨ c = '_') : ¬c.isUpper := by
  rw [isLower_iff, isDigit_iff] at h
  rw [isUpper_iff]
  rcases h with h | h | rfl
  · omega
  · omega
  · decide

/-! ### Camel case -/

theorem camelCase_go_append (raise : Bool) (s t : List Char) :
    camelCase.go raise (s ++ '_' :: t) = camelCase.go raise s ++ camelCase.go true t := by
  induction s generalizing raise with
  | nil => rfl
  | cons c s ih =>
    rw [List.cons_append, camelCase.go, camelCase.go, ih, ih]
    split
    · rfl
    · rw [List.append_assoc]

theorem camelCase_append (s t : List Char) :
    camelCase (s ++ '_' :: t) = camelCase s ++ camelCase.go true t :=
  camelCase_go_append false s t

theorem camelCase_of_no_underscore (h : '_' ∉ s) : camelCase s = s := by
  rw [camelCase]
  induction s with
  | nil => rfl
  | cons c s ih =>
    rw [List.mem_cons, not_or] at h
    rw [camelCase.go, if_neg (Ne.symm h.1), ih h.2]
    rfl

theorem Segment.camelCase_eq (h : Segment s) : camelCase s = s := by
  refine camelCase_of_no_underscore fun hmem => ?_
  have hchar := h.chars _ hmem
  revert hchar
  decide

/-- Behind an underscore a name differs in its first letter only. -/
theorem SnakeCase.raised (h : SnakeCase t) :
    ∃ c rest, c.isLower ∧ camelCase t = c :: rest ∧ camelCase.go true t = capital c :: rest := by
  obtain ⟨c, cs, hc, rfl⟩ : ∃ c cs, c.isLower ∧ t = c :: cs := by
    cases h with
    | segment h =>
      obtain ⟨hfirst, _⟩ := h
      exact ⟨_, _, hfirst, rfl⟩
    | join h rest =>
      obtain ⟨hfirst, _⟩ := h
      exact ⟨_, _, hfirst, rfl⟩
  have hne : c ≠ '_' := by
    rintro rfl
    exact absurd hc (by decide)
  refine ⟨c, camelCase.go false cs, hc, ?_, ?_⟩
  · rw [camelCase, camelCase.go, if_neg hne]
    rfl
  · rw [camelCase.go, if_neg hne, if_pos rfl, uppercase_eq_capital hc]
    rfl

/-- A name is read off its form in camel case. -/
theorem snakeCase_camelCase (h : SnakeCase s) : snakeCase (camelCase s) = s := by
  induction h with
  | segment h =>
    rw [h.camelCase_eq]
    exact snakeCase_of_not_upper fun c hc => not_isUpper ((h.chars c hc).imp_right .inl)
  | join h rest ih =>
    obtain ⟨first, others, hfirst, hcamel, hraised⟩ := rest.raised
    have hsmall := snakeCase_of_not_upper fun c hc =>
      not_isUpper ((h.chars c hc).imp_right Or.inl)
    -- the first letter of the rest is a small one, which stays as it is
    rw [hcamel, ← List.singleton_append, snakeCase_append, snakeCase_of_not_upper
      (List.forall_mem_singleton.mpr (not_isUpper (.inl hfirst)))] at ih
    rw [camelCase_append, h.camelCase_eq, hraised, snakeCase_append, hsmall,
      snakeCase_capital hfirst, ← ih]
    rfl

/-! ### Fields -/

/-- Of these two fields the first is marked as repeated by what ends the name of the second. -/
def Field.ListedBy (f g : Field) : Prop := f.repeated ∧ g.name = f.name ++ "_list"

instance (f g : Field) : Decidable (f.ListedBy g) :=
  inferInstanceAs (Decidable (f.repeated ∧ g.name = f.name ++ "_list"))

/-- A repeated field and one that has its name with `_list` behind it. -/
def MessageType.ListClash (T : MessageType) : Prop :=
  ∃ f ∈ T.fields, ∃ g ∈ T.fields, f.ListedBy g

instance (T : MessageType) : Decidable T.ListClash :=
  inferInstanceAs (Decidable (∃ f ∈ T.fields, ∃ g ∈ T.fields, f.ListedBy g))

/-- The names of the fields are different, and all in snake case. -/
structure MessageType.SnakeNamed (T : MessageType) : Prop where
  distinct : (T.fields.map (·.name)).Nodup
  snakeCase : ∀ f ∈ T.fields, SnakeCase f.name.toList

namespace Field

variable {f g : Field} {key : String}

theorem toList_listed (name : String) :
    (name ++ "_list").toList = name.toList ++ '_' :: ['l', 'i', 's', 't'] := by
  rw [String.toList_append]
  rfl

theorem snakeCase_list : SnakeCase ['l', 'i', 's', 't'] :=
  .segment (.mk (by simp) (by simp))

/-- The mark of a repeated field in camel case. -/
theorem camelCase_listed (name : String) :
    String.ofList (camelCase (name ++ "_list").toList) =
      String.ofList (camelCase name.toList) ++ "List" := by
  have hmark : camelCase.go true ['l', 'i', 's', 't'] = "List".toList := by
    rw [camelCase.go, if_neg (by decide), if_pos rfl, uppercase_eq_capital (by decide)]
    rfl
  rw [toList_listed, camelCase_append, hmark, String.ofList_append, String.ofList_toList]

/-- Back in snake case, a spelling is the name of its field, or this name marked as a list. -/
theorem snakeCase_of_mem_spellings (hf : SnakeCase f.name.toList) (hkey : key ∈ f.spellings) :
    snakeCase key.toList = f.name.toList ∨
      f.repeated ∧ snakeCase key.toList = (f.name ++ "_list").toList := by
  have hname : snakeCase f.name.toList = f.name.toList :=
    snakeCase_of_not_upper fun c hc => not_isUpper (hf.chars c hc)
  have hcamel : snakeCase f.camelName.toList = f.name.toList := by
    rw [camelName, String.toList_ofList, snakeCase_camelCase hf]
  rw [spellings, List.mem_cons, List.mem_cons, List.mem_singleton] at hkey
  rcases hkey with rfl | rfl | rfl
  · exact .inl hname
  · exact .inl hcamel
  · rw [plainKey]
    split
    · rename_i hrepeated
      refine .inr ⟨hrepeated, ?_⟩
      rw [camelName, ← camelCase_listed, String.toList_ofList, toList_listed]
      exact snakeCase_camelCase (hf.append snakeCase_list)
    · exact .inl hcamel

/-- Two names have a spelling in common only if the one is the other marked as a list. -/
theorem listedBy_of_mem_spellings (hf : SnakeCase f.name.toList) (hg : SnakeCase g.name.toList)
    (hne : f.name ≠ g.name) (hkeyf : key ∈ f.spellings) (hkeyg : key ∈ g.spellings) :
    f.ListedBy g ∨ g.ListedBy f := by
  rcases snakeCase_of_mem_spellings hf hkeyf with hf' | ⟨hf', hlist⟩ <;>
    rcases snakeCase_of_mem_spellings hg hkeyg with hg' | ⟨hg', hlist'⟩
  · exact absurd (String.toList_inj.mp (hf'.symm.trans hg')) hne
  · exact .inr ⟨hg', String.toList_inj.mp (hf'.symm.trans hlist')⟩
  · exact .inl ⟨hf', String.toList_inj.mp (hg'.symm.trans hlist)⟩
  · have hlisted := hlist.symm.trans hlist'
    rw [toList_listed, toList_listed, List.append_cancel_right_eq, String.toList_inj] at hlisted
    exact absurd hlisted hne

/-- The key of the marked field is also the name in camel case of the field that is named so. -/
theorem ListedBy.plainKey_eq (h : f.ListedBy g) : f.plainKey = g.camelName := by
  rw [plainKey, if_pos h.1, camelName, camelName, h.2, camelCase_listed]

theorem ListedBy.ne (h : f.ListedBy g) : f ≠ g := by
  rintro rfl
  have hlength := congrArg List.length (congrArg String.toList h.2)
  rw [toList_listed, List.length_append, List.length_cons] at hlength
  omega

/-- No name in snake case is spelled with the sign in front of the type's key. -/
theorem typeKey_not_mem_spellings (hf : SnakeCase f.name.toList) :
    Plain.typeKey ∉ f.spellings := by
  intro hkey
  have hsame : snakeCase Plain.typeKey.toList = '@' :: ['t', 'y', 'p', 'e'] := by
    have hchars : Plain.typeKey.toList = '@' :: ['t', 'y', 'p', 'e'] := rfl
    rw [hchars]
    exact snakeCase_of_not_upper (by simp)
  have hname : '@' ∉ f.name.toList := by
    intro hmem
    have hchar := hf.chars _ hmem
    revert hchar
    decide
  rcases snakeCase_of_mem_spellings hf hkey with heq | ⟨_, heq⟩
  · rw [← heq, hsame] at hname
    exact hname List.mem_cons_self
  · have hmem : '@' ∈ (f.name ++ "_list").toList := by
      rw [← heq, hsame]
      exact List.mem_cons_self
    rw [toList_listed, List.mem_append] at hmem
    exact hmem.elim hname (by decide)

end Field

namespace MessageType

variable {T : MessageType}

theorem SnakeNamed.perm (hT : T.SnakeNamed) {fields : List Field} (h : fields.Perm T.fields) :
    ({ T with fields } : MessageType).SnakeNamed :=
  ⟨(h.map _).nodup_iff.mpr hT.distinct, fun f hf => hT.snakeCase f (h.mem_iff.mp hf)⟩

theorem listClash_perm {fields : List Field} (h : fields.Perm T.fields) :
    ({ T with fields } : MessageType).ListClash ↔ T.ListClash := by
  simp only [ListClash, h.mem_iff]

theorem SnakeNamed.spelledApart (hT : T.SnakeNamed) (hclash : ¬T.ListClash) : T.SpelledApart := by
  refine ⟨fun f hf g hg hne key hkeyf hkeyg => ?_,
    fun f hf => Field.typeKey_not_mem_spellings (hT.snakeCase f hf)⟩
  have hnames : f.name ≠ g.name := fun heq => hne (List.inj_on_of_nodup_map hT.distinct hf hg heq)
  rcases Field.listedBy_of_mem_spellings (hT.snakeCase f hf) (hT.snakeCase g hg) hnames hkeyf
    hkeyg with h | h
  · exact hclash ⟨f, hf, g, hg, h⟩
  · exact hclash ⟨g, hg, f, hf, h⟩

/-- Every spelling of a field finds this field. -/
def Resolves (T : MessageType) : Prop :=
  ∀ f ∈ T.fields, ∀ key ∈ f.spellings, T.fieldNamed? key = some f

theorem SnakeNamed.resolves_iff (hT : T.SnakeNamed) : T.Resolves ↔ ¬T.ListClash := by
  constructor
  · rintro hresolves ⟨f, hf, g, hg, hlisted⟩
    have hfound := hresolves f hf f.plainKey (plainKey_mem_spellings f)
    have hfound' := hresolves g hg g.camelName (by simp [Field.spellings])
    rw [hlisted.plainKey_eq, hfound'] at hfound
    exact hlisted.ne (Option.some.inj hfound).symm
  · intro hclash f hf key hkey
    exact (hT.spelledApart hclash).fieldNamed?_of_mem hf hkey

theorem SnakeNamed.keyedApart (hT : T.SnakeNamed) (hclash : ¬T.ListClash) : T.KeyedApart :=
  (hT.spelledApart hclash).keyedApart_of_nodup hT.distinct.of_map

/-- Of a type whose fields have different names in snake case, and in whatever order they are
declared, every spelling of every field finds this field if and only if no repeated field has its
name with `_list` behind it taken by another. Then the plain keys are different too, and the object
for a message of the type has an entry for each of the fields that shows what the message holds. -/
theorem spellings_resolve_iff (hT : T.SnakeNamed) :
    (∀ fields : List Field, fields.Perm T.fields →
      (({ T with fields } : MessageType).Resolves ↔ ¬T.ListClash)) ∧
    (¬T.ListClash → (T.fields.map Field.plainKey).Nodup ∧
      ∀ (S : Schema) (m : Message) (naming : Bool), S.type m.type = T →
        ∃ entries, m.toPlain S naming = .object entries ∧ (entries.map Prod.fst).Nodup ∧
          ∀ f ∈ T.fields,
            (f.plainKey, f.plainValue ((m.get? f.number).map (Value.toPlain S naming))) ∈
              entries) := by
  refine ⟨fun fields hperm => ?_, fun hclash => ?_⟩
  · rw [(hT.perm hperm).resolves_iff, listClash_perm hperm]
  · have hkeys := hT.keyedApart hclash
    refine ⟨hkeys.distinct, ?_⟩
    rintro S m naming rfl
    refine ⟨_, (m.toPlain_eq S naming).trans (hkeys.plainObject_eq naming _),
      hkeys.nodup_keys naming _, fun f hf => ?_⟩
    rw [← Message.get?_plainFields]
    exact List.mem_append_right _ (List.mem_map_of_mem hf)

/-- Its second field is named as the first would be marked, if that were repeated. -/
def album : MessageType where
  fullName := "test.Album"
  fields := [.one 1 "page" .int32, .many 2 "page_list" .string, .one 3 "page_list_size" .int32]

/-- The spellings are told apart, with the fields turned around as well. -/
theorem album_resolves : album.SnakeNamed ∧ ¬album.ListClash ∧ album.Resolves ∧
    ({ album with fields := album.fields.reverse } : MessageType).Resolves ∧
    (album.fields.map Field.plainKey).Nodup := by
  have hpage : SnakeCase ['p', 'a', 'g', 'e'] := .segment (.mk (by simp) (by simp))
  have hsize : SnakeCase ['s', 'i', 'z', 'e'] := .segment (.mk (by simp) (by simp))
  have hlist := hpage.append Field.snakeCase_list
  have hnamed : album.SnakeNamed := by
    refine ⟨by decide, ?_⟩
    rw [album, List.forall_mem_cons, List.forall_mem_cons, List.forall_mem_singleton]
    exact ⟨hpage, hlist, hlist.append hsize⟩
  have hclash : ¬album.ListClash := by decide
  obtain ⟨hresolves, hkeys⟩ := spellings_resolve_iff hnamed
  exact ⟨hnamed, hclash, (hresolves _ (.refl _)).mpr hclash,
    (hresolves _ (List.reverse_perm _)).mpr hclash, (hkeys hclash).1⟩

/-- If the first field is repeated, it takes the name in camel case of the second. -/
example : (⟨"test.Album", [.many 1 "page" .int32, .one 2 "page_list" .string], []⟩ :
    MessageType).fieldNamed? "pageList" = some (.many 1 "page" .int32) := by decide +kernel

end MessageType

end Protowire
