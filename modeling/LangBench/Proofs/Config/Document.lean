import LangBench.Config.Basic
import LangBench.Proofs.ByteOrder
import LangBench.Proofs.Dict
import LangBench.Proofs.Outcome

/-!
Which documents are configurations.

A document is one if both of its sections are objects of entries that name a preset, whatever else
it has, and the instances are then its entries. What is reported of another document is the first of
its faults, by sections and, within a section, by the bytes of the names.
-/

namespace LangBench

variable {kind : Kind} {name : String} {entry document : Json} {root : Dict Json} {i : Instance}
  {instances : Dict Instance} {c : Config} {e : RunError}

namespace Config

/-- The entry of an instance: an object with the preset under the key of the kind, and with the
parameters as all of its other fields. -/
def EntryOf (kind : Kind) (entry : Json) (i : Instance) : Prop :=
  ∃ fields, entry.asObject? = some fields ∧ fields.get? kind.key = some (.str i.preset) ∧
    ∀ key, i.params.get? key = if key = kind.key then none else fields.get? key

/-- The section of some instances: an object with an entry for each of them and with no other. -/
def SectionOf (kind : Kind) (root : Dict Json) (instances : Dict Instance) : Prop :=
  ∃ v entries, root.get? kind.sectionKey = some v ∧ v.asObject? = some entries ∧
    ∀ name, Option.Rel (EntryOf kind) (entries.get? name) (instances.get? name)

/-- The documents of a configuration. -/
def DocumentOf (document : Json) (c : Config) : Prop :=
  ∃ root, document.asObject? = some root ∧ SectionOf .lang root c.langs ∧
    SectionOf .net root c.nets

def WellFormedEntry (kind : Kind) (entry : Json) : Prop :=
  ∃ fields preset, entry.asObject? = some fields ∧ fields.get? kind.key = some (.str preset)

def WellFormedSection (kind : Kind) (root : Dict Json) : Prop :=
  ∃ v entries, root.get? kind.sectionKey = some v ∧ v.asObject? = some entries ∧
    ∀ name entry, entries.get? name = some entry → WellFormedEntry kind entry

/-- The documents that can be read. -/
def WellFormed (document : Json) : Prop :=
  ∃ root, document.asObject? = some root ∧ WellFormedSection .lang root ∧
    WellFormedSection .net root

/-- What is wrong with an entry. -/
inductive EntryFault (kind : Kind) (name : String) (entry : Json) : ConfigFault → Prop where
  | notAnObject (hentry : entry.asObject? = none) :
    EntryFault kind name entry (.entryNotAnObject kind name)
  | missingPreset {fields : Dict Json} (hentry : entry.asObject? = some fields)
    (hpreset : fields.get? kind.key = none) : EntryFault kind name entry (.missingPreset kind name)
  | presetNotAString {fields : Dict Json} {v : Json} (hentry : entry.asObject? = some fields)
    (hpreset : fields.get? kind.key = some v) (hv : ∀ preset, v ≠ .str preset) :
    EntryFault kind name entry (.presetNotAString kind name)

/-- What is first wrong with a section: nothing is wrong with the entries of smaller names. -/
inductive SectionFault (kind : Kind) (root : Dict Json) : ConfigFault → Prop where
  | missing (hsection : root.get? kind.sectionKey = none) :
    SectionFault kind root (.missingSection kind)
  | notAnObject {v : Json} (hsection : root.get? kind.sectionKey = some v)
    (hv : v.asObject? = none) : SectionFault kind root (.sectionNotAnObject kind)
  | entry {v : Json} {entries : Dict Json} {name : String} {entry : Json} {f : ConfigFault}
    (hsection : root.get? kind.sectionKey = some v) (hv : v.asObject? = some entries)
    (hentry : entries.get? name = some entry) (hf : EntryFault kind name entry f)
    (hbefore : ∀ other entry', Text.utf8 other < Text.utf8 name →
      entries.get? other = some entry' → WellFormedEntry kind entry') : SectionFault kind root f

/-- What is first wrong with a document: nothing is wrong with the languages if it is the nets. -/
inductive DocumentFault (document : Json) : ConfigFault → Prop where
  | notAnObject (hdocument : document.asObject? = none) : DocumentFault document .notAnObject
  | langs {root : Dict Json} {f : ConfigFault} (hdocument : document.asObject? = some root)
    (hf : SectionFault .lang root f) : DocumentFault document f
  | nets {root : Dict Json} {f : ConfigFault} (hdocument : document.asObject? = some root)
    (hlangs : WellFormedSection .lang root) (hf : SectionFault .net root f) :
    DocumentFault document f

theorem readInstance_eq_ok : readInstance kind name entry = .ok i ↔ EntryOf kind entry i := by
  unfold readInstance
  constructor
  · intro h
    split at h
    · cases h
    · next fields hentry =>
      split at h
      · next preset hpreset =>
        obtain rfl := Except.ok.inj h
        exact ⟨fields, hentry, hpreset, fields.get?_erase kind.key⟩
      · cases h
      · cases h
  · rintro ⟨fields, hentry, hpreset, hparams⟩
    have herase : fields.erase kind.key = i.params := Dict.ext_get? fun key ↦
      (fields.get?_erase kind.key key).trans (hparams key).symm
    simp only [hentry, hpreset, herase]

theorem exists_entryOf_iff : (∃ i, EntryOf kind entry i) ↔ WellFormedEntry kind entry := by
  constructor
  · rintro ⟨i, fields, hentry, hpreset, -⟩
    exact ⟨fields, i.preset, hentry, hpreset⟩
  · rintro ⟨fields, preset, hentry, hpreset⟩
    exact ⟨⟨preset, fields.erase kind.key⟩, fields, hentry, hpreset, fields.get?_erase kind.key⟩

theorem readInstance_eq_error : readInstance kind name entry = .error e ↔
    ∃ f, e = .config f ∧ EntryFault kind name entry f := by
  unfold readInstance
  constructor
  · intro h
    split at h
    · next hentry => exact ⟨_, (Except.error.inj h).symm, .notAnObject hentry⟩
    · next fields hentry =>
      split at h
      · cases h
      · next v hv hpreset =>
        exact ⟨_, (Except.error.inj h).symm, .presetNotAString hentry hpreset hv⟩
      · next hpreset => exact ⟨_, (Except.error.inj h).symm, .missingPreset hentry hpreset⟩
  · rintro ⟨f, rfl, hf⟩
    cases hf with
    | notAnObject hentry => simp only [hentry]
    | missingPreset hentry hpreset => simp only [hentry, hpreset]
    | presetNotAString hentry hpreset hv => simp only [hentry, hpreset]

theorem rightUnique_entryOf : Relator.RightUnique (EntryOf kind) := by
  intro entry i j hi hj
  have hread : readInstance kind "" entry = .ok i := readInstance_eq_ok.2 hi
  rw [readInstance_eq_ok.2 hj] at hread
  exact (Except.ok.inj hread).symm

theorem EntryFault.not_wellFormedEntry {f : ConfigFault} (hf : EntryFault kind name entry f) :
    ¬ WellFormedEntry kind entry := by
  intro h
  obtain ⟨i, hi⟩ := exists_entryOf_iff.2 h
  have herror := readInstance_eq_error.2 ⟨f, rfl, hf⟩
  rw [readInstance_eq_ok.2 hi] at herror
  cases herror

section Entries

variable {entries : Dict Json}

theorem readEntries_eq_error :
    readEntries kind entries.entries = .error e ↔
      ∃ name entry f, e = .config f ∧ entries.get? name = some entry ∧
        EntryFault kind name entry f ∧ ∀ other entry', Text.utf8 other < Text.utf8 name →
          entries.get? other = some entry' → WellFormedEntry kind entry' := by
  have hok (x : String × Json) :
      (∃ b, (readInstance kind x.1 x.2).map (x.1, ·) = .ok b) ↔ WellFormedEntry kind x.2 := by
    simp [map_eq_ok, readInstance_eq_ok, ← exists_entryOf_iff]
  rw [readEntries, map_eq_error, mapM_eq_error]
  simp only [hok, map_eq_error, readInstance_eq_error, Dict.get?_eq_some_iff, Text.utf8_lt_iff]
  -- names ascend, so the entries before the faulty one are those of smaller names
  constructor
  · rintro ⟨before, ⟨name, entry⟩, after, heq, hbefore, f, rfl, hf⟩
    refine ⟨name, entry, f, rfl, heq ▸ by simp, hf, fun other entry' hlt hmem ↦ ?_⟩
    exact hbefore (other, entry') ((Dict.mem_before_iff entries.ascending heq).2 ⟨hmem, hlt⟩)
  · rintro ⟨name, entry, f, rfl, hmem, hf, hbefore⟩
    obtain ⟨before, after, heq⟩ := List.append_of_mem hmem
    refine ⟨before, (name, entry), after, heq, fun x hx ↦ ?_, f, rfl, hf⟩
    obtain ⟨hx, hlt⟩ := (Dict.mem_before_iff entries.ascending heq).1 hx
    exact hbefore x.1 x.2 hlt hx

theorem rel_of_readEntries (h : readEntries kind entries.entries = .ok instances) (name : String) :
    Option.Rel (EntryOf kind) (entries.get? name) (instances.get? name) := by
  rw [readEntries, map_eq_ok] at h
  obtain ⟨l, hl, rfl⟩ := h
  rw [mapM_eq_ok] at hl
  have hl' : List.Forall₂ (fun a b ↦ a.1 = b.1 ∧ EntryOf kind a.2 b.2) entries.entries l := by
    refine hl.imp fun a b hab ↦ ?_
    obtain ⟨i, hi, rfl⟩ := map_eq_ok.1 hab
    exact ⟨rfl, readInstance_eq_ok.1 hi⟩
  rw [Dict.ofList_eq (Dict.ascending_of_forall₂ hl' entries.ascending)]
  exact Dict.rel_lookup hl' name

theorem exists_readEntries_iff : (∃ instances, readEntries kind entries.entries = .ok instances) ↔
    ∀ name entry, entries.get? name = some entry → WellFormedEntry kind entry := by
  constructor
  · rintro ⟨instances, h⟩ name entry hentry
    have hrel := rel_of_readEntries h name
    rw [hentry] at hrel
    obtain ⟨i, -, hi⟩ := exists_of_rel_some hrel
    exact exists_entryOf_iff.1 ⟨i, hi⟩
  · intro hwell
    cases hread : readEntries kind entries.entries with
    | ok instances => exact ⟨instances, rfl⟩
    | error e =>
      obtain ⟨name, entry, f, -, hentry, hf, -⟩ := readEntries_eq_error.1 hread
      exact absurd (hwell name entry hentry) hf.not_wellFormedEntry

/-- The instances are the entries, one for one. -/
theorem readEntries_eq_ok :
    readEntries kind entries.entries = .ok instances ↔
      ∀ name, Option.Rel (EntryOf kind) (entries.get? name) (instances.get? name) := by
  refine ⟨rel_of_readEntries, fun h ↦ ?_⟩
  obtain ⟨read, hread⟩ := exists_readEntries_iff.2 fun name entry hentry ↦ by
    have hrel := h name
    rw [hentry] at hrel
    obtain ⟨i, -, hi⟩ := exists_of_rel_some hrel
    exact exists_entryOf_iff.1 ⟨i, hi⟩
  -- an entry has one instance only, so the instances that are read are the given ones
  have heq : read = instances := Dict.ext_get? fun name ↦
    rel_unique rightUnique_entryOf (rel_of_readEntries hread name) (h name)
  rw [hread, heq]

end Entries

theorem readSection_eq_ok : readSection kind root = .ok instances ↔ SectionOf kind root instances := by
  unfold readSection
  constructor
  · intro h
    split at h
    · cases h
    · next v hsection =>
      split at h
      · cases h
      · next entries hv => exact ⟨v, entries, hsection, hv, readEntries_eq_ok.1 h⟩
  · rintro ⟨v, entries, hsection, hv, hrel⟩
    simp only [hsection, hv]
    exact readEntries_eq_ok.2 hrel

theorem readSection_eq_error : readSection kind root = .error e ↔
    ∃ f, e = .config f ∧ SectionFault kind root f := by
  unfold readSection
  constructor
  · intro h
    split at h
    · next hsection => exact ⟨_, (Except.error.inj h).symm, .missing hsection⟩
    · next v hsection =>
      split at h
      · next hv => exact ⟨_, (Except.error.inj h).symm, .notAnObject hsection hv⟩
      · next entries hv =>
        obtain ⟨name, entry, f, rfl, hentry, hf, hbefore⟩ := readEntries_eq_error.1 h
        exact ⟨f, rfl, .entry hsection hv hentry hf hbefore⟩
  · rintro ⟨f, rfl, hf⟩
    cases hf with
    | missing hsection => simp only [hsection]
    | notAnObject hsection hv => simp only [hsection, hv]
    | entry hsection hv hentry hf hbefore =>
      simp only [hsection, hv]
      exact readEntries_eq_error.2 ⟨_, _, f, rfl, hentry, hf, hbefore⟩

theorem exists_sectionOf_iff :
    (∃ instances, SectionOf kind root instances) ↔ WellFormedSection kind root := by
  constructor
  · rintro ⟨instances, v, entries, hsection, hv, hrel⟩
    exact ⟨v, entries, hsection, hv, exists_readEntries_iff.1 ⟨_, readEntries_eq_ok.2 hrel⟩⟩
  · rintro ⟨v, entries, hsection, hv, hwell⟩
    obtain ⟨instances, h⟩ := exists_readEntries_iff.2 hwell
    exact ⟨instances, v, entries, hsection, hv, readEntries_eq_ok.1 h⟩

theorem ofJson_eq_ok : ofJson document = .ok c ↔ DocumentOf document c := by
  unfold ofJson
  cases hdocument : document.asObject? with
  | none => simp [DocumentOf, hdocument]
  | some root =>
    simp only [DocumentOf, hdocument, bind_eq_ok, readSection_eq_ok, Option.some.injEq,
      exists_eq_left']
    constructor
    · rintro ⟨langs, hlangs, nets, hnets, h⟩
      obtain rfl := Except.ok.inj h
      exact ⟨hlangs, hnets⟩
    · rintro ⟨hlangs, hnets⟩
      exact ⟨c.langs, hlangs, c.nets, hnets, rfl⟩

theorem ofJson_eq_error :
    ofJson document = .error e ↔ ∃ f, e = .config f ∧ DocumentFault document f := by
  unfold ofJson
  cases hdocument : document.asObject? with
  | none =>
    constructor
    · exact fun h ↦ ⟨_, (Except.error.inj h).symm, .notAnObject hdocument⟩
    · rintro ⟨f, rfl, hf⟩
      cases hf with
      | notAnObject => rfl
      | langs hroot => simp [hdocument] at hroot
      | nets hroot => simp [hdocument] at hroot
  | some root =>
    simp only [bind_eq_error, readSection_eq_error, readSection_eq_ok, pure, Except.pure,
      reduceCtorEq, and_false, exists_false, or_false]
    constructor
    · rintro (⟨f, rfl, hf⟩ | ⟨langs, hlangs, f, rfl, hf⟩)
      · exact ⟨f, rfl, .langs hdocument hf⟩
      · exact ⟨f, rfl, .nets hdocument (exists_sectionOf_iff.1 ⟨langs, hlangs⟩) hf⟩
    · rintro ⟨f, rfl, hf⟩
      cases hf with
      | notAnObject hnone => simp [hdocument] at hnone
      | langs hroot hf =>
        obtain rfl := Option.some.inj (hdocument.symm.trans hroot)
        exact .inl ⟨f, rfl, hf⟩
      | nets hroot hlangs hf =>
        obtain rfl := Option.some.inj (hdocument.symm.trans hroot)
        obtain ⟨langs, hlangs⟩ := exists_sectionOf_iff.2 hlangs
        exact .inr ⟨langs, hlangs, f, rfl, hf⟩

theorem exists_documentOf_iff : (∃ c, DocumentOf document c) ↔ WellFormed document := by
  constructor
  · rintro ⟨c, root, hdocument, hlangs, hnets⟩
    exact ⟨root, hdocument, exists_sectionOf_iff.1 ⟨_, hlangs⟩, exists_sectionOf_iff.1 ⟨_, hnets⟩⟩
  · rintro ⟨root, hdocument, hlangs, hnets⟩
    obtain ⟨langs, hlangs⟩ := exists_sectionOf_iff.2 hlangs
    obtain ⟨nets, hnets⟩ := exists_sectionOf_iff.2 hnets
    exact ⟨⟨langs, nets⟩, root, hdocument, hlangs, hnets⟩

section Writing

def writeInstance (kind : Kind) (i : Instance) : Json :=
  .obj (i.params.insert kind.key (.str i.preset)).entries

def writeSection (kind : Kind) (instances : Dict Instance) : String × Json :=
  (kind.sectionKey, .obj (instances.entries.map fun e ↦ (e.1, writeInstance kind e.2)))

/-- The document of a configuration that has nothing besides. -/
def toJson (c : Config) : Json := .obj [writeSection .lang c.langs, writeSection .net c.nets]

theorem entryOf_writeInstance (h : i.params.get? kind.key = none) :
    EntryOf kind (writeInstance kind i) i := by
  refine ⟨i.params.insert kind.key (.str i.preset), ?_, ?_, fun key ↦ ?_⟩
  · exact congrArg some (Dict.ofList_eq (i.params.insert _ _).ascending)
  · rw [Dict.get?_insert, if_pos rfl]
  · rw [Dict.get?_insert]
    by_cases hkey : key = kind.key
    · rw [if_pos hkey, hkey, h]
    · rw [if_neg hkey, if_neg hkey]

theorem sectionOf_writeSection
    (hroot : root.get? kind.sectionKey = some (writeSection kind instances).2)
    (h : ∀ name i, instances.get? name = some i → i.params.get? kind.key = none) :
    SectionOf kind root instances := by
  have hentries : List.Forall₂ (fun a b ↦ a.1 = b.1 ∧ EntryOf kind a.2 b.2)
      (instances.entries.map fun e ↦ (e.1, writeInstance kind e.2)) instances.entries := by
    rw [List.forall₂_map_left_iff, List.forall₂_same]
    exact fun e he ↦ ⟨rfl, entryOf_writeInstance (h e.1 e.2 (Dict.get?_eq_some_iff.2 he))⟩
  refine ⟨_, _, hroot, congrArg some (Dict.ofList_eq ?_), Dict.rel_lookup hentries⟩
  exact List.pairwise_map.2 instances.ascending

theorem SectionOf.get?_key (h : SectionOf kind root instances) (hi : instances.get? name = some i) :
    i.params.get? kind.key = none := by
  obtain ⟨v, entries, -, -, hrel⟩ := h
  have hentry := hrel name
  rw [hi] at hentry
  generalize entries.get? name = entry at hentry
  cases hentry with
  | some h =>
    obtain ⟨_, -, -, hparams⟩ := h
    rw [hparams, if_pos rfl]

theorem documentOf_toJson (h : DocumentOf document c) : DocumentOf c.toJson c := by
  obtain ⟨root, -, hlangs, hnets⟩ := h
  refine ⟨_, rfl, sectionOf_writeSection ?_ fun _ _ ↦ hlangs.get?_key,
    sectionOf_writeSection ?_ fun _ _ ↦ hnets.get?_key⟩
  · have hne : Kind.lang.sectionKey ≠ Kind.net.sectionKey := by decide
    exact (Dict.get?_insert _ _ _ _).trans (if_neg hne)
  · exact (Dict.get?_insert _ _ _ _).trans (if_pos rfl)

end Writing

/-- Exactly the well-formed documents are read. A configuration is read of its documents only, of
which one can be made out of it again, and an error is the first fault of the document. -/
theorem reads_well_formed_documents (document : Json) :
    ((∃ c, ofJson document = .ok c) ↔ WellFormed document) ∧
    (∀ c, ofJson document = .ok c ↔ DocumentOf document c) ∧
    (∀ c, ofJson document = .ok c → ofJson c.toJson = .ok c) ∧
    ∀ e, ofJson document = .error e ↔ ∃ f, e = .config f ∧ DocumentFault document f := by
  refine ⟨?_, fun c ↦ ofJson_eq_ok, fun c hc ↦ ?_, fun e ↦ ofJson_eq_error⟩
  · simp only [ofJson_eq_ok, exists_documentOf_iff]
  · exact ofJson_eq_ok.2 (documentOf_toJson (ofJson_eq_ok.1 hc))

theorem reads_well_formed_documents_small :
    ∃ c, ofJson (.obj [("nets", .obj []),
        ("langs", .obj [("a", .obj [("k", .null), ("lang", .str "l")])])]) = .ok c ∧
      ofJson c.toJson = .ok c := by
  have hread : ofJson (.obj [("nets", .obj []),
      ("langs", .obj [("a", .obj [("k", .null), ("lang", .str "l")])])]) =
    .ok ⟨.ofList [("a", ⟨"l", .ofList [("k", .null)]⟩)], .empty⟩ := by rfl
  exact ⟨_, hread, (reads_well_formed_documents _).2.2.1 _ hread⟩

example : ofJson (.obj [("nets", .null), ("langs", .obj [("b", .null), ("a", .obj [])])]) =
    .error (.config (.missingPreset .lang "a")) := by rfl

end Config

end LangBench
