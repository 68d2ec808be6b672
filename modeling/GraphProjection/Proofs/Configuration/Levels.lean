import GraphProjection.Proofs.Configuration.Records

/-!
# The levels of a configuration

Each record of a configuration has its level: the relation and the settings hold single values, a
field may have a relation, a type has a table of fields, and the root has the settings and a table
of types.  For each of them is said what its entries come to, and decoding is described level by
level, the inner ones first.

Main statement: `Config.decodes`, what is accepted as a configuration and what is read from it.
-/

namespace GraphProjection

open Toml

namespace RelationConfig

/-- The keys of a relation, and the kinds of their values. -/
def level : Level := [("name", Is Text), ("local_key", Is Text), ("foreign_key", Is Text)]

/-- What the entries of a relation come to. -/
structure Reads (entries : Entries Toml) (r : RelationConfig) : Prop where
  name : Given (Holds Text) none (entries.get? "name") r.name
  localKey : Given (Holds Text) none (entries.get? "local_key") r.localKey
  foreignKey : Given (Holds Text) none (entries.get? "foreign_key") r.foreignKey

lemma readsLevel : ReadsLevel level Reads {} readEntry where
  names := by decide
  noDate := by decide
  accepts r key value := by
    unfold readEntry
    split
    · exact decodes_asString.admits_iff rfl _ value
    · exact decodes_asString.admits_iff rfl _ value
    · exact decodes_asString.admits_iff rfl _ value
    · exact iff_of_false nofun (Level.not_admits (by simp_all [level, Entries.names]) value)
  defaults := ⟨rfl, rfl, rfl⟩
  put entries r key value next hvalue hr h := by
    have hparts : Sets (Holds Text) "name" key value r.name next.name ∧
        Sets (Holds Text) "local_key" key value r.localKey next.localKey ∧
        Sets (Holds Text) "foreign_key" key value r.foreignKey next.foreignKey := by
      unfold readEntry at h
      split at h
      · obtain ⟨s, hs, rfl⟩ := decodes_asString.exists_means hvalue h
        simp [Sets, Holds, hs]
      · obtain ⟨s, hs, rfl⟩ := decodes_asString.exists_means hvalue h
        simp [Sets, Holds, hs]
      · obtain ⟨s, hs, rfl⟩ := decodes_asString.exists_means hvalue h
        simp [Sets, Holds, hs]
      · cases h
    obtain ⟨hname, hlocalKey, hforeignKey⟩ := hparts
    exact ⟨hr.name.put hname, hr.localKey.put hlocalKey, hr.foreignKey.put hforeignKey⟩

theorem decodes : Decodes ofToml (IsRecord level []) (Comes level [] Reads) :=
  readsLevel.decodes fun value r => readsLevel.asRecord_eq_ok_iff.trans (by simp)

end RelationConfig

namespace FieldConfig

/-- The keys of a field, and the kinds of their values. -/
def level : Level :=
  [("type", Is Text), ("column", Is Text), ("always", Is Flag), ("selectable", Is Flag),
    ("expression", Is Text), ("alias", Is Text), ("relation", IsRecord RelationConfig.level [])]

/-- What the entries of a field come to.  The type is required, so it is never the absent one. -/
structure Reads (entries : Entries Toml) (f : FieldConfig) : Prop where
  type : Given Text "" (entries.get? "type") f.type
  column : Given (Holds Text) none (entries.get? "column") f.column
  always : Given Flag false (entries.get? "always") f.always
  selectable : Given Flag true (entries.get? "selectable") f.selectable
  expression : Given (Holds Text) none (entries.get? "expression") f.expression
  outputAlias : Given (Holds Text) none (entries.get? "alias") f.outputAlias
  relation : Given (Holds (Comes RelationConfig.level [] RelationConfig.Reads)) none
    (entries.get? "relation") f.relation

lemma readsLevel : ReadsLevel level Reads {} readEntry where
  names := by decide
  noDate := by decide
  accepts f key value := by
    unfold readEntry
    split
    · exact decodes_asString.admits_iff rfl _ value
    · exact decodes_asString.admits_iff rfl _ value
    · exact decodes_asBool.admits_iff rfl _ value
    · exact decodes_asBool.admits_iff rfl _ value
    · exact decodes_asString.admits_iff rfl _ value
    · exact decodes_asString.admits_iff rfl _ value
    · exact RelationConfig.decodes.admits_iff rfl _ value
    · exact iff_of_false nofun (Level.not_admits (by simp_all [level, Entries.names]) value)
  defaults := ⟨rfl, rfl, rfl, rfl, rfl, rfl, rfl⟩
  put entries f key value next hvalue hf h := by
    have hparts : Sets Text "type" key value f.type next.type ∧
        Sets (Holds Text) "column" key value f.column next.column ∧
        Sets Flag "always" key value f.always next.always ∧
        Sets Flag "selectable" key value f.selectable next.selectable ∧
        Sets (Holds Text) "expression" key value f.expression next.expression ∧
        Sets (Holds Text) "alias" key value f.outputAlias next.outputAlias ∧
        Sets (Holds (Comes RelationConfig.level [] RelationConfig.Reads)) "relation" key value
          f.relation next.relation := by
      unfold readEntry at h
      split at h
      · obtain ⟨s, hs, rfl⟩ := decodes_asString.exists_means hvalue h
        simp [Sets, hs]
      · obtain ⟨s, hs, rfl⟩ := decodes_asString.exists_means hvalue h
        simp [Sets, Holds, hs]
      · obtain ⟨b, hb, rfl⟩ := decodes_asBool.exists_means hvalue h
        simp [Sets, hb]
      · obtain ⟨b, hb, rfl⟩ := decodes_asBool.exists_means hvalue h
        simp [Sets, hb]
      · obtain ⟨s, hs, rfl⟩ := decodes_asString.exists_means hvalue h
        simp [Sets, Holds, hs]
      · obtain ⟨s, hs, rfl⟩ := decodes_asString.exists_means hvalue h
        simp [Sets, Holds, hs]
      · obtain ⟨r, hr, rfl⟩ := RelationConfig.decodes.exists_means hvalue h
        simp [Sets, Holds, hr]
      · cases h
    obtain ⟨htype, hcolumn, halways, hselectable, hexpression, halias, hrelation⟩ := hparts
    exact ⟨hf.type.put htype, hf.column.put hcolumn, hf.always.put halways,
      hf.selectable.put hselectable, hf.expression.put hexpression, hf.outputAlias.put halias,
      hf.relation.put hrelation⟩

/-- A field is a record with a type. -/
theorem ofToml_eq_ok_iff {value : Toml} {f : FieldConfig} :
    ofToml value = .ok f ↔ ∃ entries, Lists level.names value entries ∧
      ReadsLevel.readRecord readEntry {} entries = .ok f ∧
        ∀ key ∈ ["type"], key ∈ entries.names := by
  simp only [List.forall_mem_singleton, ← Entries.isSome_get?_iff]
  constructor
  · intro h
    cases hfield : value.asRecord keys {} readEntry with
    | error e =>
      rw [ofToml, hfield] at h
      cases hentries : value.asRecordEntries keys with
      | error _ =>
        rw [hentries] at h
        cases h
      | ok _ =>
        rw [hentries] at h
        cases h
    | ok field =>
      obtain ⟨entries, hlists, hread⟩ := readsLevel.asRecord_eq_ok_iff.1 hfield
      have hentries : value.asRecordEntries keys = .ok entries := hlists.asRecordEntries
      rw [ofToml, hfield, hentries] at h
      -- The record is read first, and only then is the type looked for.
      by_cases htype : entries.has "type" = true
      · cases (if_pos htype).symm.trans h
        exact ⟨entries, hlists, hread, htype⟩
      · cases (if_neg htype).symm.trans h
  · rintro ⟨entries, hlists, hread, htype⟩
    have hentries : value.asRecordEntries keys = .ok entries := hlists.asRecordEntries
    have hfield : value.asRecord keys {} readEntry = .ok f :=
      readsLevel.asRecord_eq_ok_iff.2 ⟨entries, hlists, hread⟩
    rw [ofToml, hfield, hentries]
    exact if_pos htype

theorem decodes : Decodes ofToml (IsRecord level ["type"]) (Comes level ["type"] Reads) :=
  readsLevel.decodes fun _ _ => ofToml_eq_ok_iff

end FieldConfig

namespace TypeConfig

/-- The keys of a type, and the kinds of their values. -/
def level : Level :=
  [("table", Is Text), ("fields", IsCollection (IsRecord FieldConfig.level ["type"]))]

/-- What the entries of a type come to. -/
structure Reads (entries : Entries Toml) (t : TypeConfig) : Prop where
  table : Given (Holds Text) none (entries.get? "table") t.table
  fields : Given (Collects (Comes FieldConfig.level ["type"] FieldConfig.Reads)) []
    (entries.get? "fields") t.fields

lemma decodes_fields : Decodes (asEntries FieldConfig.ofToml)
    (IsCollection (IsRecord FieldConfig.level ["type"]))
    (Collects (Comes FieldConfig.level ["type"] FieldConfig.Reads)) :=
  FieldConfig.decodes.asEntries not_isRecord_string

lemma readsLevel : ReadsLevel level Reads {} readEntry where
  names := by decide
  noDate := by decide
  accepts t key value := by
    unfold readEntry
    split
    · exact decodes_asString.admits_iff rfl _ value
    · exact decodes_fields.admits_iff rfl _ value
    · exact iff_of_false nofun (Level.not_admits (by simp_all [level, Entries.names]) value)
  defaults := ⟨rfl, rfl⟩
  put entries t key value next hvalue ht h := by
    have hparts : Sets (Holds Text) "table" key value t.table next.table ∧
        Sets (Collects (Comes FieldConfig.level ["type"] FieldConfig.Reads)) "fields" key value
          t.fields next.fields := by
      unfold readEntry at h
      split at h
      · obtain ⟨s, hs, rfl⟩ := decodes_asString.exists_means hvalue h
        simp [Sets, Holds, hs]
      · obtain ⟨fields, hfields, rfl⟩ := decodes_fields.exists_means hvalue h
        simp [Sets, hfields]
      · cases h
    exact ⟨ht.table.put hparts.1, ht.fields.put hparts.2⟩

theorem decodes : Decodes ofToml (IsRecord level []) (Comes level [] Reads) :=
  readsLevel.decodes fun value t => readsLevel.asRecord_eq_ok_iff.trans (by simp)

end TypeConfig

lemma AlwaysSelect.ofName?_eq_some_iff (s : String) (policy : AlwaysSelect) :
    ofName? s = some policy ↔ policy.name = s := by
  constructor
  · intro h
    have hname := List.find?_some h
    exact beq_iff_eq.1 hname
  · rintro rfl
    cases policy <;> decide

namespace Settings

/-- The keys of the settings, and the kinds of their values. -/
def level : Level :=
  [("debug", Is Flag), ("default_per_page", Is Size),
    ("always_select", Is (Picks AlwaysSelect.name))]

/-- What the entries of the settings come to. -/
structure Reads (entries : Entries Toml) (s : Settings) : Prop where
  debug : Given Flag false (entries.get? "debug") s.debug
  defaultPerPage : Given Size 15 (entries.get? "default_per_page") s.defaultPerPage
  alwaysSelect : Given (Picks AlwaysSelect.name) .currentLevel (entries.get? "always_select")
    s.alwaysSelect

lemma readsLevel : ReadsLevel level Reads {} readEntry where
  names := by decide
  noDate := by decide
  accepts s key value := by
    unfold readEntry
    split
    · exact decodes_asBool.admits_iff rfl _ value
    · exact decodes_asSize.admits_iff rfl _ value
    · exact (decodes_asVariant AlwaysSelect.ofName?_eq_some_iff _).admits_iff rfl _ value
    · exact iff_of_false nofun (Level.not_admits (by simp_all [level, Entries.names]) value)
  defaults := ⟨rfl, rfl, rfl⟩
  put entries s key value next hvalue hs h := by
    have hparts : Sets Flag "debug" key value s.debug next.debug ∧
        Sets Size "default_per_page" key value s.defaultPerPage next.defaultPerPage ∧
        Sets (Picks AlwaysSelect.name) "always_select" key value s.alwaysSelect
          next.alwaysSelect := by
      unfold readEntry at h
      split at h
      · obtain ⟨b, hb, rfl⟩ := decodes_asBool.exists_means hvalue h
        simp [Sets, hb]
      · obtain ⟨n, hn, rfl⟩ := decodes_asSize.exists_means hvalue h
        simp [Sets, hn]
      · obtain ⟨policy, hpolicy, rfl⟩ :=
          (decodes_asVariant AlwaysSelect.ofName?_eq_some_iff _).exists_means hvalue h
        simp [Sets, hpolicy]
      · cases h
    obtain ⟨hdebug, hperPage, hpolicy⟩ := hparts
    exact ⟨hs.debug.put hdebug, hs.defaultPerPage.put hperPage, hs.alwaysSelect.put hpolicy⟩

theorem decodes : Decodes ofToml (IsRecord level []) (Comes level [] Reads) :=
  readsLevel.decodes fun value s => readsLevel.asRecord_eq_ok_iff.trans (by simp)

end Settings

namespace Config

/-- The keys of a configuration, and the kinds of their values. -/
def level : Level :=
  [("settings", IsRecord Settings.level []), ("types", IsCollection (IsRecord TypeConfig.level []))]

/-- What the entries of a configuration come to. -/
structure Reads (entries : Entries Toml) (c : Config) : Prop where
  settings : Given (Comes Settings.level [] Settings.Reads) {} (entries.get? "settings") c.settings
  types : Given (Collects (Comes TypeConfig.level [] TypeConfig.Reads)) [] (entries.get? "types")
    c.types

lemma decodes_types : Decodes (asEntries TypeConfig.ofToml)
    (IsCollection (IsRecord TypeConfig.level []))
    (Collects (Comes TypeConfig.level [] TypeConfig.Reads)) :=
  TypeConfig.decodes.asEntries not_isRecord_string

lemma readsLevel : ReadsLevel level Reads {} readEntry where
  names := by decide
  noDate := by decide
  accepts c key value := by
    unfold readEntry
    split
    · exact Settings.decodes.admits_iff rfl _ value
    · exact decodes_types.admits_iff rfl _ value
    · exact iff_of_false nofun (Level.not_admits (by simp_all [level, Entries.names]) value)
  defaults := ⟨rfl, rfl⟩
  put entries c key value next hvalue hc h := by
    have hparts : Sets (Comes Settings.level [] Settings.Reads) "settings" key value c.settings
          next.settings ∧
        Sets (Collects (Comes TypeConfig.level [] TypeConfig.Reads)) "types" key value c.types
          next.types := by
      unfold readEntry at h
      split at h
      · obtain ⟨settings, hsettings, rfl⟩ := Settings.decodes.exists_means hvalue h
        simp [Sets, hsettings]
      · obtain ⟨types, htypes, rfl⟩ := decodes_types.exists_means hvalue h
        simp [Sets, htypes]
      · cases h
    exact ⟨hc.settings.put hparts.1, hc.types.put hparts.2⟩

theorem decodes : Decodes (asRecord keys {} readEntry) (IsRecord level []) (Comes level [] Reads) :=
  readsLevel.decodes fun value c => readsLevel.asRecord_eq_ok_iff.trans (by simp)

/-- A document is accepted as a configuration if it has no keys but those of a configuration, and
values of their kinds. -/
theorem exists_ofEntries_iff (entries : Entries Toml) :
    (∃ c, ofEntries entries = .ok c) ↔ ∀ pair ∈ entries, level.Admits pair.1 pair.2 :=
  readsLevel.exists_readRecord_iff {} entries

/-- What is read from a document is what its entries come to. -/
lemma reads_of_ofEntries {entries : Entries Toml} (hentries : Keyed (.table entries)) {c : Config}
    (h : ofEntries entries = .ok c) : Reads entries c := by
  obtain ⟨_, ⟨⟩, -, hreads⟩ := decodes.means (.table entries) c hentries h
  exact hreads

lemma parse_of_parse? {text : String} {entries : Entries Toml}
    (h : Toml.parse? text = some entries) : parse text = ofEntries entries := by
  rw [parse, h]

lemma exists_parse?_of_parse {text : String} {c : Config} (h : parse text = .ok c) :
    ∃ entries, Toml.parse? text = some entries := by
  cases htext : Toml.parse? text with
  | none =>
    rw [parse, htext] at h
    cases h
  | some entries => exact ⟨entries, rfl⟩

/-- The types of a configuration have different names. -/
lemma nodup_names_types {text : String} {c : Config} (h : parse text = .ok c) :
    c.types.names.Nodup := by
  obtain ⟨entries, htext⟩ := exists_parse?_of_parse h
  have hkeyed := Toml.keyed_of_parse? htext
  have htypes := (reads_of_ofEntries hkeyed (parse_of_parse? htext ▸ h)).types
  cases hget : entries.get? "types" with
  | none =>
    rw [hget] at htypes
    rw [show c.types = [] from htypes]
    exact List.nodup_nil
  | some value =>
    rw [hget] at htypes
    cases hkeyed with
    | table names each => exact htypes.nodup_names (each _ (Entries.mem_of_get?_eq_some hget))

end Config

end GraphProjection
