import GraphProjection.Proofs.Configuration
import GraphProjection.Proofs.Configuration.Keys
import Mathlib.Data.List.Forall2

/-!
# Records of a document

The tables of a configuration are records of fixed keys.  Here is said what a record is, apart from
how it is decoded: `Toml.Lists` gives its entries, a `Toml.Level` says which keys it may have and of
what kind their values are, and `Toml.Given` says what a key comes to, whether it is there or not.

A decoder is described by `Toml.Decodes`: it accepts the values of one kind and no others, and what
it makes of them is what they mean.  This is put together along the levels of a configuration: a
table of any keys is decoded if its values are (`Toml.Decodes.asEntries`), and a record if each of
its entries is (`Toml.ReadsLevel.decodes`).
-/

namespace GraphProjection.Toml

/-- A decoder accepts the values of one kind, and no others; what it makes of a value in which no
key is written twice is what the value means. -/
structure Decodes {α : Type} (decode : Toml → Except ConfigError α) (kind : Toml → Prop)
    (Means : Toml → α → Prop) : Prop where
  accepts : ∀ value, (∃ x, decode value = .ok x) ↔ kind value
  means : ∀ value x, value.Keyed → decode value = .ok x → Means value x

lemma Decodes.of_iff {α : Type} {decode : Toml → Except ConfigError α} {Means : Toml → α → Prop}
    (h : ∀ value x, decode value = .ok x ↔ Means value x) :
    Decodes decode (fun value => ∃ x, Means value x) Means :=
  ⟨fun value => exists_congr (h value), fun value x _ => (h value x).1⟩

/-! ## Single values -/

/-- A value is a text. -/
def Text (value : Toml) (s : String) : Prop := value = .string s

/-- A value is a truth value. -/
def Flag (value : Toml) (b : Bool) : Prop := value = .boolean b

/-- A value is the size of a page: a whole number that fits in an unsigned word. -/
def Size (value : Toml) (n : Nat) : Prop := value = .integer n ∧ n ≤ maxSize

/-- A value names one of some things: by a string, or by the only key of a table, under which there
is nothing. -/
inductive Picks {α : Type} (name : α → String) : Toml → α → Prop
  | string (x : α) : Picks name (.string (name x)) x
  | table (x : α) {content : Toml} (empty : content = .table [] ∨ content = .array []) :
    Picks name (.table [(name x, content)]) x

/-- A value is of the kind whose values mean something. -/
def Is {α : Type} (Means : Toml → α → Prop) (value : Toml) : Prop := ∃ x, Means value x

lemma decodes_asString : Decodes asString (Is Text) Text :=
  .of_iff fun value s => by cases value <;> simp [asString, Text]

lemma decodes_asBool : Decodes asBool (Is Flag) Flag :=
  .of_iff fun value b => by cases value <;> simp [asBool, Flag]

lemma decodes_asSize : Decodes asSize (Is Size) Size :=
  .of_iff fun value n => by
    unfold asSize Size
    split
    · next m =>
      constructor
      · intro h
        split at h
        · next hle =>
          cases h
          exact ⟨rfl, hle⟩
        · cases h
      · rintro ⟨hvalue, hle⟩
        obtain rfl : m = n := Int.ofNat.inj (Toml.integer.inj hvalue)
        rw [if_pos hle]
    · next hother =>
      constructor
      · intro h
        cases h
      · rintro ⟨rfl, -⟩
        exact absurd rfl (hother n)

lemma asVariant_string {α : Type} {ofName? : String → Option α} {names : List String}
    {s : String} {x : α} :
    (Toml.string s).asVariant ofName? names = .ok x ↔ ofName? s = some x := by
  simp only [asVariant]
  cases ofName? s <;> simp

lemma asVariant_table {α : Type} {ofName? : String → Option α} {names : List String}
    {s : String} {content : Toml} {x : α} :
    (Toml.table [(s, content)]).asVariant ofName? names = .ok x ↔
      ofName? s = some x ∧ (content = .table [] ∨ content = .array []) := by
  simp only [asVariant]
  cases ofName? s with
  | none => exact iff_of_false nofun fun h => nomatch h.1
  | some y =>
    constructor
    · intro h
      cases content with
      | table entries =>
        cases entries with
        | nil => exact ⟨congrArg some (Except.ok.inj h), .inl rfl⟩
        | cons => cases h
      | array items =>
        cases items with
        | nil => exact ⟨congrArg some (Except.ok.inj h), .inr rfl⟩
        | cons => cases h
      | _ => cases h
    · rintro ⟨hy, rfl | rfl⟩
      · exact congrArg Except.ok (Option.some.inj hy)
      · exact congrArg Except.ok (Option.some.inj hy)

lemma decodes_asVariant {α : Type} {ofName? : String → Option α} {name : α → String}
    (hname : ∀ s x, ofName? s = some x ↔ name x = s) (names : List String) :
    Decodes (asVariant ofName? names) (Is (Picks name)) (Picks name) :=
  .of_iff fun value x => by
    constructor
    · intro h
      cases value with
      | string s =>
        obtain rfl := (hname s x).1 (asVariant_string.1 h)
        exact .string x
      | table entries =>
        match entries, h with
        | [(s, content)], h =>
          obtain ⟨hfound, hempty⟩ := asVariant_table.1 h
          obtain rfl := (hname s x).1 hfound
          exact .table x hempty
      | _ => cases h
    · rintro (⟨⟩ | ⟨_, hempty⟩)
      · exact asVariant_string.2 ((hname _ x).2 rfl)
      · exact asVariant_table.2 ⟨(hname _ x).2 rfl, hempty⟩

/-! ## Collections -/

/-- A value is a table of any keys, all values of which are of one kind. -/
def IsCollection (kind : Toml → Prop) (value : Toml) : Prop :=
  ∃ entries, value = .table entries ∧ ∀ pair ∈ entries, kind pair.2

/-- An entry is related to one of the same key. -/
def SameKey {α : Type} (R : Toml → α → Prop) (pair : String × Toml) (x : String × α) : Prop :=
  pair.1 = x.1 ∧ R pair.2 x.2

/-- A value is a table whose values mean some things, under the same keys and in the same order. -/
def Collects {α : Type} (Means : Toml → α → Prop) (value : Toml) (xs : Entries α) : Prop :=
  ∃ entries, value = .table entries ∧ List.Forall₂ (SameKey Means) entries xs

/-- A table in which no key is written twice is a collection of distinct names. -/
lemma Collects.nodup_names {α : Type} {Means : Toml → α → Prop} {value : Toml} {xs : Entries α}
    (h : Collects Means value xs) (hvalue : value.Keyed) : xs.names.Nodup := by
  obtain ⟨entries, rfl, hentries⟩ := h
  have hsame : List.Forall₂ (· = ·) (Entries.names entries) xs.names :=
    List.forall₂_map_left_iff.2 (List.forall₂_map_right_iff.2 (hentries.imp fun _ _ h => h.1))
  rw [List.forall₂_eq_eq_eq] at hsame
  cases hvalue with
  | table names each => exact hsame ▸ names

section Folds

variable {α β ε : Type}

/-- Values are decoded in order, and all of them are. -/
theorem mapM_eq_ok_iff {decode : α → Except ε β} {xs : List α} {ys : List β} :
    xs.mapM decode = .ok ys ↔ List.Forall₂ (fun x y => decode x = .ok y) xs ys := by
  induction xs generalizing ys with
  | nil =>
    rw [List.mapM_nil, List.forall₂_nil_left_iff]
    exact ⟨fun h => (Except.ok.inj h).symm, fun h => congrArg Except.ok h.symm⟩
  | cons x xs ih =>
    rw [List.mapM_cons, List.forall₂_cons_left_iff]
    cases hx : decode x with
    | error e =>
      constructor
      · intro h
        cases h
      · rintro ⟨y, rest, h, -⟩
        cases h
    | ok y =>
      constructor
      · intro h
        cases hrest : xs.mapM decode with
        | error e =>
          rw [hrest] at h
          cases h
        | ok rest =>
          rw [hrest] at h
          cases h
          exact ⟨y, rest, rfl, ih.1 hrest, rfl⟩
      · rintro ⟨_, rest, ⟨⟩, hrest, rfl⟩
        rw [ih.2 hrest]
        rfl

/-- Everything in a list has a partner if there is a list of partners, and only then. -/
theorem exists_forall₂_iff {R : α → β → Prop} {xs : List α} :
    (∃ ys, List.Forall₂ R xs ys) ↔ ∀ x ∈ xs, ∃ y, R x y := by
  induction xs with
  | nil => exact ⟨fun _ _ hx => absurd hx List.not_mem_nil, fun _ => ⟨[], .nil⟩⟩
  | cons x xs ih =>
    rw [List.forall_mem_cons, ← ih]
    constructor
    · rintro ⟨_, _ | ⟨hx, hxs⟩⟩
      exact ⟨⟨_, hx⟩, _, hxs⟩
    · rintro ⟨⟨y, hx⟩, ys, hxs⟩
      exact ⟨y :: ys, .cons hx hxs⟩

/-- A fold goes through if every step does, whatever it starts from, and only then. -/
theorem exists_foldlM_iff {step : β → α → Except ε β} {p : α → Prop}
    (hstep : ∀ before x, (∃ after, step before x = .ok after) ↔ p x) (xs : List α) (start : β) :
    (∃ done, xs.foldlM step start = .ok done) ↔ ∀ x ∈ xs, p x := by
  induction xs generalizing start with
  | nil => exact ⟨fun _ _ hx => absurd hx List.not_mem_nil, fun _ => ⟨start, rfl⟩⟩
  | cons x xs ih =>
    rw [List.foldlM_cons, List.forall_mem_cons, ← hstep start x]
    cases hx : step start x with
    | error e =>
      constructor
      · rintro ⟨done, h⟩
        cases h
      · rintro ⟨⟨after, h⟩, -⟩
        cases h
    | ok next => exact (ih next).trans ⟨fun h => ⟨⟨next, rfl⟩, h⟩, fun h => h.2⟩

end Folds

/-- A value is seen as a table if it is one, or a date. -/
theorem asTable_eq_ok_iff {value : Toml} {entries : Entries Toml} :
    value.asTable = .ok entries ↔
      value = .table entries ∨
        ∃ written, value = .datetime written ∧ [(dateKey, .string written)] = entries := by
  cases value <;> simp [asTable, entries?]

lemma asEntries_eq_ok_iff {α : Type} {decode : Toml → Except ConfigError α} {value : Toml}
    {xs : Entries α} :
    value.asEntries decode = .ok xs ↔ ∃ entries, value.asTable = .ok entries ∧
      List.Forall₂ (SameKey fun value x => decode value = .ok x) entries xs := by
  have hpair (pair : String × Toml) (x : String × α) :
      (decode pair.2 >>= fun decoded => Except.ok (pair.1, decoded)) = Except.ok x ↔
        SameKey (fun value x => decode value = .ok x) pair x := by
    rw [SameKey]
    cases decode pair.2 with
    | error e => exact iff_of_false nofun fun h => nomatch h.2
    | ok y =>
      constructor
      · rintro ⟨⟩
        exact ⟨rfl, rfl⟩
      · rintro ⟨hkey, ⟨⟩⟩
        rw [hkey]
        rfl
  rw [asEntries]
  cases value.asTable with
  | error e => exact iff_of_false nofun fun ⟨_, h, _⟩ => nomatch h
  | ok entries =>
    change List.mapM _ entries = Except.ok xs ↔ _
    simp only [mapM_eq_ok_iff, hpair, Except.ok.injEq, exists_eq_left']

/-- A table of any keys is decoded if its values are.  Where no string is decoded, no date is
either. -/
theorem Decodes.asEntries {α : Type} {decode : Toml → Except ConfigError α} {kind : Toml → Prop}
    {Means : Toml → α → Prop} (h : Decodes decode kind Means) (hstring : ∀ s, ¬kind (.string s)) :
    Decodes (Toml.asEntries decode) (IsCollection kind) (Collects Means) where
  accepts value := by
    have hvalue (pair : String × Toml) :
        (∃ x : String × α, SameKey (fun value x => decode value = .ok x) pair x) ↔
          kind pair.2 := by
      rw [← h.accepts]
      exact ⟨fun ⟨x, hx⟩ => ⟨x.2, hx.2⟩, fun ⟨y, hy⟩ => ⟨(pair.1, y), rfl, hy⟩⟩
    -- Quantifiers are moved to the entries, where `h` decides about each value alone.
    simp only [asEntries_eq_ok_iff, exists_comm (α := Entries α), exists_and_left,
      exists_forall₂_iff, hvalue]
    constructor
    · rintro ⟨entries, hentries, hkinds⟩
      obtain rfl | ⟨written, rfl, rfl⟩ := asTable_eq_ok_iff.1 hentries
      · exact ⟨entries, rfl, hkinds⟩
      · -- A date is seen as a table of one string.
        exact absurd (hkinds _ List.mem_cons_self) (hstring written)
    · rintro ⟨entries, rfl, hkinds⟩
      exact ⟨entries, rfl, hkinds⟩
  means value xs hvalue hxs := by
    obtain ⟨entries, hentries, hdecoded⟩ := asEntries_eq_ok_iff.1 hxs
    obtain rfl | ⟨written, rfl, rfl⟩ := asTable_eq_ok_iff.1 hentries
    · cases hvalue with
      | table names each =>
        refine ⟨entries, rfl, ((List.forall₂_and_left _ _).2 ⟨each, hdecoded⟩).imp ?_⟩
        exact fun pair x hx => ⟨hx.2.1, h.means _ _ hx.1 hx.2.2⟩
    · cases hdecoded with
      | cons hdate => exact absurd ((h.accepts _).1 ⟨_, hdate.2⟩) (hstring written)

/-! ## Records -/

/-- The values that are records with some keys, and what they give for the keys: a table gives its
own entries, and an array gives values of the first keys, in order. -/
inductive Lists (keys : List String) : Toml → Entries Toml → Prop
  | table (entries : Entries Toml) : Lists keys (.table entries) entries
  | array (items : List Toml) : Lists keys (.array items) (keys.zip items)

lemma Lists.asRecordEntries {keys : List String} {value : Toml} {entries : Entries Toml}
    (h : Lists keys value entries) : value.asRecordEntries keys = .ok entries := by
  cases h <;> rfl

/-- The items of an array stand under the first keys. -/
lemma names_zip_sublist (keys : List String) (items : List Toml) :
    (Entries.names (keys.zip items)).Sublist keys := by
  induction keys generalizing items with
  | nil => exact .slnil
  | cons key keys ih =>
    cases items with
    | nil => exact List.nil_sublist _
    | cons item items => exact (ih items).cons_cons key

lemma Lists.keyed {keys : List String} (hkeys : keys.Nodup) {value : Toml}
    {entries : Entries Toml} (h : Lists keys value entries) (hvalue : value.Keyed) :
    Keyed (.table entries) := by
  cases h with
  | table => exact hvalue
  | array items =>
    cases hvalue with
    | array each =>
      exact .table (hkeys.sublist (names_zip_sublist keys items)) fun pair hpair =>
        each pair.2 (List.of_mem_zip hpair).2

/-- The keys that a record may have, each with the kind of its values. -/
abbrev Level := Entries (Toml → Prop)

/-- A level has a key, and a value is of the kind of that key. -/
def Level.Admits (level : Level) (key : String) (value : Toml) : Prop :=
  ∃ kind, level.get? key = some kind ∧ kind value

lemma Level.admits_iff {level : Level} {key : String} {kind : Toml → Prop}
    (h : level.get? key = some kind) (value : Toml) : level.Admits key value ↔ kind value := by
  simp [Admits, h]

lemma Level.not_admits {level : Level} {key : String} (h : key ∉ level.names) (value : Toml) :
    ¬level.Admits key value := by
  simp [Admits, (Entries.get?_eq_none_iff level key).2 h]

/-- A value is a record of a level: it gives nothing but values of the right kind for keys of the
level, and something for each key that is required. -/
def IsRecord (level : Level) (required : List String) (value : Toml) : Prop :=
  ∃ entries, Lists level.names value entries ∧ (∀ pair ∈ entries, level.Admits pair.1 pair.2) ∧
    ∀ key ∈ required, key ∈ entries.names

/-- A key is read if its value is decoded. -/
theorem Decodes.admits_iff {α β : Type} {decode : Toml → Except ConfigError α} {kind : Toml → Prop}
    {Means : Toml → α → Prop} (h : Decodes decode kind Means) {level : Level} {key : String}
    (hkey : level.get? key = some kind) (f : α → β) (value : Toml) :
    (∃ y, (decode value).map f = .ok y) ↔ level.Admits key value := by
  rw [Level.admits_iff hkey, ← h.accepts value]
  constructor
  · rintro ⟨y, hy⟩
    obtain ⟨x, hx, -⟩ := exists_of_map_eq_ok hy
    exact ⟨x, hx⟩
  · rintro ⟨x, hx⟩
    exact ⟨f x, by rw [hx]; rfl⟩

lemma Decodes.exists_means {α β : Type} {decode : Toml → Except ConfigError α}
    {kind : Toml → Prop} {Means : Toml → α → Prop} (h : Decodes decode kind Means) {f : α → β}
    {value : Toml} {y : β} (hvalue : value.Keyed) (hy : (decode value).map f = .ok y) :
    ∃ x, Means value x ∧ f x = y := by
  obtain ⟨x, hx, hf⟩ := exists_of_map_eq_ok hy
  exact ⟨x, h.means value x hvalue hx, hf⟩

lemma not_isRecord_string {level : Level} {required : List String} (s : String) :
    ¬IsRecord level required (.string s) := by
  rintro ⟨_, ⟨⟩, -⟩

/-- What a key comes to: what its value means, and something else where it is absent. -/
def Given {α : Type} (Means : Toml → α → Prop) (absent : α) : Option Toml → α → Prop
  | some value, x => Means value x
  | none, x => x = absent

/-- A value means what an option holds. -/
def Holds {α : Type} (Means : Toml → α → Prop) (value : Toml) (x : Option α) : Prop :=
  ∃ y, x = some y ∧ Means value y

/-- What an entry does to the part of a record that belongs to a key of its own: under this key its
value is what the part comes to, and under any other the part stays what it is. -/
def Sets {α : Type} (Means : Toml → α → Prop) (own key : String) (value : Toml) (before after : α) :
    Prop :=
  if key = own then Means value after else after = before

/-- What a key comes to when one more entry is read. -/
lemma Given.put {α : Type} {Means : Toml → α → Prop} {absent before after : α}
    {entries : Entries Toml} {own key : String} {value : Toml}
    (h : Given Means absent (entries.get? own) before)
    (hset : Sets Means own key value before after) :
    Given Means absent ((entries.put key value).get? own) after := by
  by_cases hkey : key = own
  · rw [Sets, if_pos hkey] at hset
    rwa [hkey, Entries.get?_put_self]
  · rw [Sets, if_neg hkey] at hset
    rwa [Entries.get?_put_of_ne entries value hkey, hset]

/-- A value is a record of the keys of a level that gives something for each key that is required,
and its entries come to something. -/
def Comes {α : Type} (level : Level) (required : List String) (Reads : Entries Toml → α → Prop)
    (value : Toml) (r : α) : Prop :=
  ∃ entries, Lists level.names value entries ∧ (∀ key ∈ required, key ∈ entries.names) ∧
    Reads entries r

/-- Entries are read one by one according to a level, and what has been read is at any time what the
entries so far come to. -/
structure ReadsLevel {α : Type} (level : Level) (Reads : Entries Toml → α → Prop) (defaults : α)
    (read : α → String → Toml → Except ConfigError α) : Prop where
  names : level.names.Nodup
  noDate : dateKey ∉ level.names
  accepts : ∀ r key value, (∃ next, read r key value = .ok next) ↔ level.Admits key value
  defaults : Reads [] defaults
  put : ∀ entries r key value next, value.Keyed → Reads entries r → read r key value = .ok next →
    Reads (entries.put key value) next

namespace ReadsLevel

variable {α : Type} {level : Level} {Reads : Entries Toml → α → Prop} {defaults : α}
  {read : α → String → Toml → Except ConfigError α}

/-- The entries of a record, read on top of its defaults. -/
def readRecord (read : α → String → Toml → Except ConfigError α) (defaults : α)
    (entries : Entries Toml) : Except ConfigError α :=
  entries.foldlM (fun record (key, value) => read record key value) defaults

lemma reads_of_readRecord (h : ReadsLevel level Reads defaults read) {entries : Entries Toml}
    (hentries : ∀ pair ∈ entries, pair.2.Keyed) {before : Entries Toml} {start done : α}
    (hstart : Reads before start) (hdone : readRecord read start entries = .ok done) :
    Reads (before.putAll entries) done := by
  induction entries generalizing before start with
  | nil =>
    cases hdone
    exact hstart
  | cons pair rest ih =>
    obtain ⟨key, value⟩ := pair
    rw [List.forall_mem_cons] at hentries
    change (read start key value >>= fun next => readRecord read next rest) = .ok done at hdone
    cases hnext : read start key value with
    | error e =>
      rw [hnext] at hdone
      cases hdone
    | ok next =>
      rw [hnext] at hdone
      exact ih hentries.2 (h.put _ _ _ _ _ hentries.1 hstart hnext) hdone

lemma exists_readRecord_iff (h : ReadsLevel level Reads defaults read) (start : α)
    (entries : Entries Toml) : (∃ done, readRecord read start entries = .ok done) ↔
      ∀ pair ∈ entries, level.Admits pair.1 pair.2 :=
  exists_foldlM_iff (fun r pair => h.accepts r pair.1 pair.2) entries start

/-- What is read as a record is a table or an array.  A date is neither, for the key under which it
shows is no key of a record. -/
theorem asRecord_eq_ok_iff (h : ReadsLevel level Reads defaults read) {value : Toml} {r : α} :
    value.asRecord level.names defaults read = .ok r ↔
      ∃ entries, Lists level.names value entries ∧ readRecord read defaults entries = .ok r := by
  constructor
  · intro hr
    cases value with
    | table entries => exact ⟨entries, .table entries, hr⟩
    | array items => exact ⟨_, .array items, hr⟩
    | datetime written =>
      have hadmits := (h.exists_readRecord_iff defaults [(dateKey, .string written)]).1 ⟨r, hr⟩
      exact absurd (hadmits _ List.mem_cons_self) (Level.not_admits h.noDate _)
    | _ => cases hr
  · rintro ⟨_, ⟨⟩, hr⟩
    · exact hr
    · exact hr

/-- A record is decoded if it has the keys that are required and each of its entries is read. -/
theorem decodes (h : ReadsLevel level Reads defaults read) {required : List String}
    {decode : Toml → Except ConfigError α}
    (hdecode : ∀ value r, decode value = .ok r ↔
      ∃ entries, Lists level.names value entries ∧ readRecord read defaults entries = .ok r ∧
        ∀ key ∈ required, key ∈ entries.names) :
    Decodes decode (IsRecord level required) (Comes level required Reads) where
  accepts value := by
    simp only [hdecode, exists_comm (α := α), exists_and_left, exists_and_right,
      h.exists_readRecord_iff, IsRecord]
  means value r hvalue hr := by
    obtain ⟨entries, hlists, hread, hrequired⟩ := (hdecode value r).1 hr
    cases hlists.keyed h.names hvalue with
    | table names each =>
      refine ⟨entries, hlists, hrequired, ?_⟩
      rw [← Entries.ofList_eq_self names]
      exact h.reads_of_readRecord each h.defaults hread

end ReadsLevel

end GraphProjection.Toml
