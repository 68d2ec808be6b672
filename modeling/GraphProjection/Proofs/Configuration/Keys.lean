import GraphProjection.Proofs.Entries
import GraphProjection.Toml.Reader

/-!
# Keys of a document

A document is built key by key, and what a statement may do to a table under construction is to add
a key that is not there, to change what is under a key, or to move a key to the end.  So no table
has a key twice: `Draft.Keyed` is kept by every change of a table (`Draft.keyed_updateAt`), by every
line, and by the lines of a document together.

Main statement: `Toml.keyed_of_parse?`.
-/

namespace GraphProjection.Toml

/-- No table in a value has a key twice. -/
inductive Keyed : Toml → Prop
  | string (s : String) : Keyed (.string s)
  | integer (n : Int) : Keyed (.integer n)
  | float (written : String) : Keyed (.float written)
  | boolean (b : Bool) : Keyed (.boolean b)
  | datetime (written : String) : Keyed (.datetime written)
  | array {items : List Toml} (each : ∀ v ∈ items, Keyed v) : Keyed (.array items)
  | table {entries : Entries Toml} (names : entries.names.Nodup)
      (each : ∀ pair ∈ entries, Keyed pair.2) : Keyed (.table entries)

namespace Draft

/-- No table in a part of a document has a key twice. -/
inductive Keyed : Draft → Prop
  | closed {value : Toml} (h : value.Keyed) : Keyed (.closed value)
  | table {origin : Origin} {entries : Entries Draft} (names : entries.names.Nodup)
      (each : ∀ pair ∈ entries, Keyed pair.2) : Keyed (.table origin entries)
  | tables {items : List (Entries Draft)} (names : ∀ entries ∈ items, entries.names.Nodup)
      (each : ∀ entries ∈ items, ∀ pair ∈ entries, Keyed pair.2) : Keyed (.tables items)

/-- No table in entries has a key twice, nor do the entries themselves. -/
structure KeyedEntries (entries : Entries Draft) : Prop where
  names : entries.names.Nodup
  each : ∀ pair ∈ entries, Keyed pair.2

lemma KeyedEntries.nil : KeyedEntries [] :=
  ⟨List.nodup_nil, fun _ hpair => absurd hpair List.not_mem_nil⟩

lemma KeyedEntries.put {entries : Entries Draft} (h : KeyedEntries entries) (key : String)
    {part : Draft} (hpart : part.Keyed) : KeyedEntries (entries.put key part) :=
  ⟨Entries.nodup_names_put key part h.names, Entries.forall_mem_put h.each key hpart⟩

lemma KeyedEntries.erase {entries : Entries Draft} (h : KeyedEntries entries) (key : String) :
    KeyedEntries (entries.erase key) :=
  ⟨h.names.sublist (List.filter_sublist.map _), fun pair hpair =>
    h.each pair (List.mem_of_mem_filter hpair)⟩

lemma KeyedEntries.keyed_of_get? {entries : Entries Draft} (h : KeyedEntries entries)
    {key : String} {part : Draft} (hget : entries.get? key = some part) : part.Keyed :=
  h.each _ (Entries.mem_of_get?_eq_some hget)

/-! ## The finished value -/

lemma finishEntries_eq_map (entries : List (String × Draft)) :
    finishEntries entries = entries.map fun pair => (pair.1, pair.2.finish) := by
  induction entries with
  | nil => rfl
  | cons pair rest ih =>
    obtain ⟨key, part⟩ := pair
    rw [finishEntries, ih]
    rfl

lemma finishTables_eq_map (items : List (List (String × Draft))) :
    finishTables items = items.map fun entries => .table (finishEntries entries) := by
  induction items with
  | nil => rfl
  | cons entries rest ih =>
    rw [finishTables, ih]
    rfl

lemma keyed_finishEntries {entries : Entries Draft} (names : entries.names.Nodup)
    (each : ∀ pair ∈ entries, pair.2.finish.Keyed) :
    Toml.Keyed (.table (finishEntries entries)) := by
  rw [finishEntries_eq_map]
  refine .table ?_ (List.forall_mem_map.2 each)
  rwa [Entries.names, List.map_map]

lemma Keyed.finish {part : Draft} (h : part.Keyed) : part.finish.Keyed := by
  induction h with
  | closed h => rwa [Draft.finish]
  | table names _ ih =>
    rw [Draft.finish]
    exact keyed_finishEntries names ih
  | tables names _ ih =>
    rw [Draft.finish, finishTables_eq_map]
    exact .array (List.forall_mem_map.2 fun entries hentries =>
      keyed_finishEntries (names entries hentries) (ih entries hentries))

lemma KeyedEntries.finish {entries : Entries Draft} (h : KeyedEntries entries) :
    Toml.Keyed (.table (finishEntries entries)) :=
  keyed_finishEntries h.names fun pair hpair => (h.each pair hpair).finish

/-! ## Changes of a table -/

/-- A change keeps keys apart. -/
def KeepsKeyed (change : Open → Option (Entries Draft)) : Prop :=
  ∀ origin entries done, KeyedEntries entries → change (origin, entries) = some done →
    KeyedEntries done

theorem keyed_updateAt {origin : Origin} {change : Open → Option (Entries Draft)}
    (hchange : KeepsKeyed change) (path : List String) :
    KeepsKeyed (updateAt origin change path) := by
  -- One part of the path is followed in each step: through a table that is new or known, or through
  -- the last table of an array.
  induction path with
  | nil => exact hchange
  | cons key path ih =>
    intro own entries done hentries h
    rw [updateAt] at h
    split at h
    · obtain ⟨inner, hinner, rfl⟩ := Option.map_eq_some_iff.1 h
      have hkeyed := ih _ _ _ .nil hinner
      exact hentries.put key (.table hkeyed.names hkeyed.each)
    · next own inner hget =>
      split at h
      · cases h
      · obtain ⟨changed, hchanged, rfl⟩ := Option.map_eq_some_iff.1 h
        cases hentries.keyed_of_get? hget with
        | table names each =>
          have hkeyed := ih _ _ _ ⟨names, each⟩ hchanged
          exact hentries.put key (.table hkeyed.names hkeyed.each)
    · next items hget =>
      obtain ⟨changed, hchanged, rfl⟩ := Option.map_eq_some_iff.1 h
      cases hentries.keyed_of_get? hget with
      | tables names each =>
        have hlast : KeyedEntries (items.getLast?.getD []) := by
          cases hitems : items.getLast? with
          | none => exact .nil
          | some last =>
            have hmem := List.mem_of_getLast? hitems
            exact ⟨names last hmem, each last hmem⟩
        have hkeyed := ih _ _ _ hlast hchanged
        refine hentries.put key (.tables ?_ ?_)
        · exact List.forall_mem_append.2 ⟨fun e he => names e ((List.dropLast_subset _) he),
            List.forall_mem_singleton.2 hkeyed.names⟩
        · exact List.forall_mem_append.2 ⟨fun e he => each e ((List.dropLast_subset _) he),
            List.forall_mem_singleton.2 hkeyed.each⟩
    · cases h

lemma keyed_openTable (key : String) : KeepsKeyed (openTable key) := by
  intro origin entries done hentries h
  rw [openTable] at h
  split at h
  · cases h
    exact hentries.put key (.table KeyedEntries.nil.names KeyedEntries.nil.each)
  · next inner hget =>
    cases h
    cases hentries.keyed_of_get? hget with
    | table names each => exact (hentries.erase key).put key (.table names each)
  · cases h

lemma keyed_openElement (key : String) : KeepsKeyed (openElement key) := by
  intro origin entries done hentries h
  rw [openElement] at h
  split at h
  · cases h
    exact hentries.put key (.tables (List.forall_mem_singleton.2 KeyedEntries.nil.names)
      (List.forall_mem_singleton.2 KeyedEntries.nil.each))
  · next items hget =>
    cases h
    cases hentries.keyed_of_get? hget with
    | tables names each =>
      exact hentries.put key (.tables
        (List.forall_mem_append.2 ⟨names, List.forall_mem_singleton.2 KeyedEntries.nil.names⟩)
        (List.forall_mem_append.2 ⟨each, List.forall_mem_singleton.2 KeyedEntries.nil.each⟩))
  · cases h

lemma keyed_writeKey (dotted : Bool) (key : String) {value : Toml} (hvalue : value.Keyed) :
    KeepsKeyed (writeKey dotted key value) := by
  intro origin entries done hentries h
  rw [writeKey] at h
  split at h
  · cases h
  · split at h
    · cases h
    · cases h
      exact hentries.put key (.closed hvalue)

lemma keyed_writePath (path : List String) {value : Toml} (hvalue : value.Keyed) :
    KeepsKeyed (writePath path value) := by
  intro origin entries done hentries h
  rw [writePath] at h
  split at h
  · cases h
  · exact keyed_updateAt (keyed_writeKey _ _ hvalue) _ _ _ _ hentries h

end Draft

/-! ## Values -/

lemma keyed_of_ofWord? {cs : List Char} {value : Toml} (h : ofWord? cs = some value) :
    value.Keyed := by
  unfold ofWord? at h
  split at h
  · cases h
    exact .boolean true
  · split at h
    · cases h
      exact .boolean false
    · split at h
      · cases h
        exact .datetime _
      · split at h
        · cases h
          exact .float _
        · obtain ⟨n, -, rfl⟩ := Option.map_eq_some_iff.1 h
          exact .integer n

mutual

lemma keyed_of_readValue : (fuel : Nat) → {depth : Nat} → {cs rest : List Char} →
    {value : Toml} → readValue fuel depth cs = some (value, rest) → value.Keyed
  | 0, _, _, _, _, h => by cases h
  | fuel + 1, depth, cs, rest, value, h => by
    unfold readValue at h
    split at h
    · simp only [Option.bind_eq_bind, Option.bind_eq_some_iff] at h
      obtain ⟨⟨items, _⟩, hitems, h⟩ := h
      cases h
      exact .array (keyed_of_readItems fuel hitems)
    · split at h
      · cases h
        exact Draft.KeyedEntries.nil.finish
      · simp only [Option.bind_eq_bind, Option.bind_eq_some_iff] at h
        obtain ⟨⟨entries, _⟩, hentries, h⟩ := h
        cases h
        exact (keyed_of_readEntries fuel .nil hentries).finish
    · obtain ⟨⟨s, _⟩, -, h⟩ := Option.map_eq_some_iff.1 h
      cases h
      exact .string _
    · obtain ⟨⟨s, _⟩, -, h⟩ := Option.map_eq_some_iff.1 h
      cases h
      exact .string _
    · obtain ⟨word, hword, h⟩ := Option.map_eq_some_iff.1 h
      cases h
      exact keyed_of_ofWord? hword

lemma keyed_of_readItems : (fuel : Nat) → {depth : Nat} → {cs rest : List Char} →
    {items : List Toml} → readItems fuel depth cs = some (items, rest) → ∀ v ∈ items, v.Keyed
  | 0, _, _, _, _, h => by cases h
  | fuel + 1, depth, cs, rest, items, h => by
    unfold readItems at h
    split at h
    · cases h
      exact fun _ hv => absurd hv List.not_mem_nil
    · simp only [Option.bind_eq_bind, Option.bind_eq_some_iff] at h
      obtain ⟨⟨item, behind⟩, hitem, h⟩ := h
      have hkeyed := keyed_of_readValue fuel hitem
      split at h
      · cases h
        exact List.forall_mem_singleton.2 hkeyed
      · simp only [Option.bind_eq_some_iff] at h
        obtain ⟨⟨more, _⟩, hmore, h⟩ := h
        cases h
        exact List.forall_mem_cons.2 ⟨hkeyed, keyed_of_readItems fuel hmore⟩
      · cases h

lemma keyed_of_readEntries : (fuel : Nat) → {depth : Nat} → {known : Entries Draft} →
    {cs rest : List Char} → {entries : Entries Draft} → Draft.KeyedEntries known →
    readEntries fuel depth known cs = some (entries, rest) → Draft.KeyedEntries entries
  | 0, _, _, _, _, _, _, h => by cases h
  | fuel + 1, depth, known, cs, rest, entries, hknown, h => by
    simp only [readEntries, Option.bind_eq_bind, Option.bind_eq_some_iff] at h
    obtain ⟨⟨path, behindKey⟩, -, h⟩ := h
    split at h
    · simp only [Option.bind_eq_some_iff] at h
      obtain ⟨⟨value, behindValue⟩, hvalue, next, hnext, h⟩ := h
      have hkeyed := Draft.keyed_writePath path (keyed_of_readValue fuel hvalue) _ _ _ hknown hnext
      split at h
      · cases h
        exact hkeyed
      · exact keyed_of_readEntries fuel hkeyed h
      · cases h
    · cases h

end

/-! ## Lines -/

namespace Draft.Document

variable {d done : Document} {path : List String}

lemma keyed_of_changeRoot {current : List String} {change : Open → Option (Entries Draft)}
    (hchange : KeepsKeyed change) (hd : KeyedEntries d.root)
    (h : d.changeRoot current path change = some done) : KeyedEntries done.root := by
  obtain ⟨root, hroot, rfl⟩ := Option.map_eq_some_iff.1 h
  exact keyed_updateAt hchange path _ _ _ hd hroot

lemma keyed_of_openTable (hd : KeyedEntries d.root) (h : d.openTable path = some done) :
    KeyedEntries done.root := by
  obtain ⟨key, -, h⟩ := Option.bind_eq_some_iff.1 h
  exact keyed_of_changeRoot (keyed_openTable key) hd h

lemma keyed_of_openElement (hd : KeyedEntries d.root) (h : d.openElement path = some done) :
    KeyedEntries done.root := by
  obtain ⟨key, -, h⟩ := Option.bind_eq_some_iff.1 h
  exact keyed_of_changeRoot (keyed_openElement key) hd h

lemma keyed_of_write {value : Toml} (hvalue : value.Keyed) (hd : KeyedEntries d.root)
    (h : d.write path value = some done) : KeyedEntries done.root :=
  keyed_of_changeRoot (keyed_writePath path hvalue) hd h

end Draft.Document

/-- A line keeps the keys of a document apart. -/
lemma keyed_of_readLine {fuel : Nat} {d done : Draft.Document} {cs rest : List Char}
    (hd : Draft.KeyedEntries d.root) (h : readLine fuel d cs = some (done, rest)) :
    Draft.KeyedEntries done.root := by
  unfold readLine at h
  split at h
  case h_5 =>
    simp only [Option.bind_eq_bind, Option.bind_eq_some_iff] at h
    obtain ⟨⟨path, _⟩, -, h⟩ := h
    split at h
    · simp only [Option.bind_eq_some_iff] at h
      obtain ⟨_, -, opened, hopened, h⟩ := h
      cases h
      exact Draft.Document.keyed_of_openElement hd hopened
    · cases h
  case h_6 =>
    simp only [Option.bind_eq_bind, Option.bind_eq_some_iff] at h
    obtain ⟨⟨path, _⟩, -, h⟩ := h
    split at h
    · simp only [Option.bind_eq_some_iff] at h
      obtain ⟨_, -, opened, hopened, h⟩ := h
      cases h
      exact Draft.Document.keyed_of_openTable hd hopened
    · cases h
  case h_7 =>
    simp only [Option.bind_eq_bind, Option.bind_eq_some_iff] at h
    obtain ⟨⟨path, _⟩, -, h⟩ := h
    split at h
    · simp only [Option.bind_eq_some_iff] at h
      obtain ⟨⟨value, _⟩, hvalue, _, -, written, hwritten, h⟩ := h
      cases h
      exact Draft.Document.keyed_of_write (keyed_of_readValue fuel hvalue) hd hwritten
    · cases h
  -- A line without a header and without a key changes nothing.
  all_goals
    obtain ⟨_, -, heq⟩ := Option.map_eq_some_iff.1 h
    cases heq
    exact hd

lemma keyed_of_readAll {fuel : Nat} {d done : Draft.Document} {cs : List Char}
    (hd : Draft.KeyedEntries d.root) (h : readAll fuel d cs = some done) :
    Draft.KeyedEntries done.root := by
  fun_induction readAll fuel d cs with
  | case1 =>
    cases h
    exact hd
  | case2 => cases h
  | case3 fuel d cs _ ih =>
    simp only [Option.bind_eq_bind, Option.bind_eq_some_iff] at h
    obtain ⟨⟨next, rest⟩, hline, h⟩ := h
    exact ih next rest (keyed_of_readLine hd hline) h

/-- No table of a document has a key twice. -/
theorem keyed_of_parse? {text : String} {entries : Entries Toml} (h : parse? text = some entries) :
    Keyed (.table entries) := by
  obtain ⟨d, hread, rfl⟩ := Option.map_eq_some_iff.1 h
  exact (keyed_of_readAll Draft.KeyedEntries.nil hread).finish

end GraphProjection.Toml
