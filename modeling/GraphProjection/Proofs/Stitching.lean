import GraphProjection.Proofs.KeyText
import GraphProjection.Proofs.Loading

/-!
# Stitching is exact

What loading relations comes to, said without the order in which it happens.  For every relation
the storage is asked for the keys of the parents, each once, and the related rows that belong to a
parent are those whose foreign key is the parent's local key, compared as values; the rows are
completed by their own relations before they are attached.  `Stitched` is that description, of
parents as they were before anything was attached to them.

The loader attaches relation after relation and reads the keys in between.  It can only meet the
description where no slot hides a key that is still to be read, and `KeysApart` is that condition
on a tree of relations.  `stitched_of_loadAll` is by induction on it: attaching the first relation
changes neither the keys of the others nor what belongs to whom.
-/

namespace GraphProjection

namespace Stitching

/-- A relation to load and the query of its rows. -/
abbrev Load := RelationTarget × SelectQuery

/-! ## The keys that are bound -/

/-- Some values in the order in which they first appear among all values, each of them once. -/
structure FirstAppearances (all values : List Value) : Prop where
  nodup : values.Nodup
  mem_iff : ∀ v, v ∈ values ↔ v ∈ all
  order : values.Pairwise fun v w => ∃ before after, all = before ++ v :: after ∧ w ∉ before

/-- The keys that rows have in a column; null is no key. -/
def presentKeys (column : String) (rows : List Row) : List Value :=
  (rows.filterMap (·.get? column)).filter (!·.isNull)

lemma mem_distinctByText {all : List Value} {seen : List String} {v : Value}
    (h : v ∈ distinctByText all seen) : v ∈ all ∧ v.text ∉ seen := by
  induction all generalizing seen with
  | nil => cases h
  | cons first rest ih =>
    rw [distinctByText] at h
    split at h
    · obtain ⟨hrest, hseen⟩ := ih h
      exact ⟨List.mem_cons_of_mem _ hrest, hseen⟩
    · next hnew =>
      rw [List.contains_iff_mem] at hnew
      rcases List.mem_cons.1 h with rfl | h
      · exact ⟨List.mem_cons_self, hnew⟩
      · obtain ⟨hrest, hseen⟩ := ih h
        exact ⟨List.mem_cons_of_mem _ hrest, fun hmem => hseen (List.mem_cons_of_mem _ hmem)⟩

lemma exists_mem_distinctByText {all : List Value} {seen : List String} {v : Value}
    (hv : v ∈ all) (hseen : v.text ∉ seen) :
    ∃ w ∈ distinctByText all seen, w.text = v.text := by
  induction all generalizing seen with
  | nil => cases hv
  | cons first rest ih =>
    rw [distinctByText]
    split
    · next hold =>
      rw [List.contains_iff_mem] at hold
      rcases List.mem_cons.1 hv with rfl | hv
      · exact absurd hold hseen
      · exact ih hv hseen
    · by_cases heq : v.text = first.text
      · exact ⟨first, List.mem_cons_self, heq.symm⟩
      · have hrest : v ∈ rest :=
          (List.mem_cons.1 hv).resolve_left fun h => heq (congrArg Value.text h)
        obtain ⟨w, hw, htext⟩ := ih hrest fun hmem => (List.mem_cons.1 hmem).elim heq hseen
        exact ⟨w, List.mem_cons_of_mem _ hw, htext⟩

/-- Of two values that are kept, the first one stands before any value with the text of the
other. -/
theorem pairwise_distinctByText (all : List Value) (seen : List String) :
    (distinctByText all seen).Pairwise fun v w => v.text ≠ w.text ∧
      ∃ before after, all = before ++ v :: after ∧ ∀ u ∈ before, u.text ≠ w.text := by
  induction all generalizing seen with
  | nil => exact .nil
  | cons first rest ih =>
    rw [distinctByText]
    split
    · next hold =>
      rw [List.contains_iff_mem] at hold
      refine (ih seen).imp_of_mem fun {v w} _ hw ⟨hne, before, after, hsplit, hbefore⟩ => ?_
      refine ⟨hne, first :: before, after, by rw [hsplit, List.cons_append], ?_⟩
      rintro u hu heq
      rcases List.mem_cons.1 hu with rfl | hu
      · exact (mem_distinctByText hw).2 (heq ▸ hold)
      · exact hbefore u hu heq
    · refine .cons (fun w hw => ?_) ?_
      · have hnew := (mem_distinctByText hw).2
        exact ⟨fun heq => hnew (heq ▸ List.mem_cons_self), [], rest, rfl, fun u hu => by cases hu⟩
      · refine (ih _).imp_of_mem fun {v w} _ hw ⟨hne, before, after, hsplit, hbefore⟩ => ?_
        refine ⟨hne, first :: before, after, by rw [hsplit, List.cons_append], ?_⟩
        rintro u hu heq
        rcases List.mem_cons.1 hu with rfl | hu
        · exact (mem_distinctByText hw).2 (heq ▸ List.mem_cons_self)
        · exact hbefore u hu heq

/-- Keeping one value of each text keeps, of keys, each value once. -/
lemma firstAppearances_distinctByText {all : List Value} (h : ∀ v ∈ all, v.isKey = true) :
    FirstAppearances all (distinctByText all []) where
  nodup := (pairwise_distinctByText all []).imp fun hvw heq => hvw.1 (congrArg Value.text heq)
  mem_iff v := by
    refine ⟨fun hv => (mem_distinctByText hv).1, fun hv => ?_⟩
    obtain ⟨w, hw, htext⟩ := exists_mem_distinctByText hv List.not_mem_nil
    have heq : w = v := Value.eq_of_text_eq (h w (mem_distinctByText hw).1) (h v hv) htext
    exact heq ▸ hw
  order := (pairwise_distinctByText all []).imp fun ⟨_, before, after, hsplit, hbefore⟩ =>
    ⟨before, after, hsplit, fun hmem => hbefore _ hmem rfl⟩

/-! ## The description -/

/-- The query of a relation with the condition that the foreign key is one of some values. -/
def boundQuery (load : Load) (values : List Value) : SelectQuery :=
  load.2.whereIn (load.2.table ++ "." ++ load.1.foreignKey) values

/-- What is found for a relation: the values that are bound, the rows that are fetched for them,
the same rows with their own relations, the page that is exposed, and the calls made for the
relations below. -/
structure Lookup where
  values : List Value
  fetched : List Row
  related : List Row
  page : Option PageRequest
  calls : List StorageCall

/-- Whether a related row belongs to a row: its foreign key is the row's local key, which is there
and not null. -/
def belongs (target : RelationTarget) (row related : Row) : Bool :=
  match row.get? target.localKey, related.get? target.foreignKey with
  | some key, some value => !key.isNull && value.same key
  | _, _ => false

/-- The completed rows of those fetched rows that belong to a row, in the order of fetching. -/
def Lookup.belonging (found : Lookup) (target : RelationTarget) (row : Row) : List Row :=
  ((found.fetched.zip found.related).filter fun pair => belongs target row pair.1).map (·.2)

/-- What is found for one relation is what the storage has for the keys of the rows. -/
structure LookedUp (s : Storage) (defaultPerPage : Nat) (projection : Option Projection)
    (rows : List Row) (load : Load) (found : Lookup) : Prop where
  values : FirstAppearances (presentKeys load.1.localKey rows) found.values
  fetched : s.fetch (boundQuery load found.values) = .ok found.fetched
  page : relationPage ((projection.bind (·.relation? load.1.field)).map (·.1)) defaultPerPage =
    .ok found.page

/-- A row with the relations that were found for it: what belongs to it is under the names of their
fields, and every other entry is what it was. -/
structure RowStitched (found : List (Load × Lookup)) (row done : Row) : Prop where
  slots : ∀ pair ∈ found, Entries.get? done pair.1.1.field =
    some (attachedValue pair.1.1 pair.2.page (pair.2.belonging pair.1.1 row))
  others : ∀ name, (∀ pair ∈ found, pair.1.1.field ≠ name) →
    Entries.get? done name = Entries.get? row name

/-- Rows are stitched to their relations: for each of them there is what the storage has for the
keys of the rows, stitched to relations of its own, and every row holds what belongs to it. -/
inductive Stitched (s : Storage) (defaultPerPage : Nat) :
    List Load → Option Projection → List Row → List Row → List StorageCall → Prop
  | intro {projection : Option Projection} {rows done : List Row}
      (found : List (Load × Lookup))
      (lookedUp : ∀ pair ∈ found,
        LookedUp s defaultPerPage projection rows pair.1 pair.2)
      (completed : ∀ pair ∈ found, Stitched s defaultPerPage pair.1.2.eagerLoads
        ((projection.bind (·.relation? pair.1.1.field)).map (·.2)) pair.2.fetched
        pair.2.related pair.2.calls)
      (stitched : List.Forall₂ (RowStitched found) rows done) :
      Stitched s defaultPerPage (found.map (·.1)) projection rows done
        (found.flatMap fun pair => .fetch (boundQuery pair.1 pair.2.values) :: pair.2.calls)

/-! ## What is assumed -/

/-- A relation is among others or somewhere below them. -/
inductive LoadIn : List Load → Load → Prop
  | here {loads load} (h : load ∈ loads) : LoadIn loads load
  | under {loads load deep} (h : load ∈ loads) (hd : LoadIn load.2.eagerLoads deep) :
      LoadIn loads deep

/-- Relations of the same rows have different slots, at every depth. -/
inductive FieldsDistinct : List Load → Prop
  | nil : FieldsDistinct []
  | cons {load others} (fresh : ∀ other ∈ others, other.1.field ≠ load.1.field)
      (below : FieldsDistinct load.2.eagerLoads) (rest : FieldsDistinct others) :
      FieldsDistinct (load :: others)

/-- No slot hides a key that is still to be read: not the local key of a relation that is loaded
later, and not the foreign key of the rows that it is attached to; at every depth. -/
inductive KeysApart : List Load → Prop
  | nil : KeysApart []
  | cons {load others} (localKey : ∀ other ∈ others, other.1.localKey ≠ load.1.field)
      (foreignKey : ∀ other ∈ load.2.eagerLoads, other.1.field ≠ load.1.foreignKey)
      (below : KeysApart load.2.eagerLoads) (rest : KeysApart others) : KeysApart (load :: others)

/-- What rows have under the local keys of relations are keys. -/
def RowsKeyed (loads : List Load) (rows : List Row) : Prop :=
  ∀ load ∈ loads, ∀ row ∈ rows, ∀ v, Entries.get? row load.1.localKey = some v → v.isKey = true

/-- A storage only returns rows that were asked for, and what they have under local keys are
keys. -/
structure Answers (s : Storage) (loads : List Load) : Prop where
  asked : ∀ load, LoadIn loads load → ∀ values fetched,
    s.fetch (boundQuery load values) = .ok fetched →
    ∀ row ∈ fetched, ∃ v ∈ values, Entries.get? row load.1.foreignKey = some v
  keyed : ∀ load, LoadIn loads load → ∀ values fetched,
    s.fetch (boundQuery load values) = .ok fetched → RowsKeyed load.2.eagerLoads fetched

lemma LoadIn.of_rest {load deep : Load} {rest : List Load} (h : LoadIn rest deep) :
    LoadIn (load :: rest) deep := by
  cases h with
  | here h => exact .here (List.mem_cons_of_mem _ h)
  | under h hd => exact .under (List.mem_cons_of_mem _ h) hd

lemma Answers.rest {s : Storage} {load : Load} {rest : List Load}
    (h : Answers s (load :: rest)) : Answers s rest :=
  ⟨fun deep hd => h.asked deep hd.of_rest, fun deep hd => h.keyed deep hd.of_rest⟩

lemma Answers.below {s : Storage} {load : Load} {rest : List Load}
    (h : Answers s (load :: rest)) : Answers s load.2.eagerLoads :=
  ⟨fun deep hd => h.asked deep (.under List.mem_cons_self hd),
    fun deep hd => h.keyed deep (.under List.mem_cons_self hd)⟩

/-! ## What belongs to a row -/

/-- Comparing the texts of keys is comparing the keys, where the foreign key is not null. -/
lemma keyText_beq_eq_belongs {target : RelationTarget} {row raw whole : Row} {v : Value}
    (hrow : ∀ key, row.get? target.localKey = some key → key.isKey = true)
    (hraw : raw.get? target.foreignKey = some v) (hkey : v.isKey = true)
    (hnull : v.isNull = false)
    (hwhole : whole.get? target.foreignKey = raw.get? target.foreignKey) :
    (keyText target.foreignKey whole == keyText target.localKey row) =
      belongs target row raw := by
  rw [keyText, keyText, belongs, hwhole, hraw]
  cases hlocal : row.get? target.localKey with
  | none => simpa using Value.text_ne_empty hkey
  | some key =>
    by_cases heq : v = key
    · subst heq
      have hsame : v.same v = true := (Value.same_iff_eq_of_isKey hkey).2 rfl
      simp [hsame, hnull]
    · have hdiffer : v.same key = false :=
        Bool.eq_false_iff.2 fun h => heq ((Value.same_iff_eq_of_isKey hkey).1 h)
      have htext : v.text ≠ key.text := fun h => heq (Value.eq_of_text_eq hkey (hrow key hlocal) h)
      simp [hdiffer, htext]

/-- The rows that the loader matches are those that belong, where the rows kept their foreign
keys. -/
theorem matching_eq_belonging {target : RelationTarget} {row : Row} {fetched related : List Row}
    (hrow : ∀ key, row.get? target.localKey = some key → key.isKey = true)
    (hraw : ∀ raw ∈ fetched, ∃ v, Entries.get? raw target.foreignKey = some v ∧
      v.isKey = true ∧ v.isNull = false)
    (hkept : List.Forall₂ (fun raw whole => Entries.get? whole target.foreignKey =
      Entries.get? raw target.foreignKey) fetched related) :
    matching target related row =
      ((fetched.zip related).filter fun pair => belongs target row pair.1).map (·.2) := by
  induction hkept with
  | nil => rfl
  | @cons raw whole raws wholes hhead _ ih =>
    obtain ⟨v, hv, hkey, hnull⟩ := hraw raw List.mem_cons_self
    have hbelongs := keyText_beq_eq_belongs hrow hv hkey hnull hhead
    have hrest := ih fun raw hmem => hraw raw (List.mem_cons_of_mem _ hmem)
    rw [matching] at hrest ⊢
    rw [List.filter_cons, List.zip_cons_cons, List.filter_cons, hbelongs, hrest]
    cases belongs target row raw <;> rfl

/-! ## The loader meets the description -/

lemma Stitched.exists_found {s : Storage} {defaultPerPage : Nat} {loads : List Load}
    {projection : Option Projection} {rows done : List Row} {calls : List StorageCall}
    (h : Stitched s defaultPerPage loads projection rows done calls) :
    ∃ found : List (Load × Lookup), found.map (·.1) = loads ∧
      (∀ pair ∈ found, LookedUp s defaultPerPage projection rows pair.1 pair.2) ∧
      (∀ pair ∈ found, Stitched s defaultPerPage pair.1.2.eagerLoads
        ((projection.bind (·.relation? pair.1.1.field)).map (·.2)) pair.2.fetched
        pair.2.related pair.2.calls) ∧
      List.Forall₂ (RowStitched found) rows done ∧
      calls = found.flatMap fun pair =>
        .fetch (boundQuery pair.1 pair.2.values) :: pair.2.calls := by
  cases h with
  | intro found lookedUp completed stitched =>
    exact ⟨found, rfl, lookedUp, completed, stitched, rfl⟩

/-- Stitched rows keep every entry that is not a slot. -/
lemma Stitched.frame {s : Storage} {defaultPerPage : Nat} {loads : List Load}
    {projection : Option Projection} {rows done : List Row} {calls : List StorageCall}
    (h : Stitched s defaultPerPage loads projection rows done calls) {name : String}
    (hname : ∀ load ∈ loads, load.1.field ≠ name) :
    List.Forall₂ (fun row row' => Entries.get? row' name = Entries.get? row name) rows done := by
  obtain ⟨found, rfl, -, -, hrows, -⟩ := h.exists_found
  refine hrows.imp fun row row' hrow => hrow.others name fun pair hpair => ?_
  exact hname pair.1 (List.mem_map_of_mem hpair)

lemma presentKeys_map_attach {target : RelationTarget} {column : String}
    (h : target.field ≠ column) (page : Option PageRequest) (related rows : List Row) :
    presentKeys column (rows.map (attach target page related)) = presentKeys column rows := by
  have hget (row : Row) : Entries.get? (attach target page related row) column =
      Entries.get? row column := get?_attach_of_ne h page related row
  rw [presentKeys, presentKeys, List.filterMap_map]
  exact congrArg _ (List.filterMap_congr fun row _ => hget row)

lemma RowsKeyed.map_attach {load : Load} {others : List Load} {rows : List Row}
    (h : RowsKeyed (load :: others) rows)
    (hlocal : ∀ other ∈ others, other.1.localKey ≠ load.1.field) (page : Option PageRequest)
    (related : List Row) : RowsKeyed others (rows.map (attach load.1 page related)) := by
  intro other hother row' hrow' v hv
  obtain ⟨row, hrow, rfl⟩ := List.mem_map.1 hrow'
  rw [get?_attach_of_ne (hlocal other hother).symm] at hv
  exact h other (List.mem_cons_of_mem _ hother) row hrow v hv

/-- The keys that are asked for are keys, and none of them is null. -/
lemma isKey_of_mem_keys {load : Load} {others : List Load} {rows : List Row}
    (h : RowsKeyed (load :: others) rows) {v : Value}
    (hv : v ∈ presentKeys load.1.localKey rows) : v.isKey = true ∧ v.isNull = false := by
  obtain ⟨hmem, hnull⟩ := List.mem_filter.1 hv
  obtain ⟨row, hrow, hget⟩ := List.mem_filterMap.1 hmem
  exact ⟨h load List.mem_cons_self row hrow v hget, by simpa using hnull⟩

/-- What belongs to a row depends on its local key only. -/
lemma belonging_attach {target other : RelationTarget} (h : other.localKey ≠ target.field)
    (page : Option PageRequest) (related : List Row) (found : Lookup) (row : Row) :
    found.belonging other (attach target page related row) = found.belonging other row := by
  have hbelongs (raw : Row) : belongs other (attach target page related row) raw =
      belongs other row raw := by
    rw [belongs, belongs, get?_attach_of_ne h.symm]
  simp only [Lookup.belonging, hbelongs]

/-- A row that is stitched after a relation was attached to it is stitched to that relation as
well. -/
theorem RowStitched.of_attach {load : Load} {first : Lookup} {found : List (Load × Lookup)}
    {row done : Row}
    (h : RowStitched found (attach load.1 first.page first.related row) done)
    (hmatching : matching load.1 first.related row = first.belonging load.1 row)
    (hlocal : ∀ pair ∈ found, pair.1.1.localKey ≠ load.1.field)
    (hfresh : ∀ pair ∈ found, pair.1.1.field ≠ load.1.field) :
    RowStitched ((load, first) :: found) row done where
  slots := by
    intro pair hpair
    rcases List.mem_cons.1 hpair with rfl | hpair
    · rw [h.others load.1.field hfresh, get?_attach_self, hmatching]
    · rw [h.slots pair hpair, belonging_attach (hlocal pair hpair)]
  others := by
    intro name hname
    rw [h.others name fun pair hpair => hname pair (List.mem_cons_of_mem _ hpair)]
    exact get?_attach_of_ne (hname (load, first) List.mem_cons_self) _ _ row

/-- Rows to which a relation was attached, and which were stitched to other relations after that,
are stitched to all of them. -/
theorem Stitched.cons {s : Storage} {defaultPerPage : Nat} {load : Load} {others : List Load}
    {projection : Option Projection} {rows done : List Row} {first : Lookup}
    {calls : List StorageCall} (hlooked : LookedUp s defaultPerPage projection rows load first)
    (hcompleted : Stitched s defaultPerPage load.2.eagerLoads
      ((projection.bind (·.relation? load.1.field)).map (·.2)) first.fetched first.related
      first.calls)
    (hmatching : ∀ row ∈ rows,
      matching load.1 first.related row = first.belonging load.1 row)
    (hlocal : ∀ other ∈ others, other.1.localKey ≠ load.1.field)
    (hfresh : ∀ other ∈ others, other.1.field ≠ load.1.field)
    (hrest : Stitched s defaultPerPage others projection
      (rows.map (attach load.1 first.page first.related)) done calls) :
    Stitched s defaultPerPage (load :: others) projection rows done
      (.fetch (boundQuery load first.values) :: (first.calls ++ calls)) := by
  obtain ⟨found, rfl, hfound, hbelow, hrows, rfl⟩ := hrest.exists_found
  refine .intro ((load, first) :: found) ?_ ?_ ?_
  · intro pair hpair
    rcases List.mem_cons.1 hpair with rfl | hpair
    · exact hlooked
    · have hkey := hlocal pair.1 (List.mem_map_of_mem hpair)
      -- What has been attached is not the key of a later relation, so that one looks up the same
      -- values.
      have hvalues := (hfound pair hpair).values
      rw [presentKeys_map_attach hkey.symm] at hvalues
      exact ⟨hvalues, (hfound pair hpair).fetched, (hfound pair hpair).page⟩
  · intro pair hpair
    rcases List.mem_cons.1 hpair with rfl | hpair
    · exact hcompleted
    · exact hbelow pair hpair
  · have hpaired := (List.forall₂_and_left rows done).2
      ⟨hmatching, List.forall₂_map_left_iff.1 hrows⟩
    refine hpaired.imp fun row row' ⟨hrow, hstitched⟩ => hstitched.of_attach hrow ?_ ?_
    · exact fun pair hpair => hlocal pair.1 (List.mem_map_of_mem hpair)
    · exact fun pair hpair => hfresh pair.1 (List.mem_map_of_mem hpair)

/-- **Stitching is exact** where no slot hides a key: whatever the loader makes of rows is what they
hold when they are stitched to their relations, with the calls that this takes. -/
theorem stitched_of_loadAll {s : Storage} {defaultPerPage : Nat} {loads : List Load}
    {projection : Option Projection} {rows done : List Row} (hapart : KeysApart loads)
    (hdistinct : FieldsDistinct loads) (hanswers : Answers s loads)
    (hkeyed : RowsKeyed loads rows)
    (h : (loadAll s defaultPerPage loads projection rows).outcome = .ok done) :
    Stitched s defaultPerPage loads projection rows done
      (loadAll s defaultPerPage loads projection rows).calls := by
  induction hapart generalizing projection rows done with
  | nil =>
    cases h
    have hself : List.Forall₂ (RowStitched []) rows rows :=
      List.forall₂_same.2 fun row _ =>
        ⟨fun pair hpair => absurd hpair List.not_mem_nil, fun name _ => rfl⟩
    exact .intro [] (fun pair hpair => absurd hpair List.not_mem_nil)
      (fun pair hpair => absurd hpair List.not_mem_nil) hself
  | @cons load others hlocal hforeign _ _ ihbelow ihrest =>
    obtain ⟨target, query⟩ := load
    cases hdistinct with
    | cons hfresh hbelow hothers =>
    obtain ⟨fetched, related, page, hfetch, hrelated, hpage, hrest, hcalls⟩ := loadAll_cons h
    have hfirst : FirstAppearances (presentKeys target.localKey rows)
        (keys target.localKey rows) :=
      firstAppearances_distinctByText fun v hv => (isKey_of_mem_keys hkeyed hv).1
    have hcompleted := ihbelow hbelow hanswers.below
      (hanswers.keyed _ (.here List.mem_cons_self) _ _ hfetch) hrelated
    have hraw : ∀ raw ∈ fetched, ∃ v, Entries.get? raw target.foreignKey = some v ∧
        v.isKey = true ∧ v.isNull = false := by
      intro raw hmem
      obtain ⟨v, hv, hget⟩ := hanswers.asked _ (.here List.mem_cons_self) _ _ hfetch raw hmem
      exact ⟨v, hget, isKey_of_mem_keys hkeyed ((hfirst.mem_iff v).1 hv)⟩
    -- Grouping reads the keys after the rows below were attached, which hide none of them.
    have hmatching : ∀ row ∈ rows, matching target related row =
        ((fetched.zip related).filter fun pair => belongs target row pair.1).map (·.2) :=
      fun row hrow => matching_eq_belonging
        (fun key hget => hkeyed _ List.mem_cons_self row hrow key hget) hraw
        (hcompleted.frame hforeign)
    have hstitched := ihrest hothers hanswers.rest (hkeyed.map_attach hlocal page related) hrest
    have hlooked (calls : List StorageCall) : LookedUp s defaultPerPage projection rows
        (target, query) ⟨keys target.localKey rows, fetched, related, page, calls⟩ :=
      ⟨hfirst, hfetch, hpage⟩
    rw [hcalls]
    exact .cons (hlooked _) hcompleted hmatching hlocal hfresh hstitched

end Stitching

end GraphProjection
