import GraphProjection.Proofs.Entries
import GraphProjection.Proofs.Narrowing
import GraphProjection.Proofs.Selection

/-!
# Root fields do not notice each other

A response is put together from what each root field is answered, and nothing else.  So every key
has a value and errors of its own (`under_answerAll`), and a field that fails leaves null and one
error there.

Whatever is computed with a storage depends on the storage through its answers to the calls that
are made: `Traced.Local` says so of a computation, and it is kept by going on from a value
(`Local.andThen`), hence by loading relations (`local_loadAll`) and by everything that is done for
a root field (`local_resolveRoot`).

Main statement: **`under_execute_of_answeredAlike`**, root fields are isolated from each other.
-/

namespace GraphProjection

open FieldNode

/-! ## Keys in order of first appearance -/

namespace FieldNode

/-- The keys of groups are the keys of the fields, each where it first appears. -/
lemma map_responseKey_firsts (nodes : List FieldNode) (seen : List String) :
    (firsts nodes seen).map (·.responseKey) =
      ((nodes.map (·.responseKey)).filter fun key => !seen.contains key).eraseDups := by
  induction nodes generalizing seen with
  | nil => rfl
  | cons node rest ih =>
    rw [firsts, List.map_cons]
    by_cases hseen : seen.contains node.responseKey = true
    · rw [if_pos hseen, ih, List.filter_cons_of_neg (by simpa using hseen)]
    · rw [if_neg hseen, List.map_cons, ih, List.filter_cons_of_pos (by simpa using hseen),
        List.eraseDups_cons, List.filter_filter]
      congr 2
      refine List.filter_congr fun key _ => ?_
      rw [List.contains_cons, Bool.not_or]

/-- The keys under which fields are answered are their response keys, each where it first
appears. -/
theorem map_key_grouped (nodes : List FieldNode) :
    (grouped nodes).map (·.key) = (nodes.map (·.responseKey)).eraseDups := by
  have hall : (nodes.map (·.responseKey)).filter (fun key => !([] : List String).contains key) =
      nodes.map (·.responseKey) := List.filter_eq_self.2 fun key _ => rfl
  rw [grouped, List.map_map, ← hall, ← map_responseKey_firsts]
  rfl

/-- What is first of its key among the fields that were not seen before is first among all. -/
lemma find?_of_mem_firsts {nodes : List FieldNode} {seen : List String} {node : FieldNode}
    (h : node ∈ firsts nodes seen) :
    node.responseKey ∉ seen ∧
      nodes.find? (·.responseKey == node.responseKey) = some node := by
  induction nodes generalizing seen with
  | nil => cases h
  | cons first rest ih =>
    rw [firsts] at h
    by_cases hseen : seen.contains first.responseKey = true
    · rw [if_pos hseen] at h
      obtain ⟨hnew, hfind⟩ := ih h
      have hne : first.responseKey ≠ node.responseKey := by
        intro heq
        exact hnew (heq ▸ List.contains_iff_mem.1 hseen)
      exact ⟨hnew, (List.find?_cons_of_neg (by simpa using hne)).trans hfind⟩
    · rw [if_neg hseen] at h
      rcases List.mem_cons.1 h with rfl | h
      · exact ⟨fun hmem => hseen (List.contains_iff_mem.2 hmem),
          List.find?_cons_of_pos (by simp)⟩
      · obtain ⟨hnew, hfind⟩ := ih h
        rw [List.mem_cons, not_or] at hnew
        exact ⟨hnew.2, (List.find?_cons_of_neg (by simpa using Ne.symm hnew.1)).trans hfind⟩

/-- A group is answered for its first field. -/
lemma find?_of_mem_grouped {nodes : List FieldNode} {r : ResponseField}
    (h : r ∈ grouped nodes) : nodes.find? (·.responseKey == r.key) = some r.node := by
  obtain ⟨first, hfirst, rfl⟩ := List.mem_map.1 h
  exact (find?_of_mem_firsts hfirst).2

lemma nodup_responseKey_firsts (nodes : List FieldNode) (seen : List String) :
    ((firsts nodes seen).map (·.responseKey)).Nodup := by
  induction nodes generalizing seen with
  | nil => exact List.nodup_nil
  | cons node rest ih =>
    rw [firsts]
    split
    · exact ih seen
    · rw [List.map_cons, List.nodup_cons]
      refine ⟨fun hmem => ?_, ih _⟩
      obtain ⟨other, hother, hkey⟩ := List.mem_map.1 hmem
      exact (find?_of_mem_firsts hother).1 (hkey ▸ List.mem_cons_self)

/-- No two groups have one key. -/
lemma nodup_key_grouped (nodes : List FieldNode) : ((grouped nodes).map (·.key)).Nodup := by
  have hkeys : (grouped nodes).map (·.key) = (firsts nodes []).map (·.responseKey) := by
    rw [grouped, List.map_map]
    rfl
  rw [hkeys]
  exact nodup_responseKey_firsts nodes []

end FieldNode

/-! ## What a response says under a key -/

/-- The key that the path of an error starts with. -/
def ResponseError.rootKey? (e : ResponseError) : Option String :=
  match e.path with
  | some (.key key :: _) => some key
  | _ => none

namespace Response

/-- The members of the data. -/
def members (r : Response) : Entries Value :=
  match r.data with
  | some (.object members) => members
  | _ => []

/-- What a response says under a key: the value of the data, and the errors whose path starts with
the key. -/
def under (r : Response) (key : String) : Option Value × List ResponseError :=
  (r.members.get? key, r.errors.filter (·.rootKey? == some key))

end Response

/-! ### Lists in which every key has its own part -/

section Keyed

variable {α β : Type} {key : α → String}

lemma get?_map_of_nodup (value : α → β) {items : List α} (h : (items.map key).Nodup) {a : α}
    (ha : a ∈ items) :
    Entries.get? (items.map fun a => (key a, value a)) (key a) = some (value a) := by
  induction items with
  | nil => cases ha
  | cons first rest ih =>
    rw [List.map_cons, List.nodup_cons] at h
    rw [List.map_cons, Entries.get?]
    rcases List.mem_cons.1 ha with rfl | ha
    · exact if_pos rfl
    · have hne : key first ≠ key a := fun heq => h.1 (heq ▸ List.mem_map_of_mem ha)
      rw [if_neg hne]
      exact ih h.2 ha

/-- Of parts that each belong to their key alone, those of one key are one part. -/
lemma filter_flatMap_of_nodup {owner : β → Option String} {part : α → List β}
    (howner : ∀ a, ∀ b ∈ part a, owner b = some (key a)) {items : List α}
    (h : (items.map key).Nodup) {a : α} (ha : a ∈ items) :
    (items.flatMap part).filter (fun b => owner b == some (key a)) = part a := by
  induction items with
  | nil => cases ha
  | cons first rest ih =>
    rw [List.map_cons, List.nodup_cons] at h
    rw [List.flatMap_cons, List.filter_append]
    rcases List.mem_cons.1 ha with rfl | ha
    · have hown : (part a).filter (fun b => owner b == some (key a)) = part a :=
        List.filter_eq_self.2 fun b hb => by rw [howner a b hb, beq_self_eq_true]
      -- No other item has the key.
      have hothers : (rest.flatMap part).filter (fun b => owner b == some (key a)) = [] := by
        refine List.filter_eq_nil_iff.2 fun b hb => ?_
        obtain ⟨other, hother, hb⟩ := List.mem_flatMap.1 hb
        rw [howner other b hb]
        simp only [beq_iff_eq, Option.some.injEq]
        exact fun heq => h.1 (heq ▸ List.mem_map_of_mem hother)
      rw [hown, hothers, List.append_nil]
    · have hfirst : (part first).filter (fun b => owner b == some (key a)) = [] := by
        refine List.filter_eq_nil_iff.2 fun b hb => ?_
        rw [howner first b hb]
        simp only [beq_iff_eq, Option.some.injEq]
        exact fun heq => h.1 (heq ▸ List.mem_map_of_mem ha)
      rw [hfirst, List.nil_append]
      exact ih h.2 ha

end Keyed

namespace Schema

/-- The errors of a root field have its key at the start of their paths. -/
lemma rootKey?_of_mem_answerRoot {s : Schema} {storage : Storage} {r : ResponseField}
    {e : ResponseError} (h : e ∈ (s.answerRoot storage r).errors) : e.rootKey? = some r.key := by
  rw [answerRoot] at h
  split at h
  · cases h
  · simp only at h
    cases houtcome : (s.resolveRoot storage r).outcome with
    | ok shaped =>
      rw [houtcome] at h
      obtain ⟨fault, -, rfl⟩ := List.mem_map.1 h
      rfl
    | error fault =>
      rw [houtcome] at h
      rw [List.mem_singleton.1 h]
      rfl

/-- Under the key of a root field a response says what the field is answered. -/
theorem under_answerAll (s : Schema) (storage : Storage) {nodes : List FieldNode}
    {r : ResponseField} (hr : r ∈ grouped nodes) :
    (s.answerAll storage nodes).response.under r.key =
      (some (s.answerRoot storage r).value, (s.answerRoot storage r).errors) := by
  have hnodup := nodup_key_grouped nodes
  have hvalue := get?_map_of_nodup (fun r => (s.answerRoot storage r).value) hnodup hr
  have howner : ∀ r, ∀ e ∈ (s.answerRoot storage r).errors, e.rootKey? = some r.key :=
    fun r e he => rootKey?_of_mem_answerRoot he
  have herrors := filter_flatMap_of_nodup howner hnodup hr
  rw [answerAll]
  simp only [Response.under, Response.members, List.map_map, List.flatMap_map]
  exact Prod.ext hvalue herrors

/-- A root field that fails leaves null and one error, which points at the field. -/
lemma answerRoot_of_error {s : Schema} {storage : Storage} {r : ResponseField}
    (htypename : r.node.name ≠ typename) {e : ExecutionError}
    (h : (s.resolveRoot storage r).outcome = .error e) :
    s.answerRoot storage r =
      ⟨(s.resolveRoot storage r).calls, .null, [s.rootErrorResponse r e]⟩ := by
  rw [answerRoot, if_neg htypename]
  simp only [h]

lemma location_rootErrorResponse (s : Schema) (r : ResponseField) (e : ExecutionError) :
    (s.rootErrorResponse r e).locations = [r.node.location] := by
  have hnone : (e.response s.registry.settings.debug).locations = [] := by
    rw [ExecutionError.response]
    split
    · split <;> rfl
    · rfl
  show (e.response s.registry.settings.debug).locations ++ [r.node.location] = _
  rw [hnone, List.nil_append]

end Schema

/-! ## Depending on a storage through its answers -/

/-- Two storages answer a call alike. -/
def StorageCall.AnsweredAlike (a b : Storage) : StorageCall → Prop
  | .count query => a.count query = b.count query
  | .fetch query => a.fetch query = b.fetch query

namespace Traced

variable {α β : Type}

/-- What is computed with a storage is the same with every other one that answers the calls that
are made alike. -/
def Local (t : Storage → Traced α) : Prop :=
  ∀ a b, (∀ call ∈ (t a).calls, call.AnsweredAlike a b) → t b = t a

lemma Local.const (t : Traced α) : Local fun _ => t := fun _ _ _ => rfl

/-- What follows a value depends on the calls before it and on its own. -/
theorem Local.andThen {t : Storage → Traced α} {next : Storage → α → Traced β} (ht : Local t)
    (hnext : ∀ a, Local (next · a)) : Local fun s => (t s).andThen (next s) := by
  intro a b h
  -- The calls of the first part are among those of the whole, whether or not it fails.
  have hfirst : ∀ call ∈ (t a).calls, call.AnsweredAlike a b := by
    intro call hcall
    refine h call ?_
    show call ∈ ((t a).andThen (next a)).calls
    rw [Traced.andThen]
    split
    · exact hcall
    · exact List.mem_append_left _ hcall
  show (t b).andThen (next b) = (t a).andThen (next a)
  rw [ht a b hfirst]
  cases hvalue : (t a).outcome with
  | error e =>
    rw [Traced.andThen, Traced.andThen, hvalue]
  | ok value =>
    have hrest : next b value = next a value := by
      refine hnext value a b fun call hcall => h call ?_
      show call ∈ ((t a).andThen (next a)).calls
      rw [calls_andThen_of_ok hvalue]
      exact List.mem_append_right _ hcall
    rw [Traced.andThen, Traced.andThen, hvalue]
    simp only [hrest]

lemma local_traceCount (query : SelectQuery) : Local (Storage.traceCount · query) := by
  intro a b h
  have hcount : a.count query = b.count query := h (.count query) (List.mem_singleton_self _)
  show b.traceCount query = a.traceCount query
  rw [Storage.traceCount, Storage.traceCount, hcount]

lemma local_traceFetch (query : SelectQuery) : Local (Storage.traceFetch · query) := by
  intro a b h
  have hfetch : a.fetch query = b.fetch query := h (.fetch query) (List.mem_singleton_self _)
  show b.traceFetch query = a.traceFetch query
  rw [Storage.traceFetch, Storage.traceFetch, hfetch]

end Traced

open Traced

namespace Stitching

mutual

lemma local_loadQuery (defaultPerPage : Nat) : (query : SelectQuery) →
    (projection : Option Projection) → (rows : List Row) →
    Local fun s => loadQuery s defaultPerPage query projection rows
  | ⟨_, _, _, _, _, _, loads⟩, projection, rows => by
    simp only [loadQuery]
    exact local_loadAll defaultPerPage loads projection rows

/-- Loading relations depends on what is fetched for them. -/
theorem local_loadAll (defaultPerPage : Nat) : (loads : List (RelationTarget × SelectQuery)) →
    (projection : Option Projection) → (rows : List Row) →
    Local fun s => loadAll s defaultPerPage loads projection rows
  | [], projection, rows => by
    simp only [loadAll]
    exact .const _
  | (target, query) :: rest, projection, rows => by
    simp only [loadAll]
    refine (local_traceFetch (relatedQuery target query rows)).andThen fun fetched => ?_
    refine (local_loadQuery defaultPerPage query _ fetched).andThen fun related => ?_
    cases relationPage ((projection.bind (·.relation? target.field)).map (·.1))
        defaultPerPage with
    | error e => exact .const _
    | ok page => exact local_loadAll defaultPerPage rest projection _

end

end Stitching

namespace Schema

lemma local_fetchRows (s : Schema) (p : Prepared) (query : SelectQuery)
    (keep : List Row → List Row) : Local fun storage => s.fetchRows storage p query keep := by
  simp only [fetchRows]
  exact (local_traceFetch query).andThen fun rows => Stitching.local_loadQuery _ query _ _

lemma local_fetchTotal (page : PageRequest) (query : SelectQuery) :
    Local fun storage => fetchTotal storage page query := by
  simp only [fetchTotal]
  split
  · exact (local_traceCount query).andThen fun n => .const _
  · exact .const _

lemma local_fetchPage (s : Schema) (p : Prepared) (kind : PageKind) (arguments : Arguments) :
    Local fun storage => s.fetchPage storage p kind arguments := by
  simp only [fetchPage]
  split
  · exact .const _
  · next page _ =>
    refine (local_fetchTotal page p.query).andThen fun total => ?_
    exact (local_fetchRows s p _ id).andThen fun rows => .const _

lemma local_fetchValue (s : Schema) (field : RootField) (p : Prepared) (r : ResponseField) :
    Local fun storage => s.fetchValue storage field p r := by
  simp only [fetchValue, fetchList, fetchOne]
  split
  · exact local_fetchPage s p _ _
  · split
    · exact (local_fetchRows s p _ _).andThen fun rows => .const _
    · exact (local_fetchRows s p _ _).andThen fun rows => .const _

/-- The outcome of a root field depends on the calls that are made for it. -/
theorem local_resolveRoot (s : Schema) (r : ResponseField) :
    Local fun storage => s.resolveRoot storage r := by
  simp only [resolveRoot]
  split
  · exact .const _
  · next field _ =>
    split
    · exact .const _
    · next p _ => exact (local_fetchValue s field p r).andThen fun value => .const _

/-- What a root field is answered depends on the calls that are made for it. -/
lemma answerRoot_congr {s : Schema} {a b : Storage} {r : ResponseField}
    (h : ∀ call ∈ (s.answerRoot a r).calls, call.AnsweredAlike a b) :
    s.answerRoot b r = s.answerRoot a r := by
  rw [answerRoot, answerRoot]
  by_cases htypename : r.node.name = typename
  · rw [if_pos htypename, if_pos htypename]
  · rw [calls_answerRoot htypename] at h
    have hresolved : s.resolveRoot b r = s.resolveRoot a r := local_resolveRoot s r a b h
    rw [if_neg htypename, if_neg htypename, hresolved]

/-! ## Isolation -/

/-- **Root fields are isolated from each other.**  The keys of the data are the response keys of
the root fields in order of first appearance, and every error lies under one of them.  A root
field that fails leaves null under its key and one error, which has the key alone for its path and
the place of the first field of that key for its location.  And what a response says under a key
is the same for any two storages that answer alike the calls that are made for that key, whatever
they answer to the others. -/
theorem under_execute_of_answeredAlike {s : Schema} {request : Request} {nodes : List FieldNode}
    (h : s.requestedFields request = .ok nodes) (storage : Storage) :
    ((∃ members, (s.execute storage request).response.data = some (.object members)) ∧
      (s.execute storage request).response.members.names =
        (nodes.map (·.responseKey)).eraseDups) ∧
    (∀ e ∈ (s.execute storage request).response.errors,
      ∃ key ∈ nodes.map (·.responseKey), e.rootKey? = some key) ∧
    (∀ r ∈ grouped nodes, r.node.name ≠ typename →
      ∀ fault, (s.resolveRoot storage r).outcome = .error fault →
        ∃ e first, (s.execute storage request).response.under r.key = (some .null, [e]) ∧
          e.path = some [.key r.key] ∧
          nodes.find? (·.responseKey == r.key) = some first ∧ e.locations = [first.location]) ∧
    (∀ r ∈ grouped nodes, ∀ other,
      (∀ call ∈ (s.answerRoot storage r).calls, call.AnsweredAlike storage other) →
        (s.execute other request).response.under r.key =
          (s.execute storage request).response.under r.key) := by
  have hexecute : ∀ storage, s.execute storage request = s.answerAll storage nodes := by
    intro storage
    rw [execute, h]
  -- Each part is read off the answers of the root fields, which are put side by side.
  rw [hexecute storage]
  refine ⟨⟨⟨_, rfl⟩, ?_⟩, ?_, ?_, ?_⟩
  · rw [← map_key_grouped]
    simp only [answerAll, Response.members, Entries.names, List.map_map]
    rfl
  · intro e he
    obtain ⟨⟨key, answer⟩, hanswer, he⟩ := List.mem_flatMap.1 he
    obtain ⟨r, hr, heq⟩ := List.mem_map.1 hanswer
    cases heq
    exact ⟨r.key, List.mem_map_of_mem (mem_grouped hr).1, rootKey?_of_mem_answerRoot he⟩
  · intro r hr htypename fault hfault
    refine ⟨s.rootErrorResponse r fault, r.node, ?_, rfl, find?_of_mem_grouped hr,
      location_rootErrorResponse s r fault⟩
    rw [under_answerAll s storage hr, answerRoot_of_error htypename hfault]
  · intro r hr other halike
    rw [hexecute other, under_answerAll s other hr, under_answerAll s storage hr,
      answerRoot_congr halike]

/-! ### Posts beside drafts -/

/-- Posts, and drafts from a table of their own. -/
def draftSchema : Schema where
  registry := Shaper.blog
  services := fun _ => none
  fields := [
    ⟨{ name := "posts", type := "[Post!]!", table := "posts" },
      .list (.named "Post" true) true⟩,
    ⟨{ name := "drafts", type := "[Post!]!", table := "drafts" },
      .list (.named "Post" true) true⟩]

/-- The titles of both. -/
def draftRequest : Request where
  query := "\x7b posts \x7b title \x7d drafts \x7b title \x7d \x7d"

/-- The storage of posts and comments, where it has no drafts. -/
def draftlessStorage : Storage where
  count := blogStorage.count
  fetch query := if query.table = "drafts" then .error ⟨"no drafts"⟩ else blogStorage.fetch query

/-- Whether a call is not about drafts. -/
def sparesDrafts : StorageCall → Bool
  | .count _ => true
  | .fetch query => query.table != "drafts"

lemma answeredAlike_of_sparesDrafts {call : StorageCall} (h : sparesDrafts call = true) :
    call.AnsweredAlike blogStorage draftlessStorage := by
  cases call with
  | count query => rfl
  | fetch query => exact (if_neg (by simpa [sparesDrafts] using h)).symm

/-- The posts do not notice that the drafts cannot be fetched. -/
theorem under_execute_draftRequest :
    (draftSchema.execute draftlessStorage draftRequest).response.under "posts" =
        (draftSchema.execute blogStorage draftRequest).response.under "posts" ∧
      ∃ e, (draftSchema.execute draftlessStorage draftRequest).response.under "drafts" =
        (some .null, [e]) := by
  have hcalls : (match draftSchema.requestedFields draftRequest with
      | .ok nodes => (grouped nodes).map (fun r => (r.key, r.node.name,
          (draftSchema.answerRoot blogStorage r).calls.all sparesDrafts,
          (draftSchema.resolveRoot draftlessStorage r).outcome.isOk)) ==
        [("posts", "posts", true, true), ("drafts", "drafts", false, false)]
      | .error _ => false) = true := by decide +kernel
  cases hnodes : draftSchema.requestedFields draftRequest with
  | error e =>
    rw [hnodes] at hcalls
    cases hcalls
  | ok nodes =>
    rw [hnodes] at hcalls
    obtain ⟨posts, drafts, hgrouped, hposts, hdrafts⟩ : ∃ posts drafts,
        grouped nodes = [posts, drafts] ∧
        (posts.key = "posts" ∧
          (draftSchema.answerRoot blogStorage posts).calls.all sparesDrafts = true) ∧
        (drafts.key = "drafts" ∧ drafts.node.name = "drafts" ∧
          (draftSchema.resolveRoot draftlessStorage drafts).outcome.isOk = false) := by
      match hgroups : grouped nodes with
      | [posts, drafts] =>
        simp only [hgroups, List.map_cons, List.map_nil, beq_iff_eq, List.cons.injEq,
          Prod.mk.injEq, and_true] at hcalls
        exact ⟨posts, drafts, rfl, ⟨hcalls.1.1, hcalls.1.2.2.1⟩,
          ⟨hcalls.2.1, hcalls.2.2.1, hcalls.2.2.2.2⟩⟩
      | [] | [_] | _ :: _ :: _ :: _ => simp [hgroups] at hcalls
    have hin : posts ∈ grouped nodes ∧ drafts ∈ grouped nodes := by simp [hgrouped]
    refine ⟨?_, ?_⟩
    · obtain ⟨-, -, -, hisolated⟩ := under_execute_of_answeredAlike hnodes blogStorage
      rw [← hposts.1]
      exact hisolated posts hin.1 draftlessStorage fun call hcall =>
        answeredAlike_of_sparesDrafts (List.all_eq_true.1 hposts.2 call hcall)
    · obtain ⟨-, -, hfailed, -⟩ := under_execute_of_answeredAlike hnodes draftlessStorage
      have htypename : drafts.node.name ≠ typename := by rw [hdrafts.2.1]; decide
      cases houtcome : (draftSchema.resolveRoot draftlessStorage drafts).outcome with
      | ok shaped =>
        rw [houtcome] at hdrafts
        cases hdrafts.2.2
      | error fault =>
        obtain ⟨e, first, hunder, -⟩ := hfailed drafts hin.2 htypename fault houtcome
        exact ⟨e, hdrafts.1 ▸ hunder⟩

end Schema

end GraphProjection
