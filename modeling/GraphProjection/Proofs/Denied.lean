import GraphProjection.Proofs.Denied.Projections
import GraphProjection.Proofs.Denied.Shaping

/-!
# Denied fields leak nothing

The projector and the shaper ask the privacy rules each for itself, the one with the arguments of
the first field of a name, the other with those of the first field of a response key.  What a rule
denies comes out of neither: it is not fetched with what lies below it, and where it was asked for
there is null, whatever the rows hold.

A resolver is handed the whole row, and with it the rows that were attached to the row.  So the
resolver of an allowed field sees what is denied further down, and so does a column that a relation
was attached over (`Shaper.shape_ne_discussionPost`).

Main statement: **`Registry.shape_and_project_of_denies`**.
-/

namespace GraphProjection

open FieldNode

/-- **Denied fields leak nothing.**

Two values of one shape that differ, at any depth, in entries of rows that no allowed field reads
are shaped in the same way, into the same value with the same errors, if the rows with the
differences are seen by relations only from the rows above.  Every field that is denied is null
under its key, without an error, in every row that shaping comes to, whatever its kind, its resolver
and its parameters.  A selection has the same projection whatever is asked for below denied
relations, at any depth, and a relation that is denied is not loaded. -/
theorem Registry.shape_and_project_of_denies (r : Registry) (services : ServiceLocator)
    (type : String) (nodes : List FieldNode) :
    (∀ v w, Shaper.AlikeBut ⟨r, services⟩ (Shaper.SeenByRelations ⟨r, services⟩) type nodes v w →
      Shaper.shape ⟨r, services⟩ type v nodes = Shaper.shape ⟨r, services⟩ type w nodes) ∧
    (∀ v shaped, Shaper.shape ⟨r, services⟩ type v nodes = .ok shaped →
      ∀ path t inner row, Shaper.ReachesRow ⟨r, services⟩ type nodes v path t inner row →
        ∀ g f, Shaper.Denies ⟨r, services⟩ t inner g f → shaped.SilentAt (path ++ [.key g.key])) ∧
    (∀ others, Projector.SameButDenied ⟨r, services⟩ type nodes others →
      Projector.project ⟨r, services⟩ type nodes = Projector.project ⟨r, services⟩ type others) ∧
    (∀ t, r.describe type = .ok (some t) → ∀ p,
      Projector.projectType ⟨r, services⟩ t nodes = .ok p → ∀ f ∈ t.fields,
        Projector.Denies ⟨r, services⟩ nodes f → p.relation? f.name = none) :=
  ⟨fun _ _ h => Shaper.shapeValue_of_alikeBut h,
    fun _ _ h _ _ _ _ hreaches _ _ hdenies => Shaper.silentAt_of_denies hreaches hdenies h,
    fun _ h => Projector.project_of_sameButDenied h,
    fun _ ht _ hp _ hf hdenies => Projector.relation?_of_denies ht hp hf hdenies⟩

/-! ## Comments with a secret -/

namespace Shaper

/-- Posts with their comments; the resolver of `related` hands the comments out as they are, and
`raw` is a column under whose name the comments are attached.  The reports of a post and the secret
of a comment are denied to everyone. -/
def discussion : Registry where
  settings := {}
  types := [
    { name := "Post"
      table := some "posts"
      fields := [
        { name := "comments", type := "[Comment!]!"
          relation := some { localKey := some "id", foreignKey := some "post_id" } },
        { name := "reports", type := "[Comment!]!"
          relation := some { localKey := some "id", foreignKey := some "reported_id" }
          privacy := some fun _ _ => false },
        { name := "related", type := "String", selectable := false
          resolver := some fun row _ => Value.orNull (row.get? "comments") },
        { name := "raw", type := "String", column := some "comments" }] },
    { name := "Comment"
      table := some "comments"
      fields := [
        { name := "body", type := "String" },
        { name := "secret", type := "String", privacy := some fun _ _ => false }] }]

/-- The shaper of the discussion, without services. -/
def discussionShaper : Shaper := ⟨discussion, fun _ => none⟩

/-- The secret of a comment. -/
def commentSecret : FieldDescriptor :=
  ⟨"secret", .named "String" false, .column "secret", false, some fun _ _ => false, none⟩

/-- The type of comments. -/
def discussionComment : OutputType :=
  ⟨"Comment", some "comments",
    [⟨"body", .named "String" false, .column "body", false, none, none⟩, commentSecret]⟩

/-- The comments of a post. -/
def postComments : FieldDescriptor :=
  ⟨"comments", .list (.named "Comment" true) true,
    .relation ⟨"comments", "id", "post_id", none⟩, false, none, none⟩

/-- The reports of a post. -/
def postReports : FieldDescriptor :=
  ⟨"reports", .list (.named "Comment" true) true,
    .relation ⟨"reports", "id", "reported_id", none⟩, false, some fun _ _ => false, none⟩

/-- The type of posts. -/
def discussionPost : OutputType :=
  ⟨"Post", some "posts", [postComments, postReports,
    ⟨"related", .named "String" false, .notSelectable, false, none,
      some fun row _ => Value.orNull (row.get? "comments")⟩,
    ⟨"raw", .named "String" false, .column "comments", false, none, none⟩]⟩

lemma describe_discussion_post :
    discussion.describe "Post" = .ok (some discussionPost) := by with_unfolding_all rfl

lemma describe_discussion_comment :
    discussion.describe "Comment" = .ok (some discussionComment) := by with_unfolding_all rfl

lemma envelope?_discussion :
    discussion.envelope? "Post" = none ∧ discussion.envelope? "Comment" = none :=
  ⟨rfl, rfl⟩

/-- The bodies and the secrets of comments. -/
def commentNodes : List FieldNode := [plainNode "body" [], plainNode "secret" []]

/-- The comments of a post, and what is selected beside them. -/
def postNodes (others : List FieldNode) : List FieldNode :=
  plainNode "comments" commentNodes :: others

/-- A comment with a secret. -/
def commentRow (secret : String) : Row :=
  [("body", .string "First"), ("secret", .string secret)]

/-- A post with a comment that has a secret. -/
def postRow (secret : String) : Row :=
  [("id", .int 1), ("comments", .array [.object (commentRow secret)])]

variable {through : OutputType → List FieldNode → String → Prop} {a b : String}

/-- Comments with different secrets differ in what is denied. -/
lemma alikeBut_commentRow (hne : a ≠ b) :
    AlikeBut discussionShaper through "Comment" commentNodes (.object (commentRow a))
      (.object (commentRow b)) := by
  have hdiffer : (commentRow a).get? "secret" ≠ (commentRow b).get? "secret" := by
    simpa [commentRow, Entries.get?] using hne
  refine .row (fun _ => False) envelope?_discussion.2 describe_discussion_comment ⟨_, hdiffer⟩
    (fun name _ => ?_) (fun _ h => h.elim) (fun _ h => h.elim) fun _ _ _ _ h => h.elim
  by_cases hname : name = "secret"
  · subst hname
    refine .inr fun g f hallows => ?_
    have hf := (OutputType.mem_of_field? hallows.found).1
    simp only [discussionComment, List.mem_cons, List.not_mem_nil, or_false] at hf
    rcases hf with rfl | rfl
    · exact ⟨rfl, by decide⟩
    · exact absurd hallows.allowed Bool.false_ne_true
  · exact .inl (by simp [commentRow, Entries.get?, Ne.symm hname])

/-- Posts with such comments differ in what is denied below them. -/
lemma alikeBut_postRow {nodes : List FieldNode}
    (hthrough : through discussionPost nodes "comments")
    (hchildren : ∀ g ∈ grouped nodes, g.node.name = "comments" → g.children = commentNodes)
    (hne : a ≠ b) :
    AlikeBut discussionShaper through "Post" nodes (.object (postRow a)) (.object (postRow b)) := by
  have hdiffer : (postRow a).get? "comments" ≠ (postRow b).get? "comments" := by
    simpa [postRow, commentRow, Entries.get?] using hne
  -- The comments are the one member that differs, and they are only seen by a relation.
  refine .row (· = "comments") envelope?_discussion.1 describe_discussion_post ⟨_, hdiffer⟩
    (fun name hname => .inl ?_) (fun _ hname => hname ▸ hthrough) (fun _ hname => hname ▸ rfl) ?_
  · simp [postRow, Entries.get?, Ne.symm hname]
  · intro g f hallows hrelation _ v w hv hw
    obtain ⟨hf, hname⟩ := OutputType.mem_of_field? hallows.found
    simp only [discussionPost, List.mem_cons, List.not_mem_nil, or_false] at hf
    rcases hf with rfl | rfl | rfl | rfl
    · cases hv
      cases hw
      rw [hchildren g hallows.mem hname.symm]
      refine .array rfl fun n v w hv hw => ?_
      cases n with
      | zero =>
        cases hv
        cases hw
        exact alikeBut_commentRow hne
      | succ n => cases hv
    · exact absurd hallows.allowed Bool.false_ne_true
    · cases hrelation
    · cases hrelation

/-- What is asked of the comments of a post. -/
def askedComments : ResponseField := ⟨plainNode "comments" commentNodes, commentNodes⟩

lemma allows_askedComments {others : List FieldNode}
    (h : askedComments ∈ grouped (postNodes others)) :
    discussionShaper.Allows discussionPost (postNodes others) askedComments postComments where
  mem := h
  name := by decide
  found := rfl
  allowed := rfl

/-- The comments of a post, and what the resolver makes of them. -/
def relatedNodes : List FieldNode := postNodes [plainNode "related" []]

/-- The comments of a post, and the column that they are attached over. -/
def rawNodes : List FieldNode := postNodes [plainNode "raw" []]

/-- Beside one other field, the comments are read by their relation, and the posts are alike. -/
lemma alikeBut_readByRelation {name : String} (hname : name ≠ "comments")
    (hgrouped : grouped (postNodes [plainNode name []]) =
      [askedComments, ⟨plainNode name [], []⟩]) :
    AlikeBut discussionShaper discussionShaper.ReadByRelation "Post"
      (postNodes [plainNode name []]) (.object (postRow "a")) (.object (postRow "b")) := by
  have hmem : askedComments ∈ grouped (postNodes [plainNode name []]) := by simp [hgrouped]
  refine alikeBut_postRow ⟨askedComments, postComments, allows_askedComments hmem, rfl, rfl, rfl⟩
    (fun g hg hcomments => ?_) (by decide)
  rw [hgrouped] at hg
  simp only [List.mem_cons, List.not_mem_nil, or_false] at hg
  rcases hg with rfl | rfl
  · rfl
  · exact absurd hcomments hname

/-- **What is denied below is seen from above**, by a resolver and by a column that a relation was
attached over: with either beside the comments, two posts whose comments differ in their secrets are
shaped into different values. -/
theorem shape_ne_discussionPost :
    (AlikeBut discussionShaper discussionShaper.ReadByRelation "Post" relatedNodes
        (.object (postRow "a")) (.object (postRow "b")) ∧
      discussionShaper.shape "Post" (.object (postRow "a")) relatedNodes ≠
        discussionShaper.shape "Post" (.object (postRow "b")) relatedNodes) ∧
    AlikeBut discussionShaper discussionShaper.ReadByRelation "Post" rawNodes
        (.object (postRow "a")) (.object (postRow "b")) ∧
      discussionShaper.shape "Post" (.object (postRow "a")) rawNodes ≠
        discussionShaper.shape "Post" (.object (postRow "b")) rawNodes := by
  have htexts : ∀ nodes ∈ [relatedNodes, rawNodes],
      (discussionShaper.shape "Post" (.object (postRow "a")) nodes).toOption.map (·.value.text) ≠
        (discussionShaper.shape "Post" (.object (postRow "b")) nodes).toOption.map
          (·.value.text) := by decide +kernel
  refine ⟨⟨alikeBut_readByRelation (by decide) rfl, fun heq => ?_⟩,
    alikeBut_readByRelation (by decide) rfl, fun heq => ?_⟩
  · exact htexts relatedNodes (.head _) (by rw [heq])
  · exact htexts rawNodes (.tail _ (.head _)) (by rw [heq])

/-- What is asked of a post: its comments, and its reports. -/
def reportedNodes : List FieldNode := postNodes [plainNode "reports" [plainNode "body" []]]

/-- What is asked of the reports of a post. -/
def askedReports : ResponseField :=
  ⟨plainNode "reports" [plainNode "body" []], [plainNode "body" []]⟩

lemma grouped_reportedNodes : grouped reportedNodes = [askedComments, askedReports] := rfl

/-- Nobody but the relation sees the comments. -/
lemma seenByRelations_reportedNodes :
    discussionShaper.SeenByRelations discussionPost reportedNodes "comments" := by
  intro g f hallows
  have hmem := hallows.mem
  rw [grouped_reportedNodes] at hmem
  simp only [List.mem_cons, List.not_mem_nil, or_false] at hmem
  rcases hmem with rfl | rfl
  · cases (show discussionPost.field? "comments" = some postComments from rfl).symm.trans
      hallows.found
    exact ⟨rfl, fun _ => rfl⟩
  · cases (show discussionPost.field? "reports" = some postReports from rfl).symm.trans
      hallows.found
    exact absurd hallows.allowed Bool.false_ne_true

end Shaper

open Shaper in
/-- The secret of a comment is null beside its body, the reports are null as well, and neither the
secret nor what is asked of the reports makes a difference. -/
theorem Registry.shape_and_project_of_denies_discussion :
    discussionShaper.shape "Post" (.object (postRow "a")) reportedNodes =
        discussionShaper.shape "Post" (.object (postRow "b")) reportedNodes ∧
      (∃ shaped, discussionShaper.shape "Post" (.object (postRow "a")) reportedNodes = .ok shaped ∧
        shaped.SilentAt [.key "comments", .index 0, .key "secret"] ∧
        shaped.SilentAt [.key "reports"]) ∧
      Projector.project ⟨discussion, fun _ => none⟩ "Post" reportedNodes =
        Projector.project ⟨discussion, fun _ => none⟩ "Post"
          (withBelow "reports" (fun _ => [plainNode "secret" []]) reportedNodes) ∧
      ∃ p, Projector.projectType ⟨discussion, fun _ => none⟩ discussionPost reportedNodes = .ok p ∧
        p.relation? "reports" = none := by
  obtain ⟨hshape, hsilent, hproject, hloaded⟩ := Registry.shape_and_project_of_denies discussion
    (fun _ => none) "Post" reportedNodes
  have hcomments : askedComments ∈ grouped reportedNodes := by simp [grouped_reportedNodes]
  have hreports : askedReports ∈ grouped reportedNodes := by simp [grouped_reportedNodes]
  have hdenies : Projector.Denies ⟨discussion, fun _ => none⟩ reportedNodes postReports :=
    ⟨plainNode "reports" [plainNode "body" []], [], rfl, rfl⟩
  refine ⟨hshape _ _ (alikeBut_postRow seenByRelations_reportedNodes ?_ (by decide)), ?_, ?_, ?_⟩
  · intro g hg hname
    rw [grouped_reportedNodes] at hg
    simp only [List.mem_cons, List.not_mem_nil, or_false] at hg
    rcases hg with rfl | rfl
    · rfl
    · exact absurd hname (by decide)
  · have hok : (discussionShaper.shape "Post" (.object (postRow "a")) reportedNodes).isOk = true :=
      by decide +kernel
    cases hshaped : discussionShaper.shape "Post" (.object (postRow "a")) reportedNodes with
    | error e =>
      rw [hshaped] at hok
      cases hok
    | ok shaped =>
      -- The secret is denied one level down, in the first of the comments.
      have hreaches : discussionShaper.ReachesRow "Post" reportedNodes (.object (postRow "a"))
          [.key "comments", .index 0] discussionComment commentNodes (commentRow "a") :=
        .relation envelope?_discussion.1 describe_discussion_post (allows_askedComments hcomments)
          rfl rfl rfl (.item rfl (.here envelope?_discussion.2 describe_discussion_comment))
      have hsecret : discussionShaper.Denies discussionComment commentNodes
          ⟨plainNode "secret" [], []⟩ commentSecret :=
        ⟨⟨.tail _ (.head _), by decide, rfl⟩, rfl⟩
      refine ⟨shaped, rfl, hsilent _ _ hshaped _ _ _ _ hreaches _ _ hsecret, ?_⟩
      exact hsilent _ _ hshaped [] _ _ _ (.here envelope?_discussion.1 describe_discussion_post)
        askedReports postReports ⟨⟨hreports, by decide, rfl⟩, rfl⟩
  · refine hproject _ (Projector.sameButDenied_withBelow envelope?_discussion.1 ?_ _)
    intro t ht f hf hname
    cases describe_discussion_post.symm.trans ht
    have hsame : f = postReports :=
      Registry.eq_of_name_eq describe_discussion_post hf (.tail _ (.head _)) hname
    exact hsame ▸ hdenies.not_allows
  · have hok : (Projector.projectType ⟨discussion, fun _ => none⟩ discussionPost
        reportedNodes).isOk = true := by decide +kernel
    cases hp : Projector.projectType ⟨discussion, fun _ => none⟩ discussionPost reportedNodes with
    | error e =>
      rw [hp] at hok
      cases hok
    | ok p =>
      refine ⟨p, rfl, ?_⟩
      exact hloaded _ describe_discussion_post p hp postReports (.tail _ (.head _)) hdenies

end GraphProjection
