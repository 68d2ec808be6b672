import GraphProjection.Proofs.Locations.Names
import GraphProjection.Proofs.Locations.Tokens
import Mathlib.Data.List.TakeWhile

/-!
# Places are faithful

The reader counts bytes, the user lines and columns, and nothing is lost between the two: of the
numbers of bytes at which a character of a text may start, each has a place of its own, and places
come in the order of the numbers.  `Location.IsBehind` says what line and column are without the
scans that find them.

A field of an expanded document keeps its place only.  The place is that of the token which the
field's key, or else its name, was read from, and of no other token of the text.

Main statement: **`Location.faithful`**.
-/

namespace GraphProjection

open FieldNode

namespace Location

/-! ## The order of places -/

/-- One place comes before another: on a line above it, or to the left of it on the same line. -/
def Before (a b : Location) : Prop := a.line < b.line ∨ a.line = b.line ∧ a.column < b.column

lemma Before.ne {a b : Location} (h : a.Before b) : a ≠ b := by
  rintro rfl
  rcases h with h | ⟨-, h⟩ <;> exact Nat.lt_irrefl _ h

/-- A place is the one right behind a text: its line is one more than the line feeds in the text,
and its column one more than the characters behind the last of them. -/
structure IsBehind (front : List Char) (l : Location) : Prop where
  line_eq : l.line = front.count '\n' + 1
  column_eq : ∃ above line, front = above ++ line ∧ (above = [] ∨ above.getLast? = some '\n') ∧
    '\n' ∉ line ∧ l.column = line.length + 1

lemma isBehind_behind (front : List Char) : IsBehind front (behind front) where
  line_eq := rfl
  column_eq := by
    refine ⟨(front.reverse.dropWhile (· != '\n')).reverse,
      (front.reverse.takeWhile (· != '\n')).reverse, ?_, ?_, ?_, ?_⟩
    · rw [← List.reverse_append, List.takeWhile_append_dropWhile, List.reverse_reverse]
    · rw [List.getLast?_reverse, List.reverse_eq_nil_iff]
      have hlast := List.head?_dropWhile_not (· != '\n') front.reverse
      cases hbehind : front.reverse.dropWhile (· != '\n') with
      | nil => exact .inl rfl
      | cons c rest =>
        rw [hbehind] at hlast
        exact .inr (congrArg some (by simpa using hlast))
    · rw [List.mem_reverse]
      intro hmem
      simpa using List.mem_takeWhile_imp hmem
    · rw [List.length_reverse]
      rfl

/-- What is behind more of a text comes later. -/
lemma before_behind_append (front : List Char) {more : List Char} (h : more ≠ []) :
    (behind front).Before (behind (front ++ more)) := by
  have hlines : (front ++ more).count '\n' = front.count '\n' + more.count '\n' :=
    List.count_append
  by_cases hmore : '\n' ∈ more
  · have hpos := List.count_pos_iff.2 hmore
    exact .inl (by simp only [behind]; omega)
  · have hnone := List.count_eq_zero.2 hmore
    have hall : ∀ c ∈ more.reverse, (c != '\n') = true := by
      intro c hc
      rw [bne_iff_ne]
      exact fun heq => hmore (List.mem_reverse.1 (heq ▸ hc))
    have hpos := List.length_pos_iff.2 h
    refine .inr ⟨by simp only [behind]; omega, ?_⟩
    simp only [behind, List.reverse_append, List.takeWhile_append_of_pos hall, List.length_append,
      List.length_reverse]
    omega

/-! ## Where characters start -/

lemma bytes_eq_utf8ByteSize (cs : List Char) : bytes cs = (String.ofList cs).utf8ByteSize := by
  induction cs with
  | nil => rfl
  | cons c rest ih =>
    rw [bytes, ih, String.ofList_cons, String.utf8ByteSize_append, String.utf8ByteSize_singleton]

lemma bytes_toList (text : String) : bytes text.toList = text.utf8ByteSize := by
  rw [bytes_eq_utf8ByteSize, String.ofList_toList]

/-- Where a character may start, the place is the one behind the text in front. -/
lemma exists_front_of_isValid {text : String} {p : String.Pos.Raw} (h : p.IsValid text) :
    ∃ front rest : String, text = front ++ rest ∧ front.utf8ByteSize = p.byteIdx ∧
      ofOffset text.toList p.byteIdx = behind front.toList := by
  obtain ⟨front, rest, rfl, rfl⟩ := String.Pos.Raw.isValid_iff_exists_append.1 h
  refine ⟨front, rest, rfl, rfl, ?_⟩
  have hoffset := ofOffset_bytes front.toList rest.toList
  rwa [← String.toList_append, bytes_toList] at hoffset

lemma before_of_lt {text : String} {p q : String.Pos.Raw} (hp : p.IsValid text)
    (hq : q.IsValid text) (h : p < q) :
    (ofOffset text.toList p.byteIdx).Before (ofOffset text.toList q.byteIdx) := by
  obtain ⟨front, rest, htext, hsize, hplace⟩ := exists_front_of_isValid hp
  obtain ⟨longer, rest', htext', hsize', hplace'⟩ := exists_front_of_isValid hq
  rw [hplace, hplace']
  have hlt : bytes front.toList < bytes longer.toList := by
    rw [bytes_toList, bytes_toList, hsize, hsize']
    exact h
  have hfront : front.toList <+: text.toList := ⟨rest.toList, by rw [htext, String.toList_append]⟩
  have hlonger : longer.toList <+: text.toList :=
    ⟨rest'.toList, by rw [htext', String.toList_append]⟩
  -- Of two texts that both stand in front, the one with fewer bytes is in front of the other.
  rcases List.prefix_or_prefix_of_prefix hfront hlonger with ⟨more, hmore⟩ | ⟨more, hmore⟩
  · rw [← hmore]
    refine before_behind_append _ ?_
    rintro rfl
    rw [List.append_nil] at hmore
    rw [hmore] at hlt
    exact Nat.lt_irrefl _ hlt
  · rw [← hmore, bytes_append] at hlt
    omega

lemma isValid_of_standsIn {text : String} {t : Token} (h : t.StandsIn text.toList) :
    String.Pos.Raw.IsValid text ⟨t.offset⟩ := by
  obtain ⟨front, rest, behind, htext, hoffset, -⟩ := h
  refine String.Pos.Raw.isValid_iff_exists_append.2 ⟨.ofList front, .ofList rest, ?_, ?_⟩
  · rw [← String.ofList_append, ← htext, String.ofList_toList]
  · rw [hoffset, bytes_eq_utf8ByteSize]
    rfl

lemma eq_of_ofOffset_eq {text : String} {p q : String.Pos.Raw} (hp : p.IsValid text)
    (hq : q.IsValid text) (h : ofOffset text.toList p.byteIdx = ofOffset text.toList q.byteIdx) :
    p = q := by
  by_contra hne
  rcases Nat.lt_or_gt_of_ne fun heq => hne (String.Pos.Raw.ext heq) with hlt | hlt
  · exact (before_of_lt hp hq hlt).ne h
  · exact (before_of_lt hq hp hlt).ne h.symm

end Location

/-! ## The places of fields -/

/-- An expanded field was read from a field of a document and a token of the text: it has the key
and the name of that field, the token is that of the key, or else of the name, and stands in the
text at the place of the expanded field, and no other token does. -/
structure FieldNode.ReadFrom (node : FieldNode) (text : String) (tokens : List Token)
    (field : Option Name × Name) (token : Token) : Prop where
  key_eq : node.key = field.1.map (·.text)
  name_eq : node.name = field.2.text
  token_eq : token = (field.1.getD field.2).token
  standsIn : token.StandsIn text.toList
  location_eq : node.location = Location.ofOffset text.toList token.offset
  unique : ∀ other ∈ tokens, node.location = Location.ofOffset text.toList other.offset →
    other = token

/-- **Places are faithful.**

Of two numbers of bytes at which a character of a text may start, or the text end, the smaller one
has the earlier place, so that different numbers have different places.  The line of such a place
is one more than the line feeds in front of it, and its column one more than the characters since
the last of them or since the start.

Every field of a document that is expanded, at any depth, has the place of one token of the text
only, which is the key of the field in the document, or its name where it has no key. -/
theorem Location.faithful (text : String) :
    (∀ p q : String.Pos.Raw, p.IsValid text → q.IsValid text → p < q →
      (ofOffset text.toList p.byteIdx).Before (ofOffset text.toList q.byteIdx)) ∧
    (∀ p q : String.Pos.Raw, p.IsValid text → q.IsValid text →
      ofOffset text.toList p.byteIdx = ofOffset text.toList q.byteIdx → p = q) ∧
    (∀ p : String.Pos.Raw, p.IsValid text → ∃ front rest : String, text = front ++ rest ∧
      front.utf8ByteSize = p.byteIdx ∧
        IsBehind front.toList (ofOffset text.toList p.byteIdx)) ∧
    ∀ types rootType operationName given nodes,
      Document.expandText text types rootType operationName given = .ok nodes →
      ∃ d tokens, Document.parse text = .ok d ∧ Token.scan text.toList = some tokens ∧
        ∀ node, Occurs nodes node → ∃ field ∈ d.fieldNames, ∃ token ∈ tokens,
          node.ReadFrom text tokens field token := by
  refine ⟨fun _ _ => before_of_lt, fun _ _ => eq_of_ofOffset_eq, fun p hp => ?_,
    fun types rootType operationName given nodes hexpand => ?_⟩
  · obtain ⟨front, rest, htext, hsize, hplace⟩ := exists_front_of_isValid hp
    exact ⟨front, rest, htext, hsize, hplace ▸ isBehind_behind front.toList⟩
  · obtain ⟨d, hparse, operation, hfrom⟩ := Document.exists_parse_of_expandText hexpand
    obtain ⟨hsource, tokens, hscan, htokens⟩ := Document.exists_scan_of_parse hparse
    obtain ⟨hstands, hordered⟩ := Token.standsIn_of_scan hscan
    refine ⟨d, tokens, hparse, hscan, fun node hnode => ?_⟩
    obtain ⟨field, hfield, hnode⟩ := hfrom node hnode
    have htoken := htokens field hfield
    have hlocation : node.location =
        ofOffset text.toList (field.1.getD field.2).token.offset := by
      rw [hnode.location_eq, ← hsource]
      rfl
    refine ⟨field, hfield, _, htoken, hnode.key_eq, hnode.name_eq, rfl, hstands _ htoken,
      hlocation, fun other hother hsame => ?_⟩
    -- A place is that of one offset only, and no two tokens start at one offset.
    have hoffset := eq_of_ofOffset_eq (isValid_of_standsIn (hstands _ hother))
      (isValid_of_standsIn (hstands _ htoken)) (hsame.symm.trans hlocation)
    exact Token.eq_of_offset_eq hordered hother htoken (congrArg String.Pos.Raw.byteIdx hoffset)

/-- A request on two lines, with a character of two bytes before the second one and a key on it. -/
def Location.accented : String :=
  "\x7b post(id: \"é\")\n  \x7b heading: title \x7d \x7d"

/-- Its fields have the places of `post` and of `heading`, and of no other token. -/
theorem Location.faithful_accented :
    ∃ nodes d tokens,
      Document.expandText accented (fun _ _ => none) "Query" none [] = .ok nodes ∧
      Document.parse accented = .ok d ∧ Token.scan accented.toList = some tokens ∧
      (everyIn nodes).map (·.location) = [⟨1, 3⟩, ⟨2, 5⟩] ∧
      ∀ node, Occurs nodes node → ∃ field ∈ d.fieldNames, ∃ token ∈ tokens,
        node.ReadFrom accented tokens field token := by
  have hplaces : (Document.expandText accented (fun _ _ => none) "Query" none []).toOption.map
      (fun nodes => (everyIn nodes).map (·.location)) = some [⟨1, 3⟩, ⟨2, 5⟩] := by decide +kernel
  obtain ⟨nodes, hnodes, hlocations⟩ := Option.map_eq_some_iff.1 hplaces
  have hexpand : Document.expandText accented (fun _ _ => none) "Query" none [] = .ok nodes := by
    cases h : Document.expandText accented (fun _ _ => none) "Query" none [] with
    | error e =>
      rw [h] at hnodes
      cases hnodes
    | ok _ =>
      rw [h] at hnodes
      exact congrArg Except.ok (Option.some.inj hnodes)
  obtain ⟨d, tokens, hparse, hscan, hread⟩ := (faithful accented).2.2.2 _ _ _ _ nodes hexpand
  exact ⟨nodes, d, tokens, hexpand, hparse, hscan, hlocations, hread⟩

end GraphProjection
