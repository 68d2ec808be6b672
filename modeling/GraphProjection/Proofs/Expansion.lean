import GraphProjection.Document.Expansion
import GraphProjection.Proofs.Sameness
import GraphProjection.Proofs.Selection

/-!
# Expanded fields and their arguments

Every field that a request asks for, at any depth and whatever fragments it came through, is read
from a field of its document, which gives it its key, its name and its place
(`Document.exists_parse_of_expandText`).

The arguments of a field are evaluated one by one and written into entries.  What can be said of
all argument lists that are evaluated for a request can be said of every field that the request
asks for (`argumentsMeet_of_expandText`).  Two things are said in this way: no field has two
arguments of one name (`argumentsDistinct_of_expandText`), and where the values of the variables
are maps, so are the arguments, down to the last object in them (`argumentsKeyed_of_expandText`).
-/

namespace GraphProjection

open FieldNode

/-! ## Fields of a document -/

mutual

/-- The fields in a selection, at any depth: the key that each is given, if any, and its name. -/
def Selection.fieldNames : Selection → List (Option Name × Name)
  | .field key name _ _ selections => (key, name) :: Selection.fieldNamesIn selections
  | .inlineFragment _ _ selections => Selection.fieldNamesIn selections
  | .spread _ _ => []

/-- The fields in selections. -/
def Selection.fieldNamesIn : List Selection → List (Option Name × Name)
  | [] => []
  | s :: rest => s.fieldNames ++ Selection.fieldNamesIn rest

end

/-- The fields in a document: in its operations, and in its fragments. -/
def Document.fieldNames (d : Document) : List (Option Name × Name) :=
  d.operations.flatMap (fun o => Selection.fieldNamesIn o.selections) ++
    d.fragments.flatMap (fun f => Selection.fieldNamesIn f.selections)

lemma Document.fieldNamesIn_subset_of_operation {d : Document} {operation : Operation}
    (h : operation ∈ d.operations) :
    Selection.fieldNamesIn operation.selections ⊆ d.fieldNames :=
  fun _ hfield => List.mem_append_left _ (List.mem_flatMap.2 ⟨operation, h, hfield⟩)

lemma Document.fieldNamesIn_subset_of_fragment {d : Document} {f : Fragment}
    (h : f ∈ d.fragments) : Selection.fieldNamesIn f.selections ⊆ d.fieldNames :=
  fun _ hfield => List.mem_append_right _ (List.mem_flatMap.2 ⟨f, h, hfield⟩)

lemma Document.mem_operations_of_selectOperation {d : Document} {name : Option String}
    {operation : Operation} (h : d.selectOperation name = .ok operation) :
    operation ∈ d.operations := by
  unfold selectOperation at h
  split at h
  · split at h
    · next hfind =>
      cases h
      exact List.mem_of_find?_eq_some hfind
    · cases h
  · split at h
    · next hsingle =>
      cases h
      exact hsingle ▸ List.mem_singleton_self _
    · cases h
    · cases h

/-! ## What holds of every field -/

namespace FieldNode

/-- Something holds of every field of a selection, at any depth. -/
def Throughout (P : FieldNode → Prop) (nodes : List FieldNode) : Prop :=
  ∀ node, Occurs nodes node → P node

section Throughout

variable {P : FieldNode → Prop} {nodes more : List FieldNode}

lemma Throughout.nil : Throughout P [] := by
  intro node hnode
  cases hnode with
  | here h => cases h
  | under h _ => cases h

lemma Throughout.append (h : Throughout P nodes) (hmore : Throughout P more) :
    Throughout P (nodes ++ more) := by
  intro node hnode
  cases hnode with
  | here hn =>
    rcases List.mem_append.1 hn with hn | hn
    · exact h node (.here hn)
    · exact hmore node (.here hn)
  | under hn hd =>
    rcases List.mem_append.1 hn with hn | hn
    · exact h node (.under hn hd)
    · exact hmore node (.under hn hd)

lemma Throughout.singleton {node : FieldNode} (h : P node)
    (hchildren : Throughout P node.children) : Throughout P [node] := by
  intro deep hdeep
  cases hdeep with
  | here hn => rwa [List.mem_singleton.1 hn]
  | under hn hd =>
    rw [List.mem_singleton.1 hn] at hd
    exact hchildren deep hd

end Throughout

/-- The arguments of all fields are maps, at any depth. -/
def ArgumentsKeyed (nodes : List FieldNode) : Prop :=
  ArgumentsMeet (fun arguments => Value.Keyed (.object arguments)) nodes

lemma ArgumentsKeyed.distinct {nodes : List FieldNode} (h : ArgumentsKeyed nodes) :
    ArgumentsDistinct nodes :=
  fun node hnode => (h node hnode).nodup_names

end FieldNode

/-! ## Expansion -/

namespace Expansion

/-- A field was expanded from a field of a document: it has its key, its name and its place, and
arguments that were evaluated. -/
structure ExpandedFrom (x : Expansion) (field : Option Name × Name) (node : FieldNode) : Prop where
  key_eq : node.key = field.1.map (·.text)
  name_eq : node.name = field.2.text
  location_eq : node.location = x.place field.1 field.2
  evaluated : ∃ arguments,
    evaluateArguments x.document x.variableValues arguments [] = .ok node.arguments

/-- A field was expanded from one of some fields. -/
def ExpandedFromSome (x : Expansion) (fields : List (Option Name × Name)) (node : FieldNode) :
    Prop :=
  ∃ field ∈ fields, x.ExpandedFrom field node

variable {x : Expansion} {spread : Spreading} {fields : List (Option Name × Name)}

mutual

lemma expandedFrom_of_expandSelection
    (hspread : ∀ name parent nodes, spread name parent = .ok nodes →
      Throughout (x.ExpandedFromSome fields) nodes)
    (parent : Option String) : (s : Selection) → s.fieldNames ⊆ fields →
    (nodes : List FieldNode) → x.expandSelection spread parent s = .ok nodes →
    Throughout (x.ExpandedFromSome fields) nodes
  | .field key name arguments directives selections, hsubset, nodes, h => by
    rw [expandSelection] at h
    split at h
    · cases h
    · cases h
      exact .nil
    · split at h
      · cases h
      · next evaluated harguments =>
        split at h
        · cases h
        · next children hchildren =>
          cases h
          obtain ⟨hmem, hbelow⟩ := List.cons_subset.1 hsubset
          -- The one field that does not come from further down is the field itself.
          exact .singleton ⟨(key, name), hmem, rfl, rfl, rfl, arguments, harguments⟩
            (expandedFrom_of_expandAll hspread _ selections hbelow children hchildren)
  | .inlineFragment condition directives selections, hsubset, nodes, h => by
    rw [expandSelection] at h
    split at h
    · cases h
    · cases h
      exact .nil
    · split at h
      · exact expandedFrom_of_expandAll hspread _ selections hsubset nodes h
      · cases h
        exact .nil
  | .spread fragment directives, _, nodes, h => by
    rw [expandSelection] at h
    split at h
    · cases h
    · cases h
      exact .nil
    · exact hspread fragment parent nodes h

lemma expandedFrom_of_expandAll
    (hspread : ∀ name parent nodes, spread name parent = .ok nodes →
      Throughout (x.ExpandedFromSome fields) nodes)
    (parent : Option String) : (selections : List Selection) →
    Selection.fieldNamesIn selections ⊆ fields → (nodes : List FieldNode) →
    x.expandAll spread parent selections = .ok nodes →
    Throughout (x.ExpandedFromSome fields) nodes
  | [], _, nodes, h => by
    rw [expandAll] at h
    cases h
    exact .nil
  | s :: rest, hsubset, nodes, h => by
    rw [expandAll] at h
    split at h
    · cases h
    · next first hfirst =>
      split at h
      · cases h
      · next more hmore =>
        cases h
        obtain ⟨hown, hrest⟩ := List.append_subset.1 hsubset
        exact (expandedFrom_of_expandSelection hspread parent s hown first hfirst).append
          (expandedFrom_of_expandAll hspread parent rest hrest more hmore)

end

lemma expandedFrom_of_expandSpread {pending : List Fragment}
    (hpending : ∀ f ∈ pending, Selection.fieldNamesIn f.selections ⊆ fields) (name : Name)
    (parent : Option String) (nodes : List FieldNode)
    (h : x.expandSpread pending name parent = .ok nodes) :
    Throughout (x.ExpandedFromSome fields) nodes := by
  induction hlength : pending.length using Nat.strongRecOn
    generalizing pending name parent nodes with
  | _ n ih =>
  subst hlength
  rw [expandSpread] at h
  split at h
  · cases h
  · next f hf =>
    simp only at h
    split at h
    · refine expandedFrom_of_expandAll (fun other parent nodes hnodes => ?_) _ _
        (hpending f (List.mem_of_find?_eq_some hf)) nodes h
      exact ih _ (Fragment.length_without_lt hf)
        (fun g hg => hpending g (List.mem_of_mem_filter hg)) other parent nodes hnodes rfl
    · cases h
      exact .nil

end Expansion

section Texts

variable {text : String} {types : TypeInfo} {rootType : String} {operationName : Option String}
  {given : Arguments} {nodes : List FieldNode}

/-- Every field that a text asks for was expanded from a field of the document that is read. -/
theorem Document.exists_parse_of_expandText
    (h : expandText text types rootType operationName given = .ok nodes) :
    ∃ d, parse text = .ok d ∧ ∃ operation : Operation,
      Throughout (Expansion.ExpandedFromSome
        ⟨d, types, ⟨operation.variableDefinitions, given⟩⟩ d.fieldNames) nodes := by
  rw [expandText] at h
  split at h
  · cases h
  · next d hparse =>
    rw [expand] at h
    split at h
    · cases h
    · next operation hselect =>
      split at h
      · cases h
      · refine ⟨d, hparse, operation, Expansion.expandedFrom_of_expandAll ?_ _ _
          (fieldNamesIn_subset_of_operation (mem_operations_of_selectOperation hselect)) nodes h⟩
        exact Expansion.expandedFrom_of_expandSpread fun f hf => fieldNamesIn_subset_of_fragment hf

/-- What is said of all argument lists that are evaluated with the given variables can be said of
the arguments of every field that a text asks for. -/
theorem Document.argumentsMeet_of_expandText {P : Arguments → Prop}
    (hevaluated : ∀ d declared arguments all,
      evaluateArguments d ⟨declared, given⟩ arguments [] = .ok all → P all)
    (h : expandText text types rootType operationName given = .ok nodes) :
    ArgumentsMeet P nodes := by
  obtain ⟨d, -, operation, hnodes⟩ := exists_parse_of_expandText h
  intro node hnode
  obtain ⟨_, -, hfrom⟩ := hnodes node hnode
  obtain ⟨arguments, harguments⟩ := hfrom.evaluated
  exact hevaluated d operation.variableDefinitions arguments node.arguments harguments

/-! ## Arguments of one name -/

lemma nodup_names_of_evaluateArguments {d : Document} {v : Variables}
    {arguments : List (String × Literal)} {known all : Arguments}
    (hknown : (Entries.names known).Nodup)
    (h : evaluateArguments d v arguments known = .ok all) : (Entries.names all).Nodup := by
  induction arguments generalizing known with
  | nil =>
    cases h
    exact hknown
  | cons argument rest ih =>
    obtain ⟨name, literal⟩ := argument
    rw [evaluateArguments] at h
    split at h
    · cases h
    · exact ih hknown h
    · exact ih (Entries.nodup_names_put name _ hknown) h

/-- No field that a text asks for has two arguments of one name. -/
theorem Document.argumentsDistinct_of_expandText
    (h : expandText text types rootType operationName given = .ok nodes) :
    ArgumentsDistinct nodes := by
  have hnil : (Entries.names ([] : Arguments)).Nodup := List.nodup_nil
  exact argumentsMeet_of_expandText
    (fun _ _ _ _ hall => nodup_names_of_evaluateArguments hnil hall) h

/-! ## Arguments that are maps -/

namespace Value

lemma Keyed.orNull {v : Option Value} (h : ∀ w, v = some w → Keyed w) :
    Keyed (Value.orNull v) := by
  cases v with
  | none => exact .key rfl
  | some w => exact h w rfl

lemma Keyed.put {members : Entries Value} (h : Keyed (.object members)) (name : String)
    {v : Value} (hv : Keyed v) : Keyed (.object (members.put name v)) :=
  .object (Entries.nodup_names_put name v h.nodup_names)
    (Entries.forall_mem_put (fun _ hpair => h.of_mem_members hpair) name hv)

lemma Keyed.putAll {members : Entries Value} (h : Keyed (.object members))
    {pairs : List (String × Value)} (hpairs : ∀ pair ∈ pairs, Keyed pair.2) :
    Keyed (.object (members.putAll pairs)) := by
  induction pairs generalizing members with
  | nil => exact h
  | cons pair rest ih =>
    obtain ⟨hpair, hrest⟩ := List.forall_mem_cons.1 hpairs
    exact ih (h.put pair.1 hpair) hrest

lemma Keyed.nil : Keyed (.object []) :=
  .object List.nodup_nil fun _ hpair => absurd hpair List.not_mem_nil

lemma Keyed.ofList {pairs : List (String × Value)} (h : ∀ pair ∈ pairs, Keyed pair.2) :
    Keyed (.object (Entries.ofList pairs)) :=
  Keyed.nil.putAll h

end Value

lemma Decimal.keyed_value (d : Decimal) : d.value.Keyed := by
  refine .orNull fun w hw => ?_
  obtain ⟨n, -, rfl⟩ := Option.map_eq_some_iff.1 hw
  exact .double n

mutual

lemma Constant.keyed_value : (c : Constant) → c.value.Keyed
  | .null | .bool _ | .int _ | .string _ | .enum _ => .key rfl
  | .float d => d.keyed_value
  | .list items => .array (Constant.keyed_itemValues items)
  | .object fields => .ofList (Constant.keyed_fieldValues fields)

lemma Constant.keyed_itemValues : (items : List Constant) →
    ∀ v ∈ Constant.itemValues items, v.Keyed
  | [] => fun _ hv => absurd hv List.not_mem_nil
  | item :: rest => List.forall_mem_cons.2 ⟨item.keyed_value, Constant.keyed_itemValues rest⟩

lemma Constant.keyed_fieldValues : (fields : List (String × Constant)) →
    ∀ pair ∈ Constant.fieldValues fields, pair.2.Keyed
  | [] => fun _ hpair => absurd hpair List.not_mem_nil
  | (_, field) :: rest =>
    List.forall_mem_cons.2 ⟨field.keyed_value, Constant.keyed_fieldValues rest⟩

end

/-- Where the given values are maps, so is the value of a variable. -/
lemma Variables.keyed_of_lookup {v : Variables} (hgiven : Value.Keyed (.object v.given))
    {d : Document} {name : String} {offset : Nat} {value : Option Value}
    (h : v.lookup d name offset = .ok value) (w : Value) (hw : value = some w) : w.Keyed := by
  rw [lookup] at h
  split at h
  · next definition _ =>
    cases h
    rcases Option.or_eq_some_iff.1 hw with hfound | ⟨-, hdefault⟩
    · exact hgiven.of_mem_members (Entries.mem_of_get?_eq_some hfound)
    · obtain ⟨c, -, rfl⟩ := Option.map_eq_some_iff.1 hdefault
      exact c.keyed_value
  · cases h

section Literals

variable {d : Document} {v : Variables}

mutual

lemma Literal.keyed_of_evaluate (hgiven : Value.Keyed (.object v.given)) :
    (l : Literal) → (value : Option Value) → l.evaluate d v = .ok value →
    ∀ w, value = some w → w.Keyed
  | .variable name offset, value, h => by
    rw [Literal.evaluate] at h
    exact v.keyed_of_lookup hgiven h
  | .null, value, h | .bool _, value, h | .int _, value, h | .string _, value, h
  | .enum _, value, h => by
    rw [Literal.evaluate] at h
    cases h
    rintro w ⟨rfl⟩
    exact .key rfl
  | .float f, value, h => by
    rw [Literal.evaluate] at h
    cases h
    rintro w ⟨rfl⟩
    exact f.keyed_value
  | .list items, value, h => by
    rw [Literal.evaluate] at h
    split at h
    · next values hvalues =>
      cases h
      rintro w ⟨rfl⟩
      exact .array (Literal.keyed_of_evaluateItems hgiven items values hvalues)
    · cases h
  | .object fields, value, h => by
    rw [Literal.evaluate] at h
    split at h
    · next values hvalues =>
      cases h
      rintro w ⟨rfl⟩
      exact .ofList (Literal.keyed_of_evaluateFields hgiven fields values hvalues)
    · cases h

lemma Literal.keyed_of_evaluateItems (hgiven : Value.Keyed (.object v.given)) :
    (items : List Literal) → (values : List Value) → Literal.evaluateItems d v items = .ok values →
    ∀ w ∈ values, w.Keyed
  | [], values, h => by
    rw [Literal.evaluateItems] at h
    cases h
    exact fun w hw => absurd hw List.not_mem_nil
  | item :: rest, values, h => by
    rw [Literal.evaluateItems] at h
    split at h
    · cases h
    · next value hvalue =>
      split at h
      · cases h
      · next others hothers =>
        cases h
        exact List.forall_mem_cons.2 ⟨.orNull (Literal.keyed_of_evaluate hgiven item value hvalue),
          Literal.keyed_of_evaluateItems hgiven rest others hothers⟩

lemma Literal.keyed_of_evaluateFields (hgiven : Value.Keyed (.object v.given)) :
    (fields : List (String × Literal)) → (values : List (String × Value)) →
    Literal.evaluateFields d v fields = .ok values → ∀ pair ∈ values, pair.2.Keyed
  | [], values, h => by
    rw [Literal.evaluateFields] at h
    cases h
    exact fun w hw => absurd hw List.not_mem_nil
  | (name, field) :: rest, values, h => by
    rw [Literal.evaluateFields] at h
    split at h
    · cases h
    · next value hvalue =>
      split at h
      · cases h
      · next others hothers =>
        cases h
        exact List.forall_mem_cons.2 ⟨.orNull (Literal.keyed_of_evaluate hgiven field value hvalue),
          Literal.keyed_of_evaluateFields hgiven rest others hothers⟩

end

lemma keyed_of_evaluateArguments (hgiven : Value.Keyed (.object v.given))
    {arguments : List (String × Literal)} {known all : Arguments}
    (hknown : Value.Keyed (.object known))
    (h : evaluateArguments d v arguments known = .ok all) : Value.Keyed (.object all) := by
  induction arguments generalizing known with
  | nil =>
    cases h
    exact hknown
  | cons argument rest ih =>
    obtain ⟨name, literal⟩ := argument
    rw [evaluateArguments] at h
    split at h
    · cases h
    · exact ih hknown h
    · next value hvalue =>
      exact ih (hknown.put name (Literal.keyed_of_evaluate hgiven literal _ hvalue value rfl)) h

end Literals

/-- Where the values of the variables are maps, so are the arguments of all fields that a text asks
for. -/
theorem Document.argumentsKeyed_of_expandText (hgiven : Value.Keyed (.object given))
    (h : expandText text types rootType operationName given = .ok nodes) :
    ArgumentsKeyed nodes :=
  argumentsMeet_of_expandText
    (fun _ _ _ _ hall => keyed_of_evaluateArguments hgiven Value.Keyed.nil hall) h

end Texts

end GraphProjection
