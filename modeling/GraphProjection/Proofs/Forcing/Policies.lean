import GraphProjection.Proofs.Acceptance
import GraphProjection.Proofs.Narrowing.RootFields

/-!
# Policies for always-selected columns

The policy of a registry is asked for in one place, where a field adds what was not requested.
Everything else that is known of the registry, of the schema on top of it and of the way values are
shaped is the same under every policy (`Shaper.shape_withPolicy`), and so is what is assumed of them
(`Registry.Narrowable.withPolicy`, `Registry.FromStorage.withPolicy`).
-/

namespace GraphProjection

open FieldNode

/-- Declarations under another policy. -/
def Declarations.withPolicy (d : Declarations) (policy : AlwaysSelect) : Declarations :=
  { d with settings := { d.settings with alwaysSelect := policy } }

/-- A registry under another policy. -/
def Registry.withPolicy (r : Registry) (policy : AlwaysSelect) : Registry :=
  { r with settings := { r.settings with alwaysSelect := policy } }

/-- A projector under another policy. -/
def Projector.withPolicy (x : Projector) (policy : AlwaysSelect) : Projector :=
  { x with registry := x.registry.withPolicy policy }

/-- A schema under another policy. -/
def Schema.withPolicy (s : Schema) (policy : AlwaysSelect) : Schema :=
  { s with registry := s.registry.withPolicy policy }

/-- Declarations that are accepted are accepted under every policy. -/
lemma Declarations.build_withPolicy {d : Declarations} {r : Registry} (h : d.build = .ok r)
    (policy : AlwaysSelect) : (d.withPolicy policy).build = .ok (r.withPolicy policy) := by
  obtain ⟨hformed, rfl⟩ := build_eq_ok_iff.1 h
  exact build_eq_ok_iff.2 ⟨⟨hformed.names, hformed.types⟩, rfl⟩

/-! ## Relations of accepted declarations -/

namespace Registry

variable {r : Registry}

/-- A registry that is built describes every type that is registered. -/
lemma exists_describe_of_isRegistered {d : Declarations} (hbuild : d.build = .ok r)
    {name : String} (hname : r.isRegistered name = true) :
    ∃ t, r.describe name = .ok (some t) := by
  obtain ⟨hformed, rfl⟩ := Declarations.build_eq_ok_iff.1 hbuild
  obtain ⟨declared, hfound⟩ := Option.isSome_iff_exists.1 hname
  have hdeclared : declared.WellFormed (d.types.map (·.name)) :=
    hformed.types declared (List.mem_of_find?_eq_some hfound)
  obtain ⟨t, hmeans⟩ := hdeclared.exists_means
  have hresolve : declared.resolve (isOutputType ⟨d.settings, d.types⟩) = .ok t :=
    (TypeDeclaration.resolve_eq_ok_iff fun _ => isOutputType_eq_true_iff).2 ⟨hdeclared, hmeans⟩
  exact ⟨t, describe_eq_some_iff.2 ⟨declared, hfound, hresolve⟩⟩

/-- An output type is a registered type, or the items of its pages are of one. -/
lemma isRegistered_itemType {name : String} (h : r.isOutputType name = true) :
    r.isRegistered (Projector.itemType (r.envelope? name) name) = true := by
  rw [isOutputType, Bool.or_eq_true] at h
  cases henvelope : r.envelope? name with
  | none =>
    rw [henvelope] at h
    exact h.resolve_right Bool.false_ne_true
  | some pair =>
    obtain ⟨kind, -, hkind⟩ := List.exists_of_findSome?_eq_some henvelope
    obtain ⟨item, hitem, rfl⟩ := Option.map_eq_some_iff.1 hkind
    exact (Option.filter_eq_some_iff.1 hitem).2

/-- A registry describes the type of the rows of every relation. -/
def TargetsDescribed (r : Registry) : Prop :=
  ∀ name t, r.describe name = .ok (some t) → ∀ f ∈ t.fields, ∀ relation,
    f.kind = .relation relation →
      ∃ target, r.describe (Projector.itemType (r.envelope? f.type.namedType) f.type.namedType) =
        .ok (some target)

lemma targetsDescribed_of_build {d : Declarations} (hbuild : d.build = .ok r) :
    r.TargetsDescribed := by
  intro name t ht f hf relation hkind
  obtain ⟨type, -, declared, -, hresolve⟩ := exists_declaration_of_describe ht hf
  have htypes : ∀ name, r.isOutputType name = true ↔ IsTarget r.typeNames name :=
    fun _ => isOutputType_eq_true_iff
  obtain ⟨hformed, hmeans⟩ := (FieldDeclaration.resolve_eq_ok_iff htypes).1 hresolve
  have hselects := hmeans.kind
  rw [hkind] at hselects
  cases hselects with
  | relation hrelation _ _ _ =>
    have htarget : IsTarget r.typeNames f.type.namedType :=
      hformed.target _ f.type hrelation hmeans.type
    exact exists_describe_of_isRegistered hbuild (isRegistered_itemType ((htypes _).2 htarget))

end Registry

/-! ## What the policy does not touch -/

@[simp] lemma Registry.describe_withPolicy (r : Registry) (policy : AlwaysSelect)
    (name : String) : (r.withPolicy policy).describe name = r.describe name := rfl

@[simp] lemma Registry.expect_withPolicy (r : Registry) (policy : AlwaysSelect)
    (name : String) : (r.withPolicy policy).expect name = r.expect name := rfl

@[simp] lemma Registry.envelope?_withPolicy (r : Registry) (policy : AlwaysSelect)
    (name : String) : (r.withPolicy policy).envelope? name = r.envelope? name := rfl

@[simp] lemma Registry.alwaysSelect_withPolicy (r : Registry) (policy : AlwaysSelect) :
    (r.withPolicy policy).settings.alwaysSelect = policy := rfl

@[simp] lemma Projector.registry_withPolicy (x : Projector) (policy : AlwaysSelect) :
    (x.withPolicy policy).registry = x.registry.withPolicy policy := rfl

@[simp] lemma Projector.services_withPolicy (x : Projector) (policy : AlwaysSelect) :
    (x.withPolicy policy).services = x.services := rfl

lemma Projector.expressionText?_withPolicy (x : Projector) (policy : AlwaysSelect)
    (e : Expression) (arguments : Arguments) :
    (x.withPolicy policy).expressionText? e arguments = x.expressionText? e arguments := by
  cases e <;> rfl

namespace Shaper

variable (r : Registry) (services : ServiceLocator)

mutual

lemma shapeValue_withSettings (settings : Settings) : (v : Value) → (type : String) →
    (nodes : List FieldNode) →
    shapeValue ⟨{ r with settings := settings }, services⟩ v type nodes =
      shapeValue ⟨r, services⟩ v type nodes
  | .array items, type, nodes => by
    rw [shapeValue, shapeValue, shapeItems_withSettings settings items]
  | .object members, type, nodes => by
    rw [shapeValue, shapeValue, shapeMembers_withSettings settings members]
    rfl
  | .null, _, _ => by rw [shapeValue, shapeValue]
  | .bool _, _, _ => by rw [shapeValue, shapeValue] <;> simp
  | .int _, _, _ => by rw [shapeValue, shapeValue] <;> simp
  | .double _, _, _ => by rw [shapeValue, shapeValue] <;> simp
  | .string _, _, _ => by rw [shapeValue, shapeValue] <;> simp

lemma shapeItems_withSettings (settings : Settings) : (items : List Value) → (n : Nat) →
    (type : String) → (nodes : List FieldNode) →
    shapeItems ⟨{ r with settings := settings }, services⟩ items n type nodes =
      shapeItems ⟨r, services⟩ items n type nodes
  | [], _, _, _ => by rw [shapeItems, shapeItems]
  | v :: rest, n, type, nodes => by
    rw [shapeItems, shapeItems, shapeValue_withSettings settings v,
      shapeItems_withSettings settings rest]

lemma shapeMembers_withSettings (settings : Settings) : (members : List (String × Value)) →
    shapeMembers ⟨{ r with settings := settings }, services⟩ members =
      shapeMembers ⟨r, services⟩ members
  | [] => by rw [shapeMembers, shapeMembers]
  | (name, v) :: rest => by
    have hvalue : (fun type nodes =>
          shapeValue ⟨{ r with settings := settings }, services⟩ v type nodes) =
        fun type nodes => shapeValue ⟨r, services⟩ v type nodes :=
      funext fun type => funext fun nodes => shapeValue_withSettings settings v type nodes
    rw [shapeMembers, shapeMembers, hvalue, shapeMembers_withSettings settings rest]

end

/-- Values are shaped in the same way under all settings. -/
lemma shape_withSettings (settings : Settings) (type : String) (value : Value)
    (nodes : List FieldNode) :
    shape ⟨{ r with settings := settings }, services⟩ type value nodes =
      shape ⟨r, services⟩ type value nodes :=
  shapeValue_withSettings r services settings value type nodes

lemma shapeValue_withPolicy (policy : AlwaysSelect) (v : Value) (type : String)
    (nodes : List FieldNode) :
    shapeValue ⟨r.withPolicy policy, services⟩ v type nodes =
      shapeValue ⟨r, services⟩ v type nodes :=
  shapeValue_withSettings r services _ v type nodes

/-- Values are shaped in the same way under every policy. -/
theorem shape_withPolicy (policy : AlwaysSelect) (type : String) (value : Value)
    (nodes : List FieldNode) :
    shape ⟨r.withPolicy policy, services⟩ type value nodes =
      shape ⟨r, services⟩ type value nodes :=
  shapeValue_withPolicy r services policy value type nodes

end Shaper

/-! ## What is assumed -/

namespace Registry

variable {r : Registry} {policy : AlwaysSelect}

lemma Reads.of_withPolicy {t : OutputType} {name : String}
    (h : (r.withPolicy policy).Reads t name) : r.Reads t name := by
  cases h with
  | column hf hk => exact .column hf hk
  | computed hf hk => exact .computed hf hk
  | localKey hf hk => exact .localKey hf hk
  | foreignKey hs hf hk ht => exact .foreignKey hs hf hk ht

theorem SlotsApartThroughout.withPolicy (h : r.SlotsApartThroughout) :
    (r.withPolicy policy).SlotsApartThroughout :=
  fun name t ht slot hslot hreads => h name t ht slot hslot hreads.of_withPolicy

theorem Narrowable.withPolicy (h : r.Narrowable) : (r.withPolicy policy).Narrowable where
  envelopes := h.envelopes
  slots := h.slots.withPolicy
  privacy := h.privacy
  constraints := h.constraints

lemma Requests.of_withPolicy {type : String} {nodes : List FieldNode} {t : OutputType}
    {node : FieldNode} (h : (r.withPolicy policy).Requests type nodes t node) :
    r.Requests type nodes t node := by
  induction h with
  | here ht hn => exact .here ht hn
  | under ht hn hname hf hk _ ih => exact .under ht hn hname hf hk ih

theorem FromStorage.withPolicy {type : String} {nodes : List FieldNode}
    (h : r.FromStorage type nodes) : (r.withPolicy policy).FromStorage type nodes :=
  fun t node f hrequests => h t node f hrequests.of_withPolicy

end Registry

end GraphProjection
