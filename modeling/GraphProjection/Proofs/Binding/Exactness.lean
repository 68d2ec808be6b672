import GraphProjection.Proofs.Binding
import Mathlib.Data.Finset.Card

/-!
# What parameters are bound to

A parameter asks for one value.  A scalar asks for the argument of its name, whatever that holds,
null included; a service asks for the instance of its key.  `Parameter.Given` is that value, and
`Parameter.Supplied` says that there is one.

Binding goes through the parameters in the order of declaration.  It stops at the first that is
not supplied (`bindOnto_eq_error_iff`); while there is none, it writes the value of each under its
name and leaves every other name alone (`get?_of_bindOnto`), so of several parameters of one name
the last one counts.  Arguments are only ever looked up under the names of scalar parameters
(`bindOnto_congr`).

Main statement: **`bind_exact`**.
-/

namespace GraphProjection

/-! ## What a parameter asks for -/

namespace Parameter

variable {arguments : Arguments} {services : ServiceLocator} {p : Parameter} {value : BoundValue}

/-- What a parameter asks for and is given. -/
inductive Given (arguments : Arguments) (services : ServiceLocator) :
    Parameter → BoundValue → Prop
  | argument {name type : String} {value : Value} (h : arguments.get? name = some value) :
      Given arguments services ⟨name, .scalar type⟩ (.argument value)
  | service {name key : String} {value : Value} (h : services key = some value) :
      Given arguments services ⟨name, .service key⟩ (.service value)

/-- There is something to give: an argument of the parameter's name, or a service of its key. -/
def Supplied (arguments : Arguments) (services : ServiceLocator) (p : Parameter) : Prop :=
  match p.kind with
  | .scalar _ => p.name ∈ Entries.names arguments
  | .service key => (services key).isSome = true

lemma resolve?_eq_some_iff_given :
    p.resolve? arguments services = some value ↔ p.Given arguments services value := by
  obtain ⟨name, kind⟩ := p
  cases kind with
  | scalar type =>
    simp only [resolve?, Option.map_eq_some_iff]
    constructor
    · rintro ⟨v, hv, rfl⟩
      exact .argument hv
    · intro h
      cases h with
      | argument hv => exact ⟨_, hv, rfl⟩
  | service key =>
    simp only [resolve?, Option.map_eq_some_iff]
    constructor
    · rintro ⟨v, hv, rfl⟩
      exact .service hv
    · intro h
      cases h with
      | service hv => exact ⟨_, hv, rfl⟩

lemma isSome_resolve?_iff_supplied :
    (p.resolve? arguments services).isSome = true ↔ p.Supplied arguments services := by
  obtain ⟨name, kind⟩ := p
  cases kind with
  | scalar type =>
    rw [resolve?, Option.isSome_map, Entries.isSome_get?_iff]
    exact Iff.rfl
  | service key =>
    rw [resolve?, Option.isSome_map]
    exact Iff.rfl

lemma resolve?_eq_none_iff_not_supplied :
    p.resolve? arguments services = none ↔ ¬ p.Supplied arguments services := by
  rw [← isSome_resolve?_iff_supplied, Bool.not_eq_true, Option.isSome_eq_false_iff,
    Option.isNone_iff_eq_none]

/-- A scalar parameter looks at the argument of its name, and a service parameter at none. -/
lemma resolve?_congr {others : Arguments}
    (h : ∀ type, p.kind = .scalar type → arguments.get? p.name = others.get? p.name) :
    p.resolve? arguments services = p.resolve? others services := by
  obtain ⟨name, kind⟩ := p
  cases kind with
  | scalar type => rw [resolve?, resolve?, h type rfl]
  | service key => rfl

end Parameter

/-! ## One parameter after the other -/

section Steps

variable {arguments : Arguments} {services : ServiceLocator} {parameters : List Parameter}
  {bound all : Bindings}

lemma bindOnto_cons_eq_ok_iff {p : Parameter} :
    bindOnto arguments services (p :: parameters) bound = .ok all ↔
      ∃ value, p.Given arguments services value ∧
        bindOnto arguments services parameters (Entries.put bound p.name value) = .ok all := by
  simp only [← Parameter.resolve?_eq_some_iff_given]
  rw [bindOnto]
  cases p.resolve? arguments services with
  | none => simp
  | some value => simp

/-- Parameters in front of others are bound before them. -/
theorem bindOnto_append_eq_ok_iff {before after : List Parameter} :
    bindOnto arguments services (before ++ after) bound = .ok all ↔
      ∃ between, bindOnto arguments services before bound = .ok between ∧
        bindOnto arguments services after between = .ok all := by
  induction before generalizing bound with
  | nil => simp [bindOnto]
  | cons p before ih =>
    simp only [List.cons_append, bindOnto_cons_eq_ok_iff, ih]
    constructor
    · rintro ⟨value, hgiven, between, hbefore, hafter⟩
      exact ⟨between, ⟨value, hgiven, hbefore⟩, hafter⟩
    · rintro ⟨between, ⟨value, hgiven, hbefore⟩, hafter⟩
      exact ⟨value, hgiven, between, hbefore, hafter⟩

/-- Binding fails at the first parameter that is not supplied, and names it. -/
theorem bindOnto_eq_error_iff {e : BindError} :
    bindOnto arguments services parameters bound = .error e ↔
      ∃ before p after, parameters = before ++ p :: after ∧
        (∀ q ∈ before, q.Supplied arguments services) ∧ ¬ p.Supplied arguments services ∧
        e = ⟨p.name⟩ := by
  -- Nothing that was bound before is looked at, so `bound` is free.
  induction parameters generalizing bound with
  | nil => simp [bindOnto]
  | cons p rest ih =>
    rw [bindOnto]
    cases hp : p.resolve? arguments services with
    | none =>
      have hmissing := Parameter.resolve?_eq_none_iff_not_supplied.1 hp
      constructor
      · intro h
        cases h
        exact ⟨[], p, rest, rfl, fun q hq => absurd hq List.not_mem_nil, hmissing, rfl⟩
      · rintro ⟨before, q, after, hsplit, hbefore, -, rfl⟩
        cases before with
        | nil =>
          cases hsplit
          rfl
        | cons first before =>
          cases hsplit
          exact absurd (hbefore p List.mem_cons_self) hmissing
    | some value =>
      have hsupplied : p.Supplied arguments services := by
        rw [← Parameter.isSome_resolve?_iff_supplied, hp]
        rfl
      refine ih.trans ⟨?_, ?_⟩
      · rintro ⟨before, q, after, rfl, hbefore, hq, rfl⟩
        exact ⟨p :: before, q, after, rfl, List.forall_mem_cons.2 ⟨hsupplied, hbefore⟩, hq, rfl⟩
      · rintro ⟨before, q, after, hsplit, hbefore, hq, rfl⟩
        cases before with
        | nil =>
          cases hsplit
          exact absurd hsupplied hq
        | cons first before =>
          cases hsplit
          exact ⟨before, q, after, rfl, (List.forall_mem_cons.1 hbefore).2, hq, rfl⟩

/-- Binding leaves a name alone that no parameter has. -/
theorem get?_of_bindOnto {name : String} (hname : name ∉ parameters.map (·.name))
    (h : bindOnto arguments services parameters bound = .ok all) :
    Entries.get? all name = Entries.get? bound name := by
  induction parameters generalizing bound with
  | nil =>
    cases h
    rfl
  | cons p rest ih =>
    obtain ⟨value, -, hrest⟩ := bindOnto_cons_eq_ok_iff.1 h
    rw [List.map_cons, List.mem_cons, not_or] at hname
    rw [ih hname.2 hrest, Entries.get?_put_of_ne bound value (Ne.symm hname.1)]

lemma mem_names_of_bindOnto (h : bindOnto arguments services parameters bound = .ok all)
    (name : String) :
    name ∈ Entries.names all ↔ name ∈ Entries.names bound ∨ name ∈ parameters.map (·.name) := by
  induction parameters generalizing bound with
  | nil =>
    cases h
    simp
  | cons p rest ih =>
    obtain ⟨value, -, hrest⟩ := bindOnto_cons_eq_ok_iff.1 h
    rw [ih hrest, Entries.mem_names_put, List.map_cons, List.mem_cons, or_assoc]

lemma nodup_names_of_bindOnto (hbound : (Entries.names bound).Nodup)
    (h : bindOnto arguments services parameters bound = .ok all) :
    (Entries.names all).Nodup := by
  induction parameters generalizing bound with
  | nil =>
    cases h
    exact hbound
  | cons p rest ih =>
    obtain ⟨value, -, hrest⟩ := bindOnto_cons_eq_ok_iff.1 h
    exact ih (Entries.nodup_names_put p.name value hbound) hrest

/-- Arguments that agree under the names of the scalar parameters are bound alike. -/
theorem bindOnto_congr {others : Arguments}
    (h : ∀ p ∈ parameters, ∀ type, p.kind = .scalar type →
      arguments.get? p.name = others.get? p.name) :
    bindOnto arguments services parameters bound = bindOnto others services parameters bound := by
  induction parameters generalizing bound with
  | nil => rfl
  | cons p rest ih =>
    rw [List.forall_mem_cons] at h
    rw [bindOnto, bindOnto, Parameter.resolve?_congr h.1]
    cases p.resolve? others services with
    | none => rfl
    | some value => exact ih h.2

end Steps

/-! ## What is bound -/

/-- What is bound for a list of parameters: each of their names, and under each name what the last
parameter of that name asks for. -/
structure BindsExactly (arguments : Arguments) (services : ServiceLocator)
    (parameters : List Parameter) (bound : Bindings) : Prop where
  names : ∀ name, name ∈ Entries.names bound ↔ ∃ p ∈ parameters, p.name = name
  length : List.length bound = (parameters.map (·.name)).toFinset.card
  last : ∀ before p after, parameters = before ++ p :: after → (∀ q ∈ after, q.name ≠ p.name) →
    ∃ value, p.Given arguments services value ∧ Entries.get? bound p.name = some value

/-- The last parameter of a name decides what is bound under it. -/
lemma given_of_bindOnto {arguments : Arguments} {services : ServiceLocator}
    {before after : List Parameter} {p : Parameter} {bound all : Bindings}
    (hafter : ∀ q ∈ after, q.name ≠ p.name)
    (h : bindOnto arguments services (before ++ p :: after) bound = .ok all) :
    ∃ value, p.Given arguments services value ∧ Entries.get? all p.name = some value := by
  obtain ⟨between, -, hrest⟩ := bindOnto_append_eq_ok_iff.1 h
  obtain ⟨value, hgiven, hall⟩ := bindOnto_cons_eq_ok_iff.1 hrest
  have hname : p.name ∉ after.map (·.name) := by
    rw [List.mem_map]
    rintro ⟨q, hq, heq⟩
    exact hafter q hq heq
  refine ⟨value, hgiven, ?_⟩
  rw [get?_of_bindOnto hname hall, Entries.get?_put_self]

lemma bindsExactly_of_bind {arguments : Arguments} {services : ServiceLocator}
    {parameters : List Parameter} {bound : Bindings}
    (h : bind parameters arguments services = .ok bound) :
    BindsExactly arguments services parameters bound := by
  have hmem : ∀ name, name ∈ Entries.names bound ↔ name ∈ parameters.map (·.name) := by
    intro name
    rw [mem_names_of_bindOnto h]
    simp [Entries.names]
  refine ⟨fun name => ?_, ?_, fun before p after hsplit hafter => ?_⟩
  · rw [hmem, List.mem_map]
  · have hempty : (Entries.names ([] : Bindings)).Nodup := List.nodup_nil
    have hnodup := nodup_names_of_bindOnto hempty h
    have hsame : (Entries.names bound).toFinset = (parameters.map (·.name)).toFinset := by
      ext name
      rw [List.mem_toFinset, List.mem_toFinset, hmem]
    rw [← hsame, List.toFinset_card_of_nodup hnodup, Entries.names, List.length_map]
  · subst hsplit
    exact given_of_bindOnto hafter h

namespace BindsExactly

variable {arguments : Arguments} {services : ServiceLocator} {parameters : List Parameter}
  {bound : Bindings}

/-- A parameter that shares its name with no other is given what it asks for. -/
lemma given (h : BindsExactly arguments services parameters bound)
    (hnames : (parameters.map (·.name)).Nodup) {p : Parameter} (hp : p ∈ parameters) :
    ∃ value, p.Given arguments services value ∧ Entries.get? bound p.name = some value := by
  obtain ⟨before, after, rfl⟩ := List.append_of_mem hp
  refine h.last before p after rfl fun q hq heq => ?_
  rw [List.map_append, List.map_cons] at hnames
  have hnotMem := (List.nodup_cons.1 (List.nodup_append.1 hnames).2.1).1
  exact hnotMem (List.mem_map.2 ⟨q, hq, heq⟩)

/-- So a service is the one of its key, and no argument. -/
lemma service_eq (h : BindsExactly arguments services parameters bound)
    (hnames : (parameters.map (·.name)).Nodup) {p : Parameter} (hp : p ∈ parameters)
    {key : String} (hkey : p.kind = .service key) :
    bound.service? p.name = services key ∧ bound.argument? p.name = none := by
  obtain ⟨value, hgiven, hvalue⟩ := h.given hnames hp
  cases hgiven with
  | argument hargument => cases hkey
  | service hservice =>
    cases hkey
    rw [Bindings.service?, Bindings.argument?, hvalue, hservice]
    exact ⟨rfl, rfl⟩

end BindsExactly

/-- **What parameters are bound to.**  They are bound exactly when every scalar has an argument of
its name and every service an instance of its key; otherwise the error names the first parameter
without.  What is bound is exact.  Other arguments that agree under the names of the scalar
parameters make no difference, and where no name is there twice, a service is never an argument. -/
theorem bind_exact (parameters : List Parameter) (arguments : Arguments)
    (services : ServiceLocator) :
    ((∃ bound, bind parameters arguments services = .ok bound) ↔
      ∀ p ∈ parameters, p.Supplied arguments services) ∧
    (∀ e, bind parameters arguments services = .error e ↔
      ∃ before p after, parameters = before ++ p :: after ∧
        (∀ q ∈ before, q.Supplied arguments services) ∧ ¬ p.Supplied arguments services ∧
        e = ⟨p.name⟩) ∧
    (∀ bound, bind parameters arguments services = .ok bound →
      BindsExactly arguments services parameters bound) ∧
    (∀ others : Arguments,
      (∀ p ∈ parameters, ∀ type, p.kind = .scalar type →
        arguments.get? p.name = others.get? p.name) →
      bind parameters arguments services = bind parameters others services) ∧
    (∀ bound, (parameters.map (·.name)).Nodup →
      bind parameters arguments services = .ok bound →
      ∀ p ∈ parameters, ∀ key, p.kind = .service key →
        bound.service? p.name = services key ∧ bound.argument? p.name = none) := by
  refine ⟨?_, fun e => bindOnto_eq_error_iff, fun bound h => bindsExactly_of_bind h,
    fun others h => bindOnto_congr h, fun bound hnames h p hp key hkey => ?_⟩
  · rw [exists_bind_iff]
    exact forall₂_congr fun p _ => Parameter.isSome_resolve?_iff_supplied
  · exact (bindsExactly_of_bind h).service_eq hnames hp hkey

/-! ## A report -/

/-- A report is made by a clock, since some day, and for a page whose later declaration is a
service. -/
def reportParameters : List Parameter :=
  [⟨"clock", .service "Clock"⟩, ⟨"page", .scalar "Int"⟩, ⟨"since", .scalar "String"⟩,
    ⟨"page", .service "Counter"⟩]

/-- There is a clock and a counter. -/
def reportServices : ServiceLocator :=
  .ofEntries [("Clock", .string "2018-01-01"), ("Counter", .int 7)]

/-- A request that has an argument called like the clock, and null for the day. -/
def reportArguments : Arguments :=
  [("clock", .string "1970-01-01"), ("page", .int 3), ("since", .null)]

/-- A null is an argument, a missing day is named, and what the request calls `clock` makes no
difference. -/
theorem bind_exact_report :
    (∃ bound, bind reportParameters reportArguments reportServices = .ok bound ∧
      BindsExactly reportArguments reportServices reportParameters bound) ∧
    bind reportParameters [("page", .int 3)] reportServices = .error ⟨"since"⟩ ∧
    bind reportParameters reportArguments reportServices =
      bind reportParameters [("page", .int 3), ("since", .null)] reportServices ∧
    ∀ bound, bind (reportParameters.take 3) reportArguments reportServices = .ok bound →
      bound.service? "clock" = some (.string "2018-01-01") ∧ bound.argument? "clock" = none := by
  obtain ⟨hbound, -, hexact, hagree, -⟩ :=
    bind_exact reportParameters reportArguments reportServices
  obtain ⟨-, herror, -⟩ := bind_exact reportParameters [("page", .int 3)] reportServices
  obtain ⟨-, -, -, -, hservice⟩ :=
    bind_exact (reportParameters.take 3) reportArguments reportServices
  refine ⟨?_, ?_, ?_, fun bound h => ?_⟩
  · obtain ⟨bound, h⟩ := hbound.2 (by simp [reportParameters, Parameter.Supplied, reportArguments,
      reportServices, ServiceLocator.ofEntries, Entries.names, Entries.get?])
    exact ⟨bound, h, hexact bound h⟩
  · refine (herror _).2 ⟨reportParameters.take 2, ⟨"since", .scalar "String"⟩, _, rfl, ?_, ?_, rfl⟩
    · simp [reportParameters, Parameter.Supplied, reportServices, ServiceLocator.ofEntries,
        Entries.names, Entries.get?]
    · simp [Parameter.Supplied, Entries.names]
  · refine hagree _ ?_
    simp [reportParameters, reportArguments, Entries.get?]
  · exact hservice bound (by decide) h ⟨"clock", .service "Clock"⟩ List.mem_cons_self "Clock" rfl

end GraphProjection
