import GraphProjection.Registry.Descriptor

/-!
# Resolving declarations

`TypeDeclaration.resolve` turns the declaration of an output type into descriptors, or says what
is wrong with it.  The fields are resolved in order, so the first wrong one is reported, and a
name that has been used before is reported at its second field.  Only when every field is right
by itself are the output aliases compared, for an alias is read from the same row as the columns
and must not hide any of them, nor another alias.
-/

namespace GraphProjection

/-- What can be wrong with the attributes of a field. -/
inductive FieldFault where
  | aliasWithoutExpression
  | relationWithExpression
  | relationNotSelectable
  | relationWithColumn
  | unknownTarget (type : String)
  | missingKey
  | expressionNotSelectable
  | expressionWithColumn
  | notSelectableWithColumn
  | alwaysWithoutColumn
  | undeclared
deriving DecidableEq, Repr

namespace FieldFault

/-- What is said of the fault. -/
def reason : FieldFault → String
  | .aliasWithoutExpression => "an output alias needs an expression"
  | .relationWithExpression => "a relation cannot also be a computed expression"
  | .relationNotSelectable => "a relation cannot be marked as not selectable"
  | .relationWithColumn => "a relation cannot map to a column"
  | .unknownTarget type => "relation target '" ++ type ++ "' is not a registered output type"
  | .missingKey => "a relation needs both a local and a foreign key"
  | .expressionNotSelectable => "a computed expression cannot be marked as not selectable"
  | .expressionWithColumn => "a computed expression cannot map to a column"
  | .notSelectableWithColumn => "a field that is not selectable cannot map to a column"
  | .alwaysWithoutColumn => "only column fields can be always selected"
  | .undeclared => "the field is not declared"

end FieldFault

/-- What can be wrong with declarations, or with a name that is looked up among them. -/
inductive RegistryError where
  | duplicateType (type : String)
  | duplicateField (type field : String)
  | duplicateAlias (type outputAlias : String)
  | invalidField (type field : String) (fault : FieldFault)
  | invalidTypeReference (type field : String) (source : InvalidTypeRef)
  | unknownType (type : String)
deriving DecidableEq, Repr

namespace RegistryError

/-- What is said of the error. -/
def message : RegistryError → String
  | .duplicateType type => "Output type '" ++ type ++ "' is declared more than once"
  | .duplicateField type field =>
    "Field '" ++ field ++ "' is declared more than once on '" ++ type ++ "'"
  | .duplicateAlias type outputAlias =>
    "Output alias '" ++ outputAlias ++ "' is claimed by more than one field of '" ++ type ++ "'"
  | .invalidField type field fault =>
    "Field '" ++ type ++ "." ++ field ++ "' is invalid: " ++ fault.reason
  | .invalidTypeReference type field source =>
    "Field '" ++ type ++ "." ++ field ++ "' has an invalid type: " ++ source.message
  | .unknownType type => "Output type '" ++ type ++ "' is not registered"

end RegistryError

namespace FieldDeclaration

/-- The kind of a field that is declared as a relation. -/
def relationKind (isOutputType : String → Bool) (d : FieldDeclaration) (type : TypeRef)
    (relation : RelationDeclaration) : Except FieldFault FieldKind :=
  if !d.selectable then .error .relationNotSelectable
  else if d.column.isSome then .error .relationWithColumn
  else if !isOutputType type.namedType then .error (.unknownTarget type.namedType)
  else
    match relation.localKey, relation.foreignKey with
    | some localKey, some foreignKey =>
      .ok (.relation ⟨relation.name.getD d.name, localKey, foreignKey, relation.constraint⟩)
    | _, _ => .error .missingKey

/-- The kind of a field that is declared with an expression. -/
def computedKind (d : FieldDeclaration) (expression : Expression) : Except FieldFault FieldKind :=
  if !d.selectable then .error .expressionNotSelectable
  else if d.column.isSome then .error .expressionWithColumn
  else .ok (.computed (d.outputAlias.getD d.name) expression)

/-- The kind of a field that is neither. -/
def plainKind (d : FieldDeclaration) : Except FieldFault FieldKind :=
  if d.selectable then .ok (.column (d.column.getD d.name))
  else if d.column.isSome then .error .notSelectableWithColumn
  else .ok .notSelectable

/-- The kind that the attributes of a field add up to. -/
def resolveKind (isOutputType : String → Bool) (d : FieldDeclaration) (type : TypeRef) :
    Except FieldFault FieldKind :=
  if d.outputAlias.isSome && d.expression.isNone then .error .aliasWithoutExpression
  else
    let kind : Except FieldFault FieldKind := match d.relation, d.expression with
      | some _, some _ => .error .relationWithExpression
      | some relation, none => d.relationKind isOutputType type relation
      | none, some expression => d.computedKind expression
      | none, none => d.plainKind
    match kind with
    | .error fault => .error fault
    | .ok (.column column) => .ok (.column column)
    | .ok kind => if d.always then .error .alwaysWithoutColumn else .ok kind

/-- The descriptor of a field of a type. -/
def resolve (isOutputType : String → Bool) (type : String) (d : FieldDeclaration) :
    Except RegistryError FieldDescriptor :=
  match TypeRef.parse d.type with
  | .error source => .error (.invalidTypeReference type d.name source)
  | .ok fieldType =>
    match d.resolveKind isOutputType fieldType with
    | .error fault => .error (.invalidField type d.name fault)
    | .ok kind => .ok ⟨d.name, fieldType, kind, d.always, d.privacy, d.resolver⟩

end FieldDeclaration

namespace TypeDeclaration

/-- Resolves fields behind those that are resolved already. -/
def resolveFields (isOutputType : String → Bool) (type : String) :
    List FieldDeclaration → List FieldDescriptor → Except RegistryError (List FieldDescriptor)
  | [], known => .ok known
  | d :: rest, known =>
    match d.resolve isOutputType type with
    | .error e => .error e
    | .ok f =>
      if known.any (·.name == f.name) then .error (.duplicateField type f.name)
      else resolveFields isOutputType type rest (known ++ [f])

/-- The first output alias that is a column as well or was claimed before. -/
def repeatedAlias? (columns : List String) : List String → List String → Option String
  | [], _ => none
  | name :: rest, claimed =>
    if columns.contains name || claimed.contains name then some name
    else repeatedAlias? columns rest (name :: claimed)

/-- The output type that a declaration describes. -/
def resolve (isOutputType : String → Bool) (d : TypeDeclaration) :
    Except RegistryError OutputType :=
  match resolveFields isOutputType d.name d.fields [] with
  | .error e => .error e
  | .ok fields =>
    match repeatedAlias? (fields.filterMap (·.column?)) (fields.filterMap (·.alias?)) [] with
    | some name => .error (.duplicateAlias d.name name)
    | none => .ok ⟨d.name, d.table, fields⟩

end TypeDeclaration

end GraphProjection
