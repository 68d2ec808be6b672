import GraphProjection.Query.Sql
import GraphProjection.Response

/-!
# The storage and the calls made to it

A storage answers queries: how many rows meet the conditions of a query, and what rows there are.
Relations that hang on a query are not its business.

Whatever is computed with a storage is computed in `Traced`: the outcome comes together with the
calls that were made, in order, those before a failure included.
-/

namespace GraphProjection

/-- What answers queries. -/
structure Storage where
  count : SelectQuery → Except StorageError Nat
  fetch : SelectQuery → Except StorageError (List Row)

/-- A call made to a storage. -/
inductive StorageCall where
  | count (query : SelectQuery)
  | fetch (query : SelectQuery)
deriving Repr

namespace StorageCall

/-- The statement of a call. -/
def statement : StorageCall → Statement
  | .count query => query.countStatement
  | .fetch query => query.statement

end StorageCall

/-- An outcome and the calls made on the way to it. -/
structure Traced (α : Type) where
  calls : List StorageCall
  outcome : Except ExecutionError α

namespace Traced

variable {α β : Type}

/-- An outcome that needs no call. -/
def ofExcept (outcome : Except ExecutionError α) : Traced α := ⟨[], outcome⟩

/-- A value that needs no call. -/
def pure (a : α) : Traced α := ofExcept (.ok a)

/-- A failure without a call. -/
def fail (e : ExecutionError) : Traced α := ofExcept (.error e)

/-- Goes on from a value; a failure stays. -/
def andThen (t : Traced α) (next : α → Traced β) : Traced β :=
  match t.outcome with
  | .error e => ⟨t.calls, .error e⟩
  | .ok a => ⟨t.calls ++ (next a).calls, (next a).outcome⟩

instance : Monad Traced where
  pure := Traced.pure
  bind := Traced.andThen

@[simp] theorem andThen_pure (a : α) (next : α → Traced β) : (pure a).andThen next = next a := by
  simp [pure, ofExcept, andThen]

@[simp] theorem andThen_fail (e : ExecutionError) (next : α → Traced β) :
    (fail e : Traced α).andThen next = fail e := by
  simp [fail, ofExcept, andThen]

end Traced

namespace Storage

/-- An answer of a storage, whose failure fails the field. -/
def answered {α : Type} : Except StorageError α → Except ExecutionError α
  | .ok a => .ok a
  | .error e => .error (.storage e)

/-- Counts the rows that meet the conditions of a query. -/
def traceCount (s : Storage) (query : SelectQuery) : Traced Nat :=
  ⟨[.count query], answered (s.count query)⟩

/-- Fetches the rows of a query. -/
def traceFetch (s : Storage) (query : SelectQuery) : Traced (List Row) :=
  ⟨[.fetch query], answered (s.fetch query)⟩

end Storage

end GraphProjection
