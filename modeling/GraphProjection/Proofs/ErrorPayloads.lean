import GraphProjection.Proofs.Denied.Shaping
import GraphProjection.Response

/-!
# What an error carries

An error is made by calls, each of which adds an extension or a location or sets the path
(`ResponseError.Call`).  What the calls have given is there in the order of the calls
(`extensions_callAll`, `locations_callAll`, `path_callAll`), and the response shows it: every
location in its place, and the path that was given last (`at?_locations`, `at?_path`).

The extensions are kept as a list and shown as an object.  The list is asked for the value that was
given first for a key, and the object has the one that was given last (`extension?_callAll`,
`at?_extensions_callAll`).  So the two agree on whether there is a value, and on which as long as no
key is given again with another one.

Main statement: **`payload_of_calls`**.
-/

namespace GraphProjection

namespace ResponseError

/-! ## Calls -/

/-- A call that makes an error carry more. -/
inductive Call where
  | withExtension (key : String) (value : Value)
  | withLocation (location : Location)
  | withPath (path : List PathSegment)

namespace Call

/-- The extension that a call gives. -/
def extension? : Call → Option (String × Value)
  | .withExtension key value => some (key, value)
  | _ => none

/-- The location that a call gives. -/
def location? : Call → Option Location
  | .withLocation location => some location
  | _ => none

/-- The path that a call gives. -/
def path? : Call → Option (List PathSegment)
  | .withPath path => some path
  | _ => none

end Call

/-- An error after a call. -/
def call (e : ResponseError) : Call → ResponseError
  | .withExtension key value => e.withExtension key value
  | .withLocation location => e.withLocation location
  | .withPath path => e.withPath path

/-- An error after calls, one after the other. -/
def callAll (e : ResponseError) (calls : List Call) : ResponseError := calls.foldl call e

/-- What the calls have given is behind what was there, in the order of the calls; of the paths the
last is there. -/
theorem callAll_eq (e : ResponseError) (calls : List Call) :
    e.callAll calls =
      { e with
        extensions := e.extensions ++ calls.filterMap Call.extension?
        locations := e.locations ++ calls.filterMap Call.location?
        path := (calls.filterMap Call.path?).getLast?.or e.path } := by
  induction calls generalizing e with
  | nil => simp [callAll]
  | cons c rest ih =>
    have hstep : e.callAll (c :: rest) = (e.call c).callAll rest := rfl
    rw [hstep, ih]
    cases c with
    | withExtension key value => simp [call, withExtension, List.filterMap_cons, Call.extension?,
        Call.location?, Call.path?]
    | withLocation location => simp [call, withLocation, List.filterMap_cons, Call.extension?,
        Call.location?, Call.path?]
    | withPath path =>
      simp only [call, withPath, List.filterMap_cons, Call.extension?, Call.location?, Call.path?,
        List.getLast?_cons]
      cases (rest.filterMap Call.path?).getLast? <;> rfl

/-! ## The error as a value -/

lemma get?_listed (name other : String) (items : List Value) :
    Entries.get? (listed name items) other =
      if name = other ∧ items ≠ [] then some (.array items) else none := by
  cases items with
  | nil => simp [listed]
  | cons item rest => simp [listed, Entries.get?]

lemma at?_key_extensions (e : ResponseError) :
    e.value.at? [.key "extensions"] =
      if e.extensions = [] then none else some (.object e.extensionMembers) := by
  rw [value]
  by_cases hnone : e.extensions = [] <;> cases e.path <;>
    simp [Value.at?, Entries.get?, Entries.get?_append, get?_listed, hnone]

lemma at?_key_locations (e : ResponseError) :
    e.value.at? [.key "locations"] =
      if e.locations = [] then none else some (.array (e.locations.map Location.value)) := by
  rw [value]
  by_cases hnone : e.locations = [] <;> by_cases hextensions : e.extensions = [] <;>
    cases e.path <;> simp [Value.at?, Entries.get?, Entries.get?_append, get?_listed, hnone,
      hextensions]

lemma at?_key_path (e : ResponseError) :
    e.value.at? [.key "path"] = e.path.map fun path => .array (path.map PathSegment.value) := by
  rw [value]
  by_cases hextensions : e.extensions = [] <;> cases e.path <;>
    simp [Value.at?, Entries.get?, Entries.get?_append, get?_listed, hextensions]

/-- Of the values that are given for a key, the last is shown. -/
lemma at?_extensions (e : ResponseError) (key : String) :
    e.value.at? [.key "extensions", .key key] = (Entries.given e.extensions key).getLast? := by
  rw [Value.at?_cons, at?_key_extensions]
  by_cases hnone : e.extensions = []
  · simp [hnone, Entries.given]
  · rw [if_neg hnone, Option.bind_some, Value.at?_object, extensionMembers, Entries.get?_ofList]
    simp only [Value.at?_nil, Option.bind_fun_some]

/-- Every location is shown in its place. -/
theorem at?_locations (e : ResponseError) (n : Nat) :
    e.value.at? [.key "locations", .index n] = (e.locations[n]?).map Location.value := by
  rw [Value.at?_cons, at?_key_locations]
  by_cases hnone : e.locations = []
  · simp [hnone]
  · rw [if_neg hnone, Option.bind_some, Value.at?_array, List.getElem?_map]
    simp only [Value.at?_nil, Option.bind_fun_some]

/-- An error with a message and a class that calls have made carry more. -/
def ofCalls (message : String) (code : ErrorCode) (calls : List Call) : ResponseError :=
  (plain message code).callAll calls

/-- **The payload of an error and its accessor.**  Of the values that the calls have given for a
key, the first is looked up and the last is shown; so there is none exactly where none is shown, and
the two are the same exactly if the key was given first and last with the same value.  The locations
are shown in the order of the calls, and of the paths the last one. -/
theorem payload_of_calls (message : String) (code : ErrorCode) (calls : List Call) :
    (∀ key, (ofCalls message code calls).extension? key =
      (Entries.given (calls.filterMap Call.extension?) key).head?) ∧
    (∀ key, (ofCalls message code calls).value.at? [.key "extensions", .key key] =
      (Entries.given (calls.filterMap Call.extension?) key).getLast?) ∧
    (∀ key, (ofCalls message code calls).extension? key = none ↔
      (ofCalls message code calls).value.at? [.key "extensions", .key key] = none) ∧
    (∀ key, (ofCalls message code calls).extension? key =
        (ofCalls message code calls).value.at? [.key "extensions", .key key] ↔
      (Entries.given (calls.filterMap Call.extension?) key).head? =
        (Entries.given (calls.filterMap Call.extension?) key).getLast?) ∧
    (∀ n, (ofCalls message code calls).value.at? [.key "locations", .index n] =
      ((calls.filterMap Call.location?)[n]?).map Location.value) ∧
    (ofCalls message code calls).value.at? [.key "path"] =
      ((calls.filterMap Call.path?).getLast?).map fun path =>
        .array (path.map PathSegment.value) := by
  have hextension : ∀ key, (ofCalls message code calls).extension? key =
      (Entries.given (calls.filterMap Call.extension?) key).head? := by
    intro key
    rw [extension?, Entries.get?_eq_head?_given, ofCalls, callAll_eq]
    rfl
  have hshown : ∀ key, (ofCalls message code calls).value.at? [.key "extensions", .key key] =
      (Entries.given (calls.filterMap Call.extension?) key).getLast? := by
    intro key
    rw [at?_extensions, ofCalls, callAll_eq]
    rfl
  refine ⟨hextension, hshown, fun key => ?_, fun key => ?_, fun n => ?_, ?_⟩
  · rw [hextension, hshown, List.head?_eq_none_iff, List.getLast?_eq_none_iff]
  · rw [hextension, hshown]
  · rw [at?_locations, ofCalls, callAll_eq]
    rfl
  · rw [at?_key_path, ofCalls, callAll_eq]
    simp [plain]

/-! ## A code that is given again -/

/-- The code of an error is given, and once more with another value. -/
def recodedCalls : List Call :=
  [.withExtension "code" (.string "first"), .withLocation ⟨2, 3⟩, .withPath [.key "posts"],
    .withExtension "code" (.string "last"), .withPath [.key "posts", .index 0]]

/-- The accessor of the code and what is shown of it do not agree. -/
theorem payload_of_calls_recoded :
    (ofCalls "Internal server error" .internalServerError recodedCalls).extension? "code" =
      some (.string "first") ∧
    (ofCalls "Internal server error" .internalServerError recodedCalls).value.at?
      [.key "extensions", .key "code"] = some (.string "last") ∧
    (ofCalls "Internal server error" .internalServerError recodedCalls).extension? "code" ≠
      (ofCalls "Internal server error" .internalServerError recodedCalls).value.at?
        [.key "extensions", .key "code"] ∧
    (ofCalls "Internal server error" .internalServerError recodedCalls).value.at?
      [.key "path"] = some (.array [.string "posts", .int 0]) := by
  obtain ⟨hextension, hshown, -, hagree, -, hpath⟩ :=
    payload_of_calls "Internal server error" .internalServerError recodedCalls
  have hgiven : Entries.given (recodedCalls.filterMap Call.extension?) "code" =
      [.string "first", .string "last"] := rfl
  refine ⟨?_, ?_, fun h => ?_, hpath⟩
  · rw [hextension, hgiven]
    rfl
  · rw [hshown, hgiven]
    rfl
  · have hsame := (hagree "code").1 h
    rw [hgiven] at hsame
    simp at hsame

end ResponseError

end GraphProjection
