import GraphProjection.Toml.Quoted
import GraphProjection.Toml.Scalar
import GraphProjection.Toml.Table

/-!
# Reading a configuration document

`Toml.parse?` reads a document line by line.  A line holds a header, a key with its value, or
nothing, and then perhaps a comment.  Values are read by one function with fuel; every turn of
it takes a character off the text, so the length of the text is fuel enough.  Values nest no
deeper than `deepest`, and a key has no more parts than that.
-/

namespace GraphProjection.Toml

/-- How many arrays and inline tables may stand in one another, and how many parts a key may
have. -/
def deepest : Nat := 79

/-! ## Blanks, comments and line breaks -/

/-- The text behind the blanks at its start. -/
def skipBlanks (cs : List Char) : List Char := cs.dropWhile fun c => c == ' ' || c == '\t'

/-- The text behind a comment, if it starts with one. -/
def skipComment : List Char → List Char
  | '#' :: rest => rest.dropWhile isPlain
  | rest => rest

/-- The text behind blanks, comments and line breaks; a character of a comment is given up one at
a time. -/
def skipLines : Bool → List Char → List Char
  | _, '\n' :: rest | _, '\r' :: '\n' :: rest => skipLines false rest
  | true, c :: rest => if isPlain c then skipLines true rest else c :: rest
  | false, ' ' :: rest | false, '\t' :: rest => skipLines false rest
  | false, '#' :: rest => skipLines true rest
  | false, rest => rest
  | true, [] => []

/-- The text of the next line, once nothing but blanks and a comment is left of this one. -/
def endLine? (cs : List Char) : Option (List Char) :=
  match skipComment (skipBlanks cs) with
  | [] => some []
  | '\n' :: rest | '\r' :: '\n' :: rest => some rest
  | _ => none

/-! ## Keys -/

/-- The characters of a bare key. -/
def isBareKeyPart (c : Char) : Bool := c.isAlphanum || c == '_' || c == '-'

/-- One part of a key, bare or quoted on one line, and the text behind it. -/
def readKeyPart : List Char → Option (String × List Char)
  | '"' :: rest => (readBasic rest).map fun (s, rest) => (String.ofList s, rest)
  | '\x27' :: rest => (readLiteral rest).map fun (s, rest) => (String.ofList s, rest)
  | cs =>
    let part := cs.takeWhile isBareKeyPart
    if part.isEmpty then none else some (String.ofList part, cs.dropWhile isBareKeyPart)

/-- A key of so many parts at most: parts with dots between them, blanks around each. -/
def readParts : Nat → List Char → Option (List String × List Char)
  | 0, _ => none
  | parts + 1, cs => do
    let (part, rest) ← readKeyPart (skipBlanks cs)
    match skipBlanks rest with
    | '.' :: rest =>
      let (path, rest) ← readParts parts rest
      some (part :: path, rest)
    | rest => some ([part], rest)

/-- A key, and the text behind it. -/
def readKey (cs : List Char) : Option (List String × List Char) := readParts deepest cs

/-! ## Values -/

mutual

/-- A value in which so many arrays and inline tables may stand in one another, and the text
behind it. -/
def readValue : Nat → Nat → List Char → Option (Toml × List Char)
  | 0, _, _ => none
  | fuel + 1, depth, cs =>
    match cs, depth with
    | '[' :: rest, depth + 1 => do
      let (items, rest) ← readItems fuel depth rest
      some (.array items, rest)
    | '\x7b' :: rest, depth + 1 =>
      match skipBlanks rest with
      | '\x7d' :: rest => some (.table [], rest)
      | rest => do
        let (entries, rest) ← readEntries fuel depth [] rest
        some (.table (Draft.finishEntries entries), rest)
    | '"' :: _, _ | '\x27' :: _, _ =>
      (readQuoted? cs).map fun (s, rest) => (.string (String.ofList s), rest)
    | _, _ =>
      let (word, rest) := spanWord cs
      (ofWord? word).map fun value => (value, rest)

/-- The items of an array up to its closing bracket; a comma may follow the last one. -/
def readItems : Nat → Nat → List Char → Option (List Toml × List Char)
  | 0, _, _ => none
  | fuel + 1, depth, cs =>
    match skipLines false cs with
    | ']' :: rest => some ([], rest)
    | cs => do
      let (item, rest) ← readValue fuel depth cs
      match skipLines false rest with
      | ']' :: rest => some ([item], rest)
      | ',' :: rest =>
        let (items, rest) ← readItems fuel depth rest
        some (item :: items, rest)
      | _ => none

/-- The entries of an inline table up to its closing brace, on top of those read already. -/
def readEntries : Nat → Nat → Entries Draft → List Char → Option (Entries Draft × List Char)
  | 0, _, _, _ => none
  | fuel + 1, depth, known, cs => do
    let (path, rest) ← readKey cs
    match rest with
    | '=' :: rest =>
      let (value, rest) ← readValue fuel depth (skipBlanks rest)
      let known ← Draft.writePath path value (.opened, known)
      match skipBlanks rest with
      | '\x7d' :: rest => some (known, rest)
      | ',' :: rest => readEntries fuel depth known rest
      | _ => none
    | _ => none

end

/-! ## Lines -/

/-- Reads one line into a document, and gives the text of the next one. -/
def readLine (fuel : Nat) (d : Draft.Document) (cs : List Char) :
    Option (Draft.Document × List Char) :=
  match skipBlanks cs with
  | [] | '#' :: _ | '\n' :: _ | '\r' :: _ => (endLine? cs).map fun rest => (d, rest)
  | '[' :: '[' :: rest => do
    let (path, rest) ← readKey rest
    match rest with
    | ']' :: ']' :: rest => do
      let rest ← endLine? rest
      let d ← d.openElement path
      some (d, rest)
    | _ => none
  | '[' :: rest => do
    let (path, rest) ← readKey rest
    match rest with
    | ']' :: rest => do
      let rest ← endLine? rest
      let d ← d.openTable path
      some (d, rest)
    | _ => none
  | rest => do
    let (path, rest) ← readKey rest
    match rest with
    | '=' :: rest => do
      let (value, rest) ← readValue fuel deepest (skipBlanks rest)
      let rest ← endLine? rest
      let d ← d.write path value
      some (d, rest)
    | _ => none

/-- Reads lines up to the end of the text. -/
def readAll : Nat → Draft.Document → List Char → Option Draft.Document
  | _, d, [] => some d
  | 0, _, _ => none
  | fuel + 1, d, cs => do
    let (d, rest) ← readLine (fuel + 1) d cs
    readAll fuel d rest

/-- The entries of a document; a byte order mark may stand in front of it. -/
def parse? (s : String) : Option (Entries Toml) :=
  let cs := match s.toList with
    | '\ufeff' :: rest => rest
    | cs => cs
  (readAll (2 * cs.length + 2) {} cs).map fun d => Draft.finishEntries d.root

end GraphProjection.Toml
