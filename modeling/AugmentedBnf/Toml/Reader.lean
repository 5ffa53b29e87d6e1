import AugmentedBnf.Toml.Lexical
import AugmentedBnf.Toml.Number
import AugmentedBnf.Toml.Tables

/-! # Reading TOML

A file is read line by line into a table of settings. Any fault refuses the whole file.
-/
namespace AugmentedBnf.Toml

/-- Reads a number, date or word; a date and a time may stand apart. -/
def readWord : Scan Setting := fun t => do
  let (word, after) ← Scan.some1 isWordChar t
  match after with
  | ' ' :: more =>
    let time := more.takeWhile isWordChar
    if isDate word && isZonedTime time then
      return (.text (word ++ ' ' :: time), more.drop time.length)
    else return (← wordValue? word, after)
  | _ => return (← wordValue? word, after)

/-- The last part of a key and the parts before it. -/
def splitKey (key : List Text) : Option (List Text × Text) :=
  key.getLast?.map (key.dropLast, ·)

mutual
/-- Reads a value in which lists and tables nest at most `depth` deep. -/
def readValue : (depth : Nat) → Scan Setting
  | 0, t => (readString t).map (fun (value, after) => (.text value, after)) <|> readWord t
  | depth + 1, t =>
    match t with
    | '[' :: rest => do
      let (items, after) ← readItems depth (rest.length + 1) rest
      return (.list items, after)
    | '\x7b' :: rest => do
      let (branch, after) ← readFields depth (rest.length + 1) rest
      return (branch.item.setting, after)
    | '"' :: _ | '\'' :: _ => (readString t).map fun (value, after) => (.text value, after)
    | _ => readWord t

/-- Reads the items of a list and its closing bracket. Line ends may stand between them, and a
comma after the last. -/
def readItems (depth : Nat) : (count : Nat) → Scan (List Setting)
  | 0, _ => none
  | count + 1, t =>
    match skipLines (t.length + 1) t with
    | ']' :: after => some ([], after)
    | start => do
      let (item, afterItem) ← readValue depth start
      match skipLines (afterItem.length + 1) afterItem with
      | ',' :: more =>
        let (items, after) ← readItems depth count more
        return (item :: items, after)
      | ']' :: after => return ([item], after)
      | _ => none

/-- Reads the fields of a table in braces, all on one line. -/
def readFields (depth : Nat) (count : Nat) : Scan Branch := fun t =>
  match skipBlanks t with
  | '\x7d' :: after => some (.empty, after)
  | start => readMoreFields depth count .empty start

/-- Reads fields into a table, up to its closing brace. -/
def readMoreFields (depth : Nat) : (count : Nat) → Branch → Scan Branch
  | 0, _, _ => none
  | count + 1, branch, t => do
    let (key, afterKey) ← readKey t
    let afterMark ← Scan.word? ['='] (skipBlanks afterKey)
    let (value, afterValue) ← readValue depth (skipBlanks afterMark)
    let (path, last) ← splitKey key
    let branch ← branch.assign path last value
    match skipBlanks afterValue with
    | ',' :: more => readMoreFields depth count branch more
    | '\x7d' :: after => return (branch, after)
    | _ => none
end

/-- The text after the end of a statement: blanks, a comment, and the end of the line or file. -/
def endOfStatement? (t : Text) : Option Text :=
  match skipComment (skipBlanks t) with
  | [] => some []
  | rest => newline? rest

/-- Reads the header of a table, or of one of several tables. -/
def readHeader (state : State) (t : Text) : Option (State × Text) :=
  match t with
  | '[' :: '[' :: rest => do
    let (key, afterKey) ← readKey rest
    let after ← Scan.word? [']', ']'] (skipBlanks afterKey)
    let (above, last) ← splitKey key
    return (← state.openElement above last, after)
  | '[' :: rest => do
    let (key, afterKey) ← readKey rest
    let after ← Scan.word? [']'] (skipBlanks afterKey)
    let (above, last) ← splitKey key
    return (← state.openTable above last, after)
  | _ => none

/-- Reads a key with its value. -/
def readAssignment (state : State) (t : Text) : Option (State × Text) := do
  let (key, afterKey) ← readKey t
  let afterMark ← Scan.word? ['='] (skipBlanks afterKey)
  let (value, after) ← readValue nestingLimit (skipBlanks afterMark)
  let (path, last) ← splitKey key
  return (← state.assign path last value, after)

/-- Reads statements to the end of the file. The count bounds their number. -/
def readStatements : (count : Nat) → State → Text → Option State
  | 0, _, _ => none
  | count + 1, state, t =>
    match skipLines (t.length + 1) t with
    | [] => some state
    | '[' :: rest => do
      let (state, after) ← readHeader state ('[' :: rest)
      readStatements count state (← endOfStatement? after)
    | start => do
      let (state, after) ← readAssignment state start
      readStatements count state (← endOfStatement? after)

/-- The settings of a file. -/
def read? (t : Text) : Option (List (Text × Setting)) := do
  let state ← readStatements (t.length + 1) .start t
  let root ← state.finish
  return entrySettings root.entries

end AugmentedBnf.Toml
