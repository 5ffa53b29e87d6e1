import AugmentedBnf.Settings.Setting

/-! # Tables of TOML under construction

A table can be filled by its header, by headers of tables below it and by keys with points. The
rules say which of these may be mixed; what is refused here makes the whole file invalid.
-/
namespace AugmentedBnf.Toml

/-- What stands under a key. -/
inductive Item where
  /-- A finished value. -/
  | value (setting : Setting)
  /-- A table: whether no header has defined it, and whether keys with points have. -/
  | table (implicit dotted : Bool) (entries : List (Text × Item))
  /-- Tables that were each defined by a header of their own, the last one first. -/
  | tables (elements : List Item)

/-- A table under construction. -/
structure Branch where
  implicit : Bool
  dotted : Bool
  entries : List (Text × Item)

namespace Branch

/-- A table that a header defines, without entries. -/
def empty : Branch := ⟨false, false, []⟩

/-- The table as an item. -/
def item (branch : Branch) : Item := .table branch.implicit branch.dotted branch.entries

/-- What stands under a key. -/
def find? (branch : Branch) (key : Text) : Option Item := branch.entries.lookup key

/-- Puts an item under a key. -/
def insert (branch : Branch) (key : Text) (item : Item) : Branch :=
  { branch with entries := (key, item) :: branch.entries.filter (·.1 != key) }

/-- Takes a key away. -/
def erase (branch : Branch) (key : Text) : Branch :=
  { branch with entries := branch.entries.filter (·.1 != key) }

/-- Changes the table at the end of a path. Missing tables on the way are made; the last of several
tables stands for all of them. -/
def descend (dotted : Bool) (change : Branch → Option Branch) : List Text → Branch → Option Branch
  | [], branch => change branch
  | key :: rest, branch =>
    match branch.find? key with
    | none => do
      let below ← descend dotted change rest ⟨true, dotted, []⟩
      return branch.insert key below.item
    | some (.table implicit wasDotted entries) =>
      if dotted && !implicit then none
      else do
        let below ← descend dotted change rest ⟨implicit, wasDotted, entries⟩
        return branch.insert key below.item
    | some (.tables (.table implicit wasDotted entries :: others)) => do
      let below ← descend dotted change rest ⟨implicit, wasDotted, entries⟩
      return branch.insert key (.tables (below.item :: others))
    | some _ => none

/-- Adds a value under a key with points. The key must be new, and tables of headers are not filled
through points. -/
def assign (path : List Text) (key : Text) (value : Setting) : Branch → Option Branch :=
  descend true (fun branch =>
    if branch.dotted == path.isEmpty || (branch.find? key).isSome then none
    else some (branch.insert key (.value value))) path

end Branch

/-- What a file has defined so far: the tables that are finished, and the one being filled with its
path and whether it is one of several. -/
structure State where
  root : Branch
  current : Branch
  path : List Text
  isElement : Bool

namespace State

/-- Before the first header the root itself is filled. -/
def start : State := ⟨.empty, .empty, [], false⟩

/-- Puts the table being filled in its place. -/
def finish (state : State) : Option Branch :=
  match state.path.reverse with
  | [] => some state.current
  | key :: above =>
    state.root.descend false (fun parent =>
      match parent.find? key, state.isElement with
      | none, true => some (parent.insert key (.tables [state.current.item]))
      | some (.tables elements), true =>
        some (parent.insert key (.tables (state.current.item :: elements)))
      | none, false => some (parent.insert key state.current.item)
      | _, _ => none) above.reverse

/-- The table under a key with its parent after taking it away. -/
def takeTable (key : Text) (parent : Branch) : Option (Branch × Branch) :=
  match parent.find? key with
  | none => some (.empty, parent)
  | some (.table true false entries) => some (⟨false, false, entries⟩, parent.erase key)
  | some _ => none

/-- Starts the table of a header. A table that was only there for tables below it is taken up; any
other must be new. -/
def openTable (above : List Text) (key : Text) (state : State) : Option State := do
  let root ← state.finish
  let parent ← lookup above root
  let (current, _) ← takeTable key parent
  let root ← root.descend false (fun parent => (takeTable key parent).map (·.2)) above
  return ⟨root, current, above ++ [key], false⟩
where
  /-- The table at the end of a path, or a new one. -/
  lookup : List Text → Branch → Option Branch
    | [], branch => some branch
    | key :: rest, branch =>
      match branch.find? key with
      | none => lookup rest ⟨true, false, []⟩
      | some (.table implicit dotted entries) => lookup rest ⟨implicit, dotted, entries⟩
      | some (.tables (.table implicit dotted entries :: _)) => lookup rest ⟨implicit, dotted, entries⟩
      | some _ => none

/-- Starts one of several tables with the same header. -/
def openElement (above : List Text) (key : Text) (state : State) : Option State := do
  let root ← state.finish
  let root ← root.descend false (fun parent =>
    match parent.find? key with
    | none => some (parent.insert key (.tables []))
    | some (.tables _) => some parent
    | some _ => none) above
  return ⟨root, .empty, above ++ [key], true⟩

/-- Adds a value to the table being filled. -/
def assign (path : List Text) (key : Text) (value : Setting) (state : State) : Option State := do
  return { state with current := ← state.current.assign path key value }

end State

mutual
/-- The setting of an item. -/
def Item.setting : Item → Setting
  | .value setting => setting
  | .table _ _ entries => .table (entrySettings entries)
  | .tables elements => .list (elementSettings elements)

/-- The settings of entries. -/
def entrySettings : List (Text × Item) → List (Text × Setting)
  | [] => []
  | (key, item) :: rest => (key, item.setting) :: entrySettings rest

/-- The settings of elements, of which the last is given first. -/
def elementSettings : List Item → List Setting
  | [] => []
  | item :: rest => elementSettings rest ++ [item.setting]
end

end AugmentedBnf.Toml
