import ComponentMarkup.Toml.Value

/-!
# Tables while they are read

A text defines its tables in parts: by headers, by dotted keys and by arrays of tables.  An item remembers how
it came about, since a table may be defined only once: a header may still define a table that so far only
headers of its parts implied, and dotted keys may only extend tables that dotted keys made.
-/

namespace ComponentMarkup.Toml

/-- What a key stands for while a text is read. -/
inductive Item where
  /-- A value, complete as it is. -/
  | value (value : Value)
  /-- A table.  It is `implied` if no header of its own defined it, and `dotted` if dotted keys made it. -/
  | table (implied dotted : Bool) (items : List (String × Item))
  /-- An array of tables; the last one is still open. -/
  | tables (closed : List (List (String × Item))) (last : List (String × Item))

/-- What the keys of a table stand for, in the order of the text. -/
abbrev Items := List (String × Item)

namespace Items

/-- The same items with another one for a key. -/
def set (items : Items) (key : String) (item : Item) : Items :=
  items.map fun entry => if entry.1 == key then (key, item) else entry

/-- Changes the table at the end of a path, making tables on the way.  The change is told whether dotted keys
made the table.  With `dotted`, the path is one of dotted keys. -/
def changeAt (dotted : Bool) (change : Bool → Items → Option Items) :
    List String → (isDotted : Bool) → Items → Option Items
  | [], isDotted, items => change isDotted items
  | key :: path, _, items =>
    match items.lookup key with
    | none =>
      (changeAt dotted change path dotted []).map fun inner => items ++ [(key, .table true dotted inner)]
    | some (.value _) => none
    | some (.tables closed last) =>
      (changeAt dotted change path false last).map fun inner => items.set key (.tables closed inner)
    | some (.table implied isDotted inner) =>
      if dotted && !implied then none
      else
        (changeAt dotted change path isDotted inner).map fun inner =>
          items.set key (.table implied isDotted inner)

/-- Gives the last key of a path a value.  No key gets two. -/
def put (path : List String) (value : Value) (isDotted : Bool) (items : Items) : Option Items :=
  match path.getLast? with
  | none => none
  | some key =>
    let way := path.dropLast
    changeAt true
      (fun isDotted items =>
        if isDotted == way.isEmpty || (items.lookup key).isSome then none
        else some (items ++ [(key, .value value)]))
      way isDotted items

/-- Defines the table of a header. -/
def define (path : List String) (items : Items) : Option Items :=
  match path.getLast? with
  | none => none
  | some key =>
    changeAt false
      (fun _ items =>
        match items.lookup key with
        | none => some (items ++ [(key, .table false false [])])
        | some (.table true false inner) => some (items.set key (.table false false inner))
        | some _ => none)
      path.dropLast false items

/-- Adds a table to the array of a header. -/
def extend (path : List String) (items : Items) : Option Items :=
  match path.getLast? with
  | none => none
  | some key =>
    changeAt false
      (fun _ items =>
        match items.lookup key with
        | none => some (items ++ [(key, .tables [] [])])
        | some (.tables closed last) => some (items.set key (.tables (closed ++ [last]) []))
        | some _ => none)
      path.dropLast false items

end Items

mutual

/-- The value of an item. -/
def Item.toValue : Item → Value
  | .value value => value
  | .table _ _ items => .table (entriesOf items)
  | .tables closed last => .array (tablesOf closed ++ [.table (entriesOf last)])

/-- The values of items. -/
def entriesOf : List (String × Item) → Entries
  | [] => []
  | (key, item) :: items => (key, item.toValue) :: entriesOf items

/-- The tables of an array. -/
def tablesOf : List (List (String × Item)) → List Value
  | [] => []
  | items :: others => .table (entriesOf items) :: tablesOf others

end

/-- The table in braces with the given paths and values. -/
def inlineTable? (pairs : List (List String × Value)) : Option Value :=
  (pairs.foldlM (fun items (path, value) => Items.put path value false items) []).map fun items =>
    .table (entriesOf items)

end ComponentMarkup.Toml
