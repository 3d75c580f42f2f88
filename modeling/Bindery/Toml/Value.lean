/-! # TOML values and the rules for building tables

A table may be opened once by a header, and a key may be given once. Tables that only lie on the
way to others can still be opened, and those that dotted keys have made can still be extended by
dotted keys. -/

namespace Bindery.Toml

inductive Value where
  | string (s : String)
  | integer (i : Int)
  /-- A floating-point number as it was written. -/
  | float (text : List Char)
  | boolean (b : Bool)
  /-- A date, a time or both as they were written. -/
  | datetime (text : List Char)
  | array (items : List Value)
  | table (entries : List (String × Value))
deriving Repr, Inhabited

/-- How a table has come to be. -/
inductive Origin where
  | header
  /-- It lies on the way to a table that has been opened. -/
  | path
  /-- Dotted keys lead through it. -/
  | dotted
deriving DecidableEq, Repr

/-- What a key leads to while a document is being read. -/
inductive Item where
  | value (v : Value)
  | table (origin : Origin) (entries : List (String × Item))
  /-- The tables of one array, each opened by a header. -/
  | tables (ts : List (List (String × Item)))
deriving Repr, Inhabited

abbrev Entries := List (String × Item)

namespace Entries

/-- Gives a key another item, in the place of its old one if it has one. -/
def set (key : String) (item : Item) : Entries → Entries
  | [] => [(key, item)]
  | e :: es => if e.1 = key then (key, item) :: es else e :: set key item es

/-- Works on the last table of an array. -/
def atLast (f : Entries → Option Entries) (ts : List Entries) : Option (List Entries) :=
  match ts.reverse with
  | [] => none
  | last :: front => (f last).map fun t => (t :: front).reverse

/-- Gives a value to a key that a path leads to. -/
def put (value : Value) (key : String) : List String → Entries → Option Entries
  | [], es => if (es.lookup key).isSome then none else some (set key (.value value) es)
  | p :: ps, es =>
    match es.lookup p with
    | none => (put value key ps []).map fun sub => set p (.table .dotted sub) es
    | some (.table .dotted sub) =>
      (put value key ps sub).map fun sub => set p (.table .dotted sub) es
    | some (.table .path sub) =>
      if ps.isEmpty then none
      else (put value key ps sub).map fun sub => set p (.table .path sub) es
    | some (.tables ts) =>
      if ps.isEmpty then none
      else (atLast (put value key ps) ts).map fun ts => set p (.tables ts) es
    | some (.table .header _) | some (.value _) => none

/-- Goes down a path of tables, making those that are missing, and works on what the last key
leads to. -/
def descend (f : Option Item → Option Item) : List String → Entries → Option Entries
  | [], _ => none
  | [key], es => (f (es.lookup key)).map fun item => set key item es
  | p :: ps, es =>
    match es.lookup p with
    | none => (descend f ps []).map fun sub => set p (.table .path sub) es
    | some (.table origin sub) =>
      (descend f ps sub).map fun sub => set p (.table origin sub) es
    | some (.tables ts) => (atLast (descend f ps) ts).map fun ts => set p (.tables ts) es
    | some (.value _) => none

/-- Opens a table. -/
def openTable : Option Item → Option Item
  | none => some (.table .header [])
  | some (.table .path sub) => some (.table .header sub)
  | _ => none

/-- Opens one more table of an array. -/
def openElement : Option Item → Option Item
  | none => some (.tables [[]])
  | some (.tables ts) => some (.tables (ts ++ [[]]))
  | _ => none

/-- Works inside the table that has been opened last. -/
def insideOpen (f : Entries → Option Entries) : Option Item → Option Item
  | some (.table origin sub) => (f sub).map (.table origin)
  | some (.tables ts) => (atLast f ts).map .tables
  | _ => none

end Entries

mutual

def Item.toValue : Item → Value
  | .value v => v
  | .table _ es => .table (entriesToValues es)
  | .tables ts => .array (tablesToValues ts)

def entriesToValues : List (String × Item) → List (String × Value)
  | [] => []
  | (k, item) :: es => (k, item.toValue) :: entriesToValues es

def tablesToValues : List (List (String × Item)) → List Value
  | [] => []
  | t :: ts => .table (entriesToValues t) :: tablesToValues ts

end

end Bindery.Toml
