import PcmConversion.Toml.Value

/-!
# Building tables

Keys with dots, section headers and repeated sections say where in a tree of tables a value belongs.  A
table may be opened once; `Origin` remembers how it came about, because that decides who may still add to
it.
-/

namespace PcmConversion.Toml

/-- How a table came about. -/
inductive Origin where
  /-- By a header of its own. -/
  | header
  /-- On the way to a deeper header. -/
  | passed
  /-- By a key with dots. -/
  | dotted
deriving DecidableEq

/-- A tree of tables under construction. -/
inductive Node where
  /-- A finished value, to which nothing can be added. -/
  | leaf (value : Value)
  | table (origin : Origin) (entries : List (String × Node))
  /-- Repeated sections, the latest first. -/
  | sections (items : List (List (String × Node)))

/-- The entries of a table under construction. -/
abbrev Nodes := List (String × Node)

namespace Nodes

/-- Replace what stands under a key, or add it at the end. -/
def set (nodes : Nodes) (key : String) (node : Node) : Nodes :=
  match nodes with
  | [] => [(key, node)]
  | (k, n) :: rest => if k = key then (key, node) :: rest else (k, n) :: set rest key node

/-- Add a value under a key with dots.  The tables on the way must have been made by such keys
themselves, and the key must be new. -/
def addValue : (path : List String) → (key : String) → Value → Nodes → Option Nodes
  | [], key, value, nodes =>
    if (nodes.lookup key).isSome then none else some (nodes ++ [(key, .leaf value)])
  | p :: path, key, value, nodes =>
    match nodes.lookup p with
    | none => (addValue path key value []).map fun sub => nodes ++ [(p, .table .dotted sub)]
    | some (.table origin sub) =>
      if origin = .header ∨ (path = [] ∧ origin ≠ .dotted) then none
      else (addValue path key value sub).map fun sub => nodes.set p (.table origin sub)
    | some (.sections (latest :: earlier)) =>
      if path = [] then none
      else (addValue path key value latest).map fun sub => nodes.set p (.sections (sub :: earlier))
    | some (.sections []) | some (.leaf _) => none

/-- Change the table at a header's path; tables on the way are made where they are missing. -/
def within (change : Nodes → Option Nodes) : (path : List String) → Nodes → Option Nodes
  | [], nodes => change nodes
  | p :: path, nodes =>
    match nodes.lookup p with
    | none => (within change path []).map fun sub => nodes ++ [(p, .table .passed sub)]
    | some (.table origin sub) =>
      (within change path sub).map fun sub => nodes.set p (.table origin sub)
    | some (.sections (latest :: earlier)) =>
      (within change path latest).map fun sub => nodes.set p (.sections (sub :: earlier))
    | some (.sections []) | some (.leaf _) => none

/-- Open a table by its header; one that was only passed through may still be opened. -/
def openTable (key : String) (nodes : Nodes) : Option Nodes :=
  match nodes.lookup key with
  | none => some (nodes ++ [(key, .table .header [])])
  | some (.table .passed sub) => some (nodes.set key (.table .header sub))
  | some _ => none

/-- Open one more of a repeated section. -/
def openSection (key : String) (nodes : Nodes) : Option Nodes :=
  match nodes.lookup key with
  | none => some (nodes ++ [(key, .sections [[]])])
  | some (.sections items) => some (nodes.set key (.sections ([] :: items)))
  | some _ => none

end Nodes

mutual

/-- A finished tree as a value. -/
def Node.value : Node → Value
  | .leaf v => v
  | .table _ nodes => .table (Nodes.entries nodes)
  | .sections items => .array (Nodes.tables items)

/-- The finished entries of a table. -/
def Nodes.entries : List (String × Node) → Entries
  | [] => []
  | (key, node) :: rest => (key, node.value) :: Nodes.entries rest

/-- Repeated sections as tables, in the order of the document. -/
def Nodes.tables : List (List (String × Node)) → List Value
  | [] => []
  | item :: earlier => Nodes.tables earlier ++ [.table (Nodes.entries item)]

end

/-- The table written by a list of keys and values, as in braces. -/
def Entries.ofPairs? (pairs : List ((List String × String) × Value)) : Option Entries :=
  (pairs.foldlM (fun nodes ((path, key), v) => Nodes.addValue path key v nodes) []).map Nodes.entries

/-- One line of a document. -/
inductive Statement where
  | pair (path : List String) (key : String) (value : Value)
  /-- `[path.key]` -/
  | table (path : List String) (key : String)
  /-- `[[path.key]]` -/
  | repeated (path : List String) (key : String)

/-- A document under construction: the tree, and the path of the table that pairs go to. -/
structure Outline where
  nodes : Nodes := []
  current : List String := []

/-- Take in one line. -/
def Outline.add (o : Outline) : Statement → Option Outline
  | .pair path key value =>
    (Nodes.within (Nodes.addValue path key value) o.current o.nodes).map fun nodes =>
      { o with nodes }
  | .table path key =>
    (Nodes.within (Nodes.openTable key) path o.nodes).map fun nodes =>
      ⟨nodes, path ++ [key]⟩
  | .repeated path key =>
    (Nodes.within (Nodes.openSection key) path o.nodes).map fun nodes =>
      ⟨nodes, path ++ [key]⟩

/-- The top table of a document, given line by line. -/
def Entries.ofStatements? (statements : List Statement) : Option Entries :=
  (statements.foldlM Outline.add {}).map fun o => Nodes.entries o.nodes

end PcmConversion.Toml
