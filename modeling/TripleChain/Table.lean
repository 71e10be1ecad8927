import TripleChain.Failure
import TripleChain.Grammar.Term
import TripleChain.Binding
/-!
# Tables

A table is data that a rule can offer: rows that bind the variables of its columns. It is made from
rows of written terms or from a binding set, and asked with bindings: a row answers a binding that it
does not contradict.
-/

namespace TripleChain

/-- Rows of data under columns that are variables. -/
structure Table where
  columns : List Variable
  rows : BindingSet

namespace Table

/-- The table of a binding set: its columns are the bound variables, in order. -/
def ofBindings (s : BindingSet) : Table := ⟨(SortedSet.ofList (s.toList.flatMap Binding.vars)).toList, s⟩

/-- Cuts a row at its commas. -/
def splitCells : List Char → List (List Char)
  | [] => [[]]
  | c :: rest =>
    if c = ',' then [] :: splitCells rest
    else
      match splitCells rest with
      | [] => [[c]]
      | cell :: cells => (c :: cell) :: cells

def invalid (message : String) : Failure := .ofCode .invalidTable message

/-- The term in a cell of the row with the given number. -/
def readCell (p : Prefixes) (number : Nat) (cell : List Char) : Except (Grammar.Halt Failure) Term :=
  (Grammar.parseTerm p (String.ofList (Text.trim cell))).mapError fun e =>
    e.map fun e => ((Failure.ofTextError e).withCode .invalidTable).withField "row" (toString number)

/-- The binding that the row with the given number writes. -/
def readRow (p : Prefixes) (columns : List Variable) (number : Nat) (row : String) :
    Except (Grammar.Halt Failure) Binding :=
  let cells := splitCells row.toList
  if cells.length ≠ columns.length then
    .error (.report (invalid ("Row " ++ toString number ++ " has " ++ toString cells.length ++
      " values but the table has " ++ toString columns.length ++ " columns")))
  else (cells.mapM (readCell p number)).map fun terms => .ofList (columns.zip terms)

/-- The table of rows of written terms with commas between. -/
def ofRows (p : Prefixes) (columns rows : List String) : Except (Grammar.Halt Failure) Table :=
  if columns.isEmpty then .error (.report (invalid "A table needs at least one column"))
  else
    let columns := columns.map Variable.ofName
    (rows.zipIdx.mapM fun (row, number) => readRow p columns number row).map fun rows => ⟨columns, .ofList rows⟩

/-- The rows that do not contradict a binding. Variables without a column do not matter. -/
def query (t : Table) (b : Binding) : BindingSet := t.rows.filter (·.compatible b)

/-- The rows that answer some binding of the demand, those of the first binding first. Without demand all
rows are given. -/
def answer (t : Table) (demand : BindingSet) : BindingSet :=
  if demand.isEmpty then t.rows
  else demand.toList.foldl (fun s b => s.union (t.query b)) ∅

end Table

end TripleChain
