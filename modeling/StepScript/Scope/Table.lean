import StepScript.Value

/-! Tables of variables: names with their values, in ascending order of names. The order is that of
the encoded names, so equal contents make equal tables. -/
namespace StepScript

abbrev Table := List (Text × Value)

namespace Table

def find? (table : Table) (name : Text) : Option Value :=
  table.lookup name

/-- Binds the name, over an earlier binding if there is one. -/
def insert (name : Text) (value : Value) : Table → Table
  | [] => [(name, value)]
  | (other, old) :: rest =>
    if name = other then (name, value) :: rest
    else if name < other then (name, value) :: (other, old) :: rest
    else (other, old) :: insert name value rest

/-- Takes over the values that `source` has for the names of this table. -/
def absorb (table source : Table) : Table :=
  table.map fun (name, value) => (name, (source.find? name).getD value)

/-- Longest names first, in ascending order among names of one length. -/
def longestFirst (table : Table) : Table :=
  arrange (fun a b => b.1.length ≤ a.1.length) table

/-- Equality of contents as scripts see it. -/
def same : Table → Table → Bool
  | [], [] => true
  | (n, v) :: rest, (n', v') :: rest' => n == n' && v.same v' && same rest rest'
  | _, _ => false

end Table
end StepScript
