import Winnow.Time.Iso
import Winnow.Value

/-!
# Values in a search body

The form of a value in the body of a search: dates, times, identifiers and decimals become texts, a member of a family
its content, and sequences lists. Every other value stays as it is.
-/

namespace Winnow

mutual

/-- A value as it stands in a search body. -/
def Value.searchable : Value → Value
  | .symbol _ _ content => content
  | .operator op => .text op.name
  | .direction d => .text d.name
  | .date d => .text d.toIso
  | .datetime t => .text t.toIso
  | .time t => .text t.toIso
  | .uuid canonical => .text canonical
  | .decimal x => .text x.toText
  | .object entries => .object (searchableEntries entries)
  | .list items => .list (searchableItems items)
  | .tuple items => .list (searchableItems items)
  | v => v
termination_by structural v => v

/-- Each of some values as it stands in a search body. -/
def searchableItems : List Value → List Value
  | [] => []
  | v :: rest => v.searchable :: searchableItems rest
termination_by structural items => items

/-- Each entry with its value as it stands in a search body. -/
def searchableEntries : List (String × Value) → List (String × Value)
  | [] => []
  | (key, v) :: rest => (key, v.searchable) :: searchableEntries rest
termination_by structural entries => entries

end

end Winnow
