import Winnow.Builder
import Winnow.Condition
import Winnow.Decode
import Winnow.Fault
import Winnow.Filter
import Winnow.Json
import Winnow.Log
import Winnow.Logged
import Winnow.Number.Binary64
import Winnow.Number.Decimal
import Winnow.Number.Numeral
import Winnow.Number.Quantity
import Winnow.Number.Shortest
import Winnow.Number.Written
import Winnow.Operator
import Winnow.Paging
import Winnow.Path
import Winnow.Problem
import Winnow.Proofs.Accepted
import Winnow.Proofs.AfterItem
import Winnow.Proofs.AllowedFields
import Winnow.Proofs.Arrangement
import Winnow.Proofs.Building
import Winnow.Proofs.Calendar
import Winnow.Proofs.CanonicalText
import Winnow.Proofs.Choices
import Winnow.Proofs.Confinement
import Winnow.Proofs.DayWindows
import Winnow.Proofs.DepthLimit
import Winnow.Proofs.Digits
import Winnow.Proofs.DottedPaths
import Winnow.Proofs.Duality
import Winnow.Proofs.ElementNames
import Winnow.Proofs.Entries
import Winnow.Proofs.Faults
import Winnow.Proofs.Grammar
import Winnow.Proofs.IsoText
import Winnow.Proofs.JsonTexts
import Winnow.Proofs.Kinds
import Winnow.Proofs.Lookups
import Winnow.Proofs.ManyValues
import Winnow.Proofs.Matching
import Winnow.Proofs.Meaning
import Winnow.Proofs.Merging
import Winnow.Proofs.Modes
import Winnow.Proofs.Nesting
import Winnow.Proofs.NoneSkipped
import Winnow.Proofs.NormalForm
import Winnow.Proofs.Outcome
import Winnow.Proofs.Paging
import Winnow.Proofs.ProblemPlaces
import Winnow.Proofs.Ranking
import Winnow.Proofs.Reading
import Winnow.Proofs.Registration
import Winnow.Proofs.Reversal
import Winnow.Proofs.RoundTrip
import Winnow.Proofs.RuleLists
import Winnow.Proofs.SameElements
import Winnow.Proofs.Scale
import Winnow.Proofs.Sessions
import Winnow.Proofs.Shape
import Winnow.Proofs.SortRules
import Winnow.Proofs.Sorting
import Winnow.Proofs.Splicing
import Winnow.Proofs.TopItems
import Winnow.Proofs.Translation
import Winnow.Proofs.ValueOrder
import Winnow.Ranking
import Winnow.Registry
import Winnow.RelativeDate
import Winnow.RelativeDate.Loose
import Winnow.Search.Body
import Winnow.Search.Clause
import Winnow.Search.FieldMap
import Winnow.Search.Merge
import Winnow.Search.Plain
import Winnow.Search.Sort
import Winnow.Search.Translate
import Winnow.Selection
import Winnow.Session
import Winnow.Sorting
import Winnow.Temporal
import Winnow.Text.Capital
import Winnow.Text.Chars
import Winnow.Text.Closest
import Winnow.Text.LoneUnit
import Winnow.Text.Printable
import Winnow.Text.Quoted
import Winnow.Text.Uuid
import Winnow.Time.Calendar
import Winnow.Time.Clock
import Winnow.Time.DateTime
import Winnow.Time.Iso
import Winnow.Time.Reader
import Winnow.UnknownOperator
import Winnow.Value
import Winnow.Value.Display
import Winnow.Value.Encode
import Winnow.Value.Equal
import Winnow.Value.JsonText
import Winnow.Value.Order
import Winnow.Walk
