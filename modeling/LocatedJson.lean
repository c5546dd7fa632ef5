import LocatedJson.Command.Check
import LocatedJson.FileTree
import LocatedJson.Main
import LocatedJson.Reader.Steps
import LocatedJson.Proofs.Acceptance
import LocatedJson.Proofs.Boundaries
import LocatedJson.Proofs.Carets
import LocatedJson.Proofs.Coverage
import LocatedJson.Proofs.ErrorRoutes
import LocatedJson.Proofs.FirstError
import LocatedJson.Proofs.Gating
import LocatedJson.Proofs.LimitErrors
import LocatedJson.Proofs.LongestNumbers
import LocatedJson.Proofs.Meaning
import LocatedJson.Proofs.OneValue
import LocatedJson.Proofs.Positions
import LocatedJson.Proofs.RaisedLimits
import LocatedJson.Proofs.RoundedNumbers
import LocatedJson.Proofs.StringSpellings
import LocatedJson.Proofs.StringUnits
import LocatedJson.Proofs.TokensFirst
import LocatedJson.Proofs.Totality
import LocatedJson.Proofs.Window
import LocatedJson.Proofs.Columns
import LocatedJson.Proofs.Excerpts
import LocatedJson.Proofs.LineTexts
import LocatedJson.Proofs.NumberLengths
import LocatedJson.Proofs.Decoding
