import Partbook.Catalog.Pattern.OfText
import Partbook.Element.Checked
import Partbook.Forest.Query
import Partbook.Form.Length
import Partbook.Loading.Basic
import Partbook.Proofs.Collecting
import Partbook.Proofs.Composition
import Partbook.Proofs.Continuing
import Partbook.Proofs.Element.Inner
import Partbook.Proofs.Element.ItemsOfTokens
import Partbook.Proofs.Element.Notated
import Partbook.Proofs.Element.OfTokens
import Partbook.Proofs.Element.Origins
import Partbook.Proofs.Element.Passages
import Partbook.Proofs.Element.Spans
import Partbook.Proofs.Element.Spelled
import Partbook.Proofs.Entering
import Partbook.Proofs.Failures
import Partbook.Proofs.Faults
import Partbook.Proofs.Forest.Edits
import Partbook.Proofs.Forest.Moves
import Partbook.Proofs.Forest.Slots
import Partbook.Proofs.Forest.Walks
import Partbook.Proofs.Form.Length
import Partbook.Proofs.Form.Printed
import Partbook.Proofs.Form.Projection
import Partbook.Proofs.Form.Restored
import Partbook.Proofs.Gathering
import Partbook.Proofs.Grammar.Accepted
import Partbook.Proofs.Grammar.Completeness
import Partbook.Proofs.Grammar.Cutting
import Partbook.Proofs.Grammar.Music
import Partbook.Proofs.Grammar.Parts
import Partbook.Proofs.Grammar.Placed
import Partbook.Proofs.Grammar.Soundness
import Partbook.Proofs.Interpretation
import Partbook.Proofs.Kind
import Partbook.Proofs.Leading
import Partbook.Proofs.Lexing
import Partbook.Proofs.LineByLine
import Partbook.Proofs.Newcomers
import Partbook.Proofs.Parts
import Partbook.Proofs.Passages
import Partbook.Proofs.Prompt
import Partbook.Proofs.Resolution
import Partbook.Proofs.Results
import Partbook.Proofs.Roster.Bindings
import Partbook.Proofs.Roster.Calls
import Partbook.Proofs.Roster.Familiar
import Partbook.Proofs.Roster.Mixed
import Partbook.Proofs.Roster.Numbering
import Partbook.Proofs.Roster.Numbers
import Partbook.Proofs.Roster.Readmission
import Partbook.Proofs.Roster.Reresolution
import Partbook.Proofs.Roster.Runs
import Partbook.Proofs.Roster.Scores
import Partbook.Proofs.Roster.Stability
import Partbook.Proofs.Roster.Voices
import Partbook.Proofs.Scripted
import Partbook.Proofs.Session
import Partbook.Proofs.Source.CallLine
import Partbook.Proofs.Source.Calls
import Partbook.Proofs.Source.LexedMusic
import Partbook.Proofs.Source.Lexing
import Partbook.Proofs.Source.Lines
import Partbook.Proofs.Source.Numerals
import Partbook.Proofs.Source.Placement
import Partbook.Proofs.Source.Places
import Partbook.Proofs.Source.Progress
import Partbook.Proofs.Source.Rounds
import Partbook.Proofs.Source.Visible
import Partbook.Proofs.Spans
import Partbook.Proofs.StartRules
import Partbook.Proofs.Text.Initials
import Partbook.Proofs.Text.Numeral
import Partbook.Proofs.Text.Place
import Partbook.Proofs.Voices
import Partbook.Proofs.Writing.Calls
import Partbook.Proofs.Writing.CallsByHand
import Partbook.Proofs.Writing.Globals
import Partbook.Proofs.Writing.Handmade
import Partbook.Proofs.Writing.Music
import Partbook.Proofs.Writing.Scores
import Partbook.Session
import Partbook.Source.Lexicon
import Partbook.Source.TokenTree
import Partbook.Version
