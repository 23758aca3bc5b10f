import RpalLex.Command.Overview
import RpalLex.Main
import RpalLex.Proofs.Closing
import RpalLex.Proofs.EarliestError
import RpalLex.Proofs.ExactPositions
import RpalLex.Proofs.FileText
import RpalLex.Proofs.Interruption
import RpalLex.Proofs.LastToken
import RpalLex.Proofs.Layout
import RpalLex.Proofs.LineFeeds
import RpalLex.Proofs.LiteralEnd
import RpalLex.Proofs.LongestRow
import RpalLex.Proofs.Lookahead
import RpalLex.Proofs.Outcomes
import RpalLex.Proofs.OutputModes
import RpalLex.Proofs.Screening
