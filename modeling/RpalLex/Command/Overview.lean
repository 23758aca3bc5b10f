import RpalLex.Command.Report
import RpalLex.File.Opening
import RpalLex.Listing

/-! # Overviews

  An overview shows a file twice: every token on a line of its own, with a
  star in front of those that a parser looks at, and then what the parser
  sees, on one line.  If the file has an error, only the title is shown. -/

namespace RpalLex.Command

/-- One token of the first part. -/
def starred (t : Token) : String :=
  "  " ++ (if t.isDiscardable then " " else "*") ++ " " ++ Listing.record t

/-- The values of the tokens that a parser looks at. -/
def parserView (ts : List Token) : String :=
  "  " ++ " ".intercalate ((Token.screen ts).map Token.value)

/-- The overview of a file, with the default settings. -/
def overview (find : String → File.Entry) (path : String) : Except Problem Report :=
  let title := "All tokens in " ++ File.Path.normal path ++ ":"
  match File.tokenize find path {} false with
  | .ok ts =>
    .ok ⟨.success, lines ([title] ++ ts.map starred ++ ["", "Parser view:", parserView ts]), ""⟩
  | .error (.lexical e) => .ok ⟨.scanError, lines [title], lines [e.text]⟩
  | .error p => .error p

end RpalLex.Command
