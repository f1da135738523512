import Reckon.Markup.Html
import Reckon.Report.Basic

/-!
Reports as HTML pages: a style sheet, and the report's Markdown in tags.
-/

set_option autoImplicit false

namespace Reckon.Report

def styleSheet : List String :=
  ["",
   "body \x7b",
   "  font-family: sans-serif;",
   "  font-size: 16px;",
   "  line-height: 1.7;",
   "  padding: 1em;",
   "  margin: auto;",
   "  max-width: 56em;",
   "\x7d",
   "",
   "table \x7b",
   "  border-collapse: collapse;",
   "  margin: 1em 0;",
   "\x7d",
   "",
   "th, td \x7b",
   "  border: 1px solid #ccc;",
   "  padding: 0.3em 0.8em;",
   "\x7d",
   "",
   "pre \x7b",
   "  font-size: 12px;",
   "  line-height: 1.1;",
   "\x7d",
   ""]

def page (r : Report) (outer : Style) : Except Failure String := do
  let markdown ← r.markdown outer
  return "<style type=\"text/css\">" ++ Text.join "\n" styleSheet ++ "</style>\n"
    ++ Markup.Html.ofText markdown

end Reckon.Report
