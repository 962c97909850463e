/-! # Template text, line by line

    The built-in templates are kept as lists of lines in which guillemets stand
    for braces, so a slot is written between double guillemets. -/

namespace Stencil.Template

/-- The brace that a guillemet stands for; any other character stands for
    itself. -/
def brace (c : Char) : Char :=
  if c = '«' then '{' else if c = '»' then '}' else c

/-- The text of the lines, each of them ended. -/
def ofLines (lines : List String) : String :=
  String.ofList (lines.flatMap fun line => line.toList.map brace ++ ['\n'])

end Stencil.Template
