/-!
# Command lines

A command written so that a shell reads it back as the same words: a word with other characters
than letters, digits and a few marks stands between apostrophes.
-/

namespace Assay.Command

/-- A character that means nothing special to a shell. -/
def isSafe (c : Char) : Bool := c.isAlphanum || "_@%+=:,./-".toList.contains c

/-- An apostrophe inside apostrophes: they end, it stands between double quotes, they begin anew. -/
def escaped (c : Char) : List Char :=
  if c = '\'' then ['\'', '"', '\'', '"', '\''] else [c]

def quoteWord (s : String) : String :=
  if s.isEmpty then "''"
  else if s.toList.all isSafe then s
  else String.ofList ('\'' :: s.toList.flatMap escaped ++ ['\''])

/-- The line of a command. -/
def line (words : List String) : String := " ".intercalate (words.map quoteWord)

end Assay.Command
