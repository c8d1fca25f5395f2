import Assay.Fault
import Assay.Text.Blank
import Assay.Text.Cut
import Assay.Text.Lines

/-!
# What an analysis says about itself

Five lines: name, version, group, tags with commas between them, and the system it ran on, or `no`.
-/

namespace Assay

structure Info where
  name : String
  version : String
  group : String
  tags : List String
  system : Option String

namespace Info

/-- Reads the five lines. -/
def parse (s : String) : Except Fault Info :=
  match Text.lines s with
  | [name, version, group, tags, system] =>
    let system := Text.trim system
    .ok {
      name := Text.trim name
      version := Text.trim version
      group := Text.trim group
      tags := (Text.split ',' tags).map Text.trim
      system := if system.toLower = "no" then none else some system }
  | ls => .error (.malformed s!"Expected 5 lines, but got {ls.length}")

end Info

end Assay
