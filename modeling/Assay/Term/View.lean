import Assay.Json.View
import Assay.Term.Text

/-!
# Terms as documents

A numeral is a text; any other term is a list of its operator and its operands.
-/

namespace Assay.Term

def opName : Op → String
  | .add => "+"
  | .sub => "-"
  | .mul => "*"
  | .div => "div"
  | .mod => "mod"
  | .ratio => "/"
  | .eq => "="
  | .ne => "distinct"
  | .lt => "<"
  | .le => "<="
  | .gt => ">"
  | .ge => ">="
  | .and => "and"
  | .or => "or"

def document : Term → Json
  | .int n => .str (toString n)
  | .real n d => .str (numeralText n d)
  | .truth b => .arr [.str (if b then "true" else "false")]
  | .var x => .arr [.str x]
  | .flag x => .arr [.str x]
  | .bin op a b => .arr [.str (opName op), document a, document b]
  | .not a => .arr [.str "not", document a]
  | .toReal a => .arr [.str "to_real", document a]
  | .choice c a b => .arr [.str "if", document c, document a, document b]

instance : View Term := ⟨document⟩

end Assay.Term
