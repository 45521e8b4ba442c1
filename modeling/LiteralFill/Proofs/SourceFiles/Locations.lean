import LiteralFill.Proofs.Overlay.Encoding
import LiteralFill.Proofs.SourceFiles.Lines

namespace LiteralFill

/-- Of two locations, the one that comes first in the text. -/
def Location.Before (l l' : Location) : Prop :=
  l.line < l'.line ∨ l.line = l'.line ∧ l.column < l'.column

namespace SourceFile

variable {f : SourceFile} {offset offset' : Nat}

namespace SplitsAt

variable {above lead : String}

end SplitsAt

end SourceFile

end LiteralFill
