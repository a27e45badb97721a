/-
# The outbox

Where records are published.  It keeps those it accepted in order and counts all that
were offered; it may be told to refuse them.
-/
import Reshape.Message

namespace Reshape

/-- The records that were published. -/
structure Outbox where
  published : List Record := []
  attempts : Nat := 0
  failing : Bool := false
  closed : Bool := false

namespace Outbox

/-- The outbox after a record was offered, and whether it was accepted. -/
def publish (o : Outbox) (r : Record) : Outbox × Bool :=
  if o.failing then ({ o with attempts := o.attempts + 1 }, false)
  else ({ o with attempts := o.attempts + 1, published := o.published ++ [r] }, true)

/-- The outbox when it takes no more records. -/
def close (o : Outbox) : Outbox := { o with closed := true }

end Outbox

end Reshape
