/-!
# Log levels
-/
namespace Egress

/-- The least important events that a program tells of. -/
inductive LogLevel where
  | trace
  | debug
  | info
  deriving DecidableEq, Repr

namespace LogLevel

def words : List (String × LogLevel) :=
  [("trace", .trace), ("trc", .trace), ("debug", .debug), ("dbg", .debug), ("info", .info),
    ("inf", .info)]

/-- The level that a word names, whatever the case of its letters from `a` to `z`. -/
def ofText? (word : String) : Option LogLevel := words.lookup (word.map Char.toLower)

end LogLevel

end Egress
