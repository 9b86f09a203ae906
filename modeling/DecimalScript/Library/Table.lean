import DecimalScript.Library.Core
import DecimalScript.Library.Math
import DecimalScript.Library.Text
import DecimalScript.Library.Util

/-!
# Built-ins by library and name

Every library has a table of its built-ins. In messages a built-in is named with its
library, except that the core built-ins go by their plain name.
-/

namespace DecimalScript

namespace Library

/-- The built-ins of a library. -/
def builtins : Library → NameTable Builtin
  | core => Builtin.core
  | math => Builtin.math
  | util => Builtin.util
  | text => Builtin.text

/-- The built-in of a library with a given name. -/
def builtin? (library : Library) (name : String) : Option Builtin := library.builtins.get? name

/-- The name of a built-in in messages. -/
def qualify (library : Library) (name : String) : String :=
  match library with
  | core => name
  | other => s!"{other.title}.{name}"

end Library

end DecimalScript
