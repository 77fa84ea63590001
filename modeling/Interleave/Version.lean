/-!
The version of the model checker.
-/

namespace Interleave

def version : String := "0.1.0"

end Interleave
