/-!
Sixteen hexadecimal digits for a 64-bit word.
-/

namespace Interleave

def hex64 (n : UInt64) : String :=
  let digits := Nat.toDigits 16 n.toNat
  String.ofList (List.replicate (16 - digits.length) '0' ++ digits)

end Interleave
