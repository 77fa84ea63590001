/-!
The 16-bit units that text consists of when it is stored in a character array.
-/

namespace Interleave

def utf16Units (c : Char) : List Nat :=
  if c.toNat < 0x10000 then
    [c.toNat]
  else
    let offset := c.toNat - 0x10000
    [0xD800 + offset / 0x400, 0xDC00 + offset % 0x400]

def utf16 (s : String) : List Nat := s.toList.flatMap utf16Units

end Interleave
