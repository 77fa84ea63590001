/-!
64-bit Rabin fingerprints of lists of words. A fingerprint is a polynomial over the field with two
elements, reduced modulo a fixed irreducible polynomial. Words are taken in byte by byte, low byte
first, with the help of a table of 256 remainders.
-/

namespace Interleave.Fingerprint

def poly : UInt64 := 0x911498AE0E66BAD6

/-- Multiply by `x` and reduce. The constant term is the highest bit. -/
def shift (t : UInt64) : UInt64 := (t >>> 1) ^^^ (if t &&& 1 = 0 then 0 else poly)

def power : Nat → UInt64
  | 0 => 0x8000000000000000
  | n + 1 => shift (power n)

def remainder (byte : Nat) : UInt64 :=
  (List.range 8).foldl (fun v k => if byte.testBit k then v ^^^ power (71 - k) else v) 0

def remainders : Array UInt64 := ((List.range 256).map remainder).toArray

def extendByte (fp : UInt64) (b : UInt8) : UInt64 :=
  (fp >>> 8) ^^^ remainders.getD ((fp ^^^ b.toUInt64) &&& 0xFF).toNat 0

def bytes (w : Int32) : List UInt8 :=
  let u := w.toUInt32
  [u.toUInt8, (u >>> 8).toUInt8, (u >>> 16).toUInt8, (u >>> 24).toUInt8]

def extend (fp : UInt64) (w : Int32) : UInt64 := (bytes w).foldl extendByte fp

def ofWords (ws : List Int32) : UInt64 := ws.foldl extend poly

end Interleave.Fingerprint
