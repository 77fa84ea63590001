import Interleave.Json.Basic

/-!
Writing JSON text: one member or item per line, two blanks per level, a blank after each colon.
-/

namespace Interleave.JsonPrinter

def digitChar (n : Nat) : Char := Char.ofNat ('0'.toNat + n)

def decimal (n : Nat) : List Char :=
  if n < 10 then [digitChar n] else decimal (n / 10) ++ [digitChar (n % 10)]

def integer : Int → List Char
  | .ofNat n => decimal n
  | .negSucc n => '-' :: decimal (n + 1)

def hexChar (n : Nat) : Char := if n < 10 then digitChar n else Char.ofNat ('a'.toNat + n - 10)

def unit (n : Nat) : List Char :=
  ['\\', 'u', hexChar (n / 4096 % 16), hexChar (n / 256 % 16), hexChar (n / 16 % 16), hexChar (n % 16)]

def piece : JsonPiece → List Char
  | .char '"' => ['\\', '"']
  | .char '\\' => ['\\', '\\']
  | .char '\x08' => ['\\', 'b']
  | .char '\x0c' => ['\\', 'f']
  | .char '\n' => ['\\', 'n']
  | .char '\r' => ['\\', 'r']
  | .char '\t' => ['\\', 't']
  | .char c => if c.toNat < 0x20 then unit c.toNat else [c]
  | .half n => unit n

def string (pieces : List JsonPiece) : List Char := '"' :: pieces.flatMap piece ++ ['"']

def newline (level : Nat) : List Char := '\n' :: List.replicate (2 * level) ' '

mutual

def value (level : Nat) : JsonValue → List Char
  | .null => "null".toList
  | .bool true => "true".toList
  | .bool false => "false".toList
  | .int n => integer n
  | .real => "0.0".toList
  | .str pieces => string pieces
  | .arr [] => ['[', ']']
  | .arr (x :: xs) =>
    '[' :: newline (level + 1) ++ value (level + 1) x ++ items (level + 1) xs ++ newline level ++ [']']
  | .obj [] => ['\x7b', '\x7d']
  | .obj ((key, x) :: ms) =>
    '\x7b' :: newline (level + 1) ++ string key ++ [':', ' '] ++ value (level + 1) x
      ++ members (level + 1) ms ++ newline level ++ ['\x7d']

def items (level : Nat) : List JsonValue → List Char
  | [] => []
  | x :: xs => ',' :: newline level ++ value level x ++ items level xs

def members (level : Nat) : List (List JsonPiece × JsonValue) → List Char
  | [] => []
  | (key, x) :: ms =>
    ',' :: newline level ++ string key ++ [':', ' '] ++ value level x ++ members level ms

end

def print (v : JsonValue) : String := String.ofList (value 0 v)

end Interleave.JsonPrinter
