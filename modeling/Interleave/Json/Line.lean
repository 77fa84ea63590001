import Interleave.Json.Printer

/-!
Writing JSON text on one line, without blanks.
-/

namespace Interleave.JsonPrinter

mutual

def compact : JsonValue → List Char
  | .arr [] => ['[', ']']
  | .arr (x :: xs) => '[' :: compact x ++ compactItems xs
  | .obj [] => ['\x7b', '\x7d']
  | .obj ((key, x) :: ms) => '\x7b' :: string key ++ ':' :: compact x ++ compactMembers ms
  | v => value 0 v

def compactItems : List JsonValue → List Char
  | [] => [']']
  | x :: xs => ',' :: compact x ++ compactItems xs

def compactMembers : List (List JsonPiece × JsonValue) → List Char
  | [] => ['\x7d']
  | (key, x) :: ms => ',' :: string key ++ ':' :: compact x ++ compactMembers ms

end

def line (v : JsonValue) : String := String.ofList (compact v)

end Interleave.JsonPrinter
