import Precedent.Json.Value
import Precedent.Number.Shortest

/-!
# Precedent.Json.Writer

**Writing JSON.** `Json.pretty` lays a value out over lines: every item and member stands on a line
of its own, indented by two blanks for each container around it, with one blank after the colon;
empty containers are closed at once and nothing follows the last bracket. Texts escape quotes,
backslashes and control characters only. Numbers that are not finite are written as `null`.
-/

namespace Precedent.Json

open Number

def escapedControl (c : Char) : List Char :=
  ['\\', 'u', '0', '0', Nat.digitChar (c.toNat / 16), Nat.digitChar (c.toNat % 16)]

def writtenChar (c : Char) : List Char :=
  match c with
  | '"' => ['\\', '"']
  | '\\' => ['\\', '\\']
  | '\x08' => ['\\', 'b']
  | '\x0c' => ['\\', 'f']
  | '\n' => ['\\', 'n']
  | '\r' => ['\\', 'r']
  | '\t' => ['\\', 't']
  | c => if c.toNat < 0x20 then escapedControl c else [c]

/-- A text between quotes. -/
def writtenText (s : String) : List Char := '"' :: s.toList.flatMap writtenChar ++ ['"']

/-- An integer in decimal digits. -/
def writtenInt (n : Int) : List Char :=
  if n < 0 then '-' :: Text.digitsOf n.natAbs else Text.digitsOf n.natAbs

/-- A value that is not a container. -/
def writtenScalar : Json → List Char
  | .bool true => ['t', 'r', 'u', 'e']
  | .bool false => ['f', 'a', 'l', 's', 'e']
  | .int n => writtenInt n
  | .double x => (doubleStyle.text? binary64 x).getD ['n', 'u', 'l', 'l']
  | .single x => (singleStyle.text? binary32 x).getD ['n', 'u', 'l', 'l']
  | .text s => writtenText s
  | _ => ['n', 'u', 'l', 'l']

/-- A line break and the indentation of the given depth. -/
def newLine (depth : Nat) : List Char := '\n' :: List.replicate (2 * depth) ' '

mutual
/-- A value inside the given number of containers. -/
def written (depth : Nat) : Json → List Char
  | .list [] => ['[', ']']
  | .list (v :: rest) =>
    '[' :: newLine (depth + 1) ++ written (depth + 1) v ++ writtenItems (depth + 1) rest ++
      newLine depth ++ [']']
  | .object [] => ['{', '}']
  | .object ((name, v) :: rest) =>
    '{' :: newLine (depth + 1) ++ writtenText name ++ [':', ' '] ++ written (depth + 1) v ++
      writtenMembers (depth + 1) rest ++ newLine depth ++ ['}']
  | .null => writtenScalar .null
  | .bool b => writtenScalar (.bool b)
  | .int n => writtenScalar (.int n)
  | .double x => writtenScalar (.double x)
  | .single x => writtenScalar (.single x)
  | .text s => writtenScalar (.text s)
/-- The items after the first one. -/
def writtenItems (depth : Nat) : List Json → List Char
  | [] => []
  | v :: rest => ',' :: newLine depth ++ written depth v ++ writtenItems depth rest
/-- The members after the first one. -/
def writtenMembers (depth : Nat) : List (String × Json) → List Char
  | [] => []
  | (name, v) :: rest =>
    ',' :: newLine depth ++ writtenText name ++ [':', ' '] ++ written depth v ++
      writtenMembers depth rest
end

/-- The text of a value, laid out over lines. -/
def pretty (v : Json) : String := String.ofList (written 0 v)

end Precedent.Json
