import Retrace.Json.Basic

/-!
# Printing JSON

A value is printed on one line without blanks, or over several lines with two blanks of indentation
for every level, empty lists and objects staying on one line.
-/

namespace Retrace
namespace Json

/-- Characters between quotation marks. -/
def quoted (body : List Char) : List Char :=
  '"' :: body ++ ['"']

/-- A line end and the indentation of a level. -/
def newLine (level : Nat) : List Char :=
  '\n' :: List.replicate (2 * level) ' '

mutual

/-- A value on one line. -/
def compact : Json → List Char
  | .null => "null".toList
  | .boolean b => if b then "true".toList else "false".toList
  | .number lexeme => lexeme
  | .text body => quoted body
  | .list [] => ['[', ']']
  | .list (j :: rest) => '[' :: compact j ++ compactItems rest
  | .object [] => ['\x7b', '\x7d']
  | .object ((key, j) :: rest) => '\x7b' :: quoted key ++ ':' :: compact j ++ compactMembers rest
  | .torn => []

/-- The items after the first one, with the end of the list. -/
def compactItems : List Json → List Char
  | [] => [']']
  | j :: rest => ',' :: compact j ++ compactItems rest

/-- The members after the first one, with the end of the object. -/
def compactMembers : List (List Char × Json) → List Char
  | [] => ['\x7d']
  | (key, j) :: rest => ',' :: quoted key ++ ':' :: compact j ++ compactMembers rest

end

mutual

/-- A value over several lines, its inner lines being indented from a level on. -/
def pretty (level : Nat) : Json → List Char
  | .null => "null".toList
  | .boolean b => if b then "true".toList else "false".toList
  | .number lexeme => lexeme
  | .text body => quoted body
  | .list [] => ['[', ']']
  | .list (j :: rest) =>
      '[' :: newLine (level + 1) ++ pretty (level + 1) j ++ prettyItems level rest
  | .object [] => ['\x7b', '\x7d']
  | .object ((key, j) :: rest) =>
      '\x7b' :: newLine (level + 1) ++ quoted key ++ [':', ' '] ++ pretty (level + 1) j ++
        prettyMembers level rest
  | .torn => []

/-- The items after the first one, with the end of the list. -/
def prettyItems (level : Nat) : List Json → List Char
  | [] => newLine level ++ [']']
  | j :: rest => ',' :: newLine (level + 1) ++ pretty (level + 1) j ++ prettyItems level rest

/-- The members after the first one, with the end of the object. -/
def prettyMembers (level : Nat) : List (List Char × Json) → List Char
  | [] => newLine level ++ ['\x7d']
  | (key, j) :: rest =>
      ',' :: newLine (level + 1) ++ quoted key ++ [':', ' '] ++ pretty (level + 1) j ++
        prettyMembers level rest

end

/-- The text of a value on one line. -/
def render (j : Json) : String :=
  String.ofList j.compact

/-- The text of a value over several lines. -/
def renderPretty (j : Json) : String :=
  String.ofList (j.pretty 0)

end Json
end Retrace
