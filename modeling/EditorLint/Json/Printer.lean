import EditorLint.Json.Value
import EditorLint.Text.Digits

/-!
Writing JSON, on one line or indented by two spaces. Only quotes, backslashes and control
characters are escaped.
-/

namespace EditorLint.Json

def escapeChar (c : Char) : List Char :=
  match c with
  | '"' => ['\\', '"']
  | '\\' => ['\\', '\\']
  | '\x08' => ['\\', 'b']
  | '\x0c' => ['\\', 'f']
  | '\n' => ['\\', 'n']
  | '\r' => ['\\', 'r']
  | '\t' => ['\\', 't']
  | c => if c < ' ' then '\\' :: 'u' :: Text.hexDigits 4 c.toNat else [c]

def quote (text : String) : String :=
  "\"" ++ String.ofList (text.toList.flatMap escapeChar) ++ "\""

namespace Value

def numberText (coefficient exponent : Int) : String :=
  toString coefficient ++ "e" ++ toString exponent

mutual

def compact : Value → String
  | null => "null"
  | bool value => if value then "true" else "false"
  | integer value => toString value
  | real coefficient exponent => numberText coefficient exponent
  | string value => quote value
  | array items => "[" ++ ",".intercalate (compactItems items) ++ "]"
  | object members => "\x7b" ++ ",".intercalate (compactMembers members) ++ "\x7d"

def compactItems : List Value → List String
  | [] => []
  | item :: rest => item.compact :: compactItems rest

def compactMembers : List (String × Value) → List String
  | [] => []
  | (name, value) :: rest => (quote name ++ ":" ++ value.compact) :: compactMembers rest

end

/-- Lines between an opening and a closing bracket; nothing at all leaves the brackets together. -/
def bracketed (opening closing indent : String) : List String → String
  | [] => opening ++ closing
  | lines =>
    opening ++ "\n" ++ ",\n".intercalate (lines.map (indent ++ "  " ++ ·)) ++ "\n" ++ indent
      ++ closing

mutual

/-- A value over several lines, each level indented by two more spaces than `indent`. -/
def indented (indent : String) : Value → String
  | array items => bracketed "[" "]" indent (indentedItems (indent ++ "  ") items)
  | object members => bracketed "\x7b" "\x7d" indent (indentedMembers (indent ++ "  ") members)
  | null => "null"
  | bool value => if value then "true" else "false"
  | integer value => toString value
  | real coefficient exponent => numberText coefficient exponent
  | string value => quote value

def indentedItems (indent : String) : List Value → List String
  | [] => []
  | item :: rest => item.indented indent :: indentedItems indent rest

def indentedMembers (indent : String) : List (String × Value) → List String
  | [] => []
  | (name, value) :: rest =>
    (quote name ++ ": " ++ value.indented indent) :: indentedMembers indent rest

end

def pretty (value : Value) : String := value.indented ""

end Value

end EditorLint.Json
