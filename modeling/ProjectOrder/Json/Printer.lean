import ProjectOrder.Json.Value

/-! Writing JSON, on one line or with a line for each item. -/
namespace ProjectOrder.Json
open ProjectOrder.Text

def escapeUnit (n : Nat) : List Char :=
  ['\\', 'u', Nat.digitChar (n / 0x1000), Nat.digitChar (n / 0x100 % 16), Nat.digitChar (n / 16 % 16),
    Nat.digitChar (n % 16)]

/-- A code point inside a string: controls, quotes, backslashes and halves of surrogate pairs are
escaped and no others. -/
def escape (n : Nat) : List Char :=
  if n = 0x22 then ['\\', '"']
  else if n = 0x5C then ['\\', '\\']
  else if n = 0x08 then ['\\', 'b']
  else if n = 0x0C then ['\\', 'f']
  else if n = 0x0A then ['\\', 'n']
  else if n = 0x0D then ['\\', 'r']
  else if n = 0x09 then ['\\', 't']
  else if n < 0x20 || Utf16.isSurrogate n then escapeUnit n
  else [Char.ofNat n]

def quote (text : Units) : String :=
  String.ofList ('"' :: ((Utf16.codePoints text.list).flatMap escape ++ ['"']))

/-- Items between brackets: one after the other, or each on a line that is indented by two spaces
more than the brackets. -/
def bracket (start stop : String) (indent : Option Nat) (items : List String) : String :=
  if items.isEmpty then start ++ stop
  else match indent with
    | none => start ++ ",".intercalate items ++ stop
    | some n =>
      let margin := "\n" ++ String.ofList (List.replicate n ' ')
      start ++ margin ++ "  " ++ (("," ++ margin ++ "  ").intercalate items) ++ margin ++ stop

mutual

def Value.print (indent : Option Nat) : Value → String
  | .null => "null"
  | .bool true => "true"
  | .bool false => "false"
  | .number literal => literal
  | .string text => quote text
  | .array items => bracket "[" "]" indent (printItems (indent.map (· + 2)) items)
  | .object members => bracket "\x7b" "\x7d" indent (printMembers (indent.map (· + 2)) members)

def printItems (indent : Option Nat) : List Value → List String
  | [] => []
  | item :: rest => item.print indent :: printItems indent rest

def printMembers (indent : Option Nat) : List (Units × Value) → List String
  | [] => []
  | (key, value) :: rest =>
    (quote key ++ (if indent.isSome then ": " else ":") ++ value.print indent) ::
      printMembers indent rest

end

def Value.pretty (value : Value) : String :=
  value.print (some 0)

end ProjectOrder.Json
