import ProjectOrder.Json.Value
import ProjectOrder.Text.Utf16

/-! Reading JSON as its grammar has it, without extensions. -/
namespace ProjectOrder.Json
open ProjectOrder.Text

def skipSpace (s : List Char) : List Char :=
  s.dropWhile fun c => c == ' ' || c == '\t' || c == '\n' || c == '\r'

def hexValue? (c : Char) : Option Nat :=
  if c.isDigit then some (c.toNat - '0'.toNat)
  else if 'a' ≤ c ∧ c ≤ 'f' then some (c.toNat - 'a'.toNat + 10)
  else if 'A' ≤ c ∧ c ≤ 'F' then some (c.toNat - 'A'.toNat + 10)
  else none

def hexUnit? (digits : List Char) : Option UInt16 := do
  let values ← digits.mapM hexValue?
  pure (UInt16.ofNat (values.foldl (fun n d => n * 16 + d) 0))

def escaped? : Char → Option Char
  | '"' => some '"'
  | '\\' => some '\\'
  | '/' => some '/'
  | 'b' => some '\x08'
  | 'f' => some '\x0c'
  | 'n' => some '\n'
  | 'r' => some '\r'
  | 't' => some '\t'
  | _ => none

/-- The units of a string up to its closing quote, and what follows that. -/
def readString? : List Char → Option (Units × List Char)
  | [] => none
  | '"' :: r => some (⟨[]⟩, r)
  | '\\' :: 'u' :: a :: b :: c :: d :: r => do
    let unit ← hexUnit? [a, b, c, d]
    let (units, rest) ← readString? r
    pure (⟨unit :: units.list⟩, rest)
  | '\\' :: e :: r => do
    let c ← escaped? e
    let (units, rest) ← readString? r
    pure (⟨Utf16.encodeChar c ++ units.list⟩, rest)
  | c :: r =>
    if c.toNat < 0x20 || c == '\\' then none
    else (readString? r).map fun (units, rest) => (⟨Utf16.encodeChar c ++ units.list⟩, rest)

def readDigits? (s : List Char) : Option (List Char × List Char) :=
  match s.span Char.isDigit with
  | ([], _) => none
  | (digits, r) => some (digits, r)

def readInteger? : List Char → Option (List Char × List Char)
  | '0' :: r => some (['0'], r)
  | s => readDigits? s

def readFraction? : List Char → Option (List Char × List Char)
  | '.' :: r => (readDigits? r).map fun (digits, r) => ('.' :: digits, r)
  | s => some ([], s)

def readExponent? : List Char → Option (List Char × List Char)
  | e :: s =>
    if e == 'e' || e == 'E' then
      match s with
      | '+' :: r => (readDigits? r).map fun (digits, r) => (e :: '+' :: digits, r)
      | '-' :: r => (readDigits? r).map fun (digits, r) => (e :: '-' :: digits, r)
      | r => (readDigits? r).map fun (digits, r) => (e :: digits, r)
    else some ([], e :: s)
  | [] => some ([], [])

def readNumber? (s : List Char) : Option (Value × List Char) := do
  let (sign, r) := match s with
    | '-' :: r => (['-'], r)
    | r => ([], r)
  let (integer, r) ← readInteger? r
  let (fraction, r) ← readFraction? r
  let (exponent, r) ← readExponent? r
  pure (.number (String.ofList (sign ++ integer ++ fraction ++ exponent)), r)

def readWord? (word : String) (value : Value) (s : List Char) : Option (Value × List Char) :=
  (word.toList.isPrefixOf? s).map (value, ·)

mutual

/-- Reads a value. The fuel bounds the calls that are open at one time. -/
def readValue? : (fuel : Nat) → List Char → Option (Value × List Char)
  | 0, _ => none
  | fuel + 1, s =>
    match skipSpace s with
    | '\x7b' :: r =>
      match skipSpace r with
      | '\x7d' :: r => some (.object [], r)
      | r => (readMembers? fuel r).map fun (members, r) => (.object members, r)
    | '[' :: r =>
      match skipSpace r with
      | ']' :: r => some (.array [], r)
      | r => (readItems? fuel r).map fun (items, r) => (.array items, r)
    | '"' :: r =>
      (readString? r).map fun (units, r) => (.string units, r)
    | 't' :: r => readWord? "rue" (.bool true) r
    | 'f' :: r => readWord? "alse" (.bool false) r
    | 'n' :: r => readWord? "ull" .null r
    | r => readNumber? r

def readItems? : (fuel : Nat) → List Char → Option (List Value × List Char)
  | 0, _ => none
  | fuel + 1, s => do
    let (item, r) ← readValue? fuel s
    match skipSpace r with
    | ',' :: r =>
      let (items, r) ← readItems? fuel r
      pure (item :: items, r)
    | ']' :: r => pure ([item], r)
    | _ => none

def readMembers? : (fuel : Nat) → List Char → Option (List (Units × Value) × List Char)
  | 0, _ => none
  | fuel + 1, s =>
    match skipSpace s with
    | '"' :: r => do
      let (key, r) ← readString? r
      match skipSpace r with
      | ':' :: r =>
        let (value, r) ← readValue? fuel r
        match skipSpace r with
        | ',' :: r =>
          let (members, r) ← readMembers? fuel r
          pure ((key, value) :: members, r)
        | '\x7d' :: r => pure ([(key, value)], r)
        | _ => none
      | _ => none
    | _ => none

end

/-- The value that a text writes, with nothing around it but space. No value of a text opens more
calls than two for each of its characters. -/
def parse? (s : List Char) : Option Value := do
  let (value, r) ← readValue? (2 * s.length + 2) s
  if (skipSpace r).isEmpty then some value else none

end ProjectOrder.Json
