import ProjectOrder.Arrangement
import ProjectOrder.Document.Record

/-! The name of a record, and the order of records by it. -/
namespace ProjectOrder.Document
open ProjectOrder.Name ProjectOrder.Text

/-- Whether the comment of a record's head ends here, right before its equals sign. -/
def endsRecordName (s : List Char) : Bool :=
  (afterCommentEnd? s).any (leadsTo '=')

def headComment? (s : List Char) : Option (List Char) :=
  (afterCommentStart? s).bind (nameUpTo endsRecordName)

def quotedValue? : List Char → Option (List Char)
  | '"' :: r => upTo (·.head? == some '"') r
  | _ => none

def plainValue? (s : List Char) : Option (List Char) :=
  let (value, rest) := s.span fun c => c != '"' && c != ';' && !isBlank c
  if value != [] && leadsTo ';' rest then some value else none

def fieldValue? (field : String) (s : List Char) : Option (List Char) := do
  let value ← (after? "=" (skipBlanks (← after? field s))).map skipBlanks
  (quotedValue? value).or (plainValue? value)

def firstContent? (s : List Char) : Option (List Char) :=
  match skipBlanks s with
  | [] => none
  | t => some (trimEnd (t.takeWhile (!isLineTerminator ·)))

/-- The name that a record is ordered by: the comment of its head, else the first `name`, else the
first `path`, else its first line, else all of it. -/
def recordName (record : List Char) : List Char :=
  ((lineStarts record).findSome? headComment?)
    |>.or ((wordStarts record).findSome? (fieldValue? "name"))
    |>.or ((wordStarts record).findSome? (fieldValue? "path"))
    |>.or (firstContent? record)
    |>.getD record

/-- Arranges records in any form: `content` tells them apart, and `body` is what each is named by. -/
def arrangeRecords [DecidableEq β] [Hashable β] (rules : Rules) (content : α → β) (body : α → List Char)
    (records : List α) : Arrangement β :=
  arrangeBy content (fun r => rules.rank (recordName (body r))) records

end ProjectOrder.Document
