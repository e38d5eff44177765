import ProjectOrder.Document.Identifier
import ProjectOrder.Text.Split

/-! The records of a section: where they start and end, and how they are told apart in its lines. -/
namespace ProjectOrder.Document
open ProjectOrder.Text

/-- Whether a comment, which need not be the first to end here, is followed by an equals sign. -/
def endsHeadComment (s : List Char) : Bool :=
  match after? "*/" s with
  | some r => leadsTo '=' r
  | none => false

/-- Whether a line starts a record: an identifier, perhaps with a comment, and an equals sign. -/
def isRecordHead (line : Line) : Bool :=
  match afterIdentifier? line with
  | none => false
  | some r =>
    leadsTo '=' r || ((afterCommentStart? line).bind (upTo endsHeadComment)).isSome

def braceBalance (line : Line) : Int :=
  (line.count '\x7b' : Int) - line.count '\x7d'

/-- The lines that a record takes after those whose braces leave `balance` open, and the lines after
it. There are at most `limit` of them, and no fewer close the braces. -/
def takeUntilBalanced (balance : Int) : (limit : Nat) → List Line → Option (List Line × List Line)
  | limit, rest =>
    if balance ≤ 0 then some ([], rest)
    else match limit, rest with
      | limit + 1, line :: rest =>
        (takeUntilBalanced (balance + braceBalance line) limit rest).map fun (taken, after) =>
          (line :: taken, after)
      | _, _ => none

theorem append_of_takeUntilBalanced {balance : Int} {limit : Nat} {rest taken after : List Line}
    (h : takeUntilBalanced balance limit rest = some (taken, after)) : taken ++ after = rest := by
  fun_induction takeUntilBalanced balance limit rest generalizing taken with
  | case1 => simp_all
  | case2 _ _ limit line rest ih =>
    simp only [Option.map_eq_some_iff] at h
    obtain ⟨⟨t, a⟩, ht, he⟩ := h
    obtain ⟨rfl, rfl⟩ := Prod.mk.inj he
    simp [ih ht]
  | case3 => simp at h

/-- A record with the comments and blank lines before it. -/
structure Record where
  leading : List Line
  /-- From the head to the line that closes its braces. -/
  body : List Line
  deriving DecidableEq, Repr

def Record.lines (r : Record) : List Line :=
  r.leading ++ r.body

structure RecordSplit where
  records : List Record
  trailing : List Line
  deriving DecidableEq, Repr

/-- Takes a section apart. A record has `maxLines` lines at most, and a head alone is always allowed.
Fails with the number of the first head, when lines count from `first`, whose braces stay open. -/
def splitRecords (maxLines : Int) (first : Int) (lines : List Line) : Except Int RecordSplit :=
  let leading := lines.takeWhile (!isRecordHead ·)
  match _ : lines.dropWhile (!isRecordHead ·) with
  | [] => .ok { records := [], trailing := lines }
  | head :: rest =>
    let line := first + leading.length
    match _ : takeUntilBalanced (braceBalance head) (maxLines - 1).toNat rest with
    | none => .error line
    | some (inner, after) => do
      let split ← splitRecords maxLines (line + 1 + inner.length) after
      pure { split with records := { leading, body := head :: inner } :: split.records }
termination_by lines.length
decreasing_by
  have hl := congrArg List.length (append_of_takeUntilBalanced ‹_›)
  have hd := List.dropWhile_sublist (!isRecordHead ·) (l := lines) |>.length_le
  simp_all
  omega

/-- Each record with the number of its head, when lines count from `first`. -/
def numberRecords : (first : Int) → List Record → List (Int × Record)
  | _, [] => []
  | first, r :: rest =>
    (first + r.leading.length, r) :: numberRecords (first + r.lines.length) rest

end ProjectOrder.Document
