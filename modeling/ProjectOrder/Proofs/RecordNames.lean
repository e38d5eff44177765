import ProjectOrder.Proofs.Identifiers
import ProjectOrder.Proofs.SortedText

/-! Records named in the comment of their heads, whose places depend on nothing else that they hold. -/
namespace ProjectOrder.Document
open ProjectOrder.Name ProjectOrder.Text

theorem endsRecordName_iff {s : List Char} :
    endsRecordName s = true ↔ ∃ blanks gap rest, AllBlank blanks ∧ AllBlank gap ∧
      s = blanks ++ ("*/".toList ++ (gap ++ '=' :: rest)) := by
  have hword : IsWord "*/".toList := by decide
  rw [endsRecordName, Option.any_eq_true]
  constructor
  · rintro ⟨t, hend, hequals⟩
    obtain ⟨blanks, hb, rfl⟩ := (after?_skipBlanks_eq_some_iff hword).mp hend
    obtain ⟨gap, hgap, ht, -⟩ := exists_blanks_append t
    obtain ⟨rest, hrest⟩ := List.head?_eq_some_iff.mp (beq_iff_eq.mp hequals)
    exact ⟨blanks, gap, rest, hb, hgap, by rw [← hrest, ← ht]⟩
  · rintro ⟨blanks, gap, rest, hb, hgap, rfl⟩
    refine ⟨_, (after?_skipBlanks_eq_some_iff hword).mpr ⟨blanks, hb, rfl⟩, ?_⟩
    rw [leadsTo, skipBlanks_append hgap, skipBlanks_cons (by decide)]
    rfl

/-- The head of a record up to its equals sign, with a name in its comment. -/
structure NamedHead where
  opening : CommentOpening
  before : List Char
  name : List Char
  after : List Char
  gap : List Char
  before_isBlank : AllBlank before
  isName : IsName name
  name_isOpen : ¬ ['*', '/'] <:+: name
  after_isBlank : AllBlank after
  gap_isBlank : AllBlank gap

namespace NamedHead
variable (h : NamedHead)

/-- What ends the name: the end of the comment, and the equals sign. -/
def ending (rest : List Char) : List Char :=
  h.after ++ ("*/".toList ++ (h.gap ++ '=' :: rest))

/-- The text of the head, with what follows it on its line and the lines below. -/
def append (rest : List Char) : List Char :=
  h.opening.append (h.before ++ (h.name ++ h.ending rest))

theorem append_append (rest more : List Char) : h.append rest ++ more = h.append (rest ++ more) := by
  simp [append, ending, CommentOpening.append]

theorem head?_ending (rest : List Char) : (h.ending rest).head? ≠ some '/' := by
  rcases hafter : h.after with _ | ⟨c, after⟩
  · simp [ending, hafter]
  · have hc : isBlank c := List.all_eq_true.mp h.after_isBlank c (by simp [hafter])
    simp only [ending, hafter, List.cons_append, List.head?_cons, ne_eq, Option.some.injEq]
    rintro rfl
    exact absurd hc (by decide)

theorem headComment?_append (rest : List Char) : headComment? (h.append rest) = some h.name := by
  have hstop : endsRecordName (h.ending rest) = true :=
    endsRecordName_iff.mpr ⟨h.after, h.gap, rest, h.after_isBlank, h.gap_isBlank, rfl⟩
  rw [headComment?, append, h.opening.afterCommentStart?_append, Option.bind_some,
    h.isName.nameUpTo_eq_some_iff h.before_isBlank hstop]
  intro back hback hne
  rw [Bool.eq_false_iff]
  intro hends
  obtain ⟨blanks, gap, more, hb, -, he⟩ := endsRecordName_iff.mp hends
  have hsuffix : back <:+ h.name := hback.trans (List.tail_suffix h.name)
  exact append_ne_commentEnd h.isName.isTrimmed h.name_isOpen hsuffix hne hb
    (h.head?_ending rest) he

/-- The comment is found where the record starts, so that no other line of it is looked at. -/
theorem recordName_append (rest : List Char) : recordName (h.append rest) = h.name := by
  rw [recordName, lineStarts, List.findSome?_cons, h.headComment?_append]
  rfl

theorem recordName_unlines (rest : List Char) (inner : List Line) :
    recordName (unlines (h.append rest :: inner)) = h.name := by
  obtain ⟨more, hmore⟩ := exists_joinWith_cons '\n' (h.append rest) inner
  rw [unlines, hmore, h.append_append, h.recordName_append]

theorem arrayOpening?_append (rest : List Char) : arrayOpening? (h.append rest) = none :=
  arrayOpening?_identifier h.opening.indent_isBlank h.opening.identifier_isIdentifier _

end NamedHead

/-- A record with a named head. -/
structure NamedRecord where
  leading : List Line
  head : NamedHead
  rest : List Char
  inner : List Line

namespace NamedRecord
variable (r : NamedRecord) (rules : Rules)

def record : Record :=
  ⟨r.leading, r.head.append r.rest :: r.inner⟩

/-- The lines of the record with the arrays in it sorted. -/
def sortedLines : List Line :=
  (r.record.sorted rules).lines

def nameRank : Rank :=
  rules.rank r.head.name

theorem recordRank_record : recordRank rules r.record = r.nameRank rules :=
  congrArg rules.rank (r.head.recordName_unlines r.rest r.inner)

/-- The arrays of a record are all below its head. -/
theorem recordRank_sorted : recordRank rules (r.record.sorted rules) = r.nameRank rules := by
  have hbody : (r.record.sorted rules).body =
      r.head.append r.rest :: rebuild arrayOpening? (sortedEntries rules) r.inner :=
    rebuild_plain_cons (r.head.arrayOpening?_append r.rest) r.inner
  rw [recordRank, hbody, r.head.recordName_unlines, nameRank]

theorem recordRank_of_sortRecordBody {first : Int} {inside : Passage}
    (h : sortRecordBody rules first r.record.body = .ok inside) :
    recordRank rules { r.record with body := inside.lines } = recordRank rules r.record := by
  have hsorts : SortsArrays rules r.record inside := joins_of_sortSegments h
  rw [hsorts.sorted_eq, r.recordRank_sorted, r.recordRank_record]

end NamedRecord

/-- What is kept of named records, in the order of their names. -/
def byName (rules : Rules) (records : List NamedRecord) : List NamedRecord :=
  arranged (·.sortedLines rules) (·.nameRank rules) records

theorem arrangedRecords_named (rules : Rules) (records : List NamedRecord) :
    arrangedRecords rules (records.map (·.record)) =
      (byName rules records).map (·.record.sorted rules) := by
  have hrank : recordRank rules ∘ (fun r : NamedRecord => r.record.sorted rules) =
      (·.nameRank rules) :=
    funext fun r => r.recordRank_sorted rules
  have harranged := arranged_map_comp Record.lines (recordRank rules)
    (fun r : NamedRecord => r.record.sorted rules) records
  rw [hrank] at harranged
  rw [arrangedRecords, List.map_map]
  exact harranged

theorem lines_of_named_records {options : Options} {kind : String} {line : Int} {body : List Line}
    {records : List NamedRecord} {trailing : List Line} {passage : Passage}
    (hs : IsRecordSplit options.maxRecordLines body ⟨records.map (·.record), trailing⟩)
    (hp : sortSection options kind line body = .ok passage) :
    passage.lines =
      (byName options.rules records).flatMap (·.sortedLines options.rules) ++ trailing := by
  obtain ⟨split, insides, hsorts⟩ := sortSection_eq_ok hp
  obtain rfl := hsorts.isRecordSplit.unique hs
  rw [hsorts.lines_eq, sortedLines_eq, arrangedRecords_named, List.flatMap_map]
  rfl

/-- A record has the name in the comment of its head, whatever follows the equals sign. Its rank is that
of the name, and stays so when the arrays in it are sorted; and it is by these ranks that a section of
such records is put in order. -/
theorem named_head_decides_place :
    (∀ (h : NamedHead) rest, recordName (h.append rest) = h.name) ∧
    (∀ rules (r s : NamedRecord), r.head.name = s.head.name →
      recordRank rules r.record = recordRank rules s.record) ∧
    (∀ rules (r : NamedRecord) first inside,
      sortRecordBody rules first r.record.body = .ok inside →
        recordRank rules { r.record with body := inside.lines } = recordRank rules r.record) ∧
    ∀ (options : Options) kind line body (records : List NamedRecord) trailing passage,
      splitRecords options.maxRecordLines (line + 1) body = .ok ⟨records.map (·.record), trailing⟩ →
      sortSection options kind line body = .ok passage →
        passage.lines =
          (byName options.rules records).flatMap (·.sortedLines options.rules) ++ trailing := by
  refine ⟨NamedHead.recordName_append, ?_, ?_, ?_⟩
  · intro rules r s hname
    rw [r.recordRank_record, s.recordRank_record, NamedRecord.nameRank, hname, NamedRecord.nameRank]
  · intro rules r first inside h
    exact r.recordRank_of_sortRecordBody rules h
  · intro options kind line body records trailing passage hs hp
    exact lines_of_named_records (isRecordSplit_of_splitRecords hs) hp

def sampleHead : NamedHead where
  opening := sampleOpening
  before := sampleOpening.gap
  name := "b".toList
  after := sampleOpening.gap
  gap := sampleOpening.gap
  before_isBlank := sampleOpening.gap_isBlank
  isName := ⟨by decide, by decide, by decide⟩
  name_isOpen := by decide +kernel
  after_isBlank := sampleOpening.gap_isBlank
  gap_isBlank := sampleOpening.gap_isBlank

/-- A record with an array, and with lines that would name it if its head did not. -/
def groupRecord : NamedRecord where
  leading := []
  head := sampleHead
  rest := " \x7b".toList
  inner := [
    "children = (".toList,
    "000000000000000000000002 /* d */,".toList,
    "000000000000000000000001 /* c */,".toList,
    ");".toList,
    "000000000000000000000003 /* a */ = name;".toList,
    "name = a;".toList,
    "\x7d;".toList]

/-- A record with the same name. -/
def lineRecord : NamedRecord :=
  { groupRecord with leading := ["name = a;".toList], rest := "\x7b\x7d;".toList, inner := [] }

/-- A record with a name before that. -/
def earlierRecord : NamedRecord :=
  { lineRecord with head := { sampleHead with
      name := "a".toList
      isName := ⟨by decide, by decide, by decide⟩
      name_isOpen := by decide +kernel } }

def nineLines : Options :=
  { sampleOptions with maxRecordLines := 9 }

def sortedGroup : Passage where
  lines := [
    "\t0123456789abcdef01234567 /* b */ = \x7b".toList,
    "children = (".toList,
    "000000000000000000000001 /* c */,".toList,
    "000000000000000000000002 /* d */,".toList,
    ");".toList,
    "000000000000000000000003 /* a */ = name;".toList,
    "name = a;".toList,
    "\x7d;".toList]
  tallies := [{ kind := .array, name := "children", line := 3, entries := 2, reordered := true }]

def sortedRecords : Passage where
  lines := earlierRecord.record.lines ++ sortedGroup.lines
  tallies := sortedGroup.tallies ++
    [{ kind := .section, name := "K", line := 1, entries := 2, reordered := true }]

theorem named_head_decides_place_of_group :
    (groupRecord.head.name = lineRecord.head.name ∧
      recordRank nineLines.rules groupRecord.record = recordRank nineLines.rules lineRecord.record) ∧
    (sortRecordBody nineLines.rules 2 groupRecord.record.body = .ok sortedGroup ∧
      recordRank nineLines.rules { groupRecord.record with body := sortedGroup.lines } =
        recordRank nineLines.rules groupRecord.record) ∧
    splitRecords 9 2 ([groupRecord, earlierRecord].flatMap (·.record.lines)) =
      .ok ⟨[groupRecord, earlierRecord].map (·.record), []⟩ ∧
    sortSection nineLines "K" 1 ([groupRecord, earlierRecord].flatMap (·.record.lines)) =
      .ok sortedRecords ∧
    sortedRecords.lines = (byName nineLines.rules [groupRecord, earlierRecord]).flatMap
      (·.sortedLines nineLines.rules) ++ [] := by
  obtain ⟨-, hsame, harrays, hsection⟩ := named_head_decides_place
  have hname : groupRecord.head.name = lineRecord.head.name := rfl
  have hi : sortRecordBody nineLines.rules 2 groupRecord.record.body = .ok sortedGroup := by
    cbv
  have hs : splitRecords 9 2 ([groupRecord, earlierRecord].flatMap (·.record.lines)) =
      .ok ⟨[groupRecord, earlierRecord].map (·.record), []⟩ := by
    cbv
  have hp : sortSection nineLines "K" 1 ([groupRecord, earlierRecord].flatMap (·.record.lines)) =
      .ok sortedRecords := by
    cbv
  exact ⟨⟨hname, hsame _ _ _ hname⟩, ⟨hi, harrays _ _ 2 _ hi⟩, hs, hp,
    hsection nineLines "K" 1 _ _ [] _ hs hp⟩

end ProjectOrder.Document
