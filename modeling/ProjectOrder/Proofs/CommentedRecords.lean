import ProjectOrder.Proofs.Identifiers
import ProjectOrder.Proofs.SortedText

/-! Records as they are mostly written: an object named in a comment, with lines of its own between
its head and the line that closes it. -/
namespace ProjectOrder.Document
open ProjectOrder.Name ProjectOrder.Text

/-- An object with a comment for its name, written over several lines. -/
structure CommentedRecord where
  indent : List Char
  identifier : List Char
  comment : List Char
  inner : List Line
  indent_isBlank : indent.all isBlank
  identifier_isIdentifier : isIdentifier identifier
  comment_isLine : comment.all (!isLineTerminator ·)
  inner_noBraces : ∀ line ∈ inner, '\x7b' ∉ line ∧ '\x7d' ∉ line

namespace CommentedRecord
variable (r : CommentedRecord)

def head : Line :=
  r.indent ++ (r.identifier ++ (" /* ".toList ++ (r.comment ++ " */ = \x7b".toList)))

def closing : Line :=
  r.indent ++ "\x7d;".toList

def record : Record :=
  ⟨[], r.head :: (r.inner ++ [r.closing])⟩

/-- The lines of the record with the arrays in it sorted. -/
def sortedLines (rules : Rules) : List Line :=
  r.head :: (rebuild arrayOpening? (sortedEntries rules) r.inner ++ [r.closing])

/-- Whether the braces in the comment are as many opening as closing ones. -/
def EvenComment : Prop :=
  r.comment.count '\x7b' = r.comment.count '\x7d'

instance : Decidable r.EvenComment :=
  inferInstanceAs (Decidable (_ = _))

theorem isRecordHead_head : isRecordHead r.head = true := by
  have hafter := afterIdentifier?_append r.indent_isBlank r.identifier_isIdentifier
    (" /* ".toList ++ (r.comment ++ " */ = \x7b".toList))
  have hcomment : afterCommentStart? r.head =
      some ((" ".toList ++ r.comment ++ " ".toList) ++ "*/ = \x7b".toList) := by
    rw [afterCommentStart?, head, hafter]
    simp [skipSomeBlanks?, skipBlanks, isBlank, after?, List.isPrefixOf?]
  have hline : (" ".toList ++ r.comment ++ " ".toList).all (!isLineTerminator ·) := by
    simp only [List.all_append, r.comment_isLine]
    decide
  have hfound : (upTo endsHeadComment
      ((" ".toList ++ r.comment ++ " ".toList) ++ "*/ = \x7b".toList)).isSome :=
    isSome_upTo_append hline (by decide)
  rw [isRecordHead, hcomment, Option.bind_some, hfound, head, hafter]
  exact Bool.or_true _

theorem not_mem_indent {c : Char} (hc : isBlank c = false) : c ∉ r.indent := by
  intro h
  rw [List.all_eq_true.mp r.indent_isBlank c h] at hc
  cases hc

theorem not_mem_identifier {c : Char} (hc : 102 < c.toNat) : c ∉ r.identifier := by
  intro h
  have := isHexDigit_bounds (isHexDigit_of_mem_identifier r.identifier_isIdentifier h)
  omega

theorem braceBalance_indent : braceBalance r.indent = 0 :=
  braceBalance_eq_zero (r.not_mem_indent (by decide)) (r.not_mem_indent (by decide))

theorem braceBalance_head : braceBalance r.head = braceBalance r.comment + 1 := by
  have hidentifier : braceBalance r.identifier = 0 :=
    braceBalance_eq_zero (r.not_mem_identifier (by decide)) (r.not_mem_identifier (by decide))
  have hstart : braceBalance " /* ".toList = 0 := by decide
  have hopen : braceBalance " */ = \x7b".toList = 1 := by decide
  simp only [head, braceBalance_append, braceBalance_indent, hidentifier, hstart, hopen]
  omega

theorem braceBalance_closing : braceBalance r.closing = -1 := by
  have hclose : braceBalance "\x7d;".toList = -1 := by decide
  rw [closing, braceBalance_append, braceBalance_indent, hclose]
  rfl

theorem evenComment_iff : r.EvenComment ↔ braceBalance r.comment = 0 := by
  unfold EvenComment braceBalance
  omega

theorem balanced_iff : Balanced r.record.body ↔ r.EvenComment := by
  have hinner : ∀ line ∈ r.inner, braceBalance line = 0 := by
    intro line hl
    obtain ⟨hopen, hclose⟩ := r.inner_noBraces line hl
    exact braceBalance_eq_zero hopen hclose
  rw [record, balanced_cons_iff, closesFrom_append_iff hinner, r.braceBalance_head,
    r.braceBalance_closing, evenComment_iff]
  omega

theorem isWhole_iff {maxLines : Int} (h : r.record.body.length ≤ maxLines) :
    r.record.IsWhole maxLines ↔ r.EvenComment := by
  rw [← balanced_iff]
  constructor
  · intro hw
    exact hw.balanced
  · intro hb
    have hstarts : r.record.Starts := ⟨by simp [record], r.head, _, rfl, r.isRecordHead_head⟩
    exact ⟨hstarts, hb, by omega⟩

theorem arrayOpening?_head : arrayOpening? r.head = none :=
  arrayOpening?_identifier r.indent_isBlank r.identifier_isIdentifier _

theorem arrayOpening?_closing : arrayOpening? r.closing = none := by
  have hkey : keyAtStart? (skipBlanks "\x7d;".toList) = none := by decide
  rw [arrayOpening?, closing, skipBlanks_append r.indent_isBlank, hkey]
  rfl

/-- No array closes at the line that closes the record. -/
theorem closedBy_closing (key : ArrayKey) (indent : List Char) :
    (Opening.array key indent).closedBy r.closing = false := by
  have hprefix : List.isPrefixOf? (indent ++ [')', ';']) r.closing = none := by
    rw [Option.eq_none_iff_forall_ne_some]
    intro rest h
    have he := List.isPrefixOf?_eq_some_iff_append_eq.mp h
    have hmem : ')' ∈ r.closing := by simp [← he]
    have hindent : ')' ∉ r.indent := r.not_mem_indent (by decide)
    simp [closing, hindent] at hmem
  rw [Opening.closedBy, hprefix]
  rfl

theorem closes_body_iff :
    Closes arrayOpening? r.record.body ↔ Closes arrayOpening? r.inner := by
  refine (closes_plain_cons_iff r.arrayOpening?_head).trans
    (closes_append_plain_iff r.arrayOpening?_closing fun line opening h => ?_)
  obtain ⟨key, indent, rfl⟩ := exists_array_of_arrayOpening? h
  exact r.closedBy_closing key indent

theorem lines_sorted (rules : Rules) (h : Closes arrayOpening? r.inner) :
    (r.record.sorted rules).lines = r.sortedLines rules := by
  have hclosing := rebuild_plain_cons (f := sortedEntries rules) r.arrayOpening?_closing []
  rw [Record.lines, Record.sorted, record, sortedLines, rebuild_plain_cons r.arrayOpening?_head,
    rebuild_append h, hclosing]
  simp [rebuild]

end CommentedRecord

/-- The lines are those of the records that are kept. Each of these is in one piece with its arrays
sorted, and only repetitions of them are left out. -/
structure KeepsWhole (rules : Rules) (records kept : List CommentedRecord) (lines : List Line) :
    Prop where
  lines_eq : lines = kept.flatMap (·.sortedLines rules)
  subperm : kept.Subperm records
  nodup : (kept.map (·.sortedLines rules)).Nodup
  mem : ∀ r ∈ records, r.sortedLines rules ∈ kept.map (·.sortedLines rules)

section Sections
variable {records : List CommentedRecord}

theorem isRecordSplit_iff {maxLines : Int}
    (h : ∀ r ∈ records, r.record.body.length ≤ maxLines) :
    IsRecordSplit maxLines (records.flatMap (·.record.lines)) ⟨records.map (·.record), []⟩ ↔
      ∀ r ∈ records, r.EvenComment := by
  have hwhole : (∀ r ∈ records.map (·.record), r.IsWhole maxLines) ↔
      ∀ r ∈ records, r.EvenComment := by
    rw [List.forall_mem_map]
    exact forall₂_congr fun r hr => r.isWhole_iff (h r hr)
  rw [← hwhole]
  constructor
  · intro hsplit
    exact hsplit.isWhole
  · intro hw
    exact ⟨by simp [List.flatMap_map], hw, by simp⟩

theorem exists_keepsWhole (rules : Rules) (h : ∀ r ∈ records, Closes arrayOpening? r.inner) :
    ∃ kept, KeepsWhole rules records kept
      (RecordSplit.sortedLines rules ⟨records.map (·.record), []⟩) := by
  let sorted (r : CommentedRecord) : Record := r.record.sorted rules
  let kept := arranged (Record.lines ∘ sorted) (recordRank rules ∘ sorted) records
  have hsub : kept.Subperm records := arranged_subperm _ _ _
  have hlines : ∀ r ∈ records, (sorted r).lines = r.sortedLines rules :=
    fun r hr => r.lines_sorted rules (h r hr)
  have hkept : kept.map (Record.lines ∘ sorted) = kept.map (·.sortedLines rules) :=
    List.map_congr_left fun r hr => hlines r (hsub.subset hr)
  refine ⟨kept, ?_, hsub, ?_, fun r hr => ?_⟩
  · rw [sortedLines_eq, arrangedRecords, List.map_map, arranged_map_comp, List.append_nil,
      List.flatMap_map, List.flatMap_def, List.flatMap_def, ← hkept]
    rfl
  · rw [← hkept]
    exact nodup_map_arranged _ _ _
  · rw [← hkept, ← hlines r hr]
    exact (mem_map_arranged _ _ _).mpr (List.mem_map_of_mem hr)

theorem closes_of_sortSection {options : Options} {kind : String} {line : Int} {body : List Line}
    {passage : Passage}
    (hs : IsRecordSplit options.maxRecordLines body ⟨records.map (·.record), []⟩)
    (hp : sortSection options kind line body = .ok passage) :
    (∀ r ∈ records, Closes arrayOpening? r.inner) ∧
      passage.lines = RecordSplit.sortedLines options.rules ⟨records.map (·.record), []⟩ := by
  obtain ⟨split, insides, hsorts⟩ := sortSection_eq_ok hp
  obtain rfl := hsorts.isRecordSplit.unique hs
  refine ⟨fun r hr => ?_, hsorts.lines_eq⟩
  exact r.closes_body_iff.mp (hsorts.closes _ (List.mem_map_of_mem hr))

end Sections

/-- Records are found again, whatever their comments are, exactly if the braces in each comment are
as many opening as closing ones. No sort puts another line between a head and the lines below it
then, and one succeeds if the arrays in the records are closed. -/
theorem commented_records_stay_whole (records : List CommentedRecord) :
    (∀ maxLines first : Int, (∀ r ∈ records, r.record.body.length ≤ maxLines) →
      (splitRecords maxLines first (records.flatMap (·.record.lines)) =
          .ok ⟨records.map (·.record), []⟩ ↔
        ∀ r ∈ records, r.EvenComment)) ∧
    ∀ (options : Options) kind line,
      (∀ r ∈ records, r.record.body.length ≤ options.maxRecordLines) →
      (∀ r ∈ records, r.EvenComment) →
      ((∃ passage, sortSection options kind line (records.flatMap (·.record.lines)) =
          .ok passage) ↔ ∀ r ∈ records, Closes arrayOpening? r.inner) ∧
      ∀ passage, sortSection options kind line (records.flatMap (·.record.lines)) = .ok passage →
        ∃ kept, KeepsWhole options.rules records kept passage.lines := by
  refine ⟨fun maxLines first h => ?_, fun options kind line h heven => ?_⟩
  · rw [splitRecords_eq_ok_iff, isRecordSplit_iff h]
  · have hsplit := (isRecordSplit_iff h).mpr heven
    refine ⟨⟨fun hp => ?_, fun hc => ?_⟩, fun passage hp => ?_⟩
    · obtain ⟨passage, hp⟩ := hp
      exact (closes_of_sortSection hsplit hp).1
    · refine exists_sortSection hsplit ?_ kind line
      rw [List.forall_mem_map]
      exact fun r hr => r.closes_body_iff.mpr (hc r hr)
    · obtain ⟨hc, hlines⟩ := closes_of_sortSection hsplit hp
      rw [hlines]
      exact exists_keepsWhole options.rules hc

def plainRecord : CommentedRecord where
  indent := []
  identifier := "000000000000000000000001".toList
  comment := "a".toList
  inner := []
  indent_isBlank := rfl
  identifier_isIdentifier := by decide
  comment_isLine := by decide
  inner_noBraces := by simp

/-- A record with matched braces in its comment, and with an array. -/
def evenRecord : CommentedRecord where
  indent := "\t\t".toList
  identifier := "000000000000000000000000".toList
  comment := "b\x7b\x7d".toList
  inner := ["\t\t\tchildren = (".toList, "\t\t\t);".toList]
  indent_isBlank := by decide
  identifier_isIdentifier := by decide
  comment_isLine := by decide
  inner_noBraces := by decide

/-- A record whose comment closes the brace of its head. -/
def unevenRecord : CommentedRecord :=
  { evenRecord with
    indent := []
    comment := "b\x7d".toList
    indent_isBlank := rfl
    comment_isLine := by decide }

def fiveLines : Options :=
  { sampleOptions with maxRecordLines := 5 }

theorem commented_records_stay_whole_of_even_braces :
    splitRecords 5 2 ([evenRecord, plainRecord].flatMap (·.record.lines)) =
        .ok ⟨[evenRecord.record, plainRecord.record], []⟩ ∧
      ∃ passage, sortSection fiveLines "K" 1 ([evenRecord, plainRecord].flatMap (·.record.lines)) =
          .ok passage ∧
        ∃ kept, KeepsWhole fiveLines.rules [evenRecord, plainRecord] kept passage.lines := by
  obtain ⟨hsplit, hsort⟩ := commented_records_stay_whole [evenRecord, plainRecord]
  have hlength : ∀ r ∈ [evenRecord, plainRecord], r.record.body.length ≤ fiveLines.maxRecordLines := by
    simp only [List.forall_mem_cons]
    decide
  have heven : ∀ r ∈ [evenRecord, plainRecord], r.EvenComment := by
    simp only [List.forall_mem_cons]
    exact ⟨by decide, by decide, by simp⟩
  have hcloses : ∀ r ∈ [evenRecord, plainRecord], Closes arrayOpening? r.inner := by
    simp only [List.forall_mem_cons]
    have hcut : Segment.IsCut arrayOpening? (.region (.array .children "\t\t\t".toList)
        "\t\t\tchildren = (".toList [] "\t\t\t);".toList) :=
      ⟨by decide +kernel, by simp, by decide +kernel⟩
    have harray : Closes arrayOpening? evenRecord.inner := by
      have hs := segments_region hcut []
      rw [segments_nil] at hs
      intro s hm
      obtain rfl := List.mem_singleton.mp (hs ▸ hm)
      rfl
    exact ⟨harray, by simp [Closes, plainRecord], by simp⟩
  obtain ⟨hexists, hkept⟩ := hsort fiveLines "K" 1 hlength heven
  obtain ⟨passage, hp⟩ := hexists.mpr hcloses
  exact ⟨(hsplit 5 2 hlength).mpr heven, passage, hp, hkept passage hp⟩

/-- A head whose comment closes its brace is taken for a record of its own, so that the lines below
it go with the record after it. -/
theorem lines_of_uneven_record_torn_off :
    splitRecords 5 2 ([unevenRecord, plainRecord].flatMap (·.record.lines)) =
        .ok ⟨[⟨[], [unevenRecord.head]⟩,
          ⟨unevenRecord.inner ++ [unevenRecord.closing], plainRecord.record.body⟩], []⟩ ∧
      splitRecords 5 2 ([unevenRecord, plainRecord].flatMap (·.record.lines)) ≠
        .ok ⟨[unevenRecord.record, plainRecord.record], []⟩ ∧
      sortSection fiveLines "K" 1 ([unevenRecord, plainRecord].flatMap (·.record.lines)) = .ok
        { lines := unevenRecord.inner ++ unevenRecord.closing ::
            (plainRecord.record.body ++ [unevenRecord.head])
          tallies := [
            { kind := .section, name := "K", line := 1, entries := 2, reordered := true }] } := by
  have hs : splitRecords 5 2 ([unevenRecord, plainRecord].flatMap (·.record.lines)) =
      .ok ⟨[⟨[], [unevenRecord.head]⟩,
        ⟨unevenRecord.inner ++ [unevenRecord.closing], plainRecord.record.body⟩], []⟩ := by
    cbv
  refine ⟨hs, ?_, ?_⟩
  · rw [hs]
    decide
  · cbv

end ProjectOrder.Document
