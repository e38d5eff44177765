import ProjectOrder.Proofs.RecordSplits
import ProjectOrder.Proofs.SortedText

/-! The numbers in tallies and faults are those of the lines that they are about. -/
namespace ProjectOrder.Document
open ProjectOrder.Name ProjectOrder.Text

/-- The line with this number, when lines count from 1. -/
abbrev LineAt (lines : List Line) (line : Int) (text : Line) : Prop :=
  LiesAt 1 lines line [text]

/-- The region opens at this line, and no line after it closes it. -/
def LeftOpen (opening? : Line → Option Opening) (first : Int) (lines : List Line)
    (opening : Opening) (line : Int) : Prop :=
  ∃ before head rest, lines = before ++ head :: rest ∧ line = first + before.length ∧
    Closes opening? before ∧ opening? head = some opening ∧
    ∀ l ∈ rest, opening.closedBy l = false

/-- A head in a section that opens at `line` has braces that stay open for as long as a record may
be. -/
def HeadOf (maxLines line : Int) (body : List Line) (head : Line) (number : Int) : Prop :=
  ∃ before rest, body = before ++ head :: rest ∧ number = line + 1 + before.length ∧
    isRecordHead head = true ∧
    takeUntilBalanced (braceBalance head) (maxLines - 1).toNat rest = none

section Lines
variable {opening? : Line → Option Opening} {first line : Int} {lines : List Line}
  {opening : Opening} {head closing : Line} {body : List Line}

theorem liesAt_segment {s : Segment}
    (h : StartsAt Segment.lines first (segments opening? lines) s line) :
    LiesAt first lines line s.lines := by
  have hl := h.liesAt
  rwa [flatMap_lines_segments] at hl

theorem LiesAt.of_cons {rest : List Line} (h : LiesAt first lines line (head :: rest)) :
    LiesAt first lines line [head] :=
  h.trans ⟨[], rest, rfl, by simp⟩

theorem liesAt_body
    (h : StartsAt Segment.lines first (segments opening? lines) (.region opening head body closing)
      line) : LiesAt first lines (line + 1) body :=
  (liesAt_segment h).trans ⟨[head], [closing], by simp [Segment.lines], by simp⟩

theorem liesAt_recordOf {options : Options} {r : Record} {number : Int}
    (h : RecordOf options opening line body r number) : LiesAt (line + 1) body number r.body := by
  obtain ⟨kind, split, above, -, -, hs, hr, rfl⟩ := h
  exact hs.liesAt hr

theorem leftOpen_of_startsAt
    (h : StartsAt Segment.lines first (segments opening? lines) (.unclosed opening head body) line) :
    LeftOpen opening? first lines opening line := by
  obtain ⟨front, back, hsegs, rfl⟩ := h
  have hcut : ∀ s ∈ segments opening? lines, s.IsCut opening? := isCut_of_mem_segments
  have hclosed : ∀ s ∈ (segments opening? lines).dropLast, s.isClosed :=
    isClosed_of_mem_dropLast_segments
  have hlines := flatMap_lines_segments opening? lines
  rw [hsegs] at hcut hclosed hlines
  have hback : back = [] := by
    by_contra hne
    obtain ⟨s, back, rfl⟩ := List.exists_cons_of_ne_nil hne
    have := hclosed (.unclosed opening head body) (by simp [List.dropLast_append_of_ne_nil])
    cases this
  subst hback
  obtain ⟨hopen, hbody⟩ := hcut (.unclosed opening head body) (by simp)
  have hfront : segments opening? (front.flatMap Segment.lines) = front :=
    segments_flatMap_lines (fun s hs => hcut s (by simp [hs])) fun s hs => hclosed s (by simp [hs])
  refine ⟨front.flatMap Segment.lines, head, body, ?_, rfl, ?_, hopen, hbody⟩
  · simpa [Segment.lines] using hlines.symm
  · rw [Closes, hfront]
    exact fun s hs => hclosed s (by simp [hs])

end Lines

section Regions
variable {options : Options} {lines : List Line} {span : Span}

/-- What the opening of a region says of the line that opens it. -/
def Opening.OpenedBy (head : Line) : Opening → Prop
  | .array key indent => arrayOpening? head = some (.array key indent)
  | .section kind => sectionOpening? head = some (.section kind)

theorem openedBy_of_opening? {head : Line} {opening : Opening} (h : opening? head = some opening) :
    opening.OpenedBy head := by
  cases opening with
  | array key indent =>
    rcases Option.or_eq_some_iff.mp h with h | ⟨-, h⟩
    · exact h
    · obtain ⟨kind, -, hk⟩ := Option.map_eq_some_iff.mp h
      cases hk
  | «section» kind =>
    rcases Option.or_eq_some_iff.mp h with h | ⟨-, h⟩
    · obtain ⟨_, _, h⟩ := exists_array_of_arrayOpening? h
      cases h
    · exact h

theorem liesAt_closing {opening? : Line → Option Opening} {first line : Int} {opening : Opening}
    {head closing : Line} {body : List Line}
    (h : StartsAt Segment.lines first (segments opening? lines) (.region opening head body closing)
      line) : LiesAt first lines (line + body.length + 1) [closing] :=
  (liesAt_segment h).trans ⟨head :: body, [], by simp [Segment.lines], by simp; omega⟩

/-- A region opens at the line of its first number, and closes at the line of the other. -/
theorem exists_lines_of_isRegion (h : IsRegion options lines span) :
    ∃ head closing, LineAt lines span.line head ∧ span.opening.OpenedBy head ∧
      LineAt lines span.closing closing ∧ span.opening.closedBy closing = true := by
  obtain ⟨opening, head, body, closing, line, hs, ⟨r, first, hr, ha⟩ | rfl⟩ := h
  · obtain ⟨inner, hhead, entries, ending, number, hi, hf | rfl⟩ := ha
    · exact hf.elim
    · obtain ⟨hopen, -, hclose⟩ := isCut_of_mem_segments _ hi.mem
      obtain ⟨key, indent, rfl⟩ := exists_array_of_arrayOpening? hopen
      have hr := (liesAt_body hs).trans (liesAt_recordOf hr)
      exact ⟨hhead, ending, hr.trans (liesAt_segment hi).of_cons, hopen, hr.trans (liesAt_closing hi),
        hclose⟩
  · obtain ⟨hopen, -, hclose⟩ := isCut_of_mem_segments _ hs.mem
    exact ⟨head, closing, (liesAt_segment hs).of_cons, openedBy_of_opening? hopen,
      liesAt_closing hs, hclose⟩

/-- A tally names what the line opens, if it tells of a region that opens there. -/
theorem Reports.names {tally : Tally} {head : Line} (h : Reports options tally span)
    (ho : span.opening.OpenedBy head) :
    (tally.kind = .array →
      ∃ key indent, arrayOpening? head = some (.array key indent) ∧ tally.name = key.text) ∧
    (tally.kind ≠ .array → sectionOpening? head = some (.section tally.name)) := by
  obtain ⟨hk, hn, -⟩ := h
  obtain ⟨opening, line, closing⟩ := span
  cases opening with
  | array key indent => exact ⟨fun _ => ⟨key, indent, ho, hn⟩, fun hne => absurd hk hne⟩
  | «section» kind =>
    refine ⟨fun harray => ?_, fun _ => hn ▸ ho⟩
    rw [hk] at harray
    simp only [Opening.regionKind] at harray
    split_ifs at harray

theorem exists_span_of_mem {tallies : List Tally} {spans : List Span} {tally : Tally}
    (h : List.Forall₂ (Reports options) tallies spans) (ht : tally ∈ tallies) :
    ∃ span ∈ spans, Reports options tally span := by
  induction h with
  | nil => simp at ht
  | @cons t span _ _ hr _ ih =>
    rcases List.mem_cons.mp ht with rfl | ht
    · exact ⟨span, by simp, hr⟩
    · obtain ⟨found, hm, hr⟩ := ih ht
      exact ⟨found, by simp [hm], hr⟩

theorem map_line_of_reports {tallies : List Tally} {spans : List Span}
    (h : List.Forall₂ (Reports options) tallies spans) :
    tallies.map Tally.line = spans.map Span.line := by
  induction h with
  | nil => rfl
  | cons hr _ ih => rw [List.map_cons, List.map_cons, hr.line_eq, ih]

end Regions

section Faults
variable {options : Options} {rules : Rules} {fault : Fault}

/-- Segments are at fault where a region is that nothing closes, or whose body is at fault. -/
theorem sortSegments_eq_error {sortBody : Opening → Int → List Line → Except Fault Passage}
    {segs : List Segment} {first : Int}
    (h : sortSegments sortBody first segs = .error fault) :
    (∃ opening head body line, StartsAt Segment.lines first segs (.unclosed opening head body) line ∧
      fault = .unterminated opening line) ∨
    ∃ opening head body closing line,
      StartsAt Segment.lines first segs (.region opening head body closing) line ∧
      sortBody opening line body = .error fault := by
  induction segs generalizing first with
  | nil => cases h
  | cons s segs ih =>
    simp only [startsAt_cons]
    cases s with
    | plain line =>
      rcases bind_eq_error h with h | ⟨_, -, h⟩
      · rcases ih h with ⟨o, hd, b, n, hs, hf⟩ | ⟨o, hd, b, c, n, hs, hf⟩
        · exact .inl ⟨o, hd, b, n, .inr hs, hf⟩
        · exact .inr ⟨o, hd, b, c, n, .inr hs, hf⟩
      · cases h
    | region opening head body closing =>
      rw [add_length_region]
      rcases bind_eq_error h with h | ⟨_, -, h⟩
      · exact .inr ⟨opening, head, body, closing, first, .inl ⟨rfl, rfl⟩, h⟩
      · rcases bind_eq_error h with h | ⟨_, -, h⟩
        · rcases ih h with ⟨o, hd, b, n, hs, hf⟩ | ⟨o, hd, b, c, n, hs, hf⟩
          · exact .inl ⟨o, hd, b, n, .inr hs, hf⟩
          · exact .inr ⟨o, hd, b, c, n, .inr hs, hf⟩
        · cases h
    | unclosed opening head body =>
      cases h
      exact .inl ⟨opening, head, body, first, .inl ⟨rfl, rfl⟩, rfl⟩

theorem sortRecordBody_eq_error {first : Int} {body : List Line}
    (h : sortRecordBody rules first body = .error fault) :
    ∃ opening line, LeftOpen arrayOpening? first body opening line ∧
      fault = .unterminated opening line := by
  rcases sortSegments_eq_error h with ⟨o, hd, b, n, hs, hf⟩ | ⟨o, hd, b, c, n, hs, hf⟩
  · exact ⟨o, n, leftOpen_of_startsAt hs, hf⟩
  · obtain ⟨inside, hi⟩ := @exists_sortArrayBody rules o n b
    rw [hi] at hf
    cases hf

theorem sortNumbered_eq_error {records : List Record} {first : Int}
    (h : (numberRecords first records).mapM (sortNumbered rules) = .error fault) :
    ∃ r above, StartsAt Record.lines first records r above ∧
      sortRecordBody rules (above + r.leading.length) r.body = .error fault := by
  induction records generalizing first with
  | nil => cases h
  | cons r records ih =>
    rw [numberRecords, List.mapM_cons] at h
    simp only [startsAt_cons]
    rcases bind_eq_error h with h | ⟨_, -, h⟩
    · rcases bind_eq_error h with h | ⟨_, -, h⟩
      · exact ⟨r, first, .inl ⟨rfl, rfl⟩, h⟩
      · cases h
    · rcases bind_eq_error h with h | ⟨_, -, h⟩
      · obtain ⟨found, above, hs, hf⟩ := ih h
        exact ⟨found, above, .inr hs, hf⟩
      · cases h

/-- A section is at fault if it is sortable, and a record of it has a head whose braces stay open, or
an array that nothing closes. -/
theorem sortBody_eq_error {opening : Opening} {line : Int} {body : List Line}
    (h : sortBody options opening line body = .error fault) :
    ∃ kind, opening = .section kind ∧ kind ∈ options.sortableSections ∧
      ((∃ head number, HeadOf options.maxRecordLines line body head number ∧
          fault = .unbalanced kind number) ∨
        ∃ r first inner number, RecordOf options opening line body r first ∧
          LeftOpen arrayOpening? first r.body inner number ∧ fault = .unterminated inner number) := by
  cases opening with
  | array key indent => cases h
  | «section» kind =>
    simp only [sortBody] at h
    split_ifs at h with hl hk
    refine ⟨kind, rfl, hk, ?_⟩
    rcases bind_eq_error h with h | ⟨split, hsplit, h⟩
    · obtain ⟨number, hs, rfl⟩ := mapError_eq_error h
      obtain ⟨before, head, rest, hmeets, hopen, hn⟩ := splitRecords_eq_error_iff.mp hs
      exact .inl ⟨head, number, ⟨before, rest, hmeets.lines_eq, hn, hmeets.isHead,
        neverCloses_cons_iff.mp hopen⟩, rfl⟩
    · have hs : IsRecordSplit options.maxRecordLines body split :=
        isRecordSplit_of_splitRecords (mapError_eq_ok.mp hsplit)
      rcases bind_eq_error h with h | ⟨_, -, h⟩
      · obtain ⟨r, above, hr, hf⟩ := sortNumbered_eq_error h
        obtain ⟨inner, number, hopen, rfl⟩ := sortRecordBody_eq_error hf
        exact .inr ⟨r, _, inner, number, ⟨kind, split, above, rfl, hk, hs, hr, rfl⟩, hopen, rfl⟩
      · cases h

theorem sortText_eq_error {text : List Char} (h : sortText options text = .error fault) :
    sortLines options (lines text) = .error fault := by
  rcases bind_eq_error h with h | ⟨_, -, h⟩
  · exact h
  · cases h

end Faults

/-- The record is one of a sortable section of the document, and its head has this number. -/
def IsRecord (options : Options) (lines : List Line) (r : Record) (first : Int) : Prop :=
  ∃ opening head body closing line,
    StartsAt Segment.lines 1 (segments opening? lines) (.region opening head body closing) line ∧
      RecordOf options opening line body r first

section Results
variable {options : Options} {text : List Char}

theorem tallies_of_sortText {outcome : Outcome} (h : sortText options text = .ok outcome) :
    ∃ spans, List.Forall₂ (Reports options) outcome.tallies spans ∧
      (∀ span, span ∈ spans ↔ IsRegion options (lines text) span) ∧
      (spans.Pairwise fun a b => a.closing < b.closing) ∧ (outcome.tallies.map Tally.line).Nodup := by
  obtain ⟨spans, hspans⟩ := accounts_sortText h
  exact ⟨spans, hspans.reports, hspans.mem_iff, hspans.rising,
    map_line_of_reports hspans.reports ▸ hspans.nodup⟩

theorem unterminated_of_sortText {opening : Opening} {line : Int}
    (h : sortText options text = .error (.unterminated opening line)) :
    LeftOpen opening? 1 (lines text) opening line ∨
      ∃ r first, IsRecord options (lines text) r first ∧ LiesAt 1 (lines text) first r.body ∧
        LeftOpen arrayOpening? first r.body opening line := by
  rcases sortSegments_eq_error (sortText_eq_error h) with
    ⟨o, hd, b, n, hs, hf⟩ | ⟨o, hd, b, c, n, hs, hf⟩
  · cases hf
    exact .inl (leftOpen_of_startsAt hs)
  · obtain ⟨kind, -, -, ⟨_, _, -, he⟩ | ⟨r, first, inner, number, hr, hopen, he⟩⟩ :=
      sortBody_eq_error hf
    · cases he
    · cases he
      exact .inr ⟨r, first, ⟨o, hd, b, c, n, hs, hr⟩, (liesAt_body hs).trans (liesAt_recordOf hr),
        hopen⟩

theorem unbalanced_of_sortText {kind : String} {line : Int}
    (h : sortText options text = .error (.unbalanced kind line)) :
    kind ∈ options.sortableSections ∧ ∃ head body closing start recordHead,
      StartsAt Segment.lines 1 (segments opening? (lines text))
        (.region (.section kind) head body closing) start ∧
      HeadOf options.maxRecordLines start body recordHead line ∧
      LineAt (lines text) line recordHead := by
  rcases sortSegments_eq_error (sortText_eq_error h) with
    ⟨o, hd, b, n, hs, hf⟩ | ⟨o, hd, b, c, n, hs, hf⟩
  · cases hf
  · obtain ⟨k, rfl, hk, ⟨head, number, hhead, he⟩ | ⟨_, _, _, _, -, -, he⟩⟩ := sortBody_eq_error hf
    · cases he
      obtain ⟨before, rest, hb, hn, -⟩ := id hhead
      have hline : LiesAt (n + 1) b line [head] := ⟨before, rest, hb, hn⟩
      exact ⟨hk, hd, b, c, n, head, hs, hhead, (liesAt_body hs).trans hline⟩
    · cases he

end Results

/-- Every tally and every fault points at the right line. Each region has one tally, which is numbered and
named by the line that opens it, and the tallies are in the order in which the regions close. A region
that is left open has nothing after it that closes it, up to the end of the document or of its record.
Braces that stay open are those of a head in a sortable section. -/
theorem sortText_points_at_lines (options : Options) (text : List Char) :
    (∀ outcome, sortText options text = .ok outcome →
      (∃ spans, List.Forall₂ (Reports options) outcome.tallies spans ∧
        (∀ span, span ∈ spans ↔ IsRegion options (lines text) span) ∧
        (∀ span ∈ spans, ∃ closing, LineAt (lines text) span.closing closing ∧
          span.opening.closedBy closing = true) ∧
        spans.Pairwise fun a b => a.closing < b.closing) ∧
      (outcome.tallies.map Tally.line).Nodup ∧
      ∀ tally ∈ outcome.tallies, ∃ head, LineAt (lines text) tally.line head ∧
        (tally.kind = .array →
          ∃ key indent, arrayOpening? head = some (.array key indent) ∧ tally.name = key.text) ∧
        (tally.kind ≠ .array → sectionOpening? head = some (.section tally.name))) ∧
    (∀ opening line, sortText options text = .error (.unterminated opening line) →
      LeftOpen opening? 1 (lines text) opening line ∨
        ∃ r first, IsRecord options (lines text) r first ∧ LiesAt 1 (lines text) first r.body ∧
          LeftOpen arrayOpening? first r.body opening line) ∧
    ∀ kind line, sortText options text = .error (.unbalanced kind line) →
      kind ∈ options.sortableSections ∧ ∃ head body closing start recordHead,
        StartsAt Segment.lines 1 (segments opening? (lines text))
          (.region (.section kind) head body closing) start ∧
        HeadOf options.maxRecordLines start body recordHead line ∧
        LineAt (lines text) line recordHead := by
  refine ⟨fun outcome h => ?_, fun _ _ => unterminated_of_sortText, fun _ _ => unbalanced_of_sortText⟩
  obtain ⟨spans, hreports, hmem, hrising, hnodup⟩ := tallies_of_sortText h
  refine ⟨⟨spans, hreports, hmem, fun span hs => ?_, hrising⟩, hnodup, fun tally ht => ?_⟩
  · obtain ⟨-, closing, -, -, hline, hclose⟩ := exists_lines_of_isRegion ((hmem span).mp hs)
    exact ⟨closing, hline, hclose⟩
  · obtain ⟨span, hs, hr⟩ := exists_span_of_mem hreports ht
    obtain ⟨head, -, hline, hopen, -⟩ := exists_lines_of_isRegion ((hmem span).mp hs)
    exact ⟨head, hr.line_eq ▸ hline, hr.names hopen⟩

/-- Options under which a record of that section may have more lines. -/
def roomyOptions : Options :=
  { sampleOptions with maxRecordLines := 4 }

/-- A section with an array in its only record. -/
def nestedArray : Segment :=
  .region (.section "K") "Begin K section".toList
    ["000000000000000000000000 = \x7b".toList, "files = (".toList, ");".toList, "\x7d".toList]
    "End K section".toList

/-- A section whose only record is never closed. -/
def openRecord : Segment :=
  .region (.section "K") "Begin K section".toList ["000000000000000000000000 = \x7b".toList]
    "End K section".toList

theorem sortText_nestedArray :
    sortText roomyOptions (unlines nestedArray.lines) = .ok
      { text := unlines nestedArray.lines
        changed := false
        tallies := [
          { kind := .array, name := "files", line := 3 },
          { kind := .section, name := "K", line := 1, entries := 1 }] } := by
  have hc : nestedArray.IsCut opening? := ⟨by decide +kernel, by decide +kernel, by decide +kernel⟩
  have hl : lines (unlines nestedArray.lines) = nestedArray.lines := by decide +kernel
  have hs : segments opening? nestedArray.lines = [nestedArray] :=
    (segments_region hc []).trans (by rw [segments_nil]; rfl)
  unfold sortText sortLines
  rw [hl, hs]
  cbv

theorem sortText_openRecord :
    sortText roomyOptions (unlines openRecord.lines) = .error (.unbalanced "K" 2) := by
  have hc : openRecord.IsCut opening? := ⟨by decide +kernel, by decide +kernel, by decide +kernel⟩
  have hl : lines (unlines openRecord.lines) = openRecord.lines := by decide +kernel
  have hs : segments opening? openRecord.lines = [openRecord] :=
    (segments_region hc []).trans (by rw [segments_nil]; rfl)
  unfold sortText sortLines
  rw [hl, hs]
  cbv

/-- The array is at line 3 and the section at line 1, and what is never closed is at line 2. -/
theorem sortText_points_at_lines_of_nested_array :
    (∃ outcome, sortText roomyOptions (unlines nestedArray.lines) = .ok outcome ∧
      outcome.tallies.map Tally.line = [3, 1] ∧
      ∀ tally ∈ outcome.tallies,
        ∃ head, LineAt (lines (unlines nestedArray.lines)) tally.line head) ∧
    sortText roomyOptions (unlines openRecord.lines) = .error (.unbalanced "K" 2) ∧
    ∃ head, LineAt (lines (unlines openRecord.lines)) 2 head := by
  obtain ⟨hok, -, -⟩ := sortText_points_at_lines roomyOptions (unlines nestedArray.lines)
  obtain ⟨-, -, hunbalanced⟩ := sortText_points_at_lines roomyOptions (unlines openRecord.lines)
  refine ⟨⟨_, sortText_nestedArray, rfl, ?_⟩, sortText_openRecord, ?_⟩
  · obtain ⟨-, -, hheads⟩ := hok _ sortText_nestedArray
    intro tally ht
    obtain ⟨head, hline, -⟩ := hheads tally ht
    exact ⟨head, hline⟩
  · obtain ⟨-, _, _, _, _, head, -, -, hline⟩ := hunbalanced _ _ sortText_openRecord
    exact ⟨head, hline⟩

end ProjectOrder.Document
