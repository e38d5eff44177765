import Mathlib.Data.List.Nodup
import ProjectOrder.Proofs.Passage

/-! The regions of a document, each with the numbers of its lines, and the tallies that tell of
them. -/
namespace ProjectOrder.Document
open ProjectOrder.Name ProjectOrder.Text

/-- The part is found among the lines, from this number on when they count from `first`. -/
def LiesAt (first : Int) (lines : List Line) (line : Int) (part : List Line) : Prop :=
  ∃ before after, lines = before ++ (part ++ after) ∧ line = first + before.length

theorem LiesAt.trans {first middle line : Int} {a b c : List Line} (hab : LiesAt first a middle b)
    (hbc : LiesAt middle b line c) : LiesAt first a line c := by
  obtain ⟨before, after, rfl, rfl⟩ := hab
  obtain ⟨inner, rest, rfl, rfl⟩ := hbc
  refine ⟨before ++ inner, rest ++ after, by simp, ?_⟩
  simp only [List.length_append]
  omega

/-- The item is one of these, and its own lines start with this number when those of all items count
from `first`. -/
def StartsAt (linesOf : α → List Line) (first : Int) (items : List α) (x : α) (line : Int) : Prop :=
  ∃ front back, items = front ++ x :: back ∧ line = first + (front.flatMap linesOf).length

section Items
variable {linesOf : α → List Line} {first line : Int} {items : List α} {x y : α}

theorem startsAt_nil : ¬ StartsAt linesOf first [] x line := by
  rintro ⟨front, back, h, -⟩
  simp at h

theorem startsAt_cons : StartsAt linesOf first (y :: items) x line ↔
    x = y ∧ line = first ∨ StartsAt linesOf (first + (linesOf y).length) items x line := by
  constructor
  · rintro ⟨front, back, he, rfl⟩
    cases front with
    | nil =>
      obtain ⟨rfl, -⟩ := List.cons.inj he
      exact .inl ⟨rfl, by simp⟩
    | cons z front =>
      obtain ⟨rfl, rfl⟩ := List.cons.inj he
      refine .inr ⟨front, back, rfl, ?_⟩
      simp only [List.flatMap_cons, List.length_append]
      omega
  · rintro (⟨rfl, rfl⟩ | ⟨front, back, rfl, rfl⟩)
    · exact ⟨[], items, rfl, by simp⟩
    · refine ⟨y :: front, back, rfl, ?_⟩
      simp only [List.flatMap_cons, List.length_append]
      omega

theorem StartsAt.mem (h : StartsAt linesOf first items x line) : x ∈ items := by
  obtain ⟨front, back, rfl, -⟩ := h
  simp

theorem StartsAt.liesAt (h : StartsAt linesOf first items x line) :
    LiesAt first (items.flatMap linesOf) line (linesOf x) := by
  obtain ⟨front, back, rfl, rfl⟩ := h
  exact ⟨front.flatMap linesOf, back.flatMap linesOf, by simp, rfl⟩

end Items

theorem IsRecordSplit.liesAt {maxLines first above : Int} {body : List Line} {split : RecordSplit}
    {r : Record} (h : IsRecordSplit maxLines body split)
    (hr : StartsAt Record.lines first split.records r above) :
    LiesAt first body (above + r.leading.length) r.body := by
  have hrecords : LiesAt first body first (split.records.flatMap Record.lines) :=
    ⟨[], split.trailing, by simp [h.lines_eq], by simp⟩
  exact (hrecords.trans hr.liesAt).trans ⟨r.leading, [], by simp [Record.lines], rfl⟩

/-- A region, with the numbers of the lines that open and close it. -/
structure Span where
  opening : Opening
  line : Int
  closing : Int

/-- The region is one of the segments, or `inside` one of them. -/
def Opens (inside : Opening → Int → List Line → Span → Prop) (first : Int) (segs : List Segment)
    (span : Span) : Prop :=
  ∃ opening head body closing line,
    StartsAt Segment.lines first segs (.region opening head body closing) line ∧
      (inside opening line body span ∨ span = ⟨opening, line, line + body.length + 1⟩)

/-- A record of a sortable section that opens at `line`, with the number of its head. -/
def RecordOf (options : Options) (opening : Opening) (line : Int) (body : List Line) (r : Record)
    (first : Int) : Prop :=
  ∃ kind split above, opening = .section kind ∧ kind ∈ options.sortableSections ∧
    IsRecordSplit options.maxRecordLines body split ∧
    StartsAt Record.lines (line + 1) split.records r above ∧ first = above + r.leading.length

/-- The region is an array among the lines of a record. -/
abbrev ArrayOf (r : Record) (first : Int) : Span → Prop :=
  Opens (fun _ _ _ _ => False) first (segments arrayOpening? r.body)

/-- The regions of a document: those between its segments, and the arrays in the records of those that
are sortable sections. -/
def IsRegion (options : Options) (lines : List Line) : Span → Prop :=
  Opens (fun opening line body span => ∃ r first, RecordOf options opening line body r first ∧
    ArrayOf r first span) 1 (segments opening? lines)

def Opening.regionKind (options : Options) : Opening → RegionKind
  | .array _ _ => .array
  | .section kind =>
    if kind = linkOrderedSection then .linkOrdered
    else if kind ∈ options.sortableSections then .section
    else .verbatim

def Opening.name : Opening → String
  | .array key _ => key.text
  | .section kind => kind

/-- The tally tells of this region. -/
structure Reports (options : Options) (tally : Tally) (span : Span) : Prop where
  kind_eq : tally.kind = span.opening.regionKind options
  name_eq : tally.name = span.opening.name
  line_eq : tally.line = span.line

/-- The tallies tell of the regions between two lines, of each of them once and in the order in which
they close. -/
structure Accounts (options : Options) (first last : Int) (regions : Span → Prop)
    (tallies : List Tally) (spans : List Span) : Prop where
  reports : List.Forall₂ (Reports options) tallies spans
  mem_iff : ∀ span, span ∈ spans ↔ regions span
  within : ∀ span ∈ spans, first ≤ span.line ∧ span.line < span.closing ∧ span.closing < last
  nodup : (spans.map Span.line).Nodup
  rising : spans.Pairwise fun a b => a.closing < b.closing

namespace Accounts
variable {options : Options} {first middle last : Int} {regions others : Span → Prop}
  {tallies more : List Tally} {spans rest : List Span}

theorem nil (h : ∀ span, ¬ regions span) : Accounts options first last regions [] [] :=
  ⟨.nil, by simpa using h, by simp, by simp, .nil⟩

theorem congr (h : Accounts options first last regions tallies spans)
    (hr : ∀ span, regions span ↔ others span) : Accounts options first last others tallies spans :=
  { h with mem_iff := fun span => (h.mem_iff span).trans (hr span) }

theorem mono (h : Accounts options first last regions tallies spans) {start stop : Int}
    (hf : start ≤ first) (hl : last ≤ stop) : Accounts options start stop regions tallies spans := by
  refine { h with within := fun span hs => ?_ }
  have := h.within span hs
  omega

/-- The regions up to a line, and then those from there on. -/
theorem append (h : Accounts options first middle regions tallies spans)
    (k : Accounts options middle last others more rest) (hf : first ≤ middle) (hl : middle ≤ last) :
    Accounts options first last (fun span => regions span ∨ others span) (tallies ++ more)
      (spans ++ rest) := by
  have hapart : ∀ a ∈ spans, ∀ b ∈ rest, a.closing < b.line := fun a ha b hb =>
    Int.lt_of_lt_of_le (h.within a ha).2.2 (k.within b hb).1
  constructor
  · exact List.rel_append h.reports k.reports
  · intro span
    rw [List.mem_append, h.mem_iff, k.mem_iff]
  · intro span hs
    rcases List.mem_append.mp hs with hs | hs
    · have := h.within span hs
      omega
    · have := k.within span hs
      omega
  · rw [List.map_append, List.nodup_append]
    refine ⟨h.nodup, k.nodup, ?_⟩
    simp only [List.forall_mem_map]
    intro a ha b hb
    have := hapart a ha b hb
    have := h.within a ha
    omega
  · rw [List.pairwise_append]
    refine ⟨h.rising, k.rising, fun a ha b hb => ?_⟩
    have := hapart a ha b hb
    have := k.within b hb
    omega

/-- The regions inside another, and then that one. -/
theorem close {opening : Opening} {line closing : Int} {tally : Tally}
    (h : Accounts options (line + 1) closing regions tallies spans)
    (ht : Reports options tally ⟨opening, line, closing⟩) (hc : line < closing)
    (hl : closing < last) :
    Accounts options line last (fun span => regions span ∨ span = ⟨opening, line, closing⟩)
      (tallies ++ [tally]) (spans ++ [⟨opening, line, closing⟩]) := by
  constructor
  · exact List.rel_append h.reports (.cons ht .nil)
  · intro span
    rw [List.mem_append, h.mem_iff, List.mem_singleton]
  · intro span hs
    rcases List.mem_append.mp hs with hs | hs
    · have := h.within span hs
      omega
    · obtain rfl := List.mem_singleton.mp hs
      simp only
      omega
  · rw [List.map_append, List.nodup_append]
    refine ⟨h.nodup, by simp, ?_⟩
    simp only [List.forall_mem_map, List.map_cons, List.map_nil, List.mem_singleton]
    rintro a ha _ rfl
    have := h.within a ha
    omega
  · rw [List.pairwise_append]
    refine ⟨h.rising, by simp, ?_⟩
    simp only [List.mem_singleton]
    rintro a ha _ rfl
    exact (h.within a ha).2.2

end Accounts

section Segments
variable {sortBody : Opening → Int → List Line → Except Fault Passage}
  {inside : Opening → Int → List Line → Span → Prop}

theorem opens_nil {first : Int} {span : Span} : ¬ Opens inside first [] span := by
  rintro ⟨opening, head, body, closing, line, h, -⟩
  exact startsAt_nil h

theorem opens_plain {first : Int} {line : Line} {segs : List Segment} {span : Span} :
    Opens inside first (.plain line :: segs) span ↔ Opens inside (first + 1) segs span := by
  simp only [Opens, startsAt_cons, reduceCtorEq, false_and, false_or, Segment.lines,
    List.length_singleton, Int.natCast_one]

theorem opens_region {first : Int} {opening : Opening} {head closing : Line} {body : List Line}
    {segs : List Segment} {span : Span} :
    Opens inside first (.region opening head body closing :: segs) span ↔
      (inside opening first body span ∨ span = ⟨opening, first, first + body.length + 1⟩) ∨
        Opens inside (first + body.length + 2) segs span := by
  simp only [Opens, startsAt_cons, add_length_region]
  constructor
  · rintro ⟨o, hd, b, cl, line, ⟨he, rfl⟩ | hstarts, hspan⟩
    · cases he
      exact .inl hspan
    · exact .inr ⟨o, hd, b, cl, line, hstarts, hspan⟩
  · rintro (hspan | ⟨o, hd, b, cl, line, hstarts, hspan⟩)
    · exact ⟨_, _, _, _, _, .inl ⟨rfl, rfl⟩, hspan⟩
    · exact ⟨o, hd, b, cl, line, .inr hstarts, hspan⟩

/-- Segments are accounted for if the body of each region is, together with the region. -/
theorem accounts_sortSegments (options : Options)
    (inside : Opening → Int → List Line → Span → Prop) {segs : List Segment} {first : Int}
    {passage : Passage}
    (hb : ∀ opening head body closing, .region opening head body closing ∈ segs →
      ∀ line passage, sortBody opening line body = .ok passage →
        ∃ spans, Accounts options line (line + body.length + 2)
          (fun span => inside opening line body span ∨ span = ⟨opening, line, line + body.length + 1⟩)
          passage.tallies spans)
    (h : sortSegments sortBody first segs = .ok passage) :
    ∃ spans, Accounts options first (first + (segs.flatMap Segment.lines).length)
      (Opens inside first segs) passage.tallies spans := by
  induction segs generalizing first passage with
  | nil =>
    cases h
    exact ⟨[], .nil fun _ => opens_nil⟩
  | cons s segs ih =>
    have ih := fun {first passage} => @ih first passage
      fun opening head body closing hm => hb opening head body closing (by simp [hm])
    cases s with
    | plain line =>
      obtain ⟨after, ha, h⟩ := bind_eq_ok h
      cases h
      obtain ⟨spans, hspans⟩ := ih ha
      rw [add_length_plain_cons]
      exact ⟨spans, (hspans.congr fun span => opens_plain.symm).mono (by omega) (by omega)⟩
    | region opening head body closing =>
      obtain ⟨inner, hi, h⟩ := bind_eq_ok h
      obtain ⟨after, ha, h⟩ := bind_eq_ok h
      cases h
      obtain ⟨spans, hspans⟩ := hb opening head body closing (by simp) first inner hi
      obtain ⟨rest, hrest⟩ := ih ha
      rw [add_length_region_cons]
      exact ⟨spans ++ rest,
        (hspans.append hrest (by omega) (by omega)).congr fun span => opens_region.symm⟩
    | unclosed opening head body => cases h

end Segments

section Regions
variable {rules : Rules} {options : Options}

theorem accounts_sortRecordBody (options : Options) {r : Record} {first : Int} {passage : Passage}
    (h : sortRecordBody rules first r.body = .ok passage) :
    ∃ spans, Accounts options first (first + r.body.length) (ArrayOf r first) passage.tallies
      spans := by
  have hspans := accounts_sortSegments options (fun _ _ _ _ => False) ?_ h
  · rwa [flatMap_lines_segments] at hspans
  · intro opening head body closing hm line inner hi
    obtain ⟨key, indent, rfl⟩ := exists_array_of_arrayOpening? (isCut_of_mem_segments _ hm).1
    cases hi
    exact ⟨[_], (Accounts.nil fun _ => not_false).close ⟨rfl, rfl, rfl⟩ (by omega) (by omega)⟩

/-- The arrays in all the records of a section. -/
theorem accounts_sortNumbered (options : Options) {records : List Record} {first : Int}
    {sorted : List (Record × List Tally)}
    (h : (numberRecords first records).mapM (sortNumbered rules) = .ok sorted) :
    ∃ spans, Accounts options first (first + (records.flatMap Record.lines).length)
      (fun span => ∃ r above, StartsAt Record.lines first records r above ∧
        ArrayOf r (above + r.leading.length) span) (sorted.flatMap (·.2)) spans := by
  induction records generalizing first sorted with
  | nil =>
    cases h
    refine ⟨[], .nil fun span => ?_⟩
    rintro ⟨r, above, hr, -⟩
    exact startsAt_nil hr
  | cons r records ih =>
    rw [numberRecords, List.mapM_cons] at h
    obtain ⟨_, hr, h⟩ := bind_eq_ok h
    obtain ⟨inside, hi, hr⟩ := bind_eq_ok hr
    obtain ⟨more, hm, h⟩ := bind_eq_ok h
    cases hr
    cases h
    obtain ⟨spans, hspans⟩ := accounts_sortRecordBody options hi
    obtain ⟨rest, hrest⟩ := ih hm
    have hlines : (r.lines.length : Int) = r.leading.length + r.body.length := by
      simp [Record.lines]
    have hlast : first + ((r :: records).flatMap Record.lines).length =
        first + r.lines.length + (records.flatMap Record.lines).length := by
      simp only [List.flatMap_cons, List.length_append]
      omega
    have hfirst : Accounts options first (first + r.lines.length) _ _ spans :=
      hspans.mono (by omega) (by omega)
    rw [hlast]
    refine ⟨spans ++ rest, (hfirst.append hrest (by omega) (by omega)).congr fun span => ?_⟩
    simp only [startsAt_cons, or_and_right, exists_or, and_assoc, exists_and_left, exists_eq_left]

theorem exists_recordOf_iff {kind : String} {line : Int} {body : List Line} {split : RecordSplit}
    (hk : kind ∈ options.sortableSections) (hs : IsRecordSplit options.maxRecordLines body split)
    {p : Record → Int → Prop} :
    (∃ r first, RecordOf options (.section kind) line body r first ∧ p r first) ↔
      ∃ r above, StartsAt Record.lines (line + 1) split.records r above ∧
        p r (above + r.leading.length) := by
  constructor
  · rintro ⟨r, first, ⟨_, other, above, he, -, ho, hr, rfl⟩, hp⟩
    cases he
    obtain rfl := ho.unique hs
    exact ⟨r, above, hr, hp⟩
  · rintro ⟨r, above, hr, hp⟩
    exact ⟨r, _, ⟨kind, split, above, rfl, hk, hs, hr, rfl⟩, hp⟩

theorem accounts_sortSection {kind : String} {line : Int} {body : List Line} {passage : Passage}
    (hk : kind ∈ options.sortableSections)
    (h : sortSection options kind line body = .ok passage) :
    ∃ spans, Accounts options line (line + body.length + 2)
      (fun span => (∃ r first, RecordOf options (.section kind) line body r first ∧
          ArrayOf r first span) ∨
        span = ⟨.section kind, line, line + body.length + 1⟩) passage.tallies spans := by
  obtain ⟨split, hs, h⟩ := bind_eq_ok h
  obtain ⟨sorted, hm, h⟩ := bind_eq_ok h
  cases h
  have hsplit : IsRecordSplit options.maxRecordLines body split :=
    isRecordSplit_of_splitRecords (mapError_eq_ok.mp hs)
  obtain ⟨spans, hspans⟩ := accounts_sortNumbered options hm
  have hlength : (split.records.flatMap Record.lines).length ≤ body.length := by
    rw [← hsplit.lines_eq, List.length_append]
    omega
  have hlink : kind ≠ linkOrderedSection := fun he => options.keepsLinkOrder (he ▸ hk)
  have hinside : Accounts options (line + 1) (line + body.length + 1) _ _ spans :=
    hspans.mono (Int.le_refl _) (by omega)
  refine ⟨spans ++ [⟨.section kind, line, line + body.length + 1⟩],
    (hinside.close ⟨?_, rfl, rfl⟩ (by omega) (by omega)).congr fun span => ?_⟩
  · simp [Opening.regionKind, hlink, hk]
  · rw [exists_recordOf_iff hk hsplit]

theorem accounts_sortBody {opening : Opening} {line : Int} {body : List Line} {passage : Passage}
    (h : sortBody options opening line body = .ok passage) :
    ∃ spans, Accounts options line (line + body.length + 2)
      (fun span => (∃ r first, RecordOf options opening line body r first ∧ ArrayOf r first span) ∨
        span = ⟨opening, line, line + body.length + 1⟩) passage.tallies spans := by
  -- a region that is copied, or that is an array, holds no others
  have hcopied : (∀ kind, opening = .section kind → kind ∉ options.sortableSections) →
      ∀ tally, Reports options tally ⟨opening, line, line + body.length + 1⟩ →
        ∃ spans, Accounts options line (line + body.length + 2)
          (fun span => (∃ r first, RecordOf options opening line body r first ∧
              ArrayOf r first span) ∨
            span = ⟨opening, line, line + body.length + 1⟩) [tally] spans := by
    intro hn tally ht
    refine ⟨[_], (Accounts.nil ?_).close ht (by omega) (by omega)⟩
    rintro span ⟨r, first, ⟨kind, split, above, he, hk, -⟩, -⟩
    exact hn kind he hk
  cases opening with
  | array key indent =>
    cases h
    exact hcopied (by simp) _ ⟨rfl, rfl, rfl⟩
  | «section» kind =>
    simp only [sortBody] at h
    split_ifs at h with hl hk
    · cases h
      exact hcopied (by simpa [hl] using options.keepsLinkOrder) _
        ⟨by simp [Opening.regionKind, hl], rfl, rfl⟩
    · exact accounts_sortSection hk h
    · cases h
      exact hcopied (by simpa using hk) _ ⟨by simp [Opening.regionKind, hl, hk], rfl, rfl⟩

theorem accounts_sortText {text : List Char} {outcome : Outcome}
    (h : sortText options text = .ok outcome) :
    ∃ spans, Accounts options 1 (1 + (lines text).length) (IsRegion options (lines text))
      outcome.tallies spans := by
  obtain ⟨passage, hp, he⟩ := bind_eq_ok h
  cases he
  have hspans := accounts_sortSegments options _ (fun _ _ _ _ _ _ _ hi => accounts_sortBody hi) hp
  rwa [flatMap_lines_segments] at hspans

end Regions

end ProjectOrder.Document
