import ProjectOrder.Proofs.Passage

/-! Lines that stand before others move their tallies and faults down, and change nothing else. -/
namespace ProjectOrder.Document
open ProjectOrder.Name ProjectOrder.Text

/-- The tally of the same region, so many lines further down. -/
def Tally.shift (n : Int) (tally : Tally) : Tally :=
  { tally with line := tally.line + n }

/-- The same fault, so many lines further down. -/
def Fault.shift (n : Int) : Fault → Fault
  | .unterminated opening line => .unterminated opening (line + n)
  | .unbalanced kind line => .unbalanced kind (line + n)

def Passage.shift (n : Int) (passage : Passage) : Passage :=
  { passage with tallies := passage.tallies.map (Tally.shift n) }

/-- What a sort ends with, so many lines further down. -/
def shifted (n : Int) : Except Fault Passage → Except Fault Passage
  | .ok passage => .ok (passage.shift n)
  | .error fault => .error (fault.shift n)

/-- One passage after the other. -/
def Passage.append (a b : Passage) : Passage :=
  { lines := a.lines ++ b.lines, tallies := a.tallies ++ b.tallies }

theorem isChange_shift (n : Int) (tally : Tally) : (tally.shift n).isChange = tally.isChange :=
  rfl

section Segments
variable {sortBody : Opening → Int → List Line → Except Fault Passage}

theorem sortSegments_shift {n : Int} {segs : List Segment}
    (hb : ∀ opening line body,
      sortBody opening (line + n) body = shifted n (sortBody opening line body)) (first : Int) :
    sortSegments sortBody (first + n) segs = shifted n (sortSegments sortBody first segs) := by
  induction segs generalizing first with
  | nil => rfl
  | cons s segs ih =>
    cases s with
    | plain line =>
      have hnext : first + n + 1 = first + 1 + n := by omega
      rw [sortSegments, sortSegments, hnext, ih]
      rcases sortSegments sortBody (first + 1) segs with fault | after <;> rfl
    | region opening head body closing =>
      have hnext : first + n + body.length + 2 = first + body.length + 2 + n := by omega
      rw [sortSegments, sortSegments, hnext, hb, ih]
      rcases sortBody opening first body with fault | inside
      · rfl
      · rcases sortSegments sortBody (first + body.length + 2) segs with fault | after
        · rfl
        · simp [shifted, Passage.shift, bind, Except.bind, pure, Except.pure]
    | unclosed opening head body => rfl

/-- Segments one after the other are sorted one after the other. -/
theorem sortSegments_append (first : Int) (segs more : List Segment) :
    sortSegments sortBody first (segs ++ more) = (do
      let a ← sortSegments sortBody first segs
      let b ← sortSegments sortBody (first + (segs.flatMap Segment.lines).length) more
      pure (a.append b)) := by
  induction segs generalizing first with
  | nil =>
    have hfirst : first + ((([] : List Segment).flatMap Segment.lines).length : Int) = first := by
      simp
    rw [hfirst, List.nil_append, sortSegments]
    rcases sortSegments sortBody first more with fault | after <;> rfl
  | cons s segs ih =>
    cases s with
    | plain line =>
      rw [List.cons_append, sortSegments, sortSegments, add_length_plain_cons, ih]
      rcases sortSegments sortBody (first + 1) segs with fault | a
      · rfl
      · rcases sortSegments sortBody (first + 1 + (segs.flatMap Segment.lines).length) more with
          fault | b <;> rfl
    | region opening head body closing =>
      rw [List.cons_append, sortSegments, sortSegments, add_length_region_cons, ih]
      rcases sortBody opening first body with fault | inside
      · rfl
      · rcases sortSegments sortBody (first + body.length + 2) segs with fault | a
        · rfl
        · rcases sortSegments sortBody
            (first + body.length + 2 + (segs.flatMap Segment.lines).length) more with fault | b
          · rfl
          · simp [bind, Except.bind, pure, Except.pure, Passage.append]
    | unclosed opening head body => rfl

end Segments

section Regions
variable {rules : Rules} {options : Options} {n : Int}

theorem sortArrayBody_shift (opening : Opening) (line : Int) (body : List Line) :
    sortArrayBody rules opening (line + n) body =
      shifted n (sortArrayBody rules opening line body) := by
  cases opening <;> rfl

theorem sortRecordBody_shift (first : Int) (body : List Line) :
    sortRecordBody rules (first + n) body = shifted n (sortRecordBody rules first body) :=
  sortSegments_shift sortArrayBody_shift first

theorem splitRecords_shift (maxLines first : Int) (lines : List Line) :
    splitRecords maxLines (first + n) lines =
      (splitRecords maxLines first lines).mapError (· + n) := by
  induction lines using records_induction maxLines generalizing first with
  | trailing lines h =>
    rw [splitRecords_trailing _ _ h, splitRecords_trailing _ _ h]
    rfl
  | staysOpen leading head rest h =>
    have hline : first + n + leading.length = first + leading.length + n := by omega
    rw [splitRecords_staysOpen h, splitRecords_staysOpen h, hline]
    rfl
  | record r after h ih =>
    have hnext : first + n + r.lines.length = first + r.lines.length + n := by omega
    rw [splitRecords_record h, splitRecords_record h, hnext, ih]
    rcases splitRecords maxLines (first + r.lines.length) after with line | split <;> rfl

/-- A sorted record, so many lines further down. -/
def shiftSorted (n : Int) (sorted : Record × List Tally) : Record × List Tally :=
  (sorted.1, sorted.2.map (Tally.shift n))

theorem mapM_sortNumbered_shift (rules : Rules) (n first : Int) (records : List Record) :
    (numberRecords (first + n) records).mapM (sortNumbered rules) =
      match (numberRecords first records).mapM (sortNumbered rules) with
      | .ok sorted => .ok (sorted.map (shiftSorted n))
      | .error fault => .error (fault.shift n) := by
  induction records generalizing first with
  | nil => rfl
  | cons r records ih =>
    have hhead : first + n + r.leading.length = first + r.leading.length + n := by omega
    have hnext : first + n + r.lines.length = first + r.lines.length + n := by omega
    rw [numberRecords, numberRecords, List.mapM_cons, List.mapM_cons, hnext, ih, sortNumbered,
      sortNumbered, hhead, sortRecordBody_shift]
    rcases sortRecordBody rules (first + r.leading.length) r.body with fault | inside
    · rfl
    · rcases (numberRecords (first + r.lines.length) records).mapM (sortNumbered rules) with
        fault | more <;> rfl

theorem sortSection_shift (kind : String) (line : Int) (body : List Line) :
    sortSection options kind (line + n) body = shifted n (sortSection options kind line body) := by
  have hnext : line + n + 1 = line + 1 + n := by omega
  rw [sortSection, sortSection, hnext, splitRecords_shift]
  rcases splitRecords options.maxRecordLines (line + 1) body with fault | split
  · rfl
  · have hm := mapM_sortNumbered_shift options.rules n (line + 1) split.records
    change ((numberRecords (line + 1 + n) split.records).mapM (sortNumbered options.rules) >>= _) =
      shifted n ((numberRecords (line + 1) split.records).mapM (sortNumbered options.rules) >>= _)
    rw [hm]
    rcases (numberRecords (line + 1) split.records).mapM (sortNumbered options.rules) with
      fault | sorted
    · rfl
    · have hrecords : (sorted.map (shiftSorted n)).map (·.1) = sorted.map (·.1) := by
        simp [shiftSorted]
      have htallies : (sorted.map (shiftSorted n)).flatMap (·.2) =
          (sorted.flatMap (·.2)).map (Tally.shift n) := by
        simp [shiftSorted, List.flatMap_map, List.map_flatMap]
      simp only [bind, Except.bind, pure, Except.pure, shifted, Passage.shift, hrecords, htallies,
        List.map_append]
      rfl

theorem sortBody_shift (opening : Opening) (line : Int) (body : List Line) :
    sortBody options opening (line + n) body = shifted n (sortBody options opening line body) := by
  cases opening with
  | array key indent => rfl
  | «section» kind =>
    simp only [sortBody]
    split_ifs
    · rfl
    · exact sortSection_shift kind line body
    · rfl

end Regions

end ProjectOrder.Document
