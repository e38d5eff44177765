import Mathlib.Data.List.Forall2
import ProjectOrder.Proofs.SortedLines

/-! When segments can be put together, and what the passages are that are made of them. -/
namespace ProjectOrder.Document
open ProjectOrder.Name ProjectOrder.Text

section Counts
variable (first : Int) (opening : Opening) (head closing : Line) (body : List Line)
  (segs : List Segment)

/-- The number of the line after a region. -/
theorem add_length_region :
    first + (Segment.region opening head body closing).lines.length = first + body.length + 2 := by
  simp only [Segment.lines, List.length_cons, List.length_append, List.length_nil]
  omega

/-- The number of the line after segments of which the first is a line outside every region. -/
theorem add_length_plain_cons (line : Line) :
    first + ((Segment.plain line :: segs).flatMap Segment.lines).length =
      first + 1 + (segs.flatMap Segment.lines).length := by
  simp only [List.flatMap_cons, Segment.lines, List.length_append, List.length_singleton]
  omega

theorem add_length_region_cons :
    first + ((Segment.region opening head body closing :: segs).flatMap Segment.lines).length =
      first + body.length + 2 + (segs.flatMap Segment.lines).length := by
  rw [List.flatMap_cons, List.length_append, ← add_length_region first opening head closing body]
  omega

end Counts

section Passages
variable {sortBody : Opening → Int → List Line → Except Fault Passage}

/-- The passage puts segments together, with the inside of each region as `sortBody` leaves it. -/
inductive Joins (sortBody : Opening → Int → List Line → Except Fault Passage) :
    List Segment → Passage → Prop
  | nil : Joins sortBody [] { lines := [], tallies := [] }
  | plain (line : Line) {rest : List Segment} {after : Passage} :
    Joins sortBody rest after →
      Joins sortBody (.plain line :: rest) { after with lines := line :: after.lines }
  | region (opening : Opening) (head closing : Line) {body : List Line} {line : Int}
      {inside after : Passage} {rest : List Segment} :
    sortBody opening line body = .ok inside → Joins sortBody rest after →
      Joins sortBody (.region opening head body closing :: rest)
        { lines := head :: (inside.lines ++ closing :: after.lines)
          tallies := inside.tallies ++ after.tallies }

theorem bind_eq_ok {x : Except ε α} {f : α → Except ε β} {b : β} (h : x >>= f = .ok b) :
    ∃ a, x = .ok a ∧ f a = .ok b := by
  cases x with
  | error e => cases h
  | ok a => exact ⟨a, rfl, h⟩

theorem bind_eq_error {x : Except ε α} {f : α → Except ε β} {e : ε} (h : x >>= f = .error e) :
    x = .error e ∨ ∃ a, x = .ok a ∧ f a = .error e := by
  cases x with
  | error cause => exact .inl (congrArg Except.error (Except.error.inj h))
  | ok a => exact .inr ⟨a, rfl, h⟩

theorem mapError_eq_ok {x : Except ε α} {f : ε → δ} {a : α} :
    x.mapError f = .ok a ↔ x = .ok a := by
  cases x <;> simp [Except.mapError]

theorem mapError_eq_error {x : Except ε α} {f : ε → δ} {e : δ} (h : x.mapError f = .error e) :
    ∃ cause, x = .error cause ∧ f cause = e := by
  cases x with
  | error cause => exact ⟨cause, rfl, Except.error.inj h⟩
  | ok a => cases h

theorem joins_of_sortSegments {first : Int} {segs : List Segment} {passage : Passage}
    (h : sortSegments sortBody first segs = .ok passage) : Joins sortBody segs passage := by
  induction segs generalizing first passage with
  | nil =>
    cases h
    exact .nil
  | cons s segs ih =>
    cases s with
    | plain line =>
      obtain ⟨after, ha, h⟩ := bind_eq_ok h
      cases h
      exact .plain line (ih ha)
    | region opening head body closing =>
      obtain ⟨inside, hi, h⟩ := bind_eq_ok h
      obtain ⟨after, ha, h⟩ := bind_eq_ok h
      cases h
      exact .region opening head closing hi (ih ha)
    | unclosed opening head body => cases h

/-- Segments are put together if all are closed and the inside of none of them is at fault. -/
theorem exists_sortSegments {segs : List Segment} (hc : ∀ s ∈ segs, s.isClosed)
    (hb : ∀ opening head body closing, .region opening head body closing ∈ segs →
      ∀ line, ∃ inside, sortBody opening line body = .ok inside) (first : Int) :
    ∃ passage, sortSegments sortBody first segs = .ok passage := by
  induction segs generalizing first with
  | nil => exact ⟨_, rfl⟩
  | cons s segs ih =>
    have ih := ih (fun t ht => hc t (by simp [ht]))
      (fun opening head body closing hm => hb opening head body closing (by simp [hm]))
    cases s with
    | plain line =>
      obtain ⟨after, ha⟩ := ih (first + 1)
      exact ⟨_, by rw [sortSegments, ha]; rfl⟩
    | region opening head body closing =>
      obtain ⟨inside, hi⟩ := hb opening head body closing (by simp) first
      obtain ⟨after, ha⟩ := ih (first + body.length + 2)
      exact ⟨_, by rw [sortSegments, hi]; simp only [Except.bind, bind]; rw [ha]; rfl⟩
    | unclosed opening head body => simpa [Segment.isClosed] using hc (.unclosed opening head body)

variable {segs : List Segment} {passage : Passage} {f : Opening → List Line → List Line}

theorem Joins.isClosed (h : Joins sortBody segs passage) : ∀ s ∈ segs, s.isClosed := by
  induction h with
  | nil => simp
  | plain line _ ih => simpa [Segment.isClosed] using ih
  | region opening head closing _ _ ih => simpa [Segment.isClosed] using ih

theorem Joins.lines_eq (h : Joins sortBody segs passage)
    (hf : ∀ {opening line body inside}, sortBody opening line body = .ok inside →
      inside.lines = f opening body) :
    passage.lines = (segs.map (Segment.mapBody f)).flatMap Segment.lines := by
  induction h with
  | nil => rfl
  | plain line _ ih => simp [Segment.mapBody, Segment.lines, ih]
  | region opening head closing hb _ ih => simp [Segment.mapBody, Segment.lines, ih, hf hb]

theorem Joins.exists_inside (h : Joins sortBody segs passage)
    {opening : Opening} {head closing : Line} {body : List Line}
    (hm : .region opening head body closing ∈ segs) :
    ∃ line inside, sortBody opening line body = .ok inside := by
  induction h with
  | nil => simp at hm
  | plain line _ ih => exact ih (by simpa using hm)
  | region opening head closing hi _ ih =>
    rcases List.mem_cons.mp hm with he | hm
    · cases he
      exact ⟨_, _, hi⟩
    · exact ih hm

end Passages

section Regions
variable {rules : Rules} {options : Options}

theorem lines_of_sortArrayBody {opening : Opening} {line : Int} {body : List Line}
    {inside : Passage} (h : sortArrayBody rules opening line body = .ok inside) :
    inside.lines = sortedEntries rules opening body := by
  cases opening <;> cases h <;> rfl

theorem exists_sortArrayBody (opening : Opening) (line : Int) (body : List Line) :
    ∃ inside, sortArrayBody rules opening line body = .ok inside := by
  cases opening <;> exact ⟨_, rfl⟩

/-- The passage holds the lines of a record with its arrays sorted. -/
abbrev SortsArrays (rules : Rules) (r : Record) (inside : Passage) : Prop :=
  Joins (sortArrayBody rules) (segments arrayOpening? r.body) inside

theorem SortsArrays.sorted_eq {r : Record} {inside : Passage} (h : SortsArrays rules r inside) :
    { r with body := inside.lines } = r.sorted rules := by
  rw [Record.sorted, h.lines_eq lines_of_sortArrayBody, rebuild]

theorem exists_sortRecordBody (rules : Rules) {body : List Line} (h : Closes arrayOpening? body)
    (first : Int) : ∃ inside, sortRecordBody rules first body = .ok inside :=
  exists_sortSegments h (fun _ _ _ _ _ line => exists_sortArrayBody _ line _) first

/-- The record with its arrays sorted, and their tallies. -/
def sortNumbered (rules : Rules) : Int × Record → Except Fault (Record × List Tally)
  | (first, record) => do
    let inside ← sortRecordBody rules first record.body
    pure ({ record with body := inside.lines }, inside.tallies)

theorem sortNumbered_eq_ok {first : Int} {records : List Record}
    {sorted : List (Record × List Tally)}
    (h : (numberRecords first records).mapM (sortNumbered rules) = .ok sorted) :
    ∃ insides, List.Forall₂ (SortsArrays rules) records insides ∧
      sorted.map (·.1) = records.map (Record.sorted rules) ∧
      sorted.flatMap (·.2) = insides.flatMap Passage.tallies := by
  induction records generalizing first sorted with
  | nil =>
    cases h
    exact ⟨[], .nil, rfl, rfl⟩
  | cons r records ih =>
    rw [numberRecords, List.mapM_cons] at h
    obtain ⟨_, hr, h⟩ := bind_eq_ok h
    obtain ⟨inside, hi, hr⟩ := bind_eq_ok hr
    obtain ⟨more, hm, h⟩ := bind_eq_ok h
    cases hr
    cases h
    obtain ⟨insides, hf, hs, ht⟩ := ih hm
    have hj : SortsArrays rules r inside := joins_of_sortSegments hi
    refine ⟨inside :: insides, .cons hj hf, ?_, ?_⟩
    · simp [hs, hj.sorted_eq]
    · simp [ht]

theorem exists_sortNumbered (rules : Rules) {records : List Record}
    (h : ∀ r ∈ records, Closes arrayOpening? r.body) (first : Int) :
    ∃ sorted, (numberRecords first records).mapM (sortNumbered rules) = .ok sorted := by
  induction records generalizing first with
  | nil => exact ⟨[], rfl⟩
  | cons r records ih =>
    obtain ⟨inside, hi⟩ := exists_sortRecordBody rules (h r (by simp))
      (first + r.leading.length)
    obtain ⟨more, hm⟩ := ih (fun r hr => h r (by simp [hr])) (first + r.lines.length)
    refine ⟨({ r with body := inside.lines }, inside.tallies) :: more, ?_⟩
    rw [numberRecords, List.mapM_cons, sortNumbered, hi]
    simp only [bind, Except.bind, pure, Except.pure, hm]

/-- The tally of a section of these records. -/
def sectionTally (rules : Rules) (kind : String) (line : Int) (records : List Record) : Tally :=
  { kind := .section, name := kind, line
    entries := records.length
    duplicates := (recordArrangement rules records).duplicates
    reordered := (recordArrangement rules records).reordered }

/-- What has become of a section whose records are sorted. -/
structure SortsSection (options : Options) (kind : String) (line : Int) (body : List Line)
    (split : RecordSplit) (insides : List Passage) (passage : Passage) : Prop where
  isRecordSplit : IsRecordSplit options.maxRecordLines body split
  sortsArrays : List.Forall₂ (SortsArrays options.rules) split.records insides
  lines_eq : passage.lines = split.sortedLines options.rules
  tallies_eq : passage.tallies =
    insides.flatMap Passage.tallies ++ [sectionTally options.rules kind line split.records]

theorem sortSection_eq_ok {kind : String} {line : Int} {body : List Line} {passage : Passage}
    (h : sortSection options kind line body = .ok passage) :
    ∃ split insides, SortsSection options kind line body split insides passage := by
  obtain ⟨split, hs, h⟩ := bind_eq_ok h
  obtain ⟨sorted, hm, h⟩ := bind_eq_ok h
  obtain ⟨insides, hf, hr, ht⟩ := @sortNumbered_eq_ok options.rules _ _ _ hm
  cases h
  refine ⟨split, insides, isRecordSplit_of_splitRecords (mapError_eq_ok.mp hs), hf, ?_, ?_⟩
  · simp only [hr]
    rfl
  · simp only [hr, ht]
    rfl

theorem SortsSection.closes {kind : String} {line : Int} {body : List Line} {split : RecordSplit}
    {insides : List Passage} {passage : Passage}
    (h : SortsSection options kind line body split insides passage) :
    ∀ r ∈ split.records, Closes arrayOpening? r.body := by
  intro r hr
  obtain ⟨i, hi, rfl⟩ := List.getElem_of_mem hr
  exact ((List.forall₂_iff_get.mp h.sortsArrays).2 i hi
    ((List.forall₂_iff_get.mp h.sortsArrays).1 ▸ hi)).isClosed

theorem exists_sortSection {body : List Line} {split : RecordSplit}
    (h : IsRecordSplit options.maxRecordLines body split)
    (hc : ∀ r ∈ split.records, Closes arrayOpening? r.body) (kind : String) (line : Int) :
    ∃ passage, sortSection options kind line body = .ok passage := by
  obtain ⟨sorted, hs⟩ := exists_sortNumbered options.rules hc (line + 1)
  rw [sortSection, splitRecords_of_isRecordSplit h]
  change ∃ passage, ((numberRecords (line + 1) split.records).mapM (sortNumbered options.rules) >>=
    fun sorted => Except.ok _) = _
  rw [hs]
  exact ⟨_, rfl⟩

/-- What the sorted inside of a region is. -/
inductive SortsBody (options : Options) (line : Int) (body : List Line) : Opening → Passage → Prop
  | array (key : ArrayKey) (indent : List Char) :
    SortsBody options line body (.array key indent) (sortArray options.rules key line body)
  | copied {kind : String} :
    kind ∉ options.sortableSections →
      SortsBody options line body (.section kind)
        { lines := body
          tallies := [{
            kind := if kind = linkOrderedSection then .linkOrdered else .verbatim
            name := kind, line }] }
  | sorted {kind : String} {split : RecordSplit} {insides : List Passage} {inside : Passage} :
    kind ∈ options.sortableSections → SortsSection options kind line body split insides inside →
      SortsBody options line body (.section kind) inside

variable {opening : Opening} {line : Int} {body : List Line} {inside : Passage}

theorem sortBody_eq_ok (h : sortBody options opening line body = .ok inside) :
    SortsBody options line body opening inside := by
  cases opening with
  | array key indent =>
    cases h
    exact .array key indent
  | «section» kind =>
    by_cases hl : kind = linkOrderedSection
    · have hs : kind ∉ options.sortableSections := hl ▸ options.keepsLinkOrder
      have hcopied : SortsBody options line body (.section kind) _ := .copied hs
      unfold sortBody at h
      simp only [hl, if_true] at h
      cases h
      simpa [hl] using hcopied
    · by_cases hs : kind ∈ options.sortableSections
      · unfold sortBody at h
        simp only [hl, hs, if_false, if_true] at h
        obtain ⟨split, insides, hsection⟩ := sortSection_eq_ok h
        exact .sorted hs hsection
      · have hcopied : SortsBody options line body (.section kind) _ := .copied hs
        unfold sortBody at h
        simp only [hl, hs, if_false] at h
        cases h
        simpa [hl] using hcopied

theorem SortsBody.lines_eq (h : SortsBody options line body opening inside) :
    inside.lines = sortedInside options opening body := by
  cases h with
  | array key indent => rfl
  | copied hs => simp [sortedInside, hs]
  | sorted hs hsection =>
    rw [hsection.lines_eq, sortedInside_of_isRecordSplit hs hsection.isRecordSplit]

/-- Only a sortable section can be at fault, if it is no sequence of records with closed arrays. -/
theorem exists_sortBody (hs : ∀ kind, opening = .section kind → kind ∈ options.sortableSections →
      ∃ split, IsRecordSplit options.maxRecordLines body split ∧
        ∀ r ∈ split.records, Closes arrayOpening? r.body) (line : Int) :
    ∃ inside, sortBody options opening line body = .ok inside := by
  cases opening with
  | array key indent => exact ⟨_, rfl⟩
  | «section» kind =>
    simp only [sortBody]
    split
    · exact ⟨_, rfl⟩
    · split
      · next hk =>
        obtain ⟨split, hsplit, hclosed⟩ := hs kind rfl hk
        exact exists_sortSection hsplit hclosed kind line
      · exact ⟨_, rfl⟩

end Regions

end ProjectOrder.Document
