import ProjectOrder.Bundle.Store
import ProjectOrder.Proofs.Numbering
import ProjectOrder.Proofs.RebuiltBraces
import ProjectOrder.Proofs.ReturnedLines
import ProjectOrder.Proofs.SortedText

/-! A document whose line feeds all have carriage returns before them is sorted like one without. -/
namespace ProjectOrder.Document
open ProjectOrder.Name ProjectOrder.Text

/-- The line with a carriage return before its line feed. -/
def returned (line : Line) : Line :=
  line ++ ['\r']

theorem returned_injective : Function.Injective returned :=
  fun _ _ h => List.append_cancel_right h

def Record.withReturns (r : Record) : Record :=
  { leading := r.leading.map returned, body := r.body.map returned }

def RecordSplit.withReturns (split : RecordSplit) : RecordSplit :=
  { records := split.records.map Record.withReturns, trailing := split.trailing.map returned }

def Passage.withReturns (passage : Passage) : Passage :=
  { passage with lines := passage.lines.map returned }

/-- The passage with more lines after it, in which there are no regions. -/
def Passage.followedBy (passage : Passage) (tail : List Line) : Passage :=
  { passage with lines := passage.lines ++ tail }

theorem lines_withReturns_record (r : Record) : r.withReturns.lines = r.lines.map returned := by
  simp [Record.withReturns, Record.lines]

section Segments

/-- Regions open and close at the same lines, with carriage returns or without. -/
structure Overlooks (opening? : Line → Option Opening) : Prop where
  opens : ∀ line, opening? (returned line) = opening? line
  closes : ∀ {head opening}, opening? head = some opening →
    ∀ line, opening.closedBy (returned line) = opening.closedBy line

theorem overlooks_opening? : Overlooks opening? :=
  ⟨opening?_return, fun h _ => closedBy_return h⟩

theorem overlooks_arrayOpening? : Overlooks arrayOpening? := by
  refine ⟨arrayOpening?_return, fun {head opening} h _ => ?_⟩
  have hopen : Document.opening? head = some opening := by simp [opening?, h]
  exact closedBy_return hopen

variable {opening? : Line → Option Opening}
  {sortBody : Opening → Int → List Line → Except Fault Passage}

theorem Overlooks.isCut_region (h : Overlooks opening?) {opening : Opening} {head closing : Line}
    {body : List Line} (hc : Segment.IsCut opening? (.region opening head body closing)) :
    Segment.IsCut opening?
      (.region opening (returned head) (body.map returned) (returned closing)) := by
  obtain ⟨ho, hb, hc⟩ := hc
  refine ⟨(h.opens head).trans ho, ?_, (h.closes ho closing).trans hc⟩
  simpa [h.closes ho] using hb

theorem Overlooks.isCut_unclosed (h : Overlooks opening?) {opening : Opening} {head : Line}
    {body : List Line} (hc : Segment.IsCut opening? (.unclosed opening head body)) :
    Segment.IsCut opening? (.unclosed opening (returned head) (body.map returned)) := by
  obtain ⟨ho, hb⟩ := hc
  refine ⟨(h.opens head).trans ho, ?_⟩
  simpa [h.closes ho] using hb

/-- The inside of each region is sorted alike. -/
abbrev SortsAlike (sortBody : Opening → Int → List Line → Except Fault Passage) : Prop :=
  ∀ opening line (body : List Line), (∀ line ∈ body, LacksPhase line) →
    sortBody opening line (body.map returned) =
      (sortBody opening line body).map Passage.withReturns

/-- The lines are sorted alike with carriage returns and without, also where a last line has none. -/
def LinesSortAlike (opening? : Line → Option Opening)
    (sortBody : Opening → Int → List Line → Except Fault Passage) (last : Option Line)
    (lines : List Line) (first : Int) : Prop :=
  ∃ result : Except Fault Passage,
    sortSegments sortBody first (segments opening? (lines ++ last.toList)) =
      result.map (·.followedBy last.toList) ∧
    sortSegments sortBody first (segments opening? (lines.map returned ++ last.toList)) =
      result.map (·.withReturns.followedBy last.toList)

theorem linesSortAlike_nil (last : Option Line) (first : Int) :
    LinesSortAlike opening? sortBody last [] first := by
  simp only [LinesSortAlike, List.map_nil, List.nil_append]
  cases last with
  | none =>
    refine ⟨.ok { lines := [], tallies := [] }, ?_⟩
    simp only [Option.toList_none, segments_nil]
    exact ⟨rfl, rfl⟩
  | some line =>
    cases h : opening? line with
    | none =>
      refine ⟨.ok { lines := [], tallies := [] }, ?_⟩
      simp only [Option.toList_some, segments_plain h, segments_nil]
      exact ⟨rfl, rfl⟩
    | some opening =>
      have hcut : Segment.IsCut opening? (.unclosed opening line []) := ⟨h, by simp⟩
      refine ⟨.error (.unterminated opening first), ?_⟩
      simp only [Option.toList_some, segments_unclosed hcut]
      exact ⟨rfl, rfl⟩

theorem LinesSortAlike.plain {last : Option Line} {line : Line} {rest : List Line} {first : Int}
    (hrest : LinesSortAlike opening? sortBody last rest (first + 1)) (ho : Overlooks opening?)
    (h : opening? line = none) : LinesSortAlike opening? sortBody last (line :: rest) first := by
  obtain ⟨result, hr, hrr⟩ := hrest
  refine ⟨result.map fun after => { after with lines := line :: after.lines }, ?_, ?_⟩
  · rw [List.cons_append, segments_plain h, sortSegments, hr]
    cases result <;> rfl
  · rw [List.map_cons, List.cons_append, segments_plain ((ho.opens line).trans h), sortSegments,
      hrr]
    cases result <;> rfl

theorem LinesSortAlike.region {last : Option Line} {opening : Opening} {head closing : Line}
    {body rest : List Line} {first : Int}
    (hrest : LinesSortAlike opening? sortBody last rest (first + body.length + 2))
    (ho : Overlooks opening?)
    (h : Segment.IsCut opening? (.region opening head body closing))
    (hbody : sortBody opening first (body.map returned) =
      (sortBody opening first body).map Passage.withReturns) :
    LinesSortAlike opening? sortBody last (head :: (body ++ closing :: rest)) first := by
  obtain ⟨result, hr, hrr⟩ := hrest
  refine ⟨(do
    let inside ← sortBody opening first body
    let after ← result
    pure { lines := head :: (inside.lines ++ closing :: after.lines)
           tallies := inside.tallies ++ after.tallies }), ?_, ?_⟩
  · rw [List.cons_append, List.append_assoc, List.cons_append, segments_region h, sortSegments, hr]
    rcases sortBody opening first body with fault | inside
    · rfl
    · cases result with
      | error fault => rfl
      | ok after => simp [bind, Except.bind, pure, Except.pure, Except.map, Passage.followedBy]
  · rw [List.map_cons, List.map_append, List.map_cons, List.cons_append, List.append_assoc,
      List.cons_append, segments_region (ho.isCut_region h), sortSegments, hbody, List.length_map,
      hrr]
    rcases sortBody opening first body with fault | inside
    · rfl
    · cases result with
      | error fault => rfl
      | ok after =>
        simp [bind, Except.bind, pure, Except.pure, Except.map, Passage.followedBy,
          Passage.withReturns]

/-- Where nothing closes a region, the last line may. -/
theorem linesSortAlike_unclosed {opening : Opening} {head : Line} {body : List Line} {first : Int}
    (last : Option Line) (ho : Overlooks opening?)
    (h : Segment.IsCut opening? (.unclosed opening head body))
    (hbody : sortBody opening first (body.map returned) =
      (sortBody opening first body).map Passage.withReturns) :
    LinesSortAlike opening? sortBody last (head :: body) first := by
  have hr := ho.isCut_unclosed h
  cases last with
  | none =>
    refine ⟨.error (.unterminated opening first), ?_, ?_⟩
    · rw [Option.toList_none, List.append_nil, segments_unclosed h]
      rfl
    · rw [Option.toList_none, List.append_nil, List.map_cons, segments_unclosed hr]
      rfl
  | some line =>
    obtain ⟨hopen, hinside⟩ := h
    obtain ⟨hopenr, hinsider⟩ := hr
    rw [LinesSortAlike, Option.toList_some, List.cons_append, List.map_cons, List.cons_append]
    -- the last line has no carriage return on either side, so it closes both or neither
    cases hclose : opening.closedBy line with
    | false =>
      have hcut : Segment.IsCut opening? (.unclosed opening head (body ++ [line])) :=
        ⟨hopen, List.forall_mem_append.mpr ⟨hinside, by simpa using hclose⟩⟩
      have hcutr : Segment.IsCut opening?
          (.unclosed opening (returned head) (body.map returned ++ [line])) :=
        ⟨hopenr, List.forall_mem_append.mpr ⟨hinsider, by simpa using hclose⟩⟩
      refine ⟨.error (.unterminated opening first), ?_⟩
      rw [segments_unclosed hcut, segments_unclosed hcutr]
      exact ⟨rfl, rfl⟩
    | true =>
      have hcut : Segment.IsCut opening? (.region opening head body line) :=
        ⟨hopen, hinside, hclose⟩
      have hcutr : Segment.IsCut opening?
          (.region opening (returned head) (body.map returned) line) := ⟨hopenr, hinsider, hclose⟩
      refine ⟨(sortBody opening first body).map fun inside =>
        { inside with lines := head :: inside.lines }, ?_⟩
      rw [segments_region hcut, segments_region hcutr, segments_nil]
      simp only [sortSegments, hbody]
      rcases sortBody opening first body with fault | inside
      · exact ⟨rfl, rfl⟩
      · simp [bind, Except.bind, pure, Except.pure, Except.map, Passage.followedBy,
          Passage.withReturns]

theorem linesSortAlike (ho : Overlooks opening?) (hs : SortsAlike sortBody) (last : Option Line)
    {lines : List Line} (hl : ∀ line ∈ lines, LacksPhase line) (first : Int) :
    LinesSortAlike opening? sortBody last lines first := by
  induction lines using segments_induction opening? generalizing first with
  | nil => exact linesSortAlike_nil last first
  | plain line rest h ih => exact (ih (fun l hm => hl l (by simp [hm])) _).plain ho h
  | region opening head body closing after h ih =>
    have hbody := hs opening first body fun l hm => hl l (by simp [hm])
    exact (ih (fun l hm => hl l (by simp [hm])) _).region ho h hbody
  | unclosed opening head body h =>
    have hbody := hs opening first body fun l hm => hl l (by simp [hm])
    exact linesSortAlike_unclosed last ho h hbody

theorem sortSegments_returned (ho : Overlooks opening?) (hs : SortsAlike sortBody)
    {lines : List Line} (hl : ∀ line ∈ lines, LacksPhase line) (first : Int) :
    sortSegments sortBody first (segments opening? (lines.map returned)) =
      (sortSegments sortBody first (segments opening? lines)).map Passage.withReturns := by
  obtain ⟨result, hr, hrr⟩ := linesSortAlike ho hs none hl first
  simp only [Option.toList_none, List.append_nil, Passage.followedBy] at hr hrr
  rw [hr, hrr]
  cases result <;> rfl

end Segments

section Records

theorem closesFrom_returned {balance : Int} {lines : List Line} :
    ClosesFrom balance (lines.map returned) ↔ ClosesFrom balance lines := by
  induction lines generalizing balance with
  | nil => rfl
  | cons line lines ih => simp only [List.map_cons, ClosesFrom, returned, braceBalance_return, ih]

theorem takeUntilBalanced_returned_eq_none {balance : Int} {limit : Nat} {rest : List Line}
    (h : takeUntilBalanced balance limit rest = none) :
    takeUntilBalanced balance limit (rest.map returned) = none := by
  cases hr : takeUntilBalanced balance limit (rest.map returned) with
  | none => rfl
  | some found =>
    obtain ⟨heq, hlength, hcloses⟩ := takeUntilBalanced_eq_some_iff.mp hr
    obtain ⟨taken, after, rfl, htaken, -⟩ := List.append_eq_map_iff.mp heq
    rw [← htaken] at hlength hcloses
    rw [takeUntilBalanced_eq_some_iff.mpr
      ⟨rfl, by simpa using hlength, closesFrom_returned.mp hcloses⟩] at h
    cases h

theorem isWhole_withReturns {maxLines : Int} {r : Record} (h : r.IsWhole maxLines) :
    r.withReturns.IsWhole maxLines := by
  obtain ⟨⟨hleading, head, inner, hbody, hhead⟩, hbalanced, hlength⟩ := h
  have hreturned : r.withReturns.body = returned head :: inner.map returned := by
    simp [Record.withReturns, hbody]
  refine ⟨⟨?_, _, _, hreturned, (isRecordHead_return head).trans hhead⟩, ?_, ?_⟩
  · simpa [Record.withReturns, returned, isRecordHead_return] using hleading
  · rw [hbody, balanced_cons_iff] at hbalanced
    rwa [hreturned, balanced_cons_iff, closesFrom_returned, returned, braceBalance_return]
  · simpa [Record.withReturns] using hlength

theorem splitRecords_returned (maxLines first : Int) (lines : List Line) :
    splitRecords maxLines first (lines.map returned) =
      (splitRecords maxLines first lines).map RecordSplit.withReturns := by
  induction lines using records_induction maxLines generalizing first with
  | trailing lines h =>
    have hr : ∀ line ∈ lines.map returned, isRecordHead line = false := by
      simpa [returned, isRecordHead_return] using h
    rw [splitRecords_trailing _ _ h, splitRecords_trailing _ _ hr]
    rfl
  | staysOpen leading head rest h =>
    have hr : StaysOpen maxLines (leading.map returned) (returned head) (rest.map returned) := by
      refine ⟨?_, (isRecordHead_return head).trans h.isHead, ?_⟩
      · simpa [returned, isRecordHead_return] using h.isLeading
      · rw [returned, braceBalance_return]
        exact takeUntilBalanced_returned_eq_none h.stays
    rw [List.map_append, List.map_cons, splitRecords_staysOpen h, splitRecords_staysOpen hr,
      List.length_map]
    rfl
  | record r after h ih =>
    rw [List.map_append, ← lines_withReturns_record, splitRecords_record h,
      splitRecords_record (isWhole_withReturns h), lines_withReturns_record, List.length_map, ih]
    rcases splitRecords maxLines (first + r.lines.length) after with line | split <;> rfl

end Records

section Regions
variable {rules : Rules} {options : Options}

theorem sortArray_returned (key : ArrayKey) (line : Int) {entries : List Line}
    (h : ∀ entry ∈ entries, LacksPhase entry) :
    sortArray rules key line (entries.map returned) =
      (sortArray rules key line entries).withReturns := by
  have harrange : key.arrange rules (entries.map returned) =
      { entries := (key.arrange rules entries).entries.map returned
        duplicates := (key.arrange rules entries).duplicates
        reordered := (key.arrange rules entries).reordered } :=
    arrangeBy_map returned_injective (fun _ => rfl)
      fun entry hm => entryRank_return key rules (h entry hm)
  have hunnamed : ((key.arrange rules entries).entries.map returned).countP
        (fun entry => (key.entryName entry).isEmpty) =
      (key.arrange rules entries).entries.countP fun entry => (key.entryName entry).isEmpty := by
    rw [List.countP_map]
    refine List.countP_congr fun entry hm => ?_
    have hentry : LacksPhase entry :=
      h entry ((conserves_arrange key rules entries).subperm.subset hm)
    simp [returned, entryName_return key hentry]
  simp only [sortArray, harrange, Passage.withReturns, List.length_map, hunnamed]

theorem sortsAlike_sortArrayBody : SortsAlike (sortArrayBody rules) := by
  intro opening line body h
  cases opening with
  | array key indent => exact congrArg Except.ok (sortArray_returned key line h)
  | «section» kind => rfl

/-- The sorted record, with carriage returns. -/
def returnSorted (sorted : Record × List Tally) : Record × List Tally :=
  (sorted.1.withReturns, sorted.2)

theorem mapM_sortNumbered_returned (rules : Rules) {records : List Record}
    (h : ∀ r ∈ records, ∀ line ∈ r.body, LacksPhase line) (first : Int) :
    (numberRecords first (records.map Record.withReturns)).mapM (sortNumbered rules) =
      ((numberRecords first records).mapM (sortNumbered rules)).map (List.map returnSorted) := by
  induction records generalizing first with
  | nil => rfl
  | cons r records ih =>
    have hr : sortRecordBody rules (first + r.leading.length) (r.body.map returned) =
        (sortRecordBody rules (first + r.leading.length) r.body).map Passage.withReturns :=
      sortSegments_returned overlooks_arrayOpening? sortsAlike_sortArrayBody (h r (by simp)) _
    have hleading : r.withReturns.leading.length = r.leading.length := by simp [Record.withReturns]
    have hlines : r.withReturns.lines.length = r.lines.length := by simp [lines_withReturns_record]
    have ih := ih (fun r hm => h r (by simp [hm])) (first + r.lines.length)
    rw [List.map_cons, numberRecords, numberRecords, List.mapM_cons, List.mapM_cons, hleading, hlines,
      ih, sortNumbered, sortNumbered, Record.withReturns, hr]
    rcases sortRecordBody rules (first + r.leading.length) r.body with fault | inside
    · rfl
    · rcases (numberRecords (first + r.lines.length) records).mapM (sortNumbered rules) with
        fault | more <;> rfl

theorem skipBlanks_unlines_ne_nil {head : Line} (h : isRecordHead head = true) (inner : List Line) :
    skipBlanks (unlines (head :: inner)) ≠ [] := by
  have hhead : skipBlanks head ≠ [] := by
    intro hblank
    have hnone : afterIdentifier? head = none := by simp [afterIdentifier?, hblank, isIdentifier]
    simp [isRecordHead, hnone] at h
  obtain ⟨rest, hrest⟩ := exists_joinWith_cons '\n' head inner
  rw [unlines, hrest]
  rw [skipBlanks, ne_eq, List.dropWhile_eq_nil_iff] at hhead ⊢
  exact fun hall => hhead fun c hc => hall c (List.mem_append_left rest hc)

/-- A record keeps its rank, since its head is not blank. -/
theorem Record.Starts.rank_withReturns {r : Record} (h : r.Starts) :
    recordRank rules r.withReturns = recordRank rules r := by
  obtain ⟨leading, body⟩ := r
  obtain ⟨-, head, inner, rfl, hh⟩ := h
  have hreturns := returns_unlines (List.cons_ne_nil head inner)
  have hname := recordName_eq hreturns (skipBlanks_unlines_ne_nil hh inner)
  exact congrArg rules.rank hname.symm

/-- Records with carriage returns are arranged like those without. -/
theorem arrangeRecords_withReturns (rules : Rules) {records : List Record}
    (h : ∀ r ∈ records, r.Starts) :
    arrangeRecords rules Record.lines (unlines ·.body) (records.map Record.withReturns) =
      { entries := (arrangeRecords rules Record.lines (unlines ·.body) records).entries.map
          (List.map returned)
        duplicates := (arrangeRecords rules Record.lines (unlines ·.body) records).duplicates
        reordered := (arrangeRecords rules Record.lines (unlines ·.body) records).reordered } :=
  arrangeBy_map (List.map_injective_iff.mpr returned_injective) lines_withReturns_record
    fun r hr => (h r hr).rank_withReturns

theorem sortSection_returned (kind : String) (line : Int) {body : List Line}
    (h : ∀ l ∈ body, LacksPhase l) :
    sortSection options kind line (body.map returned) =
      (sortSection options kind line body).map Passage.withReturns := by
  rw [sortSection, sortSection, splitRecords_returned]
  rcases hs : splitRecords options.maxRecordLines (line + 1) body with fault | split
  · rfl
  obtain ⟨hlines, hwhole, -⟩ := isRecordSplit_of_splitRecords hs
  have hlacks : ∀ r ∈ split.records, ∀ l ∈ r.body, LacksPhase l := by
    intro r hr l hl
    refine h l (hlines ▸ List.mem_append_left _ (List.mem_flatMap.mpr ⟨r, hr, ?_⟩))
    exact List.mem_append_right _ hl
  have hm := mapM_sortNumbered_returned options.rules hlacks (line + 1)
  change ((numberRecords (line + 1) (split.records.map Record.withReturns)).mapM
      (sortNumbered options.rules) >>= _) =
    ((numberRecords (line + 1) split.records).mapM (sortNumbered options.rules) >>= _).map
      Passage.withReturns
  rw [hm]
  rcases hsorted : (numberRecords (line + 1) split.records).mapM (sortNumbered options.rules) with
    fault | sorted
  · rfl
  have hrecords : (sorted.map returnSorted).map (·.1) =
      (sorted.map (·.1)).map Record.withReturns := by
    simp [returnSorted]
  have htallies : (sorted.map returnSorted).flatMap (·.2) = sorted.flatMap (·.2) := by
    simp [returnSorted, List.flatMap_map]
  -- ranks are kept because sorted records still start with their heads
  have hstarts : ∀ r ∈ sorted.map (·.1), r.Starts := by
    obtain ⟨-, -, he, -⟩ := sortNumbered_eq_ok hsorted
    rw [he, List.forall_mem_map]
    exact fun r hr => (hwhole r hr).toStarts.sorted
  have harranged := arrangeRecords_withReturns options.rules hstarts
  simp only [bind, Except.bind, pure, Except.pure, Except.map, Passage.withReturns, hrecords,
    htallies, harranged, List.map_append, List.map_flatten, RecordSplit.withReturns,
    List.length_map]

theorem sortsAlike_sortBody (options : Options) : SortsAlike (sortBody options) := by
  intro opening line body h
  cases opening with
  | array key indent => exact congrArg Except.ok (sortArray_returned key line h)
  | «section» kind =>
    simp only [sortBody]
    split_ifs
    · rfl
    · exact sortSection_returned kind line h
    · rfl

end Regions

/-- The text with a carriage return before each of its line feeds. -/
def withReturns (text : List Char) : List Char :=
  text.flatMap fun c => if c = '\n' then ['\r', '\n'] else [c]

theorem withReturns_of_not_mem {line : Line} (h : '\n' ∉ line) : withReturns line = line := by
  induction line with
  | nil => rfl
  | cons c line ih =>
    have hc : c ≠ '\n' := fun he => h (by simp [he])
    have ih := ih fun hm => h (by simp [hm])
    simpa [withReturns, hc] using ih

/-- All lines but the last get their carriage return. -/
theorem withReturns_unlines {init : List Line} {last : Line}
    (h : ∀ line ∈ init ++ [last], '\n' ∉ line) :
    withReturns (unlines (init ++ [last])) = unlines (init.map returned ++ [last]) := by
  induction init with
  | nil => exact withReturns_of_not_mem (h last (by simp))
  | cons line init ih =>
    have ih := ih fun l hm => h l (List.mem_cons_of_mem _ hm)
    have hline : withReturns line = line := withReturns_of_not_mem (h line (by simp))
    have hjoin : unlines (line :: (init ++ [last])) = line ++ '\n' :: unlines (init ++ [last]) :=
      joinWith_append (List.cons_ne_nil line []) (by simp)
    have hreturned : unlines (returned line :: (init.map returned ++ [last])) =
        returned line ++ '\n' :: unlines (init.map returned ++ [last]) :=
      joinWith_append (List.cons_ne_nil (returned line) []) (by simp)
    rw [List.map_cons, List.cons_append, List.cons_append, hjoin, hreturned, ← ih, withReturns,
      List.flatMap_append, ← withReturns, hline]
    simp [withReturns, returned]

theorem lines_withReturns {text : List Char} {init : List Line} {last : Line}
    (h : lines text = init ++ [last]) :
    lines (withReturns text) = init.map returned ++ [last] := by
  have hfeeds : ∀ line ∈ init ++ [last], '\n' ∉ line := h ▸ not_mem_of_mem_splitAt
  have htext : unlines (init ++ [last]) = text := h ▸ joinWith_splitAt '\n' text
  rw [← htext, withReturns_unlines hfeeds]
  refine splitAt_joinWith (by simp) ?_
  simpa [returned, or_imp, forall_and] using hfeeds

theorem exists_lines_eq (text : List Char) : ∃ init last, lines text = init ++ [last] :=
  ⟨_, _, (List.dropLast_append_getLast (splitAt_ne_nil '\n' text)).symm⟩

theorem withReturns_injective : Function.Injective withReturns := by
  intro a b h
  obtain ⟨init, last, ha⟩ := exists_lines_eq a
  obtain ⟨other, final, hb⟩ := exists_lines_eq b
  have hlines := congrArg lines h
  rw [lines_withReturns ha, lines_withReturns hb] at hlines
  obtain ⟨hinit, hlast⟩ := List.append_inj' hlines rfl
  rw [(List.map_injective_iff.mpr returned_injective hinit), hlast, ← hb] at ha
  have := congrArg unlines ha
  rwa [unlines, joinWith_splitAt, joinWith_splitAt] at this

theorem sortText_withReturns (options : Options) {text : List Char}
    (h : ∀ line ∈ lines text, LacksPhase line) :
    sortText options (withReturns text) = (sortText options text).map fun outcome =>
      { outcome with text := withReturns outcome.text } := by
  obtain ⟨init, last, hlines⟩ := exists_lines_eq text
  have hinit : ∀ line ∈ init, LacksPhase line := fun line hm => h line (by simp [hlines, hm])
  obtain ⟨result, hr, hrr⟩ := linesSortAlike overlooks_opening?
    (sortsAlike_sortBody options) (some last) hinit 1
  rw [Option.toList_some, ← hlines, ← sortLines] at hr
  rw [Option.toList_some, ← lines_withReturns hlines, ← sortLines] at hrr
  rw [sortText, sortText, hr, hrr]
  cases result with
  | error fault => rfl
  | ok passage =>
    have hkept : lines (unlines (passage.lines ++ [last])) = passage.lines ++ [last] :=
      (joins_of_sortSegments hr).lines_unlines_eq
    have hfeeds : ∀ line ∈ passage.lines ++ [last], '\n' ∉ line := hkept ▸ not_mem_of_mem_splitAt
    have htext := withReturns_unlines hfeeds
    have hchanged : (unlines (passage.lines.map returned ++ [last]) != withReturns text) =
        (unlines (passage.lines ++ [last]) != text) := by
      rw [← htext, bne, bne, withReturns_injective.beq_eq]
    refine congrArg Except.ok (?_ : Outcome.mk _ _ _ = Outcome.mk _ _ _)
    rw [Outcome.mk.injEq]
    exact ⟨htext.symm, hchanged, rfl⟩

end ProjectOrder.Document

namespace ProjectOrder.Bundle
open ProjectOrder.Document ProjectOrder.Text

/-- Line endings do not matter: where no line ends in a blank and `in`, carriage returns before the line
feeds are in the sorted text, too, and in nothing else that comes of the sort. -/
theorem sortContent_withReturns (preferences : Preferences) {text : List Char}
    (h : ∀ line ∈ lines text, LacksPhase line) :
    sortContent preferences (withReturns text) =
      (sortContent preferences text).map fun outcome =>
        { text := withReturns outcome.text
          changed := outcome.changed
          tallies := outcome.tallies } := by
  rw [sortContent, sortContent]
  rcases preferences.resolve with fault | options
  · rfl
  · have hsort := sortText_withReturns options h
    change (sortText options (withReturns text)).mapError Fault.document =
      ((sortText options text).mapError Fault.document).map _
    rw [hsort]
    rcases sortText options text with fault | outcome <;> rfl

theorem sortContent_withReturns_of_swapped_records :
    (∀ line ∈ lines (unlines swappedRecords.lines), LacksPhase line) ∧
    sortContent sampleOptions.preferences (withReturns (unlines swappedRecords.lines)) = .ok
      { text := withReturns (unlines (swappedRecords.mapBody fun _ => List.reverse).lines)
        changed := true
        tallies := [
          { kind := .section, name := "K", line := 1, entries := 2, reordered := true }] } := by
  have hlacks : ∀ line ∈ lines (unlines swappedRecords.lines), LacksPhase line := by
    decide +kernel
  refine ⟨hlacks, ?_⟩
  rw [sortContent_withReturns _ hlacks, sortContent, resolve_preferences]
  change ((sortText sampleOptions (unlines swappedRecords.lines)).mapError Fault.document).map _ = _
  rw [sortText_swappedRecords]
  rfl

end ProjectOrder.Bundle
