import ProjectOrder.Proofs.Stability

/-! The section whose order decides linking, and where its lines are out of reach of sorting. -/
namespace ProjectOrder.Document
open ProjectOrder.Text

/-- Whether a marker that begins the link-ordered section stands on the line, be it the first marker
on it or not. -/
def beginsLinkOrdered (line : Line) : Bool :=
  anywhere (fun s => sectionKind? s == some linkOrderedSection) line

/-- The lines from one that begins the link-ordered section to the first after it that ends it. -/
structure IsLinkOrdered (head : Line) (body : List Line) (closing : Line) : Prop where
  begins : beginsLinkOrdered head = true
  goesOn : ∀ line ∈ body, (Opening.section linkOrderedSection).closedBy line = false
  ends : (Opening.section linkOrderedSection).closedBy closing = true

/-- A line that keeps its place among the parts of a document, or all lines inside a region. -/
inductive Part where
  | fixed (line : Line)
  | inside (opening : Opening) (body : List Line)
  deriving DecidableEq, Repr

def Part.lines : Part → List Line
  | .fixed line => [line]
  | .inside _ body => body

/-- The lines that sorting leaves of a part. -/
def Part.sortedLines (options : Options) : Part → List Line
  | .fixed line => [line]
  | .inside opening body => sortedInside options opening body

/-- The part is not the inside of an array, nor that of a sortable section. -/
def Part.IsCopied (options : Options) : Part → Prop
  | .fixed _ => True
  | .inside (.array _ _) _ => False
  | .inside (.section kind) _ => kind ∉ options.sortableSections

def Segment.parts : Segment → List Part
  | .plain line => [.fixed line]
  | .region opening head body closing => [.fixed head, .inside opening body, .fixed closing]
  | .unclosed _ head body => (head :: body).map .fixed

/-- The parts that lines of a document are cut into. -/
def parts (lines : List Line) : List Part :=
  (segments opening? lines).flatMap Segment.parts

theorem flatMap_lines_parts (lines : List Line) : (parts lines).flatMap Part.lines = lines := by
  have hs : ∀ s : Segment, s.parts.flatMap Part.lines = s.lines := by
    intro s
    cases s <;> simp [Segment.parts, Segment.lines, Part.lines, List.flatMap_map]
  simp only [parts, List.flatMap_assoc, hs]
  exact flatMap_lines_segments opening? lines

theorem rebuild_eq_flatMap_parts (options : Options) (lines : List Line) :
    rebuild opening? (sortedInside options) lines =
      (parts lines).flatMap (Part.sortedLines options) := by
  have hs : ∀ s : Segment, (s.mapBody (sortedInside options)).lines =
      s.parts.flatMap (Part.sortedLines options) := by
    intro s
    cases s <;>
      simp [Segment.mapBody, Segment.parts, Segment.lines, Part.sortedLines, List.flatMap_map]
  simp only [rebuild, parts, List.flatMap_map, List.flatMap_assoc, hs]

theorem Part.IsCopied.sortedLines_eq {options : Options} {part : Part} (h : part.IsCopied options) :
    part.sortedLines options = part.lines := by
  rcases part with line | ⟨⟨key, indent⟩ | kind, body⟩
  · rfl
  · exact h.elim
  · have hk : kind ∉ options.sortableSections := h
    simp [Part.sortedLines, Part.lines, sortedInside, hk]

/-- None of the lines of `block` is inside an array or a sortable section, where `block` stands
between `before` and `after`. -/
def StandsFree (options : Options) (before block after : List Line) : Prop :=
  ∃ front kept back start rest, parts (before ++ block ++ after) = front ++ kept ++ back ∧
    (∀ part ∈ kept, part.IsCopied options) ∧
    before = front.flatMap Part.lines ++ start ∧
    kept.flatMap Part.lines = start ++ block ++ rest ∧
    after = rest ++ back.flatMap Part.lines

section Texts
variable {options : Options} {text : List Char} {outcome : Outcome} {before after : List Line}

/-- Lines that stand free come out one after the other, as they are. -/
theorem StandsFree.lines_eq {block : List Line} (hfree : StandsFree options before block after)
    (h : sortText options text = .ok outcome) (hl : lines text = before ++ block ++ after) :
    ∃ start rest, lines outcome.text = start ++ block ++ rest := by
  obtain ⟨front, kept, back, start, rest, hp, hcopied, -, hk, -⟩ := hfree
  have hkept : kept.flatMap (Part.sortedLines options) = kept.flatMap Part.lines :=
    List.flatMap_congr fun part hpart => (hcopied part hpart).sortedLines_eq
  have hsorted : lines outcome.text = front.flatMap (Part.sortedLines options) ++
      (start ++ block ++ rest) ++ back.flatMap (Part.sortedLines options) := by
    rw [lines_of_sortText h, rebuild_eq_flatMap_parts, hl, hp, List.flatMap_append,
      List.flatMap_append, hkept, hk]
  refine ⟨front.flatMap (Part.sortedLines options) ++ start,
    rest ++ back.flatMap (Part.sortedLines options), ?_⟩
  rw [hsorted]
  simp only [List.append_assoc]

variable {head closing : Line} {body : List Line}

/-- Where the section is met outside all other regions, it is a region of its own. -/
theorem IsLinkOrdered.segments_eq (hs : IsLinkOrdered head body closing)
    (hc : Closes opening? before) (ho : opening? head = some (.section linkOrderedSection))
    (after : List Line) :
    segments opening? (before ++ head :: (body ++ closing :: after)) =
      segments opening? before ++
        .region (.section linkOrderedSection) head body closing :: segments opening? after := by
  have hcut : Segment.IsCut opening? (.region (.section linkOrderedSection) head body closing) :=
    ⟨ho, hs.goesOn, hs.ends⟩
  rw [segments_append hc, segments_region hcut]

theorem sortedInside_linkOrdered (options : Options) (body : List Line) :
    sortedInside options (.section linkOrderedSection) body = body := by
  simp [sortedInside, options.keepsLinkOrder]

theorem IsLinkOrdered.standsFree (hs : IsLinkOrdered head body closing)
    (hc : Closes opening? before) (ho : opening? head = some (.section linkOrderedSection))
    (after : List Line) :
    StandsFree options before (head :: (body ++ [closing])) after := by
  have hsegs := hs.segments_eq hc ho after
  refine ⟨parts before, [.fixed head, .inside (.section linkOrderedSection) body, .fixed closing],
    parts after, [], [], ?_, ?_, ?_, ?_, ?_⟩
  · have hlines : before ++ (head :: (body ++ [closing])) ++ after =
        before ++ head :: (body ++ closing :: after) := by simp
    rw [hlines, parts, hsegs]
    simp [parts, Segment.parts]
  · simpa [Part.IsCopied] using options.keepsLinkOrder
  · simp [flatMap_lines_parts]
  · simp [Part.lines]
  · simp [flatMap_lines_parts]

theorem IsLinkOrdered.rebuild_eq (hs : IsLinkOrdered head body closing)
    (hc : Closes opening? before) (ho : opening? head = some (.section linkOrderedSection))
    (after : List Line) :
    rebuild opening? (sortedInside options) (before ++ head :: (body ++ closing :: after)) =
      rebuild opening? (sortedInside options) before ++
        head :: (body ++ closing :: rebuild opening? (sortedInside options) after) := by
  rw [rebuild, hs.segments_eq hc ho]
  simp [rebuild, Segment.mapBody, Segment.lines, sortedInside_linkOrdered]

/-- The link-ordered section comes out as it is, line after line, if none of its lines is inside an
array or a sortable section. Where it is met outside all other regions that is so whatever stands
before and after it, and what stands there is sorted as if the section was not there. -/
theorem link_order_kept (h : sortText options text = .ok outcome)
    (hl : lines text = before ++ head :: (body ++ closing :: after))
    (hs : IsLinkOrdered head body closing) :
    (StandsFree options before (head :: (body ++ [closing])) after →
      ∃ start rest, lines outcome.text = start ++ head :: (body ++ closing :: rest)) ∧
    (Closes opening? before → opening? head = some (.section linkOrderedSection) →
      StandsFree options before (head :: (body ++ [closing])) after ∧
      lines outcome.text = rebuild opening? (sortedInside options) before ++
        head :: (body ++ closing :: rebuild opening? (sortedInside options) after)) := by
  constructor
  · intro hfree
    obtain ⟨start, rest, he⟩ := hfree.lines_eq h (by simpa using hl)
    exact ⟨start, rest, by simpa using he⟩
  · intro hc ho
    refine ⟨hs.standsFree hc ho after, ?_⟩
    rw [lines_of_sortText h, hl, hs.rebuild_eq hc ho]

end Texts

/-- Files that are linked one after the other. -/
def linkedB : Line :=
  "000000000000000000000000 /* b in Frameworks */,".toList

def linkedA : Line :=
  "000000000000000000000001 /* a in Frameworks */,".toList

def linkHead : Line :=
  "/* Begin PBXFrameworksBuildPhase section */".toList

def linkClosing : Line :=
  "/* End PBXFrameworksBuildPhase section */".toList

def phaseLines (files : List Line) : List Line :=
  "000000000000000000000002 /* Frameworks */ = \x7b".toList :: "files = (".toList ::
    (files ++ [");".toList, "\x7d;".toList])

theorem isCut_of_all {opening : Opening} {head closing : Line} {body : List Line}
    (ho : opening? head = some opening) (hb : body.all (!opening.closedBy ·) = true)
    (hc : opening.closedBy closing = true) :
    Segment.IsCut opening? (.region opening head body closing) :=
  ⟨ho, by simpa using hb, hc⟩

theorem lines_unlines_of_all {kept : List Line} (hne : kept ≠ [])
    (h : kept.all (!·.contains '\n') = true) : lines (unlines kept) = kept :=
  splitAt_joinWith hne (by simpa using h)

theorem segments_unlines {segs : List Segment}
    (hl : lines (unlines (segs.flatMap Segment.lines)) = segs.flatMap Segment.lines)
    (hs : ∀ s ∈ segs, s.IsCut opening?) (hc : ∀ s ∈ segs, s.isClosed) :
    segments opening? (lines (unlines (segs.flatMap Segment.lines))) = segs := by
  rw [hl]
  exact segments_flatMap_lines hs hc

theorem sortText_of_sortSegments {options : Options} {text : List Char} {segs : List Segment}
    {passage : Passage} (hs : segments opening? (lines text) = segs)
    (h : sortSegments (sortBody options) 1 segs = .ok passage) :
    sortText options text = .ok
      { text := unlines passage.lines
        changed := unlines passage.lines != text
        tallies := passage.tallies } := by
  rw [sortText, sortLines, hs, h]
  rfl

theorem isLinkOrdered_of_all {head closing : Line} {body : List Line}
    (ho : beginsLinkOrdered head = true)
    (hb : body.all (!(Opening.section linkOrderedSection).closedBy ·) = true)
    (hc : (Opening.section linkOrderedSection).closedBy closing = true) :
    IsLinkOrdered head body closing :=
  ⟨ho, by simpa using hb, hc⟩

private theorem isLinkOrdered_phaseLines :
    IsLinkOrdered linkHead (phaseLines [linkedB, linkedA]) linkClosing :=
  isLinkOrdered_of_all (by cbv) (by cbv) (by cbv)

/-- Records that are not in order, with a link-ordered section after them. -/
def recordsThenPhase (records : Segment) : List Segment :=
  [records, .region (.section linkOrderedSection) linkHead (phaseLines [linkedB, linkedA])
    linkClosing]

private theorem isCut_recordsThenPhase :
    ∀ s ∈ recordsThenPhase swappedRecords, s.IsCut opening? := by
  simp only [recordsThenPhase, List.forall_mem_cons, List.not_mem_nil, false_imp_iff, implies_true,
    and_true]
  refine ⟨isCut_of_all ?_ ?_ ?_, isCut_of_all ?_ ?_ ?_⟩ <;> cbv

private theorem sortSegments_recordsThenPhase :
    sortSegments (sortBody sampleOptions) 1 (recordsThenPhase swappedRecords) = .ok
      { lines := (recordsThenPhase (swappedRecords.mapBody fun _ => List.reverse)).flatMap
          Segment.lines
        tallies := [
          { kind := .section, name := "K", line := 1, entries := 2, reordered := true },
          { kind := .linkOrdered, name := linkOrderedSection, line := 5 }] } := by
  cbv

/-- The records before the section change places, and the files in it do not. -/
theorem link_order_kept_after_swapped_records :
    ∃ outcome, sortText sampleOptions
        (unlines ((recordsThenPhase swappedRecords).flatMap Segment.lines)) = .ok outcome ∧
      StandsFree sampleOptions swappedRecords.lines
        (linkHead :: (phaseLines [linkedB, linkedA] ++ [linkClosing])) [] ∧
      ∃ start rest, lines outcome.text =
        start ++ linkHead :: (phaseLines [linkedB, linkedA] ++ linkClosing :: rest) := by
  have hlines : lines (unlines ((recordsThenPhase swappedRecords).flatMap Segment.lines)) =
      (recordsThenPhase swappedRecords).flatMap Segment.lines :=
    lines_unlines_of_all (by simp [recordsThenPhase, Segment.lines]) (by cbv)
  have hsegs := segments_unlines hlines isCut_recordsThenPhase
    (by simp [recordsThenPhase, swappedRecords, Segment.isClosed])
  have hsorted := sortText_of_sortSegments hsegs sortSegments_recordsThenPhase
  have hl : lines (unlines ((recordsThenPhase swappedRecords).flatMap Segment.lines)) =
      swappedRecords.lines ++ linkHead :: (phaseLines [linkedB, linkedA] ++ linkClosing :: []) := by
    rw [hlines]
    simp [recordsThenPhase, Segment.lines]
  obtain ⟨ho, -, -⟩ := isCut_recordsThenPhase _ (List.mem_cons_of_mem _ List.mem_cons_self)
  have hc : Closes opening? swappedRecords.lines := by
    have hrecords : lines (unlines swappedRecords.lines) = swappedRecords.lines :=
      lines_unlines_of_all (by simp [swappedRecords, Segment.lines]) (by cbv)
    rw [Closes, ← hrecords, segments_swappedRecords, List.forall_mem_singleton]
    rfl
  obtain ⟨hfree, hregion⟩ := link_order_kept hsorted hl isLinkOrdered_phaseLines
  obtain ⟨hstands, -⟩ := hregion hc ho
  exact ⟨_, hsorted, hstands, hfree hstands⟩

/-- Sorting leaves each link-ordered section of the text as it is, wherever it begins. -/
def KeepsLinkOrder (options : Options) (text : List Char) : Prop :=
  ∀ outcome, sortText options text = .ok outcome → ∀ before head body closing after,
    lines text = before ++ head :: (body ++ closing :: after) →
      IsLinkOrdered head body closing →
        ∃ start rest, lines outcome.text = start ++ head :: (body ++ closing :: rest)

theorem not_keepsLinkOrder {options : Options} {text : List Char} {outcome : Outcome}
    {before body after : List Line} {head closing : Line}
    (h : sortText options text = .ok outcome)
    (hl : lines text = before ++ head :: (body ++ closing :: after))
    (hs : IsLinkOrdered head body closing)
    (hn : ¬ (head :: (body ++ [closing])) <:+: lines outcome.text) :
    ¬ KeepsLinkOrder options text := by
  intro hkeeps
  obtain ⟨start, rest, he⟩ := hkeeps outcome h before head body closing after hl hs
  exact hn ⟨start, rest, by simp [he]⟩

/-- A sortable section that goes on through a link-ordered one. -/
def linkOrderInGroup (files : List Line) : List Segment :=
  [.region (.section "PBXGroup") "/* Begin PBXGroup section */".toList
    (linkHead :: (phaseLines files ++ [linkClosing])) "/* End PBXGroup section */".toList]

def scriptsClosing : Line :=
  "/* End PBXShellScriptBuildPhase section */".toList

/-- A copied section that ends inside a link-ordered one. -/
def linkOrderInScripts (files : List Line) : List Segment :=
  [.region (.section "PBXShellScriptBuildPhase")
      "/* Begin PBXShellScriptBuildPhase section */".toList [linkHead] scriptsClosing,
    .region (.array .files []) "files = (".toList files ");".toList,
    .plain linkClosing]

private theorem lines_linkOrderInGroup :
    lines (unlines ((linkOrderInGroup [linkedB, linkedA]).flatMap Segment.lines)) =
      (linkOrderInGroup [linkedB, linkedA]).flatMap Segment.lines :=
  lines_unlines_of_all (by simp [linkOrderInGroup, Segment.lines]) (by cbv)

private theorem lines_linkOrderInScripts :
    lines (unlines ((linkOrderInScripts [linkedB, linkedA]).flatMap Segment.lines)) =
      (linkOrderInScripts [linkedB, linkedA]).flatMap Segment.lines :=
  lines_unlines_of_all (by simp [linkOrderInScripts, Segment.lines]) (by cbv)

private theorem segments_linkOrderInGroup :
    segments opening? (lines (unlines
      ((linkOrderInGroup [linkedB, linkedA]).flatMap Segment.lines))) =
        linkOrderInGroup [linkedB, linkedA] := by
  apply segments_unlines lines_linkOrderInGroup
  · simp only [linkOrderInGroup, List.forall_mem_singleton]
    exact isCut_of_all (by cbv) (by cbv) (by cbv)
  · simp [linkOrderInGroup, Segment.isClosed]

private theorem segments_linkOrderInScripts :
    segments opening? (lines (unlines
      ((linkOrderInScripts [linkedB, linkedA]).flatMap Segment.lines))) =
        linkOrderInScripts [linkedB, linkedA] := by
  apply segments_unlines lines_linkOrderInScripts
  · simp only [linkOrderInScripts, List.forall_mem_cons, List.not_mem_nil, false_imp_iff,
      implies_true, and_true]
    refine ⟨isCut_of_all ?_ ?_ ?_, isCut_of_all ?_ ?_ ?_, show opening? linkClosing = none from ?_⟩
      <;> cbv
  · simp [linkOrderInScripts, Segment.isClosed]

private theorem sortSegments_linkOrderInGroup :
    sortSegments (sortBody standardOptions) 1 (linkOrderInGroup [linkedB, linkedA]) = .ok
      { lines := (linkOrderInGroup [linkedA, linkedB]).flatMap Segment.lines
        tallies := [
          { kind := .array, name := "files", line := 4, entries := 2, reordered := true },
          { kind := .section, name := "PBXGroup", line := 1, entries := 1 }] } := by
  cbv

private theorem sortSegments_linkOrderInScripts :
    sortSegments (sortBody standardOptions) 1 (linkOrderInScripts [linkedB, linkedA]) = .ok
      { lines := (linkOrderInScripts [linkedA, linkedB]).flatMap Segment.lines
        tallies := [
          { kind := .verbatim, name := "PBXShellScriptBuildPhase", line := 1 },
          { kind := .array, name := "files", line := 4, entries := 2, reordered := true }] } := by
  cbv

/-- A section is not protected in the middle of a sortable one that lacks its end before it, nor
where the end of another section makes way for an array inside of it. -/
theorem link_order_lost_in_other_regions :
    ¬ KeepsLinkOrder standardOptions
        (unlines ((linkOrderInGroup [linkedB, linkedA]).flatMap Segment.lines)) ∧
      ¬ KeepsLinkOrder standardOptions
        (unlines ((linkOrderInScripts [linkedB, linkedA]).flatMap Segment.lines)) := by
  constructor
  · have hl : lines (unlines ((linkOrderInGroup [linkedB, linkedA]).flatMap Segment.lines)) =
        ["/* Begin PBXGroup section */".toList] ++ linkHead ::
          (phaseLines [linkedB, linkedA] ++ linkClosing ::
            ["/* End PBXGroup section */".toList]) := by
      rw [lines_linkOrderInGroup]
      simp [linkOrderInGroup, Segment.lines]
    have hsorted := sortText_of_sortSegments segments_linkOrderInGroup sortSegments_linkOrderInGroup
    exact not_keepsLinkOrder hsorted hl isLinkOrdered_phaseLines (by decide +kernel)
  · have hl : lines (unlines ((linkOrderInScripts [linkedB, linkedA]).flatMap Segment.lines)) =
        ["/* Begin PBXShellScriptBuildPhase section */".toList] ++ linkHead ::
          ([scriptsClosing, "files = (".toList, linkedB, linkedA, ");".toList] ++
            linkClosing :: []) := by
      rw [lines_linkOrderInScripts]
      simp [linkOrderInScripts, Segment.lines]
    have hs : IsLinkOrdered linkHead
        [scriptsClosing, "files = (".toList, linkedB, linkedA, ");".toList] linkClosing :=
      isLinkOrdered_of_all (by cbv) (by cbv) (by cbv)
    have hsorted :=
      sortText_of_sortSegments segments_linkOrderInScripts sortSegments_linkOrderInScripts
    exact not_keepsLinkOrder hsorted hl hs (by decide +kernel)

end ProjectOrder.Document
