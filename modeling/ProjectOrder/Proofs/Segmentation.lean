import Mathlib.Data.List.TakeWhile
import ProjectOrder.Document.Segment

/-! The one way to cut lines at their regions, and what it makes of lines put together anew. -/
namespace ProjectOrder.Document

/-- Whether a region has its closing line. -/
def Segment.isClosed : Segment → Bool
  | .unclosed _ _ _ => false
  | _ => true

/-- Nothing opens where a line is plain, a region opens as it says, and it goes up to the first line
that closes it. -/
def Segment.IsCut (opening? : Line → Option Opening) : Segment → Prop
  | .plain line => opening? line = none
  | .region opening head body closing =>
    opening? head = some opening ∧ (∀ line ∈ body, opening.closedBy line = false) ∧
      opening.closedBy closing = true
  | .unclosed opening head body =>
    opening? head = some opening ∧ ∀ line ∈ body, opening.closedBy line = false

/-- Every region among the lines has its end. -/
def Closes (opening? : Line → Option Opening) (lines : List Line) : Prop :=
  ∀ s ∈ segments opening? lines, s.isClosed

/-- Segments that make up the lines, of which only the last may lack its end. -/
structure IsSegmentation (opening? : Line → Option Opening) (lines : List Line)
    (segs : List Segment) : Prop where
  lines_eq : segs.flatMap Segment.lines = lines
  isCut : ∀ s ∈ segs, s.IsCut opening?
  isClosed : ∀ s ∈ segs.dropLast, s.isClosed

variable {opening? : Line → Option Opening}

@[simp] theorem segments_nil : segments opening? [] = [] := by
  simp [segments]

theorem segments_plain {line : Line} (h : opening? line = none) (rest : List Line) :
    segments opening? (line :: rest) = .plain line :: segments opening? rest := by
  rw [segments, h]

section FirstLine
variable {p : Line → Bool} {first : Line} {before after lines : List Line}

/-- Lines are cut in front of the first of which `p` holds. -/
theorem cut_before_first (hb : ∀ line ∈ before, p line = false) (hf : p first = true)
    (after : List Line) :
    (before ++ first :: after).takeWhile (!p ·) = before ∧
      (before ++ first :: after).dropWhile (!p ·) = first :: after := by
  have hb' : ∀ line ∈ before, (!p line) = true := by simpa using hb
  rw [List.takeWhile_append_of_pos hb', List.dropWhile_append_of_pos hb']
  simp [hf]

theorem first_of_dropWhile (h : lines.dropWhile (!p ·) = first :: after) :
    (∀ line ∈ lines.takeWhile (!p ·), p line = false) ∧ p first = true := by
  have hfirst := List.head?_dropWhile_not (!p ·) lines
  constructor
  · simpa using List.all_eq_true.mp (List.all_takeWhile (l := lines) (p := (!p ·)))
  · simpa [h] using hfirst

end FirstLine

theorem segments_region {opening : Opening} {head closing : Line} {body : List Line}
    (h : Segment.IsCut opening? (.region opening head body closing)) (after : List Line) :
    segments opening? (head :: (body ++ closing :: after)) =
      .region opening head body closing :: segments opening? after := by
  obtain ⟨ho, hb, hc⟩ := h
  obtain ⟨ht, hd⟩ := cut_before_first hb hc after
  rw [segments, ho]
  simp only [ht]
  split
  · next hd' => simp [hd] at hd'
  · next hd' =>
    rw [hd, List.cons.injEq] at hd'
    obtain ⟨rfl, rfl⟩ := hd'
    rfl

theorem segments_unclosed {opening : Opening} {head : Line} {body : List Line}
    (h : Segment.IsCut opening? (.unclosed opening head body)) :
    segments opening? (head :: body) = [.unclosed opening head body] := by
  obtain ⟨ho, hb⟩ := h
  have hd : body.dropWhile (!opening.closedBy ·) = [] := by
    simpa [List.dropWhile_eq_nil_iff] using hb
  rw [segments, ho]
  simp only
  split
  · rfl
  · next hd' => simp [hd] at hd'

theorem isCut_of_mem_segments {lines : List Line} :
    ∀ s ∈ segments opening? lines, s.IsCut opening? := by
  fun_induction segments opening? lines with
  | case1 => simp
  | case2 line rest h ih => simpa [Segment.IsCut, h] using ih
  | case3 line rest opening h hd =>
    have hb := List.dropWhile_eq_nil_iff.mp hd
    simpa [Segment.IsCut, h] using hb
  | case4 line rest opening h body closing after hd ih =>
    obtain ⟨hb, hc⟩ := first_of_dropWhile (p := opening.closedBy) hd
    simpa [Segment.IsCut, h, hc] using ⟨hb, ih⟩

theorem isClosed_of_mem_dropLast_segments {lines : List Line} :
    ∀ s ∈ (segments opening? lines).dropLast, s.isClosed := by
  fun_induction segments opening? lines with
  | case1 => simp
  | case2 line rest h ih =>
    cases hs : segments opening? rest with
    | nil => simp
    | cons s segs => simpa [hs, Segment.isClosed] using ih
  | case3 => simp
  | case4 line rest opening h body closing after hd ih =>
    cases hs : segments opening? after with
    | nil => simp
    | cons s segs => simpa [hs, Segment.isClosed] using ih

theorem isSegmentation_segments (lines : List Line) :
    IsSegmentation opening? lines (segments opening? lines) :=
  ⟨flatMap_lines_segments opening? lines, isCut_of_mem_segments, isClosed_of_mem_dropLast_segments⟩

/-- Closed segments in front of other lines are found again. -/
theorem segments_flatMap_lines_append {segs : List Segment} (hs : ∀ s ∈ segs, s.IsCut opening?)
    (hc : ∀ s ∈ segs, s.isClosed) (rest : List Line) :
    segments opening? (segs.flatMap Segment.lines ++ rest) = segs ++ segments opening? rest := by
  induction segs with
  | nil => simp
  | cons s segs ih =>
    have ih := ih (fun t ht => hs t (by simp [ht])) (fun t ht => hc t (by simp [ht]))
    cases s with
    | plain line =>
      have h : opening? line = none := hs (.plain line) (by simp)
      simp [Segment.lines, segments_plain h, ih]
    | region opening head body closing =>
      have h := hs (.region opening head body closing) (by simp)
      simp [Segment.lines, segments_region h, ih]
    | unclosed opening head body =>
      have h := hc (.unclosed opening head body) (by simp)
      simp [Segment.isClosed] at h

theorem segments_flatMap_lines {segs : List Segment} (hs : ∀ s ∈ segs, s.IsCut opening?)
    (hc : ∀ s ∈ segs, s.isClosed) : segments opening? (segs.flatMap Segment.lines) = segs := by
  simpa using segments_flatMap_lines_append hs hc []

/-- There is no other way to cut the lines. -/
theorem IsSegmentation.eq_segments {lines : List Line} {segs : List Segment}
    (h : IsSegmentation opening? lines segs) : segs = segments opening? lines := by
  rw [← h.lines_eq]
  rcases List.eq_nil_or_concat segs with rfl | ⟨init, last, rfl⟩
  · simp
  have hinit : ∀ s ∈ init, s.isClosed := by simpa using h.isClosed
  have hcut : ∀ s ∈ init, s.IsCut opening? := fun s hs => h.isCut s (by simp [hs])
  have hlast : last.IsCut opening? := h.isCut last (by simp)
  rw [List.concat_eq_append, List.flatMap_append, segments_flatMap_lines_append hcut hinit]
  congr 1
  cases last with
  | plain line => simpa [Segment.lines] using (segments_plain hlast []).symm
  | region opening head body closing => simpa [Segment.lines] using (segments_region hlast []).symm
  | unclosed opening head body => simpa [Segment.lines] using (segments_unclosed hlast).symm

theorem existsUnique_isSegmentation (opening? : Line → Option Opening) (lines : List Line) :
    ∃! segs, IsSegmentation opening? lines segs :=
  ⟨segments opening? lines, isSegmentation_segments lines, fun _ h => h.eq_segments⟩

/-- Lines whose regions are all closed are cut without a look at what follows them. -/
theorem segments_append {lines : List Line} (h : Closes opening? lines) (rest : List Line) :
    segments opening? (lines ++ rest) = segments opening? lines ++ segments opening? rest := by
  have hs : segments opening? ((segments opening? lines).flatMap Segment.lines ++ rest) = _ :=
    segments_flatMap_lines_append isCut_of_mem_segments h rest
  rwa [flatMap_lines_segments] at hs

/-- Lines start with one outside every region, with a whole region, or with one that nothing closes. -/
theorem segments_induction (opening? : Line → Option Opening) {motive : List Line → Prop}
    (nil : motive [])
    (plain : ∀ line rest, opening? line = none → motive rest → motive (line :: rest))
    (region : ∀ opening head body closing after,
      Segment.IsCut opening? (.region opening head body closing) → motive after →
        motive (head :: (body ++ closing :: after)))
    (unclosed : ∀ opening head body, Segment.IsCut opening? (.unclosed opening head body) →
      motive (head :: body))
    (lines : List Line) : motive lines := by
  have hcut : ∀ s ∈ segments opening? lines, s.IsCut opening? := isCut_of_mem_segments
  rw [← flatMap_lines_segments opening? lines]
  fun_induction segments opening? lines with
  | case1 => exact nil
  | case2 line rest h ih =>
    exact plain line _ h (ih fun s hs => hcut s (by simp [hs]))
  | case3 line rest opening h hd =>
    simpa [Segment.lines] using unclosed opening line rest (hcut _ (by simp))
  | case4 line rest opening h body closing after hd ih =>
    simpa [Segment.lines] using
      region opening line body closing _ (hcut _ (by simp)) (ih fun s hs => hcut s (by simp [hs]))

theorem closes_plain_cons_iff {line : Line} (h : opening? line = none) {rest : List Line} :
    Closes opening? (line :: rest) ↔ Closes opening? rest := by
  simp [Closes, segments_plain h, Segment.isClosed]

/-- A last line that neither opens nor closes a region does not matter. -/
theorem closes_append_plain_iff {line : Line} (ho : opening? line = none)
    (hc : ∀ head opening, opening? head = some opening → opening.closedBy line = false)
    {lines : List Line} : Closes opening? (lines ++ [line]) ↔ Closes opening? lines := by
  constructor
  · intro h
    induction lines using segments_induction opening? with
    | nil => simp [Closes]
    | plain first rest hfirst ih =>
      rw [List.cons_append, closes_plain_cons_iff hfirst] at h
      exact (closes_plain_cons_iff hfirst).mpr (ih h)
    | region opening head body closing after hcut ih =>
      simp only [List.cons_append, List.append_assoc] at h
      simp only [Closes, segments_region hcut, List.forall_mem_cons] at h ⊢
      exact ⟨rfl, ih h.2⟩
    | unclosed opening head body hcut =>
      have hcut' : Segment.IsCut opening? (.unclosed opening head (body ++ [line])) := by
        obtain ⟨hopen, hbody⟩ := hcut
        refine ⟨hopen, ?_⟩
        simpa [or_imp, forall_and] using ⟨hbody, hc head opening hopen⟩
      simp [Closes, segments_unclosed hcut', Segment.isClosed] at h
  · intro h
    simpa [Closes, segments_append h, segments_plain ho, Segment.isClosed, or_imp, forall_and]
      using h

/-- The segment with another inside, if it is a region. -/
def Segment.mapBody (f : Opening → List Line → List Line) : Segment → Segment
  | .region opening head body closing => .region opening head (f opening body) closing
  | s => s

@[simp] theorem isClosed_mapBody (f : Opening → List Line → List Line) (s : Segment) :
    (s.mapBody f).isClosed = s.isClosed := by
  cases s <;> rfl

theorem isCut_mapBody {f : Opening → List Line → List Line}
    (hf : ∀ opening body, f opening body ⊆ body) {s : Segment} (h : s.IsCut opening?) :
    (s.mapBody f).IsCut opening? := by
  cases s with
  | plain line => exact h
  | region opening head body closing =>
    obtain ⟨ho, hb, hc⟩ := h
    exact ⟨ho, fun line hl => hb line (hf opening body hl), hc⟩
  | unclosed opening head body => exact h

/-- The lines with another inside in each of their regions. -/
def rebuild (opening? : Line → Option Opening) (f : Opening → List Line → List Line)
    (lines : List Line) : List Line :=
  ((segments opening? lines).map (Segment.mapBody f)).flatMap Segment.lines

section Rebuild
variable {f : Opening → List Line → List Line} {lines : List Line}

theorem rebuild_plain_cons {line : Line} (h : opening? line = none) (rest : List Line) :
    rebuild opening? f (line :: rest) = line :: rebuild opening? f rest := by
  simp [rebuild, segments_plain h, Segment.mapBody, Segment.lines]

theorem rebuild_append (h : Closes opening? lines) (rest : List Line) :
    rebuild opening? f (lines ++ rest) = rebuild opening? f lines ++ rebuild opening? f rest := by
  simp [rebuild, segments_append h]

/-- Lines that are put together from closed regions with fewer lines inside are cut at the same
places. -/
theorem segments_rebuild (hf : ∀ opening body, f opening body ⊆ body)
    (hc : Closes opening? lines) :
    segments opening? (rebuild opening? f lines) =
      (segments opening? lines).map (Segment.mapBody f) := by
  apply segments_flatMap_lines
  · simpa using fun s hs => isCut_mapBody hf (isCut_of_mem_segments s hs)
  · simpa [Closes] using hc

theorem closes_rebuild (hf : ∀ opening body, f opening body ⊆ body) (hc : Closes opening? lines) :
    Closes opening? (rebuild opening? f lines) := by
  simpa [Closes, segments_rebuild hf hc] using hc

/-- The first line stays, since it is plain or opens a region. -/
theorem head?_rebuild : (rebuild opening? f lines).head? = lines.head? := by
  have h := congrArg List.head? (flatMap_lines_segments opening? lines)
  rw [rebuild, ← h]
  cases segments opening? lines with
  | nil => rfl
  | cons s segs => cases s <;> rfl

theorem rebuild_eq_self_iff (hf : ∀ opening body, f opening body ⊆ body)
    (hc : Closes opening? lines) :
    rebuild opening? f lines = lines ↔ ∀ s ∈ segments opening? lines, s.mapBody f = s := by
  constructor
  · intro h
    have hs := segments_rebuild hf hc
    rw [h] at hs
    exact List.map_inj_left.mp (hs.symm.trans (List.map_id _).symm)
  · intro h
    rw [rebuild, List.map_congr_left h, List.map_id', flatMap_lines_segments]

theorem rebuild_rebuild (hf : ∀ opening body, f opening body ⊆ body)
    (hff : ∀ opening body, f opening (f opening body) = f opening body)
    (hc : Closes opening? lines) :
    rebuild opening? f (rebuild opening? f lines) = rebuild opening? f lines := by
  rw [rebuild_eq_self_iff hf (closes_rebuild hf hc), segments_rebuild hf hc]
  simp only [List.mem_map, forall_exists_index, and_imp, forall_apply_eq_imp_iff₂]
  intro s _
  cases s <;> simp [Segment.mapBody, hff]

/-- Lines put together anew are cut where the lines they come from can be cut, too. -/
theorem rebuild_eq_append (hf : ∀ opening body, f opening body ⊆ body)
    {start rest : List Line} (hc : Closes opening? lines) (hs : Closes opening? start)
    (h : start ++ rest = rebuild opening? f lines) :
    ∃ a b, a ++ b = lines ∧ segments opening? a ⊆ segments opening? lines ∧
      rebuild opening? f a = start ∧ rebuild opening? f b = rest := by
  have hsegs := segments_rebuild hf hc
  rw [← h, segments_append hs] at hsegs
  obtain ⟨sa, sb, hsplit, ha, hb⟩ := List.map_eq_append_iff.mp hsegs.symm
  have cut : ∀ segs ⊆ segments opening? lines,
      segments opening? (segs.flatMap Segment.lines) = segs := by
    intro segs hsub
    apply segments_flatMap_lines
    · exact fun s hs => isCut_of_mem_segments s (hsub hs)
    · exact fun s hs => hc s (hsub hs)
  have hsa : sa ⊆ segments opening? lines := hsplit ▸ List.subset_append_left sa sb
  have hsb : sb ⊆ segments opening? lines := hsplit ▸ List.subset_append_right sa sb
  refine ⟨sa.flatMap Segment.lines, sb.flatMap Segment.lines, ?_, ?_, ?_, ?_⟩
  · rw [← List.flatMap_append, ← hsplit, flatMap_lines_segments]
  · rwa [cut sa hsa]
  · rw [rebuild, cut sa hsa, ha, flatMap_lines_segments]
  · rw [rebuild, cut sb hsb, hb, flatMap_lines_segments]

end Rebuild

theorem exists_array_of_arrayOpening? {line : Line} {opening : Opening}
    (h : arrayOpening? line = some opening) : ∃ key indent, opening = .array key indent := by
  obtain ⟨⟨key, r⟩, -, h⟩ := Option.bind_eq_some_iff.mp h
  obtain ⟨a, -, h⟩ := Option.bind_eq_some_iff.mp h
  obtain ⟨b, -, h⟩ := Option.bind_eq_some_iff.mp h
  obtain ⟨-, h⟩ := Option.ite_none_right_eq_some.mp h
  exact ⟨key, _, (Option.some.inj h).symm⟩

end ProjectOrder.Document
