import Mathlib.Data.List.Flatten
import ProjectOrder.Document.Sort
import ProjectOrder.Proofs.Arrangement
import ProjectOrder.Proofs.RecordBounds
import ProjectOrder.Proofs.Segmentation

/-! The lines that sorting makes of a document, apart from the numbers, tallies and faults. -/
namespace ProjectOrder.Document
open ProjectOrder.Name ProjectOrder.Text

/-- The entries of an array in their order. What is no array stays as it is. -/
def sortedEntries (rules : Rules) (opening : Opening) (body : List Line) : List Line :=
  match opening with
  | .array key _ => (key.arrange rules body).entries
  | .section _ => body

/-- The record with the arrays in it sorted. -/
def Record.sorted (rules : Rules) (r : Record) : Record :=
  { r with body := rebuild arrayOpening? (sortedEntries rules) r.body }

/-- The arrangement of the records of a section, once the arrays in them are sorted. -/
def recordArrangement (rules : Rules) (records : List Record) : Arrangement (List Line) :=
  arrangeRecords rules Record.lines (unlines ·.body) (records.map (Record.sorted rules))

/-- The sorted records of a section and the lines after the last of them. -/
def RecordSplit.sortedLines (rules : Rules) (split : RecordSplit) : List Line :=
  (recordArrangement rules split.records).entries.flatten ++ split.trailing

/-- The inside of a region in its order. Sections that are not sortable, or that are no sequence of
records, stay as they are. -/
def sortedInside (options : Options) (opening : Opening) (body : List Line) : List Line :=
  match opening with
  | .array key _ => (key.arrange options.rules body).entries
  | .section kind =>
    if kind ∈ options.sortableSections then
      match splitRecords options.maxRecordLines 0 body with
      | .ok split => split.sortedLines options.rules
      | .error _ => body
    else body

theorem entries_arrange (key : ArrayKey) (rules : Rules) (entries : List Line) :
    (key.arrange rules entries).entries = arranged id (key.entryRank rules) entries := by
  rw [ArrayKey.arrange, entries_arrangeBy, List.map_id]

/-- The rank of a record among the others. -/
def recordRank (rules : Rules) (r : Record) : Rank :=
  rules.rank (recordName (unlines r.body))

/-- The records that are kept of a section, in their order. -/
def arrangedRecords (rules : Rules) (records : List Record) : List Record :=
  arranged Record.lines (recordRank rules) (records.map (Record.sorted rules))

theorem entries_recordArrangement (rules : Rules) (records : List Record) :
    (recordArrangement rules records).entries = (arrangedRecords rules records).map Record.lines :=
  entries_arrangeBy _ _ _

theorem sortedLines_eq (rules : Rules) (split : RecordSplit) :
    split.sortedLines rules =
      (arrangedRecords rules split.records).flatMap Record.lines ++ split.trailing := by
  rw [RecordSplit.sortedLines, entries_recordArrangement, List.flatMap_def]

theorem sortedInside_of_isRecordSplit {options : Options} {kind : String} {body : List Line}
    {split : RecordSplit} (hk : kind ∈ options.sortableSections)
    (h : IsRecordSplit options.maxRecordLines body split) :
    sortedInside options (.section kind) body = split.sortedLines options.rules := by
  simp [sortedInside, hk, splitRecords_of_isRecordSplit h 0]

/-- What stands after a change has the lines that stood before it, none of them more often. -/
structure Conserves (before after : List Line) : Prop where
  subperm : after.Subperm before
  subset : before ⊆ after

namespace Conserves
variable {a b c d : List Line}

theorem refl (a : List Line) : Conserves a a :=
  ⟨.refl a, List.Subset.refl a⟩

theorem trans (hab : Conserves a b) (hbc : Conserves b c) : Conserves a c :=
  ⟨hbc.subperm.trans hab.subperm, fun _ h => hbc.subset (hab.subset h)⟩

theorem append (hab : Conserves a b) (hcd : Conserves c d) : Conserves (a ++ c) (b ++ d) := by
  constructor
  · exact ((List.subperm_append_left b).mpr hcd.subperm).trans
      ((List.subperm_append_right c).mpr hab.subperm)
  · apply List.append_subset.mpr
    constructor
    · exact List.Subset.trans hab.subset (List.subset_append_left b d)
    · exact List.Subset.trans hcd.subset (List.subset_append_right b d)

theorem flatMap {f g : α → List Line} {items : List α} (h : ∀ x ∈ items, Conserves (f x) (g x)) :
    Conserves (items.flatMap f) (items.flatMap g) := by
  induction items with
  | nil => exact refl []
  | cons x r ih =>
    simp only [List.flatMap_cons]
    exact (h x (by simp)).append (ih fun y hy => h y (by simp [hy]))

theorem mem_iff (h : Conserves a b) {line : Line} : line ∈ b ↔ line ∈ a :=
  ⟨fun hl => h.subperm.subset hl, fun hl => h.subset hl⟩

theorem length_le (h : Conserves a b) : b.length ≤ a.length :=
  h.subperm.length_le

theorem perm_of_length_eq (h : Conserves a b) (hl : b.length = a.length) : b.Perm a :=
  h.subperm.perm_of_length_le (by omega)

theorem perm_of_flatMap {before after : α → List Line} {items : List α}
    (h : ∀ x ∈ items, Conserves (before x) (after x))
    (hl : (items.flatMap before).length ≤ (items.flatMap after).length) :
    ∀ x ∈ items, (after x).Perm (before x) := by
  induction items with
  | nil => simp
  | cons x items ih =>
    have hx := h x (by simp)
    have hi : ∀ y ∈ items, Conserves (before y) (after y) := fun y hy => h y (by simp [hy])
    have hlx := hx.length_le
    have hli := (flatMap hi).length_le
    simp only [List.flatMap_cons, List.length_append] at hl
    intro y hy
    rcases List.mem_cons.mp hy with rfl | hy
    · exact hx.perm_of_length_eq (by omega)
    · exact ih hi (by omega) y hy

end Conserves

theorem subperm_flatMap_lines {as bs : List Record} (h : as.Subperm bs) :
    (as.flatMap Record.lines).Subperm (bs.flatMap Record.lines) := by
  obtain ⟨cs, hp, hs⟩ := h
  exact (hp.symm.flatMap_right _).subperm.trans (hs.flatMap _).subperm

theorem conserves_arrange (key : ArrayKey) (rules : Rules) (entries : List Line) :
    Conserves entries (key.arrange rules entries).entries := by
  rw [entries_arrange]
  refine ⟨arranged_subperm _ _ _, fun line hl => ?_⟩
  have := mem_map_arranged id (key.entryRank rules) entries (b := line)
  simpa using this.mpr (by simpa using hl)

theorem conserves_sortedEntries (rules : Rules) (opening : Opening) (body : List Line) :
    Conserves body (sortedEntries rules opening body) := by
  cases opening with
  | array key indent => exact conserves_arrange key rules body
  | «section» kind => exact .refl body

theorem sortedEntries_subset (rules : Rules) (opening : Opening) (body : List Line) :
    sortedEntries rules opening body ⊆ body :=
  (conserves_sortedEntries rules opening body).subperm.subset

theorem conserves_mapBody {f : Opening → List Line → List Line}
    (hf : ∀ opening body, Conserves body (f opening body)) (s : Segment) :
    Conserves s.lines (s.mapBody f).lines := by
  cases s with
  | plain line => exact .refl _
  | region opening head body closing =>
    exact .append (.refl [head]) ((hf opening body).append (.refl [closing]))
  | unclosed opening head body => exact .refl _

theorem conserves_rebuild {opening? : Line → Option Opening} {f : Opening → List Line → List Line}
    (hf : ∀ opening body, Conserves body (f opening body)) (lines : List Line) :
    Conserves lines (rebuild opening? f lines) := by
  have h := Conserves.flatMap fun s (_ : s ∈ segments opening? lines) => conserves_mapBody hf s
  rw [flatMap_lines_segments] at h
  rwa [rebuild, List.flatMap_map]

theorem conserves_sorted (rules : Rules) (r : Record) :
    Conserves r.lines (r.sorted rules).lines :=
  .append (.refl r.leading) (conserves_rebuild (conserves_sortedEntries rules) r.body)

/-- Records that are left out have another record of the same lines that stays. -/
theorem conserves_sortedLines (rules : Rules) (split : RecordSplit) :
    Conserves (split.records.flatMap Record.lines ++ split.trailing) (split.sortedLines rules) := by
  rw [sortedLines_eq]
  refine .append ?_ (.refl _)
  have hsorted : Conserves (split.records.flatMap Record.lines)
      ((split.records.map (Record.sorted rules)).flatMap Record.lines) := by
    rw [List.flatMap_map]
    exact .flatMap fun r _ => conserves_sorted rules r
  refine hsorted.trans ⟨subperm_flatMap_lines (arranged_subperm _ _ _), fun line hl => ?_⟩
  obtain ⟨r, hr, hline⟩ := List.mem_flatMap.mp hl
  have hmem := (mem_map_arranged Record.lines (recordRank rules) _).mpr (List.mem_map_of_mem hr)
  obtain ⟨k, hk, hkl⟩ := List.mem_map.mp hmem
  exact List.mem_flatMap.mpr ⟨k, hk, hkl ▸ hline⟩

theorem conserves_sortedInside (options : Options) (opening : Opening) (body : List Line) :
    Conserves body (sortedInside options opening body) := by
  cases opening with
  | array key indent => exact conserves_arrange key options.rules body
  | «section» kind =>
    simp only [sortedInside]
    split
    · split
      · next split hs =>
        have := conserves_sortedLines options.rules split
        rwa [(isRecordSplit_of_splitRecords hs).lines_eq] at this
      · exact .refl body
    · exact .refl body

theorem sortedInside_subset (options : Options) (opening : Opening) (body : List Line) :
    sortedInside options opening body ⊆ body :=
  (conserves_sortedInside options opening body).subperm.subset

end ProjectOrder.Document
