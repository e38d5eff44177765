import ProjectOrder.Proofs.StableSort

/-! An edit of a region shows in the sorted region at one place. -/
namespace ProjectOrder
open ProjectOrder.Document ProjectOrder.Name

section Filter
variable [DecidableEq β] [Hashable β] (content : α → β) (rank : α → Rank) (p : β → Bool)

theorem distinctBy_filter (items : List α) :
    distinctBy content (items.filter (p ∘ content)) =
      (distinctBy content items).filter (p ∘ content) := by
  induction items with
  | nil => rfl
  | cons a r ih =>
    rw [distinctBy_cons]
    by_cases ha : (p ∘ content) a
    · rw [List.filter_cons_of_pos ha, List.filter_cons_of_pos ha, distinctBy_cons, ih,
        List.filter_filter, List.filter_filter]
      simp only [Bool.and_comm]
    · -- What repeats `a` is left out for its own sake, so that leaving out `a` loses nothing else.
      have hkept : ∀ b, ((p ∘ content) b && decide (content b ≠ content a)) = (p ∘ content) b := by
        intro b
        by_cases hb : content b = content a
        · have hpb : (p ∘ content) b = false := by simpa [hb] using ha
          rw [hpb, Bool.false_and]
        · simp [hb]
      rw [List.filter_cons_of_neg ha, List.filter_cons_of_neg ha, List.filter_filter, ih]
      simp only [hkept]

theorem arranged_filter (items : List α) :
    arranged content rank (items.filter (p ∘ content)) =
      (arranged content rank items).filter (p ∘ content) := by
  rw [arranged, distinctBy_filter, sortByRank_filter, arranged]

/-- Leaving out contents before arranging or after it is the same. -/
theorem entries_arrangeBy_filter (items : List α) :
    (arrangeBy content rank (items.filter (p ∘ content))).entries =
      (arrangeBy content rank items).entries.filter p := by
  rw [entries_arrangeBy, entries_arrangeBy, arranged_filter, List.filter_map]

end Filter

section Edits

/-- The longer list is the shorter one with one more item in it. -/
def Adds (b : β) (shorter longer : List β) : Prop :=
  ∃ front back, shorter = front ++ back ∧ longer = front ++ b :: back

variable [DecidableEq β]

theorem filter_ne_middle {content : α → β} {a : α} {front back : List α}
    (h : content a ∉ (front ++ back).map content) :
    (front ++ a :: back).filter (content · ≠ content a) = front ++ back := by
  have hother : (front ++ back).filter (content · ≠ content a) = front ++ back := by
    rw [List.filter_eq_self]
    intro c hc
    exact decide_eq_true fun he : content c = content a => h (he ▸ List.mem_map_of_mem hc)
  rw [← hother]
  simp

theorem adds_of_nodup {b : β} {entries : List β} (h : entries.Nodup) (hb : b ∈ entries) :
    Adds b (entries.filter (· ≠ b)) entries := by
  obtain ⟨front, back, rfl⟩ := List.append_of_mem hb
  have hother : b ∉ (front ++ back).map id := by
    rw [List.map_id]
    exact (List.nodup_middle.mp h).notMem
  exact ⟨front, back, filter_ne_middle hother, rfl⟩

variable [Hashable β]

/-- Whatever is left out, or comes anew, the other entries of the arrangement stay as they are. -/
structure EditsInPlace (content : α → β) (arrange : List α → Arrangement β) : Prop where
  filter : ∀ (p : β → Bool) (items : List α),
    (arrange (items.filter (p ∘ content))).entries = (arrange items).entries.filter p
  add : ∀ (a : α) (front back : List α), content a ∉ (front ++ back).map content →
    Adds (content a) (arrange (front ++ back)).entries (arrange (front ++ a :: back)).entries
  remove : ∀ (b : β) (items : List α), b ∈ items.map content →
    Adds b (arrange (items.filter (content · ≠ b))).entries (arrange items).entries

theorem editsInPlace_arrangeBy (content : α → β) (rank : α → Rank) :
    EditsInPlace content (arrangeBy content rank) := by
  have hfilter := entries_arrangeBy_filter content rank
  have hremove : ∀ (b : β) (items : List α), b ∈ items.map content →
      Adds b (arrangeBy content rank (items.filter (content · ≠ b))).entries
        (arrangeBy content rank items).entries := by
    intro b items hb
    have hentries := hfilter (fun c => decide (c ≠ b)) items
    rw [Function.comp_def] at hentries
    rw [hentries]
    apply adds_of_nodup
    · rw [entries_arrangeBy]
      exact nodup_map_arranged content rank items
    · rw [entries_arrangeBy]
      exact (mem_map_arranged content rank items).mpr hb
  refine ⟨hfilter, ?_, hremove⟩
  intro a front back ha
  have h := hremove (content a) (front ++ a :: back) (by simp)
  rwa [filter_ne_middle ha] at h

end Edits

/-- The sorted entries of an array, and the sorted records of a section, change with the region and no
more than that: without the ones that fail a test they are the same as before less these, one that is
new goes between two others, and one that is taken out leaves the others as they are. -/
theorem edits_stay_in_place (rules : Rules) :
    (∀ key : ArrayKey, EditsInPlace id (key.arrange rules)) ∧
    ∀ {α β : Type} [DecidableEq β] [Hashable β] (content : α → β) (body : α → List Char),
      EditsInPlace content (arrangeRecords rules content body) :=
  ⟨fun key => editsInPlace_arrangeBy id (key.entryRank rules),
    fun content body =>
      editsInPlace_arrangeBy content fun r => rules.rank (recordName (body r))⟩

/-- An entry by the name in its comment. -/
def sampleEntry (name : String) : Line :=
  ("000000000000000000000000 /* " ++ name ++ " */,").toList

/-- Entries that are not in order, one of them given twice. -/
def repeatedEntries : List Line :=
  ["b10", "a", "b10"].map sampleEntry

theorem edits_stay_in_place_of_new_entry :
    sampleEntry "b2" ∉ repeatedEntries ∧
      Adds (sampleEntry "b2") (ArrayKey.children.arrange (.of false []) repeatedEntries).entries
        (ArrayKey.children.arrange (.of false []) (sampleEntry "b2" :: repeatedEntries)).entries := by
  have hnew : sampleEntry "b2" ∉ repeatedEntries := by decide +kernel
  have h := (edits_stay_in_place (.of false [])).1 .children
  exact ⟨hnew, h.add (sampleEntry "b2") [] repeatedEntries (by simpa using hnew)⟩

end ProjectOrder
