import Mathlib.Data.List.Nodup
import Mathlib.Data.List.Perm.Subperm
import ProjectOrder.Arrangement
import ProjectOrder.Proofs.RankOrder

/-! What arranging keeps, and which lists it leaves as they are. -/
namespace ProjectOrder
open ProjectOrder.Name

section Distinct
variable [DecidableEq β] [Hashable β]

theorem distinctBy_sublist (f : α → β) (items : List α) : (distinctBy f items).Sublist items := by
  induction items with
  | nil => simp
  | cons a r ih =>
    rw [distinctBy_cons]
    exact (List.filter_sublist.trans ih).cons_cons a

theorem nodup_map_distinctBy (f : α → β) (items : List α) : ((distinctBy f items).map f).Nodup := by
  induction items with
  | nil => simp
  | cons a r ih =>
    rw [distinctBy_cons, List.map_cons, List.nodup_cons]
    refine ⟨by simp, ?_⟩
    exact ih.sublist (List.filter_sublist.map f)

theorem mem_map_distinctBy {f : α → β} {items : List α} {b : β} :
    b ∈ (distinctBy f items).map f ↔ b ∈ items.map f := by
  induction items with
  | nil => simp
  | cons a r ih =>
    rw [distinctBy_cons]
    by_cases hb : b = f a
    · simp [hb]
    · simp only [List.map_cons, List.mem_cons, hb, false_or, ← ih]
      simp only [List.mem_map, List.mem_filter, ne_eq, decide_not, Bool.not_eq_true',
        decide_eq_false_iff_not]
      constructor
      · intro h
        obtain ⟨x, ⟨hx, -⟩, rfl⟩ := h
        exact ⟨x, hx, rfl⟩
      · intro h
        obtain ⟨x, hx, rfl⟩ := h
        exact ⟨x, ⟨hx, hb⟩, rfl⟩

theorem distinctBy_eq_self {f : α → β} {items : List α} (h : (items.map f).Nodup) :
    distinctBy f items = items := by
  induction items with
  | nil => rfl
  | cons a r ih =>
    rw [List.map_cons, List.nodup_cons] at h
    rw [distinctBy_cons, ih h.2, List.filter_eq_self.mpr]
    intro x hx
    simpa using fun he : f x = f a => h.1 (he ▸ List.mem_map_of_mem hx)

theorem distinctBy_map (f : α → β) (g : γ → α) (items : List γ) :
    distinctBy f (items.map g) = (distinctBy (f ∘ g) items).map g := by
  induction items with
  | nil => rfl
  | cons a r ih =>
    rw [List.map_cons, distinctBy_cons, distinctBy_cons, ih, List.map_cons, List.filter_map]
    rfl

/-- Items that are told apart by more are still told apart by `f`, as long as nothing is lost. -/
theorem distinctBy_comp [DecidableEq γ] [Hashable γ] {g : β → γ} (hg : Function.Injective g)
    (f : α → β) (items : List α) : distinctBy (g ∘ f) items = distinctBy f items := by
  induction items with
  | nil => rfl
  | cons a r ih => simp [distinctBy_cons, ih, hg.eq_iff]

end Distinct

section Sorting
variable (rank : α → Rank)

/-- The first item belongs no later than the second. -/
abbrev Precedes (a b : α) : Prop :=
  (rank a).Le (rank b)

theorem sortByRank_eq (items : List α) :
    sortByRank rank items = items.mergeSort fun a b => decide (Precedes rank a b) := by
  unfold sortByRank
  simp only
  rw [← List.map_mergeSort (r := fun a b => decide (Precedes rank a b)), List.map_map]
  · exact List.map_id _
  · intro a _ b _
    exact Bool.decide_eq_true

theorem sortByRank_perm (items : List α) : (sortByRank rank items).Perm items := by
  rw [sortByRank_eq]
  exact List.mergeSort_perm _ _

theorem precedes_trans (a b c : α) (hab : decide (Precedes rank a b))
    (hbc : decide (Precedes rank b c)) : decide (Precedes rank a c) := by
  simpa using (of_decide_eq_true hab).trans (of_decide_eq_true hbc)

theorem precedes_total (a b : α) : decide (Precedes rank a b) || decide (Precedes rank b a) := by
  simpa using Rank.le_total (rank a) (rank b)

theorem pairwise_sortByRank (items : List α) :
    (sortByRank rank items).Pairwise (Precedes rank) := by
  rw [sortByRank_eq]
  exact (List.pairwise_mergeSort (precedes_trans rank) (precedes_total rank) items).imp
    of_decide_eq_true

theorem sortByRank_eq_self {items : List α} (h : items.Pairwise (Precedes rank)) :
    sortByRank rank items = items := by
  rw [sortByRank_eq]
  exact List.mergeSort_of_pairwise (h.imp decide_eq_true)

theorem sortByRank_map (g : γ → α) (items : List γ) :
    sortByRank rank (items.map g) = (sortByRank (rank ∘ g) items).map g := by
  rw [sortByRank_eq, sortByRank_eq, List.map_mergeSort]
  intros
  rfl

theorem sortByRank_congr {rank other : α → Rank} {items : List α}
    (h : ∀ a ∈ items, rank a = other a) : sortByRank rank items = sortByRank other items := by
  have hranked : items.map (fun a => (rank a, a)) = items.map fun a => (other a, a) :=
    List.map_congr_left fun a ha => by rw [h a ha]
  simp only [sortByRank, hranked]

end Sorting

section Arranging
variable [DecidableEq β] [Hashable β] (content : α → β) (rank : α → Rank) (items : List α)

/-- The items that arranging keeps, in their new order. -/
def arranged : List α :=
  sortByRank rank (distinctBy content items)

theorem entries_arrangeBy :
    (arrangeBy content rank items).entries = (arranged content rank items).map content := by
  have hk := distinctBy_map (fun item : β × α => item.1) (fun a => (content a, a)) items
  simp only [arrangeBy, arranged, hk, sortByRank_map, List.map_map]
  rfl

theorem duplicates_arrangeBy :
    (arrangeBy content rank items).duplicates =
      items.length - (arranged content rank items).length := by
  have hk := distinctBy_map (fun item : β × α => item.1) (fun a => (content a, a)) items
  simp only [arrangeBy, arranged, hk, List.length_map, (sortByRank_perm rank _).length_eq]
  rfl

theorem reordered_arrangeBy :
    (arrangeBy content rank items).reordered = decide
      ((arranged content rank items).map content ≠ (distinctBy content items).map content) := by
  have hk := distinctBy_map (fun item : β × α => item.1) (fun a => (content a, a)) items
  simp only [arrangeBy, arranged, hk, sortByRank_map, List.map_map]
  rfl

theorem arrangeBy_eq :
    arrangeBy content rank items =
      { entries := (arranged content rank items).map content
        duplicates := items.length - (arranged content rank items).length
        reordered := decide
          ((arranged content rank items).map content ≠ (distinctBy content items).map content) } := by
  rw [← reordered_arrangeBy, ← entries_arrangeBy, ← duplicates_arrangeBy]

theorem arranged_perm : (arranged content rank items).Perm (distinctBy content items) :=
  sortByRank_perm rank _

theorem arranged_subperm : (arranged content rank items).Subperm items :=
  (arranged_perm content rank items).subperm.trans (distinctBy_sublist content items).subperm

theorem pairwise_arranged : (arranged content rank items).Pairwise (Precedes rank) :=
  pairwise_sortByRank rank _

theorem nodup_map_arranged : ((arranged content rank items).map content).Nodup :=
  ((arranged_perm content rank items).map content).nodup_iff.mpr
    (nodup_map_distinctBy content items)

theorem mem_map_arranged {b : β} :
    b ∈ (arranged content rank items).map content ↔ b ∈ items.map content := by
  rw [((arranged_perm content rank items).map content).mem_iff, mem_map_distinctBy]

theorem arranged_map_comp (g : γ → α) (items : List γ) :
    arranged content rank (items.map g) = (arranged (content ∘ g) (rank ∘ g) items).map g := by
  rw [arranged, distinctBy_map, sortByRank_map, arranged]

/-- Items that differ and whose ranks rise stay as they are. -/
theorem arranged_eq_self (hd : (items.map content).Nodup) (hr : items.Pairwise (Precedes rank)) :
    arranged content rank items = items := by
  rw [arranged, distinctBy_eq_self hd, sortByRank_eq_self rank hr]

theorem arranged_perm_of_duplicates_eq_zero
    (h : (arrangeBy content rank items).duplicates = 0) :
    (arranged content rank items).Perm items := by
  have hs := arranged_subperm content rank items
  rw [duplicates_arrangeBy] at h
  exact hs.perm_of_length_le (by omega)

/-- Arranging leaves a list as it is exactly if no item repeats another and the ranks rise. -/
theorem entries_eq_iff :
    (arrangeBy content rank items).entries = items.map content ↔
      (items.map content).Nodup ∧ items.Pairwise (Precedes rank) := by
  rw [entries_arrangeBy]
  constructor
  · intro h
    have hd : (items.map content).Nodup := h ▸ nodup_map_arranged content rank items
    have hp := arranged_perm content rank items
    rw [distinctBy_eq_self hd] at hp
    have he : arranged content rank items = items := by
      have hl := hp.length_eq
      refine List.ext_getElem hl fun i hi hi' => ?_
      have hc : content (arranged content rank items)[i] = content items[i] := by
        have := List.getElem_of_eq h (i := i) (by simpa using hi)
        simpa using this
      exact List.inj_on_of_nodup_map hd (hp.subset (List.getElem_mem hi)) (List.getElem_mem hi') hc
    exact ⟨hd, he ▸ pairwise_arranged content rank items⟩
  · intro h
    obtain ⟨hd, hr⟩ := h
    rw [arranged_eq_self content rank items hd hr]

/-- The two findings of an arrangement together tell whether it has changed anything. -/
theorem entries_eq_iff_unchanged :
    (arrangeBy content rank items).entries = items.map content ↔
      (arrangeBy content rank items).duplicates = 0 ∧
        (arrangeBy content rank items).reordered = false := by
  constructor
  · intro h
    obtain ⟨hd, hr⟩ := (entries_eq_iff content rank items).mp h
    rw [duplicates_arrangeBy, reordered_arrangeBy, arranged_eq_self content rank items hd hr,
      distinctBy_eq_self hd]
    simp
  · intro h
    obtain ⟨hd, hr⟩ := h
    have hp := arranged_perm_of_duplicates_eq_zero content rank items hd
    have hk : distinctBy content items = items :=
      (distinctBy_sublist content items).eq_of_length_le
        (((arranged_perm content rank items).symm.trans hp).length_eq ▸ Nat.le_refl _)
    rw [reordered_arrangeBy, hk] at hr
    rw [entries_arrangeBy]
    simpa using hr

end Arranging

section Contents
variable {content : α → β} {rank : α → Rank} {contentRank : β → Rank} {items : List α}

theorem exists_contentRank
    (h : ∀ a ∈ items, ∀ b ∈ items, content a = content b → rank a = rank b) :
    ∃ contentRank : β → Rank, ∀ a ∈ items, contentRank (content a) = rank a := by
  have hfactors : Function.FactorsThrough (fun a : { a // a ∈ items } => rank a)
      fun a => content a := by
    intro a b hab
    exact h a a.2 b b.2 hab
  have : Nonempty Rank := ⟨⟨false, []⟩⟩
  obtain ⟨contentRank, hrank⟩ := (Function.factorsThrough_iff _).mp hfactors
  exact ⟨contentRank, fun a ha => (congrFun hrank ⟨a, ha⟩).symm⟩

variable [DecidableEq β] [Hashable β]

theorem arranged_map_content (h : ∀ a ∈ items, contentRank (content a) = rank a) :
    arranged id contentRank (items.map content) = (arranged content rank items).map content := by
  have hkept : ∀ a ∈ distinctBy content items, (contentRank ∘ content) a = rank a :=
    fun a ha => h a ((distinctBy_sublist content items).subset ha)
  rw [arranged_map_comp, Function.id_comp, arranged, sortByRank_congr hkept, arranged]

/-- Where the content of an item tells its rank, arranging items is arranging their contents. -/
theorem arrangeBy_map_content (h : ∀ a ∈ items, contentRank (content a) = rank a) :
    arrangeBy id contentRank (items.map content) = arrangeBy content rank items := by
  have hdistinct : distinctBy id (items.map content) = (distinctBy content items).map content :=
    distinctBy_map id content items
  rw [arrangeBy_eq, arrangeBy_eq, arranged_map_content h, hdistinct]
  simp only [List.map_id, List.length_map]

end Contents

section Renaming
variable [DecidableEq β] [Hashable β] {content : α → β} {rank : α → Rank} {g : α → α} {f : β → β}
  {items : List α}

theorem arranged_map (hf : Function.Injective f) (hc : ∀ a, content (g a) = f (content a))
    (hr : ∀ a ∈ items, rank (g a) = rank a) :
    arranged content rank (items.map g) = (arranged content rank items).map g := by
  have hcontent : content ∘ g = f ∘ content := funext hc
  have hrank : ∀ a ∈ distinctBy content items, (rank ∘ g) a = rank a :=
    fun a ha => hr a ((distinctBy_sublist content items).subset ha)
  rw [arranged_map_comp, hcontent, arranged, distinctBy_comp hf, sortByRank_congr hrank, arranged]

/-- Items that all change their content alike, and keep their ranks, are arranged alike. -/
theorem arrangeBy_map (hf : Function.Injective f) (hc : ∀ a, content (g a) = f (content a))
    (hr : ∀ a ∈ items, rank (g a) = rank a) :
    arrangeBy content rank (items.map g) =
      { entries := (arrangeBy content rank items).entries.map f
        duplicates := (arrangeBy content rank items).duplicates
        reordered := (arrangeBy content rank items).reordered } := by
  have hcontent : content ∘ g = f ∘ content := funext hc
  have hdistinct : distinctBy content (items.map g) = (distinctBy content items).map g := by
    rw [distinctBy_map, hcontent, distinctBy_comp hf]
  have hmap : ∀ kept : List α, (kept.map g).map content = (kept.map content).map f := by
    intro kept
    rw [List.map_map, List.map_map, hcontent]
  rw [arrangeBy_eq, arrangeBy_eq, arranged_map hf hc hr, hdistinct]
  simp only [hmap, List.length_map, ne_eq, (List.map_injective_iff.mpr hf).eq_iff]

end Renaming

end ProjectOrder
