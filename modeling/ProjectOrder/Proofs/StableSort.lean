import Mathlib.Data.Finset.Card
import ProjectOrder.Document.Entry
import ProjectOrder.Document.RecordName
import ProjectOrder.Proofs.Arrangement

/-! Arranging is the stable sort of what is different among the items. -/
namespace ProjectOrder
open ProjectOrder.Document ProjectOrder.Name

section Insertion
variable (rank : α → Rank) {a : α} {items front back : List α}

theorem exists_sortByRank_cons (a : α) (items : List α) : ∃ front back,
    sortByRank rank (a :: items) = front ++ a :: back ∧ sortByRank rank items = front ++ back ∧
      (∀ b ∈ front, ¬ Precedes rank a b) ∧ ∀ b ∈ back, Precedes rank a b := by
  obtain ⟨front, back, hcons, hitems, hfront⟩ :=
    List.mergeSort_cons (precedes_trans rank) (precedes_total rank) a items
  rw [← sortByRank_eq] at hcons hitems
  refine ⟨front, back, hcons, hitems, by simpa using hfront, ?_⟩
  have hsorted := pairwise_sortByRank rank (a :: items)
  rw [hcons] at hsorted
  exact (List.pairwise_cons.mp (List.pairwise_append.mp hsorted).2.1).1

theorem filter_not_precedes (hfront : ∀ b ∈ front, ¬ Precedes rank a b)
    (hback : ∀ b ∈ back, Precedes rank a b) :
    (front ++ back).filter (fun b => ¬ Precedes rank a b) = front := by
  rw [List.filter_append, List.filter_eq_self.mpr (by simpa using hfront),
    List.filter_eq_nil_iff.mpr (by simpa using hback), List.append_nil]

/-- There is one place for an item that occurs before all the others: in front of those that it may
precede, and of no others. -/
theorem sortByRank_cons (h : sortByRank rank items = front ++ back)
    (hfront : ∀ b ∈ front, ¬ Precedes rank a b) (hback : ∀ b ∈ back, Precedes rank a b) :
    sortByRank rank (a :: items) = front ++ a :: back := by
  obtain ⟨front', back', hcons, hitems, hfront', hback'⟩ := exists_sortByRank_cons rank a items
  have hcut : front' ++ back' = front ++ back := hitems.symm.trans h
  have hsame : front' = front := by
    rw [← filter_not_precedes rank hfront' hback', hcut, filter_not_precedes rank hfront hback]
  subst hsame
  rw [hcons, List.append_cancel_left hcut]

/-- Some of the items alone are in the order in which they stand among all of them. -/
theorem sortByRank_filter (p : α → Bool) (items : List α) :
    sortByRank rank (items.filter p) = (sortByRank rank items).filter p := by
  induction items with
  | nil => simp [sortByRank_eq]
  | cons a items ih =>
    obtain ⟨front, back, hcons, hitems, hfront, hback⟩ := exists_sortByRank_cons rank a items
    rw [hitems, List.filter_append] at ih
    rw [hcons, List.filter_append]
    by_cases ha : p a
    · rw [List.filter_cons_of_pos ha, List.filter_cons_of_pos ha]
      refine sortByRank_cons rank ih ?_ ?_
      · exact fun b hb => hfront b (List.mem_of_mem_filter hb)
      · exact fun b hb => hback b (List.mem_of_mem_filter hb)
    · rw [List.filter_cons_of_neg ha, List.filter_cons_of_neg ha, ih]

/-- Items of one rank stay in the order that they have among each other. -/
theorem sortByRank_stable {order : α → α → Prop} (h : items.Pairwise order) :
    (sortByRank rank items).Pairwise fun a b =>
      (rank a).compare (rank b) = .eq → order a b := by
  induction items with
  | nil => simp [sortByRank_eq]
  | cons a items ih =>
    obtain ⟨ha, hitems⟩ := List.pairwise_cons.mp h
    obtain ⟨front, back, hcons, hsorted, hfront, hback⟩ := exists_sortByRank_cons rank a items
    have hmem : ∀ b ∈ back, b ∈ items := fun b hb =>
      (sortByRank_perm rank items).subset (hsorted ▸ List.mem_append_right _ hb)
    have ih := ih hitems
    rw [hsorted, List.pairwise_append] at ih
    obtain ⟨hleft, hright, hcross⟩ := ih
    rw [hcons, List.pairwise_append, List.pairwise_cons]
    refine ⟨hleft, ⟨fun b hb _ => ha b (hmem b hb), hright⟩, ?_⟩
    intro b hb c hc
    rcases List.mem_cons.mp hc with rfl | hc
    · intro heq
      have hle : Precedes rank c b := Ordering.isLE_of_eq_eq (Std.OrientedCmp.eq_comm.mp heq)
      exact absurd hle (hfront b hb)
    · exact hcross b hb c hc

end Insertion

section Uniqueness
variable [DecidableEq β]

/-- The items once each, by rising rank, and those of one rank in the order in which they first
occur. -/
structure IsStableSort (rank : β → Rank) (items entries : List β) : Prop where
  nodup : entries.Nodup
  mem_iff : ∀ {b}, b ∈ entries ↔ b ∈ items
  rising : entries.Pairwise (Precedes rank)
  stable : entries.Pairwise fun a b =>
    (rank a).compare (rank b) = .eq → items.idxOf a < items.idxOf b

theorem IsStableSort.unique {rank : β → Rank} {items entries other : List β}
    (h : IsStableSort rank items entries) (ho : IsStableSort rank items other) :
    entries = other := by
  have hperm : entries.Perm other := by
    rw [List.perm_ext_iff_of_nodup h.nodup ho.nodup]
    exact fun b => h.mem_iff.trans ho.mem_iff.symm
  refine List.Perm.eq_of_pairwise ?_ (h.rising.and h.stable) (ho.rising.and ho.stable) hperm
  intro a b _ _ hab hba
  have heq : (rank a).compare (rank b) = .eq := hab.1.antisymm hba.1
  have hlt := hab.2 heq
  have hgt := hba.2 (Std.OrientedCmp.eq_comm.mp heq)
  omega

variable [Hashable β]

/-- What is different among the items stays in the order of first occurrence. -/
theorem pairwise_idxOf_distinctBy (items : List β) :
    (distinctBy id items).Pairwise fun a b => items.idxOf a < items.idxOf b := by
  induction items with
  | nil => simp
  | cons a r ih =>
    have hne : ∀ b ∈ (distinctBy id r).filter (id · ≠ id a), a ≠ b := by
      intro b hb
      have hba : b ≠ a := by simpa using (List.mem_filter.mp hb).2
      exact hba.symm
    rw [distinctBy_cons, List.pairwise_cons]
    constructor
    · intro b hb
      rw [List.idxOf_cons_self, List.idxOf_cons_ne _ (hne b hb)]
      exact Nat.succ_pos _
    · refine (ih.filter _).imp_of_mem ?_
      intro b c hb hc hlt
      rw [List.idxOf_cons_ne _ (hne b hb), List.idxOf_cons_ne _ (hne c hc)]
      exact Nat.succ_lt_succ hlt

theorem isStableSort_arranged (rank : β → Rank) (items : List β) :
    IsStableSort rank items (arranged id rank items) where
  nodup := by simpa using nodup_map_arranged id rank items
  mem_iff {b} := by simpa using mem_map_arranged id rank items (b := b)
  rising := pairwise_arranged id rank items
  stable := sortByRank_stable rank (pairwise_idxOf_distinctBy items)

/-- The outcome of arranging: the one stable sort of the items, how many of them repeat others, and
no change exactly where there is nothing to do. -/
structure IsArrangement (rank : β → Rank) (items : List β) (arrangement : Arrangement β) : Prop where
  isStableSort_iff : ∀ entries, IsStableSort rank items entries ↔ entries = arrangement.entries
  duplicates : arrangement.duplicates + items.toFinset.card = items.length
  unchanged_iff : arrangement.duplicates = 0 ∧ arrangement.reordered = false ↔
    items.Nodup ∧ items.Pairwise (Precedes rank)

theorem isArrangement_arrangeBy (rank : β → Rank) (items : List β) :
    IsArrangement rank items (arrangeBy id rank items) where
  isStableSort_iff := by
    intro entries
    have h := isStableSort_arranged rank items
    rw [entries_arrangeBy, List.map_id]
    exact ⟨fun he => he.unique h, fun he => he ▸ h⟩
  duplicates := by
    have h := isStableSort_arranged rank items
    have hset : (arranged id rank items).toFinset = items.toFinset := by
      ext b
      rw [List.mem_toFinset, List.mem_toFinset, h.mem_iff]
    have hcard : items.toFinset.card = (arranged id rank items).length := by
      rw [← hset, List.toFinset_card_of_nodup h.nodup]
    have hle := (arranged_subperm id rank items).length_le
    rw [duplicates_arrangeBy, hcard]
    omega
  unchanged_iff := by
    rw [← entries_eq_iff_unchanged id rank items]
    simpa using entries_eq_iff id rank items

end Uniqueness

/-- Sorting a region is the stable sort of what is different in it, by the ranks of the entries of
an array, which are all files where files are listed, and by those of the names of records, as long
as records of one content have one body. -/
theorem regions_are_stably_sorted (rules : Rules) :
    (∀ (key : ArrayKey) (entries : List Line),
      IsArrangement (key.entryRank rules) entries (key.arrange rules entries)) ∧
    (∀ line, (ArrayKey.files.entryRank rules line).folder = false) ∧
    ∀ {α β : Type} [DecidableEq β] [Hashable β] (content : α → β) (body : α → List Char)
      (records : List α),
      (∀ r ∈ records, ∀ s ∈ records, content r = content s → body r = body s) →
      ∃ rank : β → Rank, (∀ r ∈ records, rank (content r) = rules.rank (recordName (body r))) ∧
        IsArrangement rank (records.map content) (arrangeRecords rules content body records) := by
  refine ⟨fun key entries => isArrangement_arrangeBy _ _, fun line => rfl, ?_⟩
  intro α β _ _ content body records h
  have hranks : ∀ r ∈ records, ∀ s ∈ records, content r = content s →
      rules.rank (recordName (body r)) = rules.rank (recordName (body s)) := by
    intro r hr s hs hrs
    rw [h r hr s hs hrs]
  obtain ⟨rank, hrank⟩ := exists_contentRank hranks
  refine ⟨rank, hrank, ?_⟩
  rw [arrangeRecords, ← arrangeBy_map_content hrank]
  exact isArrangement_arrangeBy rank (records.map content)

/-- Records that are their names, one of them given twice and two told apart by case alone. -/
def repeatedRecords : List (List Char × List Char) :=
  [['b'], ['a'], ['B'], ['a']].map fun name => (name, name)

/-- Without regard to case the two stay in the order in which they are given. -/
theorem regions_are_stably_sorted_of_repeated_records :
    (∀ r ∈ repeatedRecords, ∀ s ∈ repeatedRecords, r.1 = s.1 → r.2 = s.2) ∧
      (arrangeRecords (.of true []) Prod.fst Prod.snd repeatedRecords).entries =
        [['a'], ['b'], ['B']] := by
  have hbodies : ∀ r ∈ repeatedRecords, ∀ s ∈ repeatedRecords, r.1 = s.1 → r.2 = s.2 := by decide
  obtain ⟨rank, hrank, h⟩ :=
    (regions_are_stably_sorted (.of true [])).2.2 Prod.fst Prod.snd repeatedRecords hbodies
  have ha : rank ['a'] = ⟨true, [.text ['a']]⟩ :=
    (hrank (['a'], ['a']) (by decide)).trans (by decide +kernel)
  have hb : rank ['b'] = ⟨true, [.text ['b']]⟩ :=
    (hrank (['b'], ['b']) (by decide)).trans (by decide +kernel)
  have hB : rank ['B'] = ⟨true, [.text ['b']]⟩ :=
    (hrank (['B'], ['B']) (by decide)).trans (by decide +kernel)
  -- There is one stable sort, so that it is enough to see that this is one.
  refine ⟨hbodies, ((h.isStableSort_iff _).mp ⟨by decide, ?_, ?_, ?_⟩).symm⟩
  · intro text
    simp only [repeatedRecords, List.map_cons, List.map_nil, List.mem_cons, List.not_mem_nil]
    tauto
  · simp only [List.pairwise_cons, List.forall_mem_cons, List.not_mem_nil, IsEmpty.forall_iff,
      implies_true, List.Pairwise.nil, Precedes, ha, hb, hB]
    decide +kernel
  · simp only [List.pairwise_cons, List.forall_mem_cons, List.not_mem_nil, IsEmpty.forall_iff,
      implies_true, List.Pairwise.nil, ha, hb, hB]
    decide +kernel

end ProjectOrder
