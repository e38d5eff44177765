import Mathlib.Data.List.Nodup
import ProjectOrder.Proofs.JoinedPaths

/-! Disks whose items form a tree, and the ways down in it. -/
namespace ProjectOrder.Disk.Snapshot

variable {disk other : Snapshot} {place : Location} {item : Item} {path : String}
  {enter : String → Bool} {name : String} {way : List String}

/-- Every item has a place of its own in a directory, with names that can be written in paths, and
every directory may be listed and names be looked up in it. Links may lead anywhere. -/
structure IsTree (disk : Snapshot) : Prop where
  nodup : (disk.items.map Prod.fst).Nodup
  isFileName : ∀ entry ∈ disk.items, ∀ name ∈ entry.1, IsFileName name
  in_directory : ∀ entry ∈ disk.items, disk.isDirectory entry.1.dropLast = true
  readable : ∀ place, disk.isDirectory place = true → disk.grants isReadable place = true
  searchable : ∀ place, disk.isDirectory place = true → disk.grants isSearchable place = true

/-- The other disk has the same items, and may list them in another order. -/
structure ListsAlike (disk other : Snapshot) : Prop where
  perm : other.items.Perm disk.items
  rootMode : other.rootMode = disk.rootMode
  workingDirectory : other.workingDirectory = disk.workingDirectory

theorem ListsAlike.symm (h : ListsAlike disk other) : ListsAlike other disk :=
  ⟨h.perm.symm, h.rootMode.symm, h.workingDirectory.symm⟩

theorem ListsAlike.nodup (h : ListsAlike disk other) (hn : (disk.items.map Prod.fst).Nodup) :
    (other.items.map Prod.fst).Nodup :=
  (h.perm.map _).nodup_iff.mpr hn

theorem item?_of_mem (hn : (disk.items.map Prod.fst).Nodup) (hp : place ≠ [])
    (hm : (place, item) ∈ disk.items) : disk.item? place = some item := by
  rw [item?, if_neg hp]
  generalize disk.items = items at hm hn
  induction items with
  | nil => cases hm
  | cons entry items ih =>
    obtain ⟨key, found⟩ := entry
    rw [List.map_cons, List.nodup_cons] at hn
    rcases List.mem_cons.mp hm with he | hrest
    · cases he
      simp
    · have hne : (place == key) = false := by
        rw [beq_eq_false_iff_ne]
        intro he
        exact hn.1 (he ▸ List.mem_map.mpr ⟨(place, item), hrest, rfl⟩)
      rw [List.lookup_cons, hne]
      exact ih hrest hn.2

theorem item?_eq_some_iff (hn : (disk.items.map Prod.fst).Nodup) (hp : place ≠ []) :
    disk.item? place = some item ↔ (place, item) ∈ disk.items :=
  ⟨mem_of_item? hp, item?_of_mem hn hp⟩

/-- The order of the items does not matter. -/
theorem ListsAlike.item?_eq (h : ListsAlike disk other) (hn : (disk.items.map Prod.fst).Nodup)
    (place : Location) : other.item? place = disk.item? place := by
  by_cases hp : place = []
  · rw [item?, item?, if_pos hp, if_pos hp, h.rootMode]
  · ext item
    rw [item?_eq_some_iff (h.nodup hn) hp, item?_eq_some_iff hn hp, h.perm.mem_iff]

theorem ListsAlike.grants_eq (h : ListsAlike disk other) (hn : (disk.items.map Prod.fst).Nodup)
    (allows : Nat → Bool) (place : Location) :
    other.grants allows place = disk.grants allows place :=
  grants_congr (h.item?_eq hn place)

theorem IsTree.reordered (h : disk.IsTree) (halike : ListsAlike disk other) : other.IsTree := by
  have hgrants := halike.grants_eq h.nodup
  constructor
  · exact halike.nodup h.nodup
  · exact fun entry he => h.isFileName entry (halike.perm.mem_iff.mp he)
  · intro entry he
    rw [isDirectory, hgrants]
    exact h.in_directory entry (halike.perm.mem_iff.mp he)
  · intro place hp
    rw [isDirectory, hgrants] at hp
    rw [hgrants]
    exact h.readable place hp
  · intro place hp
    rw [isDirectory, hgrants] at hp
    rw [hgrants]
    exact h.searchable place hp

theorem ListsAlike.filesDiffer (h : ListsAlike disk other)
    (hn : (disk.items.map Prod.fst).Nodup) : FilesDiffer disk other := by
  have hsame := h.item?_eq hn
  constructor
  · exact fun place item hi hf => ⟨item, (hsame place).trans hi, hf⟩
  · exact fun place item hi _ => (hsame place).trans hi
  · intro place item hnone hitem
    rw [hsame, hnone] at hitem
    cases hitem
  · exact h.workingDirectory

theorem ListsAlike.get_eq_ok_iff (h : ListsAlike disk other)
    (hn : (disk.items.map Prod.fst).Nodup) (path : String) :
    other.get path = .ok (place, item) ↔ disk.get path = .ok (place, item) := by
  constructor
  · intro hget
    exact (h.symm.filesDiffer (h.nodup hn)).get_eq hget (h.item?_eq hn _).symm
  · intro hget
    exact (h.filesDiffer hn).get_eq hget (h.item?_eq hn _)

/-- What every mode on the disk allows is allowed in every directory. -/
theorem grants_of_modes {allows : Nat → Bool} (hroot : allows disk.rootMode = true)
    (hmodes : ∀ entry ∈ disk.items, ∀ mode, entry.2 = .directory mode → allows mode = true)
    (hp : disk.isDirectory place = true) : disk.grants allows place = true := by
  obtain ⟨mode, hitem⟩ := isDirectory_iff.mp hp
  refine grants_eq_true_iff.mpr ⟨mode, hitem, ?_⟩
  by_cases hplace : place = []
  · rw [hplace, item?, if_pos rfl, Option.some.injEq, Item.directory.injEq] at hitem
    exact hitem ▸ hroot
  · exact hmodes _ (mem_of_item? hplace hitem) mode rfl

/-- What is above an item are directories. -/
theorem IsTree.directory_above (h : disk.IsTree) {back : List String} (hb : back ≠ [])
    (hi : disk.item? (place ++ back) = some item) : disk.isDirectory place = true := by
  induction back using List.reverseRecOn generalizing item with
  | nil => exact absurd rfl hb
  | append_singleton back last ih =>
    rw [← List.append_assoc] at hi
    have hparent := h.in_directory _ (mem_of_item? (by simp) hi)
    rw [List.dropLast_concat] at hparent
    by_cases hback : back = []
    · rwa [hback, List.append_nil] at hparent
    · obtain ⟨mode, hdirectory⟩ := isDirectory_iff.mp hparent
      exact ih hback hdirectory

theorem IsTree.areDirectories (h : disk.IsTree) {last : String}
    (hi : disk.item? (place ++ (way ++ [last])) = some item) : disk.AreDirectories place way := by
  intro init hinit
  obtain ⟨back, rfl⟩ := hinit
  rw [List.append_assoc, ← List.append_assoc] at hi
  exact h.searchable _ (h.directory_above (by simp) hi)

theorem IsTree.isFileName_of_item? (h : disk.IsTree) (hi : disk.item? place = some item) :
    ∀ name ∈ place, IsFileName name := by
  by_cases hp : place = []
  · simp [hp]
  · exact h.isFileName _ (mem_of_item? hp hi)

theorem directoriesBelow_eq {mode : Nat} (hget : disk.get path = .ok (place, .directory mode)) :
    disk.directoriesBelow enter path = match disk.firstClosed? enter place with
      | none => .ok (disk.waysBelow enter place)
      | some way =>
        .error { cause := .accessDenied, call := .listDirectory (way.foldl Path.child path) } := by
  unfold directoriesBelow
  generalize disk.get path = found at hget ⊢
  subst hget
  rfl

/-- Every directory that has to be listed can be. -/
theorem firstClosed?_eq_none_iff : disk.firstClosed? enter place = none ↔
    disk.mayList place [] = true ∧
      ∀ way ∈ disk.waysBelow enter place, way.all enter = true → disk.mayList place way = true := by
  rw [firstClosed?, List.head?_eq_none_iff, ← List.length_eq_zero_iff, List.length_mergeSort,
    List.length_eq_zero_iff, List.filter_eq_nil_iff, List.forall_mem_cons]
  simp only [Bool.not_eq_true', Bool.not_eq_false, List.mem_filter, and_imp]

theorem mem_names_iff (hn : (disk.items.map Prod.fst).Nodup) :
    name ∈ disk.directoryNames place ↔ disk.isDirectory (place ++ [name]) = true := by
  rw [mem_directoryNames_iff, isDirectory_iff]
  simp only [item?_eq_some_iff hn (show place ++ [name] ≠ [] by simp)]

theorem nodup_names (hn : (disk.items.map Prod.fst).Nodup) (place : Location) :
    (disk.directoryNames place).Nodup := by
  -- each item on its own gives one name at most, by which its place is known
  have hsame : ∀ entry name, name ∈ { disk with items := [entry] }.directoryNames place →
      entry.1 = place ++ [name] := by
    intro entry name hname
    obtain ⟨mode, hentry⟩ := mem_directoryNames_iff.mp hname
    rw [← List.mem_singleton.mp hentry]
  rw [List.Nodup, directoryNames, List.pairwise_filterMap]
  refine (List.pairwise_map.mp hn).imp fun {a b} hab name ha other hb heq => hab ?_
  have hfirst := hsame a name (List.mem_filterMap.mpr ⟨a, List.mem_singleton_self a, ha⟩)
  have hsecond := hsame b other (List.mem_filterMap.mpr ⟨b, List.mem_singleton_self b, hb⟩)
  rw [hfirst, hsecond, heq]

theorem waysBelow_eq (disk : Snapshot) (enter : String → Bool) (place : Location) :
    disk.waysBelow enter place = (disk.directoryNames place).flatMap fun name =>
      [name] :: if enter name then (disk.waysBelow enter (place ++ [name])).map (name :: ·) else [] := by
  rw [waysBelow, List.flatMap_subtype fun _ _ => rfl, List.unattach_attach]

/-- Where no directory is entered, the ways are the names of the directories at the place. -/
theorem flatten_waysBelow (disk : Snapshot) (place : Location) :
    (disk.waysBelow (fun _ => false) place).flatten = disk.directoryNames place := by
  rw [waysBelow_eq]
  induction disk.directoryNames place with
  | nil => rfl
  | cons name names ih => simp_all

theorem nil_notMem_waysBelow : [] ∉ disk.waysBelow enter place := by
  rw [waysBelow_eq]
  simp

/-- A way leads to a directory at the place, and on from there if that is entered. -/
theorem cons_mem_waysBelow_iff (hn : (disk.items.map Prod.fst).Nodup) :
    name :: way ∈ disk.waysBelow enter place ↔
      disk.isDirectory (place ++ [name]) = true ∧
        (way = [] ∨ enter name = true ∧ way ∈ disk.waysBelow enter (place ++ [name])) := by
  rw [waysBelow_eq, List.mem_flatMap]
  simp only [mem_names_iff hn, List.mem_cons]
  constructor
  · intro h
    obtain ⟨other, hitem, heq | hrest⟩ := h
    · cases heq
      exact ⟨hitem, .inl rfl⟩
    · split_ifs at hrest with henter
      · obtain ⟨rest, hmem, heq⟩ := List.mem_map.mp hrest
        cases heq
        exact ⟨hitem, .inr ⟨henter, hmem⟩⟩
      · cases hrest
  · intro h
    obtain ⟨hitem, rfl | ⟨henter, hmem⟩⟩ := h
    · exact ⟨name, hitem, .inl rfl⟩
    · exact ⟨name, hitem, .inr (by rw [if_pos henter]; exact List.mem_map_of_mem hmem)⟩

/-- On a tree, every directory down a way can be listed. -/
theorem IsTree.mayList (h : disk.IsTree) (hp : disk.isDirectory place = true)
    (hway : way ∈ disk.waysBelow enter place) : disk.mayList place way = true := by
  induction way generalizing place with
  | nil => exact absurd hway nil_notMem_waysBelow
  | cons name rest ih =>
    obtain ⟨hname, rfl | ⟨-, hrest⟩⟩ := (cons_mem_waysBelow_iff h.nodup).mp hway
    · rw [Snapshot.mayList, Snapshot.mayList, h.searchable place hp, h.readable _ hname]
      rfl
    · rw [Snapshot.mayList, h.searchable place hp, ih hname hrest]
      rfl

theorem IsTree.firstClosed?_eq_none (h : disk.IsTree) (hp : disk.isDirectory place = true)
    (enter : String → Bool) : disk.firstClosed? enter place = none :=
  firstClosed?_eq_none_iff.mpr ⟨h.readable place hp, fun _ hway _ => h.mayList hp hway⟩

theorem nodup_waysBelow (enter : String → Bool) (place : Location)
    (hn : (disk.items.map Prod.fst).Nodup) : (disk.waysBelow enter place).Nodup := by
  induction place using waysBelow.induct disk with
  | case1 place ih =>
    rw [waysBelow_eq, List.nodup_flatMap]
    constructor
    · intro name hname
      split_ifs
      · refine List.nodup_cons.mpr ⟨fun hm => ?_, (ih name hname).map List.cons_injective⟩
        obtain ⟨rest, hrest, heq⟩ := List.mem_map.mp hm
        cases heq
        exact nil_notMem_waysBelow hrest
      · exact List.nodup_singleton _
    · -- Ways through different directories differ in their first step.
      have hhead : ∀ name way, way ∈ [name] :: (if enter name then
          (disk.waysBelow enter (place ++ [name])).map (name :: ·) else []) → way.head? = some name := by
        intro name way hway
        rcases List.mem_cons.mp hway with rfl | hway
        · rfl
        · split_ifs at hway
          · obtain ⟨rest, -, rfl⟩ := List.mem_map.mp hway
            rfl
          · cases hway
      refine (nodup_names hn place).imp fun {a b} hab way ha hb => hab ?_
      exact Option.some.inj ((hhead a way ha).symm.trans (hhead b way hb))

end ProjectOrder.Disk.Snapshot
