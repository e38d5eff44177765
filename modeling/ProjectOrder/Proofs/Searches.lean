import ProjectOrder.Proofs.Replacement
import ProjectOrder.Proofs.Trees

/-! What the search for projects finds on a disk, and that it changes nothing. -/
namespace ProjectOrder.Disk

section Runs
variable {ε α β : Type} {disk after : Snapshot} {f : α → ExceptT ε (StateM Snapshot) β} {items : List α}

theorem outcome_mapM {g : α → β} (h : ∀ x ∈ items, outcome (f x) disk = (.ok (g x), disk)) :
    outcome (items.mapM f) disk = (.ok (items.map g), disk) := by
  induction items with
  | nil => rfl
  | cons x items ih =>
    rw [List.mapM_cons, outcome_bind, h x List.mem_cons_self]
    simp only
    rw [outcome_bind, ih fun x hx => h x (List.mem_cons_of_mem _ hx)]
    rfl

theorem outcome_mapM_snd (hd : ∀ x ∈ items, (outcome (f x) disk).2 = disk) :
    (outcome (items.mapM f) disk).2 = disk := by
  induction items with
  | nil => rfl
  | cons x items ih =>
    have hrest := ih fun x hx => hd x (List.mem_cons_of_mem _ hx)
    rw [List.mapM_cons]
    exact outcome_bind_snd (hd x List.mem_cons_self) fun _ => outcome_bind_snd hrest fun _ => rfl

/-- Where every step leaves the disk as it is, all of them come to their end or the run does not. -/
theorem exists_of_outcome_mapM {ys : List β} (hd : ∀ x ∈ items, (outcome (f x) disk).2 = disk)
    (h : outcome (items.mapM f) disk = (.ok ys, after)) :
    ∀ x ∈ items, ∃ y, outcome (f x) disk = (.ok y, disk) := by
  induction items generalizing ys after with
  | nil => simp
  | cons x items ih =>
    have hx := hd x List.mem_cons_self
    rw [List.mapM_cons, outcome_bind] at h
    rcases hrun : outcome (f x) disk with ⟨fault | y, middle⟩
    · rw [hrun] at h
      cases h
    · obtain rfl : middle = disk := by rwa [hrun] at hx
      rw [hrun] at h
      simp only at h
      rw [outcome_bind] at h
      rcases hrest : outcome (items.mapM f) middle with ⟨fault | zs, last⟩
      · rw [hrest] at h
        cases h
      · rw [List.forall_mem_cons]
        exact ⟨⟨y, hrun⟩, ih (fun x hx => hd x (List.mem_cons_of_mem _ hx)) hrest⟩

theorem outcome_filterM {f : α → ExceptT ε (StateM Snapshot) Bool} {p : α → Bool}
    (h : ∀ x, outcome (f x) disk = (.ok (p x), disk)) (items : List α) :
    outcome (items.filterM f) disk = (.ok (items.filter p), disk) := by
  have haux : ∀ kept, outcome (items.filterAuxM f kept) disk =
      (.ok ((items.filter p).reverse ++ kept), disk) := by
    induction items with
    | nil => exact fun kept => rfl
    | cons x items ih =>
      intro kept
      rw [List.filterAuxM, outcome_bind, h]
      simp only
      rw [ih]
      cases hp : p x <;> simp [hp]
  rw [List.filterM, outcome_bind, haux]
  simp only [List.append_nil]
  change (Except.ok ((items.filter p).reverse.reverse), disk) = _
  rw [List.reverse_reverse]

/-- What a path names, if it names anything. -/
def Snapshot.kindAt (disk : Snapshot) (path : String) : Option FileKind :=
  match disk.status path with
  | .ok status => some status.kind
  | .error _ => none

theorem run_kind? (path : String) (disk : Snapshot) :
    (kind? path : StateM Snapshot (Option FileKind)).run disk = (disk.kindAt path, disk) := by
  have hs : ((FileSystem.status path : ExceptT Fault (StateM Snapshot) Status).run).run disk =
      (disk.status path, disk) := rfl
  rw [kind?, Snapshot.kindAt, run_bind_of_eq hs]
  cases disk.status path <;> rfl

end Runs

namespace Snapshot
variable {disk : Snapshot} {path : String}

theorem kindAt_eq_file_iff : disk.kindAt path = some .file ↔
    ∃ place content mode, disk.get path = .ok (place, .file content mode) := by
  unfold kindAt status
  rcases disk.get path with cause | ⟨place, ⟨content, mode⟩ | mode | target⟩ <;> simp

theorem kindAt_eq_directory_iff : disk.kindAt path = some .directory ↔
    ∃ place mode, disk.get path = .ok (place, .directory mode) := by
  unfold kindAt status
  rcases disk.get path with cause | ⟨place, ⟨content, mode⟩ | mode | target⟩ <;> simp

theorem isSome_kindAt_iff : (disk.kindAt path).isSome = true ↔
    ∃ place item, disk.get path = .ok (place, item) := by
  unfold kindAt status
  rcases disk.get path with cause | ⟨place, ⟨content, mode⟩ | mode | target⟩ <;> simp

end Snapshot
end ProjectOrder.Disk

namespace ProjectOrder.Bundle
open ProjectOrder.Disk ProjectOrder.Disk.Snapshot ProjectOrder.Text

variable {disk after : Snapshot} {root name : String} {place : Location}

theorem outcome_isThere {ε : Type} (path : String) (disk : Snapshot) :
    outcome (liftM (isThere path : StateM Snapshot Bool) :
      ExceptT ε (StateM Snapshot) Bool) disk = (.ok (disk.kindAt path).isSome, disk) := by
  rw [outcome_lift, isThere, run_bind_of_eq (run_kind? path disk)]
  rfl

/-- The ways on to bundles from the directory of this name, which may be a bundle itself. -/
def waysFrom (disk : Snapshot) (root name : String) : List (List String) :=
  if Path.endsWith ending name then [[]]
  else match disk.get (Path.child root name) with
    | .ok (below, _) => bundlesAmong (disk.waysBelow isEntered below)
    | .error _ => []

/-- The names of the directories that are searched, the last of them first. -/
def searchedNames (disk : Snapshot) (place : Location) : List String :=
  ((disk.directoryNames place).filter isSearched).mergeSort fun a b => (compare b a).isLE

/-- The ways down to bundles, as the paths that are joined on the way lead. -/
def waysToBundles (disk : Snapshot) (root : String) (place : Location) : List (List String) :=
  (searchedNames disk place).flatMap fun name => (waysFrom disk root name).map (name :: ·)

/-- The project files that a search finds. -/
def discovered (disk : Snapshot) (root : String) (place : Location) : List String :=
  let files := (waysToBundles disk root place).map fun way => Path.below root (way ++ [projectFile])
  (files.filter fun file => (disk.kindAt file).isSome).mergeSort fun a b =>
    (Utf16.compareUnits (Utf16.encode a.toList) (Utf16.encode b.toList)).isLE

/-- The directory of this name is there, at the path that is joined for it, and it and all that is
searched in it can be listed. -/
def IsOpenAt (disk : Snapshot) (root name : String) : Prop :=
  ∃ below mode, disk.get (Path.child root name) = .ok (below, .directory mode) ∧
    disk.firstClosed? isEntered below = none

/-- The directories that a search means to list can be listed. -/
structure IsOpen (disk : Snapshot) (root : String) (place : Location) : Prop where
  listed : disk.firstClosed? (fun _ => false) place = none
  entered : ∀ name ∈ searchedNames disk place, Path.endsWith ending name = false →
    IsOpenAt disk root name

theorem mem_searchedNames_iff (hn : (disk.items.map Prod.fst).Nodup) :
    name ∈ searchedNames disk place ↔
      disk.isDirectory (place ++ [name]) = true ∧ isSearched name = true := by
  rw [searchedNames, List.mem_mergeSort, List.mem_filter, mem_names_iff hn]

theorem mem_discovered_iff {file : String} :
    file ∈ discovered disk root place ↔
      (∃ way ∈ waysToBundles disk root place, file = Path.below root (way ++ [projectFile])) ∧
        ∃ goal item, disk.get file = .ok (goal, item) := by
  rw [discovered, List.mem_mergeSort, List.mem_filter, List.mem_map, isSome_kindAt_iff]
  simp only [eq_comm]

theorem name_below_projectFile (root : String) (way : List String) :
    Path.name (Path.below root (way ++ [projectFile])) = projectFile := by
  have hname := isFileName_projectFile
  rw [Path.below_concat]
  exact Path.name_child _ hname.toIsComponent hname.ne_dot hname.ne_up

theorem outcome_bundlesFrom (h : Path.endsWith ending name = false → IsOpenAt disk root name) :
    outcome (bundlesFrom root name) disk =
      (.ok ((waysFrom disk root name).map (Path.below (Path.child root name))), disk) := by
  simp only [bundlesFrom, waysFrom]
  by_cases hname : Path.endsWith ending name = true
  · rw [if_pos hname, if_pos hname]
    rfl
  · obtain ⟨below, mode, hget, hlisted⟩ := h (by simpa using hname)
    rw [if_neg hname, if_neg hname, outcome_bind, FileSystem.outcome_directoriesBelow,
      directoriesBelow_eq hget, hlisted, hget]
    rfl

theorem outcome_bundlesFrom_snd : (outcome (bundlesFrom root name) disk).2 = disk := by
  simp only [bundlesFrom]
  split_ifs
  · rfl
  · exact outcome_bind_snd rfl fun _ => rfl

theorem isOpenAt_of_outcome {bundles : List String}
    (h : outcome (bundlesFrom root name) disk = (.ok bundles, after))
    (hname : Path.endsWith ending name = false) : IsOpenAt disk root name := by
  simp only [bundlesFrom, hname, Bool.false_eq_true, if_false] at h
  rw [outcome_bind, FileSystem.outcome_directoriesBelow, directoriesBelow] at h
  rcases hget : disk.get (Path.child root name) with cause | ⟨below, _ | mode | _⟩
  · rw [hget] at h
    cases h
  · rw [hget] at h
    cases h
  · rw [hget] at h
    cases hlisted : disk.firstClosed? isEntered below with
    | none => exact ⟨below, mode, hget, hlisted⟩
    | some closed =>
      simp only [hlisted] at h
      cases h
  · rw [hget] at h
    cases h

theorem files_of_bundles (disk : Snapshot) (root : String) (place : Location) :
    (((searchedNames disk place).map fun name =>
      (waysFrom disk root name).map (Path.below (Path.child root name))).flatten.map
        (Path.child · projectFile)) =
      (waysToBundles disk root place).map fun way => Path.below root (way ++ [projectFile]) := by
  rw [waysToBundles, List.flatMap_def, List.map_flatten, List.map_flatten, List.map_map,
    List.map_map]
  congr 2
  funext name
  simp only [Function.comp_apply, List.map_map, Path.below_concat]
  rfl

/-- The search comes to its end if it can list the directories that it means to list. -/
theorem outcome_discover {mode : Nat} (hget : disk.get root = .ok (place, .directory mode))
    (h : IsOpen disk root place) :
    outcome (discover root) disk = (.ok (discovered disk root place), disk) := by
  have hbundles : outcome ((searchedNames disk place).mapM (bundlesFrom root)) disk =
      (.ok ((searchedNames disk place).map fun name =>
        (waysFrom disk root name).map (Path.below (Path.child root name))), disk) :=
    outcome_mapM fun name hname => outcome_bundlesFrom (h.entered name hname)
  rw [discover, outcome_bind, FileSystem.outcome_directoriesBelow, directoriesBelow_eq hget, h.listed]
  simp only
  rw [outcome_bind, flatten_waysBelow, ← searchedNames, hbundles]
  simp only
  rw [outcome_bind, outcome_filterM fun file => outcome_isThere file disk, files_of_bundles]
  rfl

theorem outcome_discover_snd : (outcome (discover root) disk).2 = disk := by
  refine outcome_bind_snd rfl fun ways => outcome_bind_snd ?_ fun bundles => outcome_bind_snd ?_ ?_
  · exact outcome_mapM_snd fun _ _ => outcome_bundlesFrom_snd
  · exact congrArg Prod.snd (outcome_filterM (fun file => outcome_isThere file disk) _)
  · exact fun _ => rfl

/-- The search does not come to its end otherwise. -/
theorem isOpen_of_outcome {files : List String} {mode : Nat}
    (hget : disk.get root = .ok (place, .directory mode))
    (h : outcome (discover root) disk = (.ok files, after)) : IsOpen disk root place := by
  rw [discover, outcome_bind, FileSystem.outcome_directoriesBelow, directoriesBelow_eq hget] at h
  cases hlisted : disk.firstClosed? (fun _ => false) place with
  | some closed =>
    simp only [hlisted] at h
    cases h
  | none =>
    simp only [hlisted] at h
    rw [outcome_bind, flatten_waysBelow, ← searchedNames] at h
    rcases hrun : outcome ((searchedNames disk place).mapM (bundlesFrom root)) disk with
      ⟨fault | bundles, middle⟩
    · rw [hrun] at h
      cases h
    · refine ⟨hlisted, fun name hname hending => ?_⟩
      obtain ⟨found, hfound⟩ :=
        exists_of_outcome_mapM (fun _ _ => outcome_bundlesFrom_snd) hrun name hname
      exact isOpenAt_of_outcome hfound hending

end ProjectOrder.Bundle
