import ProjectOrder.Proofs.Searches
import ProjectOrder.Proofs.UnitOrder

/-! Which projects are found below a directory. -/
namespace ProjectOrder.Bundle
open ProjectOrder.Disk ProjectOrder.Disk.Snapshot ProjectOrder.Text

/-- The way leads down from a place through directories that are entered, to a bundle at its end that
is searched. All of them are directories themselves and no links to directories. -/
inductive LeadsToBundle (disk : Snapshot) : (place : Location) → (way : List String) → Prop
  | bundle {place : Location} {name : String} :
    disk.isDirectory (place ++ [name]) = true → isSearched name = true →
      Path.endsWith ending name = true → LeadsToBundle disk place [name]
  | inside {place : Location} {name : String} {way : List String} :
    disk.isDirectory (place ++ [name]) = true → isSearched name = true →
      Path.endsWith ending name = false → LeadsToBundle disk (place ++ [name]) way →
        LeadsToBundle disk place (name :: way)

/-- The files are the project files in the bundles below the root, which is the directory at this
place. A project file may be a link that leads to something. -/
structure Finds (disk : Snapshot) (root : String) (place : Location) (files : List String) : Prop where
  outcome_eq : outcome (discover root) disk = (.ok files, disk)
  mem_iff : ∀ file, file ∈ files ↔ ∃ way, LeadsToBundle disk place way ∧
    file = Path.below root (way ++ [projectFile]) ∧ ∃ goal item, disk.get file = .ok (goal, item)
  increasing : files.Pairwise Utf16.Precedes

/-- The files are found in whatever order the disk lists its items, and each of them means itself. -/
structure IsDiscovery (disk : Snapshot) (root : String) (place : Location) (files : List String) :
    Prop extends Finds disk root place files where
  any_order : ∀ other, ListsAlike disk other →
    outcome (discover root) other = (.ok files, other)
  resolve_eq : ∀ file ∈ files, resolve file = .ok file

/-- The path that is joined to the root for a directory in it leads to a directory with the same
projects, as far as joined paths lead to project files. -/
def JoinsAlike (disk : Snapshot) (root : String) (place : Location) : Prop :=
  ∀ name, disk.isDirectory (place ++ [name]) = true → isSearched name = true →
    Path.endsWith ending name = false →
      ∃ below mode, disk.get (Path.child root name) = .ok (below, .directory mode) ∧
        ∀ way goal item,
          disk.get (Path.below root (name :: way ++ [projectFile])) = .ok (goal, item) →
            (LeadsToBundle disk below way ↔ LeadsToBundle disk (place ++ [name]) way)

variable {disk other : Snapshot} {root name : String} {place : Location} {way : List String}
  {files : List String}

section Ways

theorem not_leadsToBundle_nil : ¬ LeadsToBundle disk place [] := nofun

theorem leadsToBundle_cons_iff (h : isSearched name = true) (hn : Path.endsWith ending name = false)
    (hitem : disk.isDirectory (place ++ [name]) = true) :
    LeadsToBundle disk place (name :: way) ↔ LeadsToBundle disk (place ++ [name]) way := by
  constructor
  · intro hway
    cases hway with
    | bundle _ _ hending =>
      rw [hn] at hending
      cases hending
    | inside _ _ _ hrest => exact hrest
  · exact .inside hitem h hn

theorem LeadsToBundle.isDirectory (h : LeadsToBundle disk place way) :
    disk.isDirectory (place ++ way) = true := by
  induction h with
  | bundle hdirectory => exact hdirectory
  | inside _ _ _ _ ih => simpa using ih

theorem LeadsToBundle.ne_nil (h : LeadsToBundle disk place way) : way ≠ [] := by
  cases h <;> simp

theorem LeadsToBundle.congr (hsame : ∀ place, other.item? place = disk.item? place)
    (h : LeadsToBundle disk place way) : LeadsToBundle other place way := by
  induction h with
  | bundle hdirectory hs he => exact .bundle ((grants_congr (hsame _)).trans hdirectory) hs he
  | inside hdirectory hs he _ ih => exact .inside ((grants_congr (hsame _)).trans hdirectory) hs he ih

/-- Names by which a project file is reached can be written in paths. -/
theorem LeadsToBundle.isFileName (h : LeadsToBundle disk place way) (htree : disk.IsTree) :
    ∀ name ∈ way ++ [projectFile], IsFileName name := by
  obtain ⟨mode, hitem⟩ := isDirectory_iff.mp h.isDirectory
  rw [List.forall_mem_append, List.forall_mem_singleton]
  exact ⟨fun name hn => htree.isFileName_of_item? hitem name (List.mem_append_right _ hn),
    isFileName_projectFile⟩

theorem LeadsToBundle.areDirectories (h : LeadsToBundle disk place way) (htree : disk.IsTree) :
    disk.AreDirectories place way := by
  intro init hinit
  obtain ⟨back, rfl⟩ := hinit
  have hdirectory := h.isDirectory
  apply htree.searchable
  by_cases hback : back = []
  · simpa [hback] using hdirectory
  · obtain ⟨mode, hitem⟩ := isDirectory_iff.mp hdirectory
    rw [← List.append_assoc] at hitem
    exact htree.directory_above hback hitem

/-- The ways to bundles are among those that the traversal of the directories takes. -/
theorem mem_bundlesAmong_iff (hn : (disk.items.map Prod.fst).Nodup) :
    way ∈ bundlesAmong (disk.waysBelow isEntered place) ↔ LeadsToBundle disk place way := by
  rw [bundlesAmong, List.mem_filter]
  induction way generalizing place with
  | nil => exact iff_of_false (fun h => nil_notMem_waysBelow h.1) not_leadsToBundle_nil
  | cons name rest ih =>
    rw [cons_mem_waysBelow_iff hn]
    constructor
    · intro h
      obtain ⟨⟨hitem, rfl | ⟨henter, hrest⟩⟩, hlast⟩ := h
      · obtain ⟨hs, he⟩ : isSearched name = true ∧ Path.endsWith ending name = true := by
          simpa using hlast
        exact .bundle hitem hs he
      · obtain ⟨hs, he⟩ : isSearched name = true ∧ Path.endsWith ending name = false := by
          simpa [isEntered] using henter
        obtain ⟨next, more, rfl⟩ := List.exists_cons_of_ne_nil
          fun (hnil : rest = []) => nil_notMem_waysBelow (hnil ▸ hrest)
        rw [List.getLast?_cons_cons] at hlast
        exact .inside hitem hs he (ih.mp ⟨hrest, hlast⟩)
    · intro h
      cases h with
      | bundle hitem hs he => exact ⟨⟨hitem, .inl rfl⟩, by simp [hs, he]⟩
      | inside hitem hs he hrest =>
        obtain ⟨hmem, hlast⟩ := ih.mpr hrest
        obtain ⟨next, more, rfl⟩ := List.exists_cons_of_ne_nil hrest.ne_nil
        refine ⟨⟨hitem, .inr ⟨by simp [isEntered, hs, he], hmem⟩⟩, ?_⟩
        rwa [List.getLast?_cons_cons]

theorem waysFrom_eq {below : Location} {mode : Nat} (hn : Path.endsWith ending name = false)
    (hget : disk.get (Path.child root name) = .ok (below, .directory mode)) :
    waysFrom disk root name = bundlesAmong (disk.waysBelow isEntered below) := by
  rw [waysFrom, hn, hget]
  rfl

/-- The ways that a search takes: its first step is taken from the root, the others from where the
path that is joined for it leads. -/
theorem cons_mem_waysToBundles_iff (htree : disk.IsTree) :
    name :: way ∈ waysToBundles disk root place ↔
      disk.isDirectory (place ++ [name]) = true ∧ isSearched name = true ∧
        way ∈ waysFrom disk root name := by
  simp only [waysToBundles, List.mem_flatMap, List.mem_map, mem_searchedNames_iff htree.nodup]
  constructor
  · intro h
    obtain ⟨other, ⟨hitem, hs⟩, rest, hrest, heq⟩ := h
    cases heq
    exact ⟨hitem, hs, hrest⟩
  · intro h
    exact ⟨name, ⟨h.1, h.2.1⟩, way, h.2.2, rfl⟩

theorem ne_nil_of_mem_waysToBundles (h : way ∈ waysToBundles disk root place) : way ≠ [] := by
  rw [waysToBundles, List.mem_flatMap] at h
  obtain ⟨name, -, h⟩ := h
  obtain ⟨rest, -, rfl⟩ := List.mem_map.mp h
  simp

/-- A search takes names only that can be written in paths. -/
theorem isFileName_of_mem_waysToBundles (htree : disk.IsTree)
    (h : way ∈ waysToBundles disk root place) : ∀ name ∈ way ++ [projectFile], IsFileName name := by
  obtain ⟨name, rest, rfl⟩ := List.exists_cons_of_ne_nil (ne_nil_of_mem_waysToBundles h)
  obtain ⟨hdirectory, -, hrest⟩ := (cons_mem_waysToBundles_iff htree).mp h
  obtain ⟨mode, hitem⟩ := isDirectory_iff.mp hdirectory
  have hname := htree.isFileName_of_item? hitem name (by simp)
  rw [List.cons_append, List.forall_mem_cons]
  refine ⟨hname, ?_⟩
  unfold waysFrom at hrest
  split at hrest
  · rw [List.mem_singleton] at hrest
    simpa [hrest] using isFileName_projectFile
  · split at hrest
    · exact ((mem_bundlesAmong_iff htree.nodup).mp hrest).isFileName htree
    · cases hrest

theorem nodup_waysToBundles (htree : disk.IsTree) : (waysToBundles disk root place).Nodup := by
  have hnames : (searchedNames disk place).Nodup := by
    rw [searchedNames, (List.mergeSort_perm _ _).nodup_iff]
    exact (nodup_names htree.nodup place).filter _
  rw [waysToBundles, List.nodup_flatMap]
  constructor
  · intro name _
    refine List.Nodup.map (List.cons_injective) ?_
    unfold waysFrom
    split
    · simp
    · split
      · exact (nodup_waysBelow isEntered _ htree.nodup).filter _
      · simp
  · refine hnames.imp fun {a b} hab way ha hb => ?_
    obtain ⟨rest, -, rfl⟩ := List.mem_map.mp ha
    obtain ⟨other, -, heq⟩ := List.mem_map.mp hb
    exact hab (List.cons.inj heq).1.symm

theorem increasing_discovered (htree : disk.IsTree) :
    (discovered disk root place).Pairwise Utf16.Precedes := by
  refine Utf16.pairwise_mergeSort_precedes (List.Nodup.filter _ ?_)
  refine List.Nodup.map_on (fun way hway other hother heq => ?_) (nodup_waysToBundles htree)
  exact List.append_cancel_right (Path.below_inj (by simp)
    (isFileName_of_mem_waysToBundles htree hway) (by simp)
    (isFileName_of_mem_waysToBundles htree hother) heq)

end Ways

section Joining

/-- Paths are joined rightly if the ways that they take are those to the bundles below the root. -/
theorem joinsAlike_iff (htree : disk.IsTree) (hplace : disk.isDirectory place = true) :
    JoinsAlike disk root place ↔ IsOpen disk root place ∧
      ∀ way goal item, disk.get (Path.below root (way ++ [projectFile])) = .ok (goal, item) →
        (way ∈ waysToBundles disk root place ↔ LeadsToBundle disk place way) := by
  constructor
  · intro h
    have hopen : IsOpen disk root place := by
      refine ⟨htree.firstClosed?_eq_none hplace _, fun name hname hn => ?_⟩
      obtain ⟨hitem, hs⟩ := (mem_searchedNames_iff htree.nodup).mp hname
      obtain ⟨below, mode, hget, -⟩ := h name hitem hs hn
      have hbelow : disk.item? below = some (.directory mode) := item?_of_find (get_eq_ok_iff.mp hget)
      exact ⟨below, mode, hget, htree.firstClosed?_eq_none (isDirectory_iff.mpr ⟨mode, hbelow⟩) _⟩
    refine ⟨hopen, fun way goal item hthere => ?_⟩
    cases way with
    | nil => exact iff_of_false (fun hw => ne_nil_of_mem_waysToBundles hw rfl) not_leadsToBundle_nil
    | cons name rest =>
      rw [cons_mem_waysToBundles_iff htree]
      constructor
      · intro hway
        obtain ⟨hitem, hs, hrest⟩ := hway
        cases hn : Path.endsWith ending name with
        | true =>
          obtain rfl : rest = [] := by simpa [waysFrom, hn] using hrest
          exact .bundle hitem hs hn
        | false =>
          obtain ⟨below, mode, hget, hsame⟩ := h name hitem hs hn
          rw [waysFrom_eq hn hget, mem_bundlesAmong_iff htree.nodup] at hrest
          exact .inside hitem hs hn ((hsame rest goal item hthere).mp hrest)
      · intro hway
        cases hway with
        | bundle hitem hs hn => exact ⟨hitem, hs, by simp [waysFrom, hn]⟩
        | inside hitem hs hn hrest =>
          obtain ⟨below, mode, hget, hsame⟩ := h name hitem hs hn
          refine ⟨hitem, hs, ?_⟩
          rw [waysFrom_eq hn hget, mem_bundlesAmong_iff htree.nodup]
          exact (hsame rest goal item hthere).mpr hrest
  · intro h
    obtain ⟨hopen, hways⟩ := h
    intro name hitem hs hn
    obtain ⟨below, mode, hget, -⟩ :=
      hopen.entered name ((mem_searchedNames_iff htree.nodup).mpr ⟨hitem, hs⟩) hn
    refine ⟨below, mode, hget, fun way goal item hthere => ?_⟩
    rw [← leadsToBundle_cons_iff hs hn hitem, ← hways (name :: way) goal item hthere,
      cons_mem_waysToBundles_iff htree, waysFrom_eq hn hget, mem_bundlesAmong_iff htree.nodup]
    simp [hitem, hs]

theorem exists_finds_iff {mode : Nat} (htree : disk.IsTree)
    (hget : disk.get root = .ok (place, .directory mode)) :
    (∃ files, Finds disk root place files) ↔ JoinsAlike disk root place := by
  have hitem : disk.item? place = some (.directory mode) := item?_of_find (get_eq_ok_iff.mp hget)
  rw [joinsAlike_iff htree (isDirectory_iff.mpr ⟨mode, hitem⟩)]
  constructor
  · intro h
    obtain ⟨files, hrun, hmem, -⟩ := h
    have hopen := isOpen_of_outcome hget hrun
    rw [outcome_discover hget hopen, Prod.mk.injEq, Except.ok.injEq] at hrun
    obtain ⟨rfl, -⟩ := hrun
    refine ⟨hopen, fun way goal item hthere => ?_⟩
    have hfile := hmem (Path.below root (way ++ [projectFile]))
    rw [mem_discovered_iff] at hfile
    -- The way can be read off the path of the file, so that the lists agree on ways, too.
    constructor
    · intro hway
      obtain ⟨other, hother, heq, -⟩ := hfile.mp ⟨⟨way, hway, rfl⟩, goal, item, hthere⟩
      have hsame := Path.below_inj (by simp) (isFileName_of_mem_waysToBundles htree hway) (by simp)
        (hother.isFileName htree) heq
      exact List.append_cancel_right hsame ▸ hother
    · intro hway
      obtain ⟨⟨other, hother, heq⟩, -⟩ := hfile.mpr ⟨way, hway, rfl, goal, item, hthere⟩
      have hsame := Path.below_inj (by simp) (hway.isFileName htree) (by simp)
        (isFileName_of_mem_waysToBundles htree hother) heq
      exact List.append_cancel_right hsame ▸ hother
  · intro h
    obtain ⟨hopen, hways⟩ := h
    refine ⟨discovered disk root place, outcome_discover hget hopen, fun file => ?_,
      increasing_discovered htree⟩
    rw [mem_discovered_iff]
    constructor
    · intro hfile
      obtain ⟨⟨way, hway, rfl⟩, goal, item, hthere⟩ := hfile
      exact ⟨way, (hways way goal item hthere).mp hway, rfl, goal, item, hthere⟩
    · intro hfile
      obtain ⟨way, hway, rfl, goal, item, hthere⟩ := hfile
      exact ⟨⟨way, (hways way goal item hthere).mpr hway, rfl⟩, goal, item, hthere⟩

theorem leadsToBundle_congr_iff (hn : (disk.items.map Prod.fst).Nodup)
    (halike : ListsAlike disk other) :
    LeadsToBundle other place way ↔ LeadsToBundle disk place way := by
  have hsame := halike.item?_eq hn
  exact ⟨.congr fun place => (hsame place).symm, .congr hsame⟩

/-- The order in which a disk lists its items decides nothing. -/
theorem JoinsAlike.reordered (h : JoinsAlike disk root place) (htree : disk.IsTree)
    (halike : ListsAlike disk other) : JoinsAlike other root place := by
  intro name hitem hs hn
  rw [isDirectory, halike.grants_eq htree.nodup] at hitem
  obtain ⟨below, mode, hget, hbelow⟩ := h name hitem hs hn
  refine ⟨below, mode, (halike.get_eq_ok_iff htree.nodup _).mpr hget, fun way goal item hthere => ?_⟩
  rw [leadsToBundle_congr_iff htree.nodup halike, leadsToBundle_congr_iff htree.nodup halike]
  exact hbelow way goal item ((halike.get_eq_ok_iff htree.nodup _).mp hthere)

theorem Finds.outcome_reordered {mode : Nat} (h : Finds disk root place files)
    (htree : disk.IsTree) (hget : disk.get root = .ok (place, .directory mode))
    (halike : ListsAlike disk other) : outcome (discover root) other = (.ok files, other) := by
  have hjoins := ((exists_finds_iff htree hget).mp ⟨files, h⟩).reordered htree halike
  obtain ⟨found, hfound⟩ := (exists_finds_iff (htree.reordered halike)
    ((halike.get_eq_ok_iff htree.nodup _).mpr hget)).mpr hjoins
  have heq : found = files := by
    refine hfound.increasing.eq_of_mem_iff h.increasing fun file => ?_
    rw [hfound.mem_iff, h.mem_iff]
    simp only [leadsToBundle_congr_iff htree.nodup halike, halike.get_eq_ok_iff htree.nodup]
  exact heq ▸ hfound.outcome_eq

theorem resolve_below_projectFile (root : String) (way : List String) :
    resolve (Path.below root (way ++ [projectFile])) =
      .ok (Path.below root (way ++ [projectFile])) := by
  have hname := name_below_projectFile root way
  have hending : Path.endsWith ending projectFile = false := by decide
  simp [resolve, hname, hending]

theorem Finds.isDiscovery {mode : Nat} (h : Finds disk root place files) (htree : disk.IsTree)
    (hget : disk.get root = .ok (place, .directory mode)) : IsDiscovery disk root place files where
  toFinds := h
  any_order := fun _ halike => h.outcome_reordered htree hget halike
  resolve_eq := fun file hfile => by
    obtain ⟨way, -, rfl, -⟩ := (h.mem_iff file).mp hfile
    exact resolve_below_projectFile root way

/-- Paths are joined rightly where no step up in the root can undo a step through a link. -/
theorem joinsAlike_of_no_step_up {mode : Nat} (htree : disk.IsTree)
    (hget : disk.get root = .ok (place, .directory mode))
    (h : ".." ∉ Path.components root ∨ disk.NoLinks) : JoinsAlike disk root place := by
  intro name hdirectory hs hn
  obtain ⟨mode, hitem⟩ := isDirectory_iff.mp hdirectory
  have hname := htree.isFileName_of_item? hitem name (by simp)
  have hplace : disk.AreDirectories place [] := htree.areDirectories hitem
  have hfind := find_below true name hget h hplace (by simpa using hname)
    (.inr (by simp [hitem]))
  refine ⟨place ++ [name], mode, get_eq_ok_iff.mpr ?_, fun _ _ _ _ => .rfl⟩
  rw [List.nil_append, hitem] at hfind
  exact hfind

/-- The path that is listed for a project file is that of the item in the bundle. -/
theorem LeadsToBundle.find_below {mode : Nat} (hway : LeadsToBundle disk place way)
    (htree : disk.IsTree) (hget : disk.get root = .ok (place, .directory mode))
    (h : ".." ∉ Path.components root ∨ disk.NoLinks) :
    disk.find false (Path.below root (way ++ [projectFile])) =
      .ok (place ++ (way ++ [projectFile]), disk.item? (place ++ (way ++ [projectFile]))) :=
  Snapshot.find_below false projectFile hget h (hway.areDirectories htree) (hway.isFileName htree) (.inl rfl)

end Joining

/-- The search finds the project files below a directory exactly if the paths that it joins lead to
the same projects as the directories that it lists. They do unless steps up in the path of the
directory undo steps through links. -/
theorem discovers_exactly_if_joined_alike {mode : Nat} (htree : disk.IsTree)
    (hget : disk.get root = .ok (place, .directory mode)) :
    ((∃ files, IsDiscovery disk root place files) ↔ JoinsAlike disk root place) ∧
      (".." ∉ Path.components root ∨ disk.NoLinks →
        (∃ files, IsDiscovery disk root place files) ∧
          ∀ way, LeadsToBundle disk place way →
            disk.find false (Path.below root (way ++ [projectFile])) =
              .ok (place ++ (way ++ [projectFile]),
                disk.item? (place ++ (way ++ [projectFile])))) := by
  have hiff : (∃ files, IsDiscovery disk root place files) ↔ JoinsAlike disk root place := by
    rw [← exists_finds_iff htree hget]
    constructor
    · intro h
      obtain ⟨files, h⟩ := h
      exact ⟨files, h.toFinds⟩
    · intro h
      obtain ⟨files, h⟩ := h
      exact ⟨files, h.isDiscovery htree hget⟩
  refine ⟨hiff, fun h => ⟨hiff.mpr (joinsAlike_of_no_step_up htree hget h), ?_⟩⟩
  exact fun way hway => hway.find_below htree hget h

section Stray

/-- The directory `a` holds no project and a link leads into it, and a project is in a directory
outside of `a`. -/
def strayDisk : Snapshot :=
  { items := [
      (["link"], .link "a/b"), (["a"], .directory 0o755), (["a", "b"], .directory 0o755),
      (["b"], .directory 0o755), (["b", "Y.xcodeproj"], .directory 0o755),
      (["b", "Y.xcodeproj", projectFile], .file [] 0o644)]
    workingDirectory := []
    umask := 0o022
    temporaryTag := "tag" }

theorem isFileName_of_mem_strayNames {name : String}
    (h : name ∈ ["link", "a", "b", "Y.xcodeproj", projectFile]) : IsFileName name := by
  simp only [List.mem_cons, List.not_mem_nil, or_false] at h
  rcases h with rfl | rfl | rfl | rfl | rfl <;>
    exact ⟨⟨by decide, by decide, by decide, by decide⟩, by decide, by decide⟩

theorem isTree_strayDisk : strayDisk.IsTree := by
  have hmodes : ∀ entry ∈ strayDisk.items, ∀ mode, entry.2 = .directory mode → mode = 0o755 := by
    simp [strayDisk, eq_comm]
  refine ⟨by decide, fun entry he name hn => isFileName_of_mem_strayNames ?_, by decide, ?_, ?_⟩
  · simp only [strayDisk, List.mem_cons, List.not_mem_nil, or_false] at he
    rcases he with rfl | rfl | rfl | rfl | rfl | rfl <;> simp at hn ⊢ <;> grind
  · refine fun place => grants_of_modes (by decide) fun entry he mode hmode => ?_
    rw [hmodes entry he mode hmode]
    decide
  · refine fun place => grants_of_modes (by decide) fun entry he mode hmode => ?_
    rw [hmodes entry he mode hmode]
    decide

/-- The root is the directory above the one that the link leads to. -/
theorem get_above_link : strayDisk.get "link/.." = .ok (["a"], .directory 0o755) := by
  have hsteps : steps "link/.." = ["link", ".."] := by decide
  have htarget : steps "a/b" = ["a", "b"] := by decide
  have hname : ∀ name ∈ ["link", "a", "b", "Y.xcodeproj", projectFile], IsName name :=
    fun name hn => (isFileName_of_mem_strayNames hn).toIsName
  refine Leads.get ?_ (by decide) (by decide) rfl
  rw [hsteps]
  change Leads strayDisk true (39 + 1) _ _ _
  refine .through rfl (hname _ (by decide)) rfl (.inl (by simp)) ?_
  rw [htarget]
  exact .down rfl (hname _ (by decide)) rfl (by simp) (.down rfl (hname _ (by decide)) rfl (by simp)
    (.up rfl .here))

theorem get_outside : strayDisk.get "b" = .ok (["b"], .directory 0o755) := by
  have hsteps : steps "b" = ["b"] := by decide
  refine Leads.get ?_ (by decide) (by decide) rfl
  rw [hsteps]
  exact .down rfl (isFileName_of_mem_strayNames (by decide)).toIsName rfl (by simp) .here

theorem leadsToBundle_outside : LeadsToBundle strayDisk ["b"] ["Y.xcodeproj"] :=
  .bundle rfl (by decide) (by decide)

theorem get_projectFile_outside :
    strayDisk.get "b/Y.xcodeproj/project.pbxproj" =
      .ok (["b", "Y.xcodeproj", projectFile], .file [] 0o644) := by
  have hpath : Path.below "b" (["Y.xcodeproj"] ++ [projectFile]) = "b/Y.xcodeproj/project.pbxproj" := by
    decide +kernel
  have hway := leadsToBundle_outside
  have hfind := find_below true projectFile get_outside (.inl (by decide))
    (hway.areDirectories isTree_strayDisk) (hway.isFileName isTree_strayDisk)
    (.inr fun target => by simp [strayDisk, item?, List.lookup_cons, projectFile])
  rw [hpath] at hfind
  exact get_eq_ok_iff.mpr hfind

theorem searchedNames_strayDisk : searchedNames strayDisk ["a"] = ["b"] := by decide +kernel

theorem child_above_link : Path.child "link/.." "b" = "b" := by decide +kernel

/-- For a directory inside the root the search takes the one outside of it. -/
theorem waysToBundles_strayDisk :
    waysToBundles strayDisk "link/.." ["a"] = [["b", "Y.xcodeproj"]] := by
  have hget : strayDisk.get (Path.child "link/.." "b") = .ok (["b"], .directory 0o755) :=
    child_above_link ▸ get_outside
  have hbundles : bundlesAmong (strayDisk.waysBelow isEntered ["b"]) = [["Y.xcodeproj"]] := by
    decide +kernel
  rw [waysToBundles, searchedNames_strayDisk, List.flatMap_singleton,
    waysFrom_eq (by decide) hget, hbundles]
  rfl

theorem discovered_strayDisk :
    discovered strayDisk "link/.." ["a"] = ["b/Y.xcodeproj/project.pbxproj"] := by
  have hpath : Path.below "link/.." (["b", "Y.xcodeproj"] ++ [projectFile]) =
      "b/Y.xcodeproj/project.pbxproj" := by decide +kernel
  have hthere : (strayDisk.kindAt "b/Y.xcodeproj/project.pbxproj").isSome = true :=
    isSome_kindAt_iff.mpr ⟨_, _, get_projectFile_outside⟩
  rw [discovered, waysToBundles_strayDisk]
  simp only [List.map_cons, List.map_nil, hpath, List.filter_cons, hthere, if_true, List.filter_nil,
    List.mergeSort_singleton]

/-- Where a step up undoes a step through a link, a project is found that is not below the root. -/
theorem project_elsewhere_discovered :
    strayDisk.IsTree ∧ strayDisk.get "link/.." = .ok (["a"], .directory 0o755) ∧
      outcome (discover "link/..") strayDisk =
        (.ok ["b/Y.xcodeproj/project.pbxproj"], strayDisk) ∧
      (∀ way, ¬ LeadsToBundle strayDisk ["a"] way) ∧
        ¬ ∃ files, IsDiscovery strayDisk "link/.." ["a"] files := by
  have hopen : IsOpen strayDisk "link/.." ["a"] := by
    refine ⟨isTree_strayDisk.firstClosed?_eq_none (by decide) _, fun name hname _ => ?_⟩
    rw [searchedNames_strayDisk, List.mem_singleton] at hname
    rw [hname, IsOpenAt, child_above_link]
    exact ⟨["b"], _, get_outside, isTree_strayDisk.firstClosed?_eq_none (by decide) _⟩
  have hrun := outcome_discover get_above_link hopen
  rw [discovered_strayDisk] at hrun
  have hbundles : bundlesAmong (strayDisk.waysBelow isEntered ["a"]) = [] := by decide +kernel
  have hnone : ∀ way, ¬ LeadsToBundle strayDisk ["a"] way := by
    intro way hway
    rw [← mem_bundlesAmong_iff isTree_strayDisk.nodup, hbundles] at hway
    cases hway
  refine ⟨isTree_strayDisk, get_above_link, hrun, hnone, fun h => ?_⟩
  obtain ⟨files, h⟩ := h
  have heq := h.outcome_eq.symm.trans hrun
  rw [Prod.mk.injEq, Except.ok.injEq] at heq
  obtain ⟨way, hway, -⟩ := (h.mem_iff "b/Y.xcodeproj/project.pbxproj").mp (by simp [heq.1])
  exact hnone way hway

/-- Below a directory that is named without a step up, the same project is found. -/
theorem discovers_exactly_if_joined_alike_below_name :
    strayDisk.IsTree ∧ strayDisk.get "b" = .ok (["b"], .directory 0o755) ∧
      ".." ∉ Path.components "b" ∧
        ∃ files, IsDiscovery strayDisk "b" ["b"] files ∧
          "b/Y.xcodeproj/project.pbxproj" ∈ files := by
  have hpath : "b/Y.xcodeproj/project.pbxproj" =
      Path.below "b" (["Y.xcodeproj"] ++ [projectFile]) := by decide +kernel
  have hup : ".." ∉ Path.components "b" := by decide
  obtain ⟨-, hsearch⟩ := discovers_exactly_if_joined_alike isTree_strayDisk get_outside
  obtain ⟨⟨files, hfiles⟩, -⟩ := hsearch (.inl hup)
  refine ⟨isTree_strayDisk, get_outside, hup, files, hfiles, ?_⟩
  exact (hfiles.mem_iff _).mpr
    ⟨_, leadsToBundle_outside, hpath, _, _, get_projectFile_outside⟩

end Stray

end ProjectOrder.Bundle
