import Mathlib.Data.List.Basic
import ProjectOrder.Disk.Snapshot

/-! Where paths lead on a disk, and that they lead there when files come and go. -/
namespace ProjectOrder.Disk

def Item.isFile : Item → Bool
  | .file _ _ => true
  | _ => false

namespace Snapshot
variable {disk after : Snapshot} {place : Location} {item : Item}

theorem ne_nil_of_item?_eq_none (h : disk.item? place = none) : place ≠ [] := by
  rintro rfl
  simp [item?] at h

theorem mem_of_item? (hp : place ≠ []) (h : disk.item? place = some item) :
    (place, item) ∈ disk.items := by
  rw [item?, if_neg hp] at h
  obtain ⟨front, back, heq, -⟩ := List.lookup_eq_some_iff.mp h
  rw [heq]
  simp

/-- A name that no item has is free in every directory. -/
theorem item?_concat_eq_none {name : String}
    (h : ∀ entry ∈ disk.items, entry.1.getLast? ≠ some name) (parent : Location) :
    disk.item? (parent ++ [name]) = none := by
  rw [← Option.not_isSome_iff_eq_none, Option.isSome_iff_exists]
  intro hitem
  obtain ⟨item, hitem⟩ := hitem
  exact h _ (mem_of_item? (by simp) hitem) List.getLast?_concat

theorem lookup_filter_ne (items : List (Location × Item)) {place other : Location}
    (h : other ≠ place) : (items.filter (·.1 ≠ place)).lookup other = items.lookup other := by
  induction items with
  | nil => rfl
  | cons entry items ih =>
    obtain ⟨key, item⟩ := entry
    by_cases hk : key = place
    · have hne : (other == key) = false := by simpa [hk] using h
      rw [List.filter_cons_of_neg (by simpa using hk), ih, List.lookup_cons, hne]
    · rw [List.filter_cons_of_pos (by simpa using hk), List.lookup_cons, List.lookup_cons, ih]

theorem item?_put_self (hp : place ≠ []) : (disk.put place item).item? place = some item := by
  simp [item?, hp, put]

theorem item?_put_of_ne {other : Location} (h : other ≠ place) :
    (disk.put place item).item? other = disk.item? other := by
  have hl := lookup_filter_ne disk.items h
  have hne : (other == place) = false := by simpa using h
  simp only [item?, put, erase, List.lookup_cons, hne, hl]

/-- What was put where nothing was can be taken away again. -/
theorem erase_put (h : disk.item? place = none) : (disk.put place item).erase place = disk := by
  have hp := ne_nil_of_item?_eq_none h
  have hkeys : ∀ entry ∈ disk.items, entry.1 ≠ place := by
    intro entry he hk
    rw [item?, if_neg hp, List.lookup_eq_none_iff] at h
    simpa [hk] using h entry he
  have hfilter : disk.items.filter (·.1 ≠ place) = disk.items := by
    rw [List.filter_eq_self]
    simpa using hkeys
  simp only [put, erase, List.filter_cons, hfilter]
  simp

section Grants
variable {allows : Nat → Bool}

theorem grants_eq_true_iff : disk.grants allows place = true ↔
    ∃ mode, disk.item? place = some (.directory mode) ∧ allows mode = true := by
  unfold grants
  cases disk.item? place with
  | none => simp
  | some item => cases item <;> simp

theorem isDirectory_iff : disk.isDirectory place = true ↔
    ∃ mode, disk.item? place = some (.directory mode) := by
  rw [isDirectory, grants_eq_true_iff]
  simp

theorem isDirectory_of_grants (h : disk.grants allows place = true) :
    disk.isDirectory place = true := by
  obtain ⟨mode, hitem, -⟩ := grants_eq_true_iff.mp h
  exact isDirectory_iff.mpr ⟨mode, hitem⟩

theorem grants_congr (h : after.item? place = disk.item? place) :
    after.grants allows place = disk.grants allows place := by
  rw [grants, grants, h]

end Grants

/-- The other disk differs in its files at most: none is gone, and none is new but where nothing
was. -/
structure FilesDiffer (disk after : Snapshot) : Prop where
  files : ∀ place item, disk.item? place = some item → item.isFile = true →
    ∃ other, after.item? place = some other ∧ other.isFile = true
  others : ∀ place item, disk.item? place = some item → item.isFile = false →
    after.item? place = some item
  added : ∀ place item, disk.item? place = none → after.item? place = some item →
    item.isFile = true
  workingDirectory : after.workingDirectory = disk.workingDirectory

/-- The disks are the same but for what is at one place. -/
structure ChangesOnly (disk after : Snapshot) (place : Location) (item : Item) : Prop where
  item_eq : after.item? place = some item
  others : ∀ other, other ≠ place → after.item? other = disk.item? other
  workingDirectory : after.workingDirectory = disk.workingDirectory
  umask : after.umask = disk.umask
  temporaryTag : after.temporaryTag = disk.temporaryTag
  opened : after.opened = disk.opened
  troubles : after.troubles = disk.troubles

theorem changesOnly_put (hp : place ≠ []) : ChangesOnly disk (disk.put place item) place item :=
  ⟨item?_put_self hp, fun _ ho => item?_put_of_ne ho, rfl, rfl, rfl, rfl, rfl⟩

theorem ChangesOnly.trouble?_eq (h : ChangesOnly disk after place item) (effort : Effort)
    (other : Location) : after.trouble? effort other = disk.trouble? effort other := by
  rw [trouble?, trouble?, h.troubles]

/-- A file where there was a file or nothing. -/
theorem ChangesOnly.filesDiffer (hc : ChangesOnly disk after place item)
    (h : ∀ old, disk.item? place = some old → old.isFile = true) (hi : item.isFile = true) :
    FilesDiffer disk after := by
  constructor
  · intro other found hf hfile
    by_cases ho : other = place
    · exact ⟨item, ho ▸ hc.item_eq, hi⟩
    · exact ⟨found, (hc.others other ho).trans hf, hfile⟩
  · intro other found hf hfile
    have ho : other ≠ place := by
      rintro rfl
      simp [h found hf] at hfile
    exact (hc.others other ho).trans hf
  · intro other found hf ha
    by_cases ho : other = place
    · rw [ho, hc.item_eq, Option.some.injEq] at ha
      exact ha ▸ hi
    · rw [hc.others other ho, hf] at ha
      cases ha
  · exact hc.workingDirectory

theorem filesDiffer_put (hp : place ≠ [])
    (h : ∀ old, disk.item? place = some old → old.isFile = true) (hi : item.isFile = true) :
    FilesDiffer disk (disk.put place item) :=
  (changesOnly_put hp).filesDiffer h hi

theorem FilesDiffer.grants (hd : FilesDiffer disk after) {allows : Nat → Bool}
    (h : disk.grants allows place = true) : after.grants allows place = true := by
  obtain ⟨mode, hitem, hmode⟩ := grants_eq_true_iff.mp h
  exact grants_eq_true_iff.mpr ⟨mode, hd.others place _ hitem rfl, hmode⟩

/-- A text that leads from a directory to one of the names in it. -/
structure IsName (name : String) : Prop where
  ne_empty : name ≠ ""
  ne_dot : name ≠ "."
  ne_up : name ≠ ".."
  size_le : name.utf8ByteSize ≤ maxNameBytes

/-- The steps lead from one place to another, with at most so many links on the way. -/
inductive Leads (disk : Snapshot) (follow : Bool) :
    (links : Nat) → (base : Location) → (path : List String) → (place : Location) → Prop
  | here {links : Nat} {base : Location} : Leads disk follow links base [] base
  /-- A slash at the end of a path asks for no more than a directory. -/
  | slash {links : Nat} {base place : Location} {path : List String} :
    disk.isDirectory base = true →
      Leads disk follow links base path place → Leads disk follow links base ("" :: path) place
  | stay {links : Nat} {base place : Location} {path : List String} :
    disk.grants isSearchable base = true →
      Leads disk follow links base path place → Leads disk follow links base ("." :: path) place
  | up {links : Nat} {base place : Location} {path : List String} :
    disk.grants isSearchable base = true → Leads disk follow links base.dropLast path place →
      Leads disk follow links base (".." :: path) place
  /-- Nothing is there, which only the last step may find. -/
  | absent {links : Nat} {base : Location} {name : String} :
    disk.grants isSearchable base = true → IsName name → disk.item? (base ++ [name]) = none →
      Leads disk follow links base [name] (base ++ [name])
  | down {links : Nat} {base place : Location} {name : String} {path : List String} {item : Item} :
    disk.grants isSearchable base = true → IsName name → disk.item? (base ++ [name]) = some item →
      (∀ target, item ≠ .link target) → Leads disk follow links (base ++ [name]) path place →
        Leads disk follow links base (name :: path) place
  /-- A link at the end is not followed. -/
  | link {links : Nat} {base : Location} {name target : String} :
    disk.grants isSearchable base = true → IsName name →
      disk.item? (base ++ [name]) = some (.link target) → follow = false →
        Leads disk follow links base [name] (base ++ [name])
  | through {links : Nat} {base place : Location} {name target : String} {path : List String} :
    disk.grants isSearchable base = true → IsName name →
      disk.item? (base ++ [name]) = some (.link target) → path ≠ [] ∨ follow = true →
        Leads disk follow links (if Path.isAbsolute target then [] else base)
          (steps target ++ path) place →
          Leads disk follow (links + 1) base (name :: path) place

section Walks
variable {follow : Bool} {links : Nat} {base : Location} {path : List String}

theorem walk_nil : disk.walk follow links base [] = .ok (base, disk.item? base) := by
  rw [walk]

theorem walk_slash (hb : disk.isDirectory base = true) :
    disk.walk follow links base ("" :: path) = disk.walk follow links base path := by
  rw [walk]
  simp [hb]

theorem walk_stay (hb : disk.grants isSearchable base = true) :
    disk.walk follow links base ("." :: path) = disk.walk follow links base path := by
  rw [walk]
  simp [hb, isDirectory_of_grants hb, show ¬ maxNameBytes < ".".utf8ByteSize by decide]

theorem walk_up (hb : disk.grants isSearchable base = true) :
    disk.walk follow links base (".." :: path) = disk.walk follow links base.dropLast path := by
  rw [walk]
  simp [hb, isDirectory_of_grants hb, show ¬ maxNameBytes < "..".utf8ByteSize by decide]

theorem walk_name {name : String} (hb : disk.grants isSearchable base = true) (hn : IsName name) :
    disk.walk follow links base (name :: path) = match disk.item? (base ++ [name]) with
      | none => if path = [] then .ok (base ++ [name], none) else .error .notFound
      | some (.link target) =>
        if path = [] ∧ !follow then .ok (base ++ [name], some (.link target))
        else match links with
          | 0 => .error .linkLoop
          | links + 1 =>
            disk.walk follow links (if Path.isAbsolute target then [] else base)
              (steps target ++ path)
      | some item =>
        if path = [] then .ok (base ++ [name], some item)
        else disk.walk follow links (base ++ [name]) path := by
  have hdirectory : ¬ (!disk.isDirectory base) = true := by simp [isDirectory_of_grants hb]
  have hsearch : ¬ (!disk.grants isSearchable base) = true := by simp [hb]
  have hsize : ¬ maxNameBytes < name.utf8ByteSize := by
    have := hn.size_le
    omega
  rw [walk]
  refine (if_neg hdirectory).trans ((if_neg hn.ne_empty).trans ((if_neg hsearch).trans ?_))
  exact (if_neg hsize).trans ((if_neg hn.ne_dot).trans (if_neg hn.ne_up))

theorem leads_of_walk {found : Location × Option Item}
    (h : disk.walk follow links base path = .ok found) :
    Leads disk follow links base path found.1 ∧ disk.item? found.1 = found.2 := by
  fun_induction walk disk follow links base path with
  | case1 links base =>
    cases h
    exact ⟨.here, rfl⟩
  | case3 links base rest hb ih =>
    obtain ⟨hl, hi⟩ := ih h
    exact ⟨.slash (by simpa using hb) hl, hi⟩
  | case6 links base rest _ hb _ _ ih =>
    obtain ⟨hl, hi⟩ := ih h
    exact ⟨.stay (by simpa using hb) hl, hi⟩
  | case7 links base rest _ hb _ _ _ ih =>
    obtain ⟨hl, hi⟩ := ih h
    exact ⟨.up (by simpa using hb) hl, hi⟩
  | case8 links base name _ hempty hb hsize hdot hup place hplace =>
    cases h
    exact ⟨.absent (by simpa using hb) ⟨hempty, hdot, hup, by omega⟩ hplace, hplace⟩
  | case10 links base name rest _ hempty hb hsize hdot hup place target hplace hlast =>
    cases h
    obtain ⟨rfl, hfollow⟩ := hlast
    exact ⟨.link (by simpa using hb) ⟨hempty, hdot, hup, by omega⟩ hplace (by simpa using hfollow),
      hplace⟩
  | case12 base name rest _ hempty hb hsize hdot hup place target hplace hlast links ih =>
    obtain ⟨hl, hi⟩ := ih h
    have hon : rest ≠ [] ∨ follow = true := by
      rw [not_and_or] at hlast
      simpa using hlast
    exact ⟨.through (by simpa using hb) ⟨hempty, hdot, hup, by omega⟩ hplace hon hl, hi⟩
  | case13 links base name _ hempty hb hsize hdot hup place item hlink hplace =>
    cases h
    exact ⟨.down (by simpa using hb) ⟨hempty, hdot, hup, by omega⟩ hplace hlink .here, hplace⟩
  | case14 links base name rest _ hempty hb hsize hdot hup place item hlink hplace hrest ih =>
    obtain ⟨hl, hi⟩ := ih h
    exact ⟨.down (by simpa using hb) ⟨hempty, hdot, hup, by omega⟩ hplace hlink hl, hi⟩
  | case2 | case4 | case5 | case9 | case11 => cases h

theorem Leads.walk {place : Location} (h : Leads disk follow links base path place) :
    disk.walk follow links base path = .ok (place, disk.item? place) := by
  induction h with
  | here => rw [walk_nil]
  | slash hb _ ih => rw [walk_slash hb, ih]
  | stay hb _ ih => rw [walk_stay hb, ih]
  | up hb _ ih => rw [walk_up hb, ih]
  | absent hb hn hplace => rw [walk_name hb hn, hplace, if_pos rfl]
  | @down links base place name path item hb hn hplace hlink hl ih =>
    rw [walk_name hb hn, hplace]
    have hstep : (if path = [] then .ok (base ++ [name], some item)
        else disk.walk follow links (base ++ [name]) path) = .ok (place, disk.item? place) := by
      split
      · next hp =>
        subst hp
        rw [walk_nil, hplace] at ih
        exact ih
      · exact ih
    cases item with
    | link target => exact absurd rfl (hlink target)
    | file content mode => exact hstep
    | directory mode => exact hstep
  | link hb hn hplace hfollow =>
    rw [walk_name hb hn, hplace]
    simp [hfollow]
  | @through links base place name target path hb hn hplace hon _ ih =>
    have hlast : ¬ (path = [] ∧ (!follow) = true) := by
      rw [not_and_or]
      simpa using hon
    rw [walk_name hb hn, hplace]
    simp only [hlast, if_false]
    exact ih

theorem walk_eq_ok_iff {found : Location × Option Item} :
    disk.walk follow links base path = .ok found ↔
      Leads disk follow links base path found.1 ∧ disk.item? found.1 = found.2 := by
  constructor
  · exact leads_of_walk
  · intro h
    obtain ⟨hl, hi⟩ := h
    rw [hl.walk, hi]

theorem FilesDiffer.item?_of_ne_link (hd : FilesDiffer disk after)
    (h : disk.item? place = some item) (hl : ∀ target, item ≠ .link target) :
    ∃ other, after.item? place = some other ∧ ∀ target, other ≠ .link target := by
  cases hf : item.isFile with
  | true =>
    obtain ⟨other, ho, hfile⟩ := hd.files place item h hf
    exact ⟨other, ho, fun target he => by simp [he, Item.isFile] at hfile⟩
  | false => exact ⟨item, hd.others place item h hf, hl⟩

/-- What leads to a place leads there on a disk with other files, too. -/
theorem FilesDiffer.leads (hd : FilesDiffer disk after) {place : Location}
    (h : Leads disk follow links base path place) : Leads after follow links base path place := by
  induction h with
  | here => exact .here
  | slash hb _ ih => exact .slash (hd.grants hb) ih
  | stay hb _ ih => exact .stay (hd.grants hb) ih
  | up hb _ ih => exact .up (hd.grants hb) ih
  | @absent links base name hb hn hplace =>
    have hb := hd.grants hb
    cases ha : after.item? (base ++ [name]) with
    | none => exact .absent hb hn ha
    | some other =>
      have hfile := hd.added _ _ hplace ha
      exact .down hb hn ha (fun target he => by simp [he, Item.isFile] at hfile) .here
  | down hb hn hplace hlink _ ih =>
    obtain ⟨other, ho, hlink⟩ := hd.item?_of_ne_link hplace hlink
    exact .down (hd.grants hb) hn ho hlink ih
  | link hb hn hplace hfollow =>
    exact .link (hd.grants hb) hn (hd.others _ _ hplace rfl) hfollow
  | through hb hn hplace hon _ ih =>
    exact .through (hd.grants hb) hn (hd.others _ _ hplace rfl) hon ih

/-- The steps before the last one lead to a directory, from where any other last step goes on. -/
theorem Leads.exists_before_last {init : List String} {last : String} {place : Location}
    (h : Leads disk follow links base (init ++ [last]) place) :
    ∃ left parent, Leads disk follow left parent [last] place ∧
      ∀ follow' last' place', Leads disk follow' left parent [last'] place' →
        Leads disk follow' links base (init ++ [last']) place' := by
  generalize hp : init ++ [last] = path at h
  induction h generalizing init with
  | here => simp at hp
  | @slash links base place path hb hl ih =>
    cases init with
    | nil =>
      obtain ⟨rfl, rfl⟩ := List.cons.inj hp
      exact ⟨links, base, .slash hb hl, fun _ _ _ h => h⟩
    | cons first init =>
      obtain ⟨rfl, hrest⟩ := List.cons.inj hp
      obtain ⟨left, parent, hlast, hback⟩ := ih hrest
      exact ⟨left, parent, hlast, fun _ _ _ h => .slash hb (hback _ _ _ h)⟩
  | @stay links base place path hb hl ih =>
    cases init with
    | nil =>
      obtain ⟨rfl, rfl⟩ := List.cons.inj hp
      exact ⟨links, base, .stay hb hl, fun _ _ _ h => h⟩
    | cons first init =>
      obtain ⟨rfl, hrest⟩ := List.cons.inj hp
      obtain ⟨left, parent, hlast, hback⟩ := ih hrest
      exact ⟨left, parent, hlast, fun _ _ _ h => .stay hb (hback _ _ _ h)⟩
  | @up links base place path hb hl ih =>
    cases init with
    | nil =>
      obtain ⟨rfl, rfl⟩ := List.cons.inj hp
      exact ⟨links, base, .up hb hl, fun _ _ _ h => h⟩
    | cons first init =>
      obtain ⟨rfl, hrest⟩ := List.cons.inj hp
      obtain ⟨left, parent, hlast, hback⟩ := ih hrest
      exact ⟨left, parent, hlast, fun _ _ _ h => .up hb (hback _ _ _ h)⟩
  | @absent links base name hb hn hplace =>
    obtain ⟨rfl, rfl⟩ : init = [] ∧ last = name := by simpa [List.append_eq_singleton_iff] using hp
    exact ⟨links, base, .absent hb hn hplace, fun _ _ _ h => h⟩
  | @down links base place name path item hb hn hplace hlink hl ih =>
    cases init with
    | nil =>
      obtain ⟨rfl, rfl⟩ := List.cons.inj hp
      exact ⟨links, base, .down hb hn hplace hlink hl, fun _ _ _ h => h⟩
    | cons first init =>
      obtain ⟨rfl, hrest⟩ := List.cons.inj hp
      obtain ⟨left, parent, hlast, hback⟩ := ih hrest
      exact ⟨left, parent, hlast, fun _ _ _ h => .down hb hn hplace hlink (hback _ _ _ h)⟩
  | @link links base name target hb hn hplace hfollow =>
    obtain ⟨rfl, rfl⟩ : init = [] ∧ last = name := by simpa [List.append_eq_singleton_iff] using hp
    exact ⟨links, base, .link hb hn hplace hfollow, fun _ _ _ h => h⟩
  | @through links base place name target path hb hn hplace hon hl ih =>
    cases init with
    | nil =>
      obtain ⟨rfl, rfl⟩ := List.cons.inj hp
      exact ⟨links + 1, base, .through hb hn hplace hon hl, fun _ _ _ h => h⟩
    | cons first init =>
      obtain ⟨rfl, rfl⟩ := List.cons.inj hp
      obtain ⟨left, parent, hlast, hback⟩ := ih (List.append_assoc _ init [last])
      refine ⟨left, parent, hlast, fun follow' last' place' h => ?_⟩
      have hrest := hback follow' last' place' h
      rw [List.append_assoc] at hrest
      exact .through hb hn hplace (.inl (by simp)) hrest

/-- A name that leads to something is that of an item in a directory, be it a link or not. -/
theorem Leads.exists_item {parent place : Location} {name : String}
    (h : Leads disk true links parent [name] place) (hplace : disk.item? place ≠ none)
    (hempty : name ≠ "") (hdot : name ≠ ".") (hup : name ≠ "..") :
    disk.grants isSearchable parent = true ∧ IsName name ∧
      ∃ item, disk.item? (parent ++ [name]) = some item := by
  cases h with
  | slash => exact absurd rfl hempty
  | stay => exact absurd rfl hdot
  | up => exact absurd rfl hup
  | absent hb hn hnone => exact absurd hnone hplace
  | down hb hn hitem _ _ => exact ⟨hb, hn, _, hitem⟩
  | link hb hn hitem hfollow => cases hfollow
  | through hb hn hitem _ _ => exact ⟨hb, hn, _, hitem⟩

theorem leads_last {parent : Location} {name : String}
    (hb : disk.grants isSearchable parent = true) (hn : IsName name) :
    Leads disk false links parent [name] (parent ++ [name]) := by
  cases hitem : disk.item? (parent ++ [name]) with
  | none => exact .absent hb hn hitem
  | some item =>
    cases item with
    | link target => exact .link hb hn hitem rfl
    | file content mode => exact .down hb hn hitem (by simp) .here
    | directory mode => exact .down hb hn hitem (by simp) .here

end Walks

section Paths
variable {path : String} {follow : Bool} {found : Location × Option Item}

/-- The place that the steps of a path start from. -/
def start (disk : Snapshot) (path : String) : Location :=
  if Path.isAbsolute path then [] else disk.workingDirectory

theorem find_eq_ok_iff : disk.find follow path = .ok found ↔
    Path.isPath path = true ∧ path ≠ "" ∧
      disk.walk follow maxLinks (disk.start path) (steps path) = .ok found := by
  unfold find
  rw [start]
  by_cases hp : Path.isPath path = true
  · by_cases he : path = ""
    · simp [he, show Path.isPath "" = true by decide]
    · simp [hp, he]
  · simp [hp]

theorem item?_of_find (h : disk.find follow path = .ok found) : disk.item? found.1 = found.2 := by
  obtain ⟨-, -, hw⟩ := find_eq_ok_iff.mp h
  exact (walk_eq_ok_iff.mp hw).2

theorem get_eq_ok_iff :
    disk.get path = .ok (place, item) ↔ disk.find true path = .ok (place, some item) := by
  unfold get
  rcases disk.find true path with cause | ⟨found, _ | other⟩ <;> simp

/-- A path names what its steps lead to. -/
theorem Leads.find (h : Leads disk follow maxLinks (disk.start path) (steps path) place)
    (hp : Path.isPath path = true) (he : path ≠ "") :
    disk.find follow path = .ok (place, disk.item? place) :=
  find_eq_ok_iff.mpr ⟨hp, he, h.walk⟩

theorem Leads.get (h : Leads disk true maxLinks (disk.start path) (steps path) place)
    (hp : Path.isPath path = true) (he : path ≠ "") (hi : disk.item? place = some item) :
    disk.get path = .ok (place, item) := by
  rw [get_eq_ok_iff, h.find hp he, hi]

theorem FilesDiffer.start_eq (hd : FilesDiffer disk after) (path : String) :
    after.start path = disk.start path := by
  simp only [start, hd.workingDirectory]

theorem FilesDiffer.walk (hd : FilesDiffer disk after) {links : Nat} {base : Location}
    {path : List String} (h : disk.walk follow links base path = .ok found) :
    after.walk follow links base path = .ok (found.1, after.item? found.1) :=
  (hd.leads (walk_eq_ok_iff.mp h).1).walk

theorem FilesDiffer.find (hd : FilesDiffer disk after) (h : disk.find follow path = .ok found) :
    after.find follow path = .ok (found.1, after.item? found.1) := by
  obtain ⟨hp, he, hw⟩ := find_eq_ok_iff.mp h
  exact find_eq_ok_iff.mpr ⟨hp, he, (hd.start_eq path).symm ▸ hd.walk hw⟩

/-- A path that leads elsewhere names what it named. -/
theorem FilesDiffer.get_eq (hd : FilesDiffer disk after) (hget : disk.get path = .ok (place, item))
    (hsame : after.item? place = disk.item? place) : after.get path = .ok (place, item) := by
  have hfind := get_eq_ok_iff.mp hget
  have hitem : disk.item? place = some item := item?_of_find hfind
  rw [get_eq_ok_iff, hd.find hfind, hsame, hitem]

theorem renameTarget_eq (disk : Snapshot) (source : Location) (path : String) :
    disk.renameTarget source path =
    if path = "" then .error .notFound
    else match disk.walk true maxLinks (disk.start path)
        ((Path.components path).dropLast ++ ["."]) with
      | .error cause => .error cause
      | .ok (parent, _) =>
        if Path.name path = "" ∨ Path.name path = "." ∨ Path.name path = ".." then .error .busy
        else if Path.endsInSlash path then .error .notADirectory
        else if parent ++ [Path.name path] = source then .ok source
        else if !(disk.grants isWritable source.dropLast && disk.grants isWritable parent) then
          .error .accessDenied
        else if disk.isDirectory (parent ++ [Path.name path]) then .error .isADirectory
        else .ok (parent ++ [Path.name path]) := by
  simp only [renameTarget, bind, Except.bind, pure, Except.pure, throw, throwThe,
    MonadExceptOf.throw]
  by_cases he : path = ""
  · rw [if_pos he, if_pos he]
  · rw [if_neg he, if_neg he, ← start]
    rcases disk.walk true maxLinks (disk.start path) _ with cause | ⟨parent, found⟩ <;> rfl

/-- What has to be so for a file at `source` to get the name `path`, by which it stands at a place. -/
structure CanRename (disk : Snapshot) (source : Location) (path : String)
    (place : Location) : Prop where
  ne_empty : path ≠ ""
  name_ne_empty : Path.name path ≠ ""
  name_ne_dot : Path.name path ≠ "."
  name_ne_up : Path.name path ≠ ".."
  endsInSlash_eq : Path.endsInSlash path = false
  leads : ∃ parent, Leads disk true maxLinks (disk.start path)
    ((Path.components path).dropLast ++ ["."]) parent ∧ place = parent ++ [Path.name path]
  granted : place = source ∨ disk.grants isWritable source.dropLast = true ∧
    disk.grants isWritable place.dropLast = true ∧ disk.isDirectory place = false

theorem renameTarget_eq_ok_iff {source : Location} :
    disk.renameTarget source path = .ok place ↔ CanRename disk source path place := by
  rw [renameTarget_eq]
  constructor
  · intro h
    split at h
    · cases h
    next he =>
      split at h
      · cases h
      next parent found hw =>
        have hl := (walk_eq_ok_iff.mp hw).1
        split_ifs at h with hname hslash hsame hdenied hdirectory
        all_goals
          obtain ⟨hname, hdot, hup⟩ : Path.name path ≠ "" ∧ Path.name path ≠ "." ∧
            Path.name path ≠ ".." := by simpa using hname
          cases h
          refine ⟨he, hname, hdot, hup, by simpa using hslash, ⟨parent, hl, ?_⟩, ?_⟩
        · exact hsame.symm
        · exact .inl rfl
        · rfl
        · exact .inr ⟨by simp_all, by simp_all, by simpa using hdirectory⟩
  · intro h
    obtain ⟨parent, hl, rfl⟩ := h.leads
    rw [if_neg h.ne_empty, hl.walk]
    simp only [h.name_ne_empty, h.name_ne_dot, h.name_ne_up, h.endsInSlash_eq, or_self, if_false,
      Bool.false_eq_true]
    rcases h.granted with hsame | ⟨hsource, hparent, hdirectory⟩
    · rw [if_pos hsame, hsame]
    · rw [List.dropLast_concat] at hparent
      simp only [hsource, hparent, hdirectory, Bool.and_self, Bool.not_true, Bool.false_eq_true,
        if_false]
      split_ifs with hsame
      · rw [hsame]
      · rfl

theorem components_eq_append (h : Path.name path ≠ "") :
    Path.components path = (Path.components path).dropLast ++ [Path.name path] := by
  have hne : Path.components path ≠ [] := by
    intro he
    simp [Path.name, he] at h
  rw [Path.name, List.getLast?_eq_some_getLast hne, Option.getD_some,
    List.dropLast_append_getLast hne]

/-- A file takes the place of an item that its new name names, be it a link or not. -/
theorem find_of_renameTarget (hd : FilesDiffer disk after) {source target : Location}
    (hget : disk.get path = .ok (target, item)) (h : after.renameTarget source path = .ok place) :
    place ≠ [] ∧ ∃ old, disk.find false path = .ok (place, some old) := by
  obtain ⟨he, hname, hdot, hup, hslash, ⟨parent, hparent, rfl⟩, -⟩ := renameTarget_eq_ok_iff.mp h
  obtain ⟨hp, -, hw⟩ := find_eq_ok_iff.mp (get_eq_ok_iff.mp hget)
  obtain ⟨hl, hitem⟩ := walk_eq_ok_iff.mp hw
  have hsteps : steps path = (Path.components path).dropLast ++ [Path.name path] := by
    rw [steps, hslash]
    simpa using components_eq_append hname
  rw [hsteps] at hl
  obtain ⟨left, directory, hlast, hback⟩ := hl.exists_before_last
  obtain ⟨hb, hn, old, hold⟩ := hlast.exists_item (by rw [hitem]; simp) hname hdot hup
  have hsame : directory = parent := by
    have hdirectory := hd.leads (hback true "." directory (.stay hb .here))
    rw [hd.start_eq] at hparent
    have hfound := Except.ok.inj (hdirectory.walk.symm.trans hparent.walk)
    exact congrArg Prod.fst hfound
  subst hsame
  refine ⟨by simp, old, find_eq_ok_iff.mpr ⟨hp, he, ?_⟩⟩
  have hlead := hback false (Path.name path) _ (leads_last hb hn)
  rw [hsteps, hlead.walk, hold]

end Paths
end Snapshot
end ProjectOrder.Disk
