import ProjectOrder.Proofs.Replacement

/-! Where files have been replaced, paths name no more than they named before. -/
namespace ProjectOrder.Disk.Snapshot

variable {disk after : Snapshot} {goal base place : Location} {item : Item} {follow : Bool}
  {links : Nat} {path : List String}

/-- A file is in place of an item that was no directory, and all else is as it was. -/
structure Replaces (disk after : Snapshot) (goal : Location) (item : Item) : Prop
    extends ChangesOnly disk after goal item where
  isFile : item.isFile = true
  replaced : ∃ old, disk.item? goal = some old ∧ ∀ mode, old ≠ .directory mode

/-- Nothing leads on from what is no directory. -/
theorem Leads.eq_of_ne_directory (h : Leads disk follow links base path place)
    (hb : disk.isDirectory base = false) : path = [] ∧ place = base := by
  have hnot : disk.isDirectory base ≠ true := by simp [hb]
  cases h with
  | here => exact ⟨rfl, rfl⟩
  | slash hd => exact absurd hd hnot
  | stay hd | up hd | absent hd | down hd | link hd | through hd =>
    exact absurd (isDirectory_of_grants hd) hnot

/-- Steps that end at no link end there also if links are followed. -/
theorem Leads.following (h : Leads disk false links base path place)
    (hp : ∀ target, disk.item? place ≠ some (.link target)) :
    Leads disk true links base path place := by
  induction h with
  | here => exact .here
  | slash hb _ ih => exact .slash hb (ih hp)
  | stay hb _ ih => exact .stay hb (ih hp)
  | up hb _ ih => exact .up hb (ih hp)
  | absent hb hn hnone => exact .absent hb hn hnone
  | down hb hn hitem hlink _ ih => exact .down hb hn hitem hlink (ih hp)
  | link hb hn hitem _ => exact absurd hitem (hp _)
  | through hb hn hitem hon _ ih => exact .through hb hn hitem (.inr rfl) (ih hp)

namespace Replaces

theorem ne_goal (h : Replaces disk after goal item) {found : Item}
    (ha : after.item? place = some found) (hf : found.isFile = false) : place ≠ goal := by
  rintro rfl
  rw [h.item_eq, Option.some.injEq] at ha
  rw [← ha, h.isFile] at hf
  cases hf

/-- What is no file was there before. -/
theorem item?_eq (h : Replaces disk after goal item) {found : Item}
    (ha : after.item? place = some found) (hf : found.isFile = false) :
    disk.item? place = some found :=
  (h.others place (h.ne_goal ha hf)).symm.trans ha

theorem grants_eq (h : Replaces disk after goal item) {allows : Nat → Bool}
    (hg : after.grants allows place = true) : disk.grants allows place = true := by
  obtain ⟨mode, hitem, hmode⟩ := grants_eq_true_iff.mp hg
  exact grants_eq_true_iff.mpr ⟨mode, h.item?_eq hitem rfl, hmode⟩

theorem item?_eq_none (h : Replaces disk after goal item) (ha : after.item? place = none) :
    disk.item? place = none := by
  have hne : place ≠ goal := by
    rintro rfl
    rw [h.item_eq] at ha
    cases ha
  exact (h.others place hne).symm.trans ha

/-- The steps led to the same place before, where the last of them is not followed. -/
theorem leads (h : Replaces disk after goal item)
    (hl : Leads after false links base path place) : Leads disk false links base path place := by
  induction hl with
  | here => exact .here
  | slash hb _ ih => exact .slash (h.grants_eq hb) ih
  | stay hb _ ih => exact .stay (h.grants_eq hb) ih
  | up hb _ ih => exact .up (h.grants_eq hb) ih
  | absent hb hn hnone => exact .absent (h.grants_eq hb) hn (h.item?_eq_none hnone)
  | @down links base place name path found hb hn hitem hlink hrest ih =>
    have hb := h.grants_eq hb
    by_cases hgoal : base ++ [name] = goal
    · -- the new file can only be where the steps end, and there may have been a link
      have hnot : after.isDirectory (base ++ [name]) = false :=
        hgoal ▸ isDirectory_eq_false h.item_eq h.isFile
      obtain ⟨rfl, rfl⟩ := hrest.eq_of_ne_directory hnot
      exact leads_last hb hn
    · exact .down hb hn ((h.others _ hgoal).symm.trans hitem) hlink ih
  | link hb hn hitem hfollow => exact .link (h.grants_eq hb) hn (h.item?_eq hitem rfl) hfollow
  | through hb hn hitem hon _ ih =>
    exact .through (h.grants_eq hb) hn (h.item?_eq hitem rfl) hon ih

theorem find (h : Replaces disk after goal item) {path : String} {found : Option Item}
    (hf : after.find false path = .ok (place, found)) :
    ∃ old, disk.find false path = .ok (place, old) ∧ (old = none ↔ found = none) := by
  obtain ⟨hp, he, hw⟩ := find_eq_ok_iff.mp hf
  obtain ⟨hl, hitem⟩ := walk_eq_ok_iff.mp hw
  have hstart : after.start path = disk.start path := by simp only [start, h.workingDirectory]
  have hold : disk.walk false maxLinks (disk.start path) (steps path) =
      .ok (place, disk.item? place) := by
    rw [← hstart]
    exact (h.leads hl).walk
  have hitem : after.item? place = found := hitem
  refine ⟨_, find_eq_ok_iff.mpr ⟨hp, he, hold⟩, ?_⟩
  by_cases hgoal : place = goal
  · obtain ⟨old, hold, -⟩ := h.replaced
    rw [← hitem, hgoal, hold, h.item_eq]
    simp
  · rw [← hitem, h.others place hgoal]

end Replaces

end ProjectOrder.Disk.Snapshot

namespace ProjectOrder.Bundle
open ProjectOrder.Disk ProjectOrder.Disk.Snapshot

/-- Where a path leads on the later disk it led before, and there is something now exactly if there
was. -/
structure KeepsNames (disk after : Snapshot) : Prop where
  names : ∀ path place found, after.find false path = .ok (place, found) →
    ∃ old, disk.find false path = .ok (place, old) ∧ (old = none ↔ found = none)
  temporaryTag : after.temporaryTag = disk.temporaryTag
  troubles : after.troubles = disk.troubles

theorem KeepsNames.refl (disk : Snapshot) : KeepsNames disk disk :=
  ⟨fun _ _ found h => ⟨found, h, .rfl⟩, rfl, rfl⟩

theorem KeepsNames.trans {disk middle after : Snapshot} (h : KeepsNames disk middle)
    (k : KeepsNames middle after) : KeepsNames disk after := by
  refine ⟨fun path place found hf => ?_, k.temporaryTag.trans h.temporaryTag,
    k.troubles.trans h.troubles⟩
  obtain ⟨between, hb, hfound⟩ := k.names path place found hf
  obtain ⟨old, hold, hbetween⟩ := h.names path place between hb
  exact ⟨old, hold, hbetween.trans hfound⟩

theorem KeepsNames.find_eq_none {disk after : Snapshot} {path : String} {place : Location}
    (h : KeepsNames disk after) (hf : after.find false path = .ok (place, none)) :
    disk.find false path = .ok (place, none) := by
  obtain ⟨old, hold, hnone⟩ := h.names _ _ _ hf
  rwa [hnone.mpr rfl] at hold

theorem KeepsNames.clearsUp {disk after : Snapshot} {path : String} (h : KeepsNames disk after)
    (hclears : ClearsUp disk path) : ClearsUp after path := by
  intro place hf
  rw [h.temporaryTag] at hf
  rw [trouble?, trouble?, h.troubles]
  exact hclears place (h.find_eq_none hf)

section Sorts
variable {disk after : Snapshot} {path : String} {preferences : Preferences} {checkOnly : Bool}
  {result : FileOutcome}

/-- What a path of a file names itself is the file or a link, and no directory. -/
theorem ne_directory_of_get {target goal : Location} {content : List UInt8} {mode : Nat}
    {old : Item} (hget : disk.get path = .ok (target, .file content mode))
    (hfind : disk.find false path = .ok (goal, some old)) (other : Nat) :
    old ≠ .directory other := by
  rintro rfl
  obtain ⟨hp, he, hw⟩ := find_eq_ok_iff.mp hfind
  obtain ⟨hl, hitem⟩ := walk_eq_ok_iff.mp hw
  have hlead := hl.following fun target => by simp [hitem]
  have hfound : disk.find true path = .ok (goal, some (.directory other)) :=
    find_eq_ok_iff.mpr ⟨hp, he, walk_eq_ok_iff.mpr ⟨hlead, hitem⟩⟩
  have hfile := get_eq_ok_iff.mp hget
  rw [hfound] at hfile
  cases hfile

theorem SortsFile.exists_replaces (h : SortsFile path preferences checkOnly disk after result)
    (hw : result.written = true) :
    ∃ goal old item, disk.find false path = .ok (goal, some old) ∧
      Replaces disk after goal item := by
  obtain ⟨target, content, mode, sorted, hcan, -, -, hwritten⟩ := h.sorted
  obtain ⟨goal, old, hfind, hchanges⟩ := hwritten hw
  exact ⟨goal, old, _, hfind, hchanges, rfl, old, item?_of_find hfind,
    ne_directory_of_get hcan.get_eq hfind⟩

theorem SortsFile.keepsNames (h : SortsFile path preferences checkOnly disk after result) :
    KeepsNames disk after := by
  cases hw : result.written with
  | false => exact h.unwritten hw ▸ .refl disk
  | true =>
    obtain ⟨goal, old, item, -, hreplaces⟩ := h.exists_replaces hw
    exact ⟨fun _ _ _ => hreplaces.find, hreplaces.temporaryTag, hreplaces.troubles⟩

end Sorts
end ProjectOrder.Bundle
