import ProjectOrder.Disk.Snapshot
import ProjectOrder.Proofs.SortedText
import ProjectOrder.Service.Tool

/-! What runs on a disk that end with a value tell of their steps. -/
namespace ProjectOrder.Disk

variable {ε δ α β : Type} {disk after : Snapshot}

/-- What a run ends with, and the disk that it leaves. -/
abbrev outcome (run : ExceptT ε (StateM Snapshot) α) (disk : Snapshot) : Except ε α × Snapshot :=
  (run.run.run disk).run

theorem outcome_bind (x : ExceptT ε (StateM Snapshot) α) (f : α → ExceptT ε (StateM Snapshot) β)
    (disk : Snapshot) :
    outcome (x >>= f) disk = match outcome x disk with
      | (.ok a, middle) => outcome (f a) middle
      | (.error e, middle) => (.error e, middle) := by
  change (match outcome x disk with
    | (r, middle) => ((ExceptT.bindCont f r).run middle).run) = _
  rcases outcome x disk with ⟨e | a, middle⟩ <;> rfl

theorem outcome_bind_of_eq {x : ExceptT ε (StateM Snapshot) α}
    {f : α → ExceptT ε (StateM Snapshot) β} {a : α} (h : outcome x disk = (.ok a, after)) :
    outcome (x >>= f) disk = outcome (f a) after := by
  rw [outcome_bind, h]

theorem outcome_adapt (x : ExceptT ε (StateM Snapshot) α) (f : ε → δ) (disk : Snapshot) :
    outcome (x.adapt f) disk = ((outcome x disk).1.mapError f, (outcome x disk).2) :=
  rfl

theorem outcome_ofExcept (x : Except ε α) (disk : Snapshot) :
    outcome (MonadExcept.ofExcept x : ExceptT ε (StateM Snapshot) α) disk = (x, disk) := by
  cases x <;> rfl

/-- Steps that change nothing change nothing together. -/
theorem outcome_bind_snd {x : ExceptT ε (StateM Snapshot) α}
    {f : α → ExceptT ε (StateM Snapshot) β} (hx : (outcome x disk).2 = disk)
    (hf : ∀ a, (outcome (f a) disk).2 = disk) : (outcome (x >>= f) disk).2 = disk := by
  rw [outcome_bind]
  rcases hrun : outcome x disk with ⟨fault | a, middle⟩
  · rw [hrun] at hx
    exact hx
  · obtain rfl : middle = disk := by rwa [hrun] at hx
    exact hf a

theorem outcome_ofExcept_snd (x : Except ε α) (disk : Snapshot) :
    (outcome (MonadExcept.ofExcept x : ExceptT ε (StateM Snapshot) α) disk).2 = disk :=
  congrArg Prod.snd (outcome_ofExcept x disk)

theorem outcome_lift (x : StateM Snapshot α) (disk : Snapshot) :
    outcome (liftM x : ExceptT ε (StateM Snapshot) α) disk =
      (.ok (x.run disk).1, (x.run disk).2) :=
  rfl

theorem run_bind_of_eq {x : StateM Snapshot α} {f : α → StateM Snapshot β} {a : α}
    (h : x.run disk = (a, after)) : (x >>= f).run disk = (f a).run after := by
  rw [StateT.run_bind, h]
  rfl

theorem outcome_tryCatch (x : ExceptT ε (StateM Snapshot) α)
    (f : ε → ExceptT ε (StateM Snapshot) α) (disk : Snapshot) :
    outcome (tryCatch x f) disk = match outcome x disk with
      | (.ok a, middle) => (.ok a, middle)
      | (.error e, middle) => outcome (f e) middle := by
  change (match outcome x disk with
    | (r, middle) => ((match r with
      | .ok a => (pure (.ok a) : StateM Snapshot (Except ε α))
      | .error e => (f e).run).run middle).run) = _
  rcases outcome x disk with ⟨e | a, middle⟩ <;> rfl

namespace FileSystem

theorem outcome_status (path : String) (disk : Snapshot) :
    outcome (FileSystem.status path) disk = (disk.status path, disk) :=
  rfl

theorem outcome_read (path : String) (disk : Snapshot) :
    outcome (FileSystem.read path) disk = (disk.read path, disk) :=
  rfl

theorem outcome_directoriesBelow (enter : String → Bool) (path : String) (disk : Snapshot) :
    outcome (FileSystem.directoriesBelow enter path) disk =
      (disk.directoriesBelow enter path, disk) :=
  rfl

theorem outcome_create (path : String) (mode : Nat) (disk : Snapshot) :
    outcome (FileSystem.create path mode) disk = disk.create path mode :=
  rfl

theorem outcome_write (handle : Handle) (content : List UInt8) (disk : Snapshot) :
    outcome (FileSystem.write handle content) disk = disk.write handle content :=
  rfl

theorem outcome_sync (handle : Handle) (disk : Snapshot) :
    outcome (FileSystem.sync handle) disk = (disk.sync handle, disk) :=
  rfl

theorem outcome_close (handle : Handle) (disk : Snapshot) :
    outcome (FileSystem.close handle) disk = disk.close handle :=
  rfl

theorem outcome_rename (source target : String) (disk : Snapshot) :
    outcome (FileSystem.rename source target) disk = disk.rename source target :=
  rfl

theorem outcome_remove (path : String) (disk : Snapshot) :
    outcome (FileSystem.remove path) disk = disk.remove path :=
  rfl

end FileSystem

/-- The run ends with this value, and leaves the disk like that. -/
def Yields (run : ExceptT ε (StateM Snapshot) α) (disk : Snapshot) (a : α)
    (after : Snapshot) : Prop :=
  outcome run disk = (.ok a, after)

theorem yields_bind_iff {x : ExceptT ε (StateM Snapshot) α}
    {f : α → ExceptT ε (StateM Snapshot) β} {b : β} :
    Yields (x >>= f) disk b after ↔
      ∃ a middle, Yields x disk a middle ∧ Yields (f a) middle b after := by
  rw [Yields, outcome_bind]
  rcases hx : outcome x disk with ⟨e | a, middle⟩ <;> simp [Yields, hx, and_assoc]

theorem yields_pure_iff {a b : α} :
    Yields (pure a : ExceptT ε (StateM Snapshot) α) disk b after ↔ a = b ∧ disk = after := by
  change ((Except.ok a, disk) : Except ε α × Snapshot) = _ ↔ _
  simp

theorem yields_adapt_iff {x : ExceptT ε (StateM Snapshot) α} {f : ε → δ} {a : α} :
    Yields (x.adapt f) disk a after ↔ Yields x disk a after := by
  rw [Yields, outcome_adapt]
  rcases hx : outcome x disk with ⟨e | a, middle⟩ <;> simp [Except.mapError, Yields, hx]

theorem yields_ofExcept_iff {x : Except ε α} {a : α} :
    Yields (MonadExcept.ofExcept x : ExceptT ε (StateM Snapshot) α) disk a after ↔
      x = .ok a ∧ disk = after := by
  simp [Yields, outcome_ofExcept]

end ProjectOrder.Disk

namespace ProjectOrder.Bundle
open ProjectOrder.Disk ProjectOrder.Document

/-- What became of a file is what became of its text. -/
theorem sortContent_of_sort {path : String} {preferences : Preferences} {checkOnly : Bool}
    {disk after : Snapshot} {outcome : FileOutcome}
    (h : Yields (sort path preferences checkOnly) disk outcome after) :
    ∃ content sorted, sortContent preferences content = .ok sorted ∧
      outcome = { path
                  alreadySorted := !sorted.changed
                  written := sorted.changed && !checkOnly
                  tallies := sorted.tallies } := by
  obtain ⟨content, _, -, h⟩ := yields_bind_iff.mp h
  obtain ⟨sorted, _, hs, h⟩ := yields_bind_iff.mp h
  refine ⟨content, sorted, (yields_ofExcept_iff.mp hs).1, ?_⟩
  dsimp only at h
  split at h
  · obtain ⟨_, _, -, h⟩ := yields_bind_iff.mp h
    exact (yields_pure_iff.mp h).1.symm
  · exact (yields_pure_iff.mp h).1.symm

/-- A file whose text sorting leaves as it is is not written. -/
theorem yields_sort_of_not_changed {path : String} {preferences : Preferences} {checkOnly : Bool}
    {disk after : Snapshot} {content : List Char} {sorted : Outcome}
    (hr : Yields (read path) disk content after)
    (hs : sortContent preferences content = .ok sorted) (hc : sorted.changed = false) :
    Yields (sort path preferences checkOnly) disk
      { path, alreadySorted := true, written := false, tallies := sorted.tallies } after := by
  refine yields_bind_iff.mpr ⟨content, after, hr, ?_⟩
  refine yields_bind_iff.mpr ⟨sorted, after, yields_ofExcept_iff.mpr ⟨hs, rfl⟩, ?_⟩
  simp only [hc, Bool.false_and, Bool.false_eq_true, if_false]
  exact yields_pure_iff.mpr ⟨rfl, rfl⟩

theorem sortText_of_sortContent {preferences : Preferences} {content : List Char}
    {sorted : Outcome} (h : sortContent preferences content = .ok sorted) :
    ∃ options, preferences.resolve = .ok options ∧ sortText options content = .ok sorted := by
  obtain ⟨options, ho, hs⟩ := bind_eq_ok h
  exact ⟨options, mapError_eq_ok.mp ho, mapError_eq_ok.mp hs⟩

end ProjectOrder.Bundle

namespace ProjectOrder.Service
open ProjectOrder.Disk ProjectOrder.Document ProjectOrder.Text

/-- The tool that sorts a file answers with a summary of what sorting made of the file's text. -/
theorem summary_of_sortFile {settings : Settings} {arguments : Option Json.Value} {answer : Units}
    {disk after : Snapshot} (h : Yields (sortFile settings arguments) disk answer after) :
    ∃ options content sorted path, sortText options content = .ok sorted ∧
      answer = (summary { path
                          alreadySorted := !sorted.changed
                          written := sorted.changed
                          tallies := sorted.tallies }).pretty := by
  obtain ⟨⟨path, ignoreCase⟩, _, -, h⟩ := yields_bind_iff.mp h
  obtain ⟨file, _, -, h⟩ := yields_bind_iff.mp (yields_adapt_iff.mp h)
  obtain ⟨options, _, -, h⟩ := yields_bind_iff.mp h
  obtain ⟨outcome, _, ho, h⟩ := yields_bind_iff.mp h
  obtain ⟨rfl, -⟩ := yields_pure_iff.mp h
  obtain ⟨content, sorted, hs, rfl⟩ := Bundle.sortContent_of_sort ho
  obtain ⟨_, -, ht⟩ := Bundle.sortText_of_sortContent hs
  exact ⟨_, content, sorted, file, ht, by simp⟩

end ProjectOrder.Service
