import ProjectOrder.Proofs.Runs
import ProjectOrder.Proofs.Walk

/-! How an attempt to write a file anew can end, and what is left of it once it is cleared up. -/
namespace ProjectOrder.Disk.Snapshot

variable {disk : Snapshot} {path : String} {place : Location} {bits : Nat} {bytes : List UInt8}

theorem lt_freeHandle {entry : Handle × Location} (h : entry ∈ disk.opened) :
    entry.1 < disk.freeHandle := by
  unfold freeHandle
  generalize disk.opened = opened at h
  induction opened with
  | nil => cases h
  | cons first opened ih =>
    rw [List.foldr_cons]
    rcases List.mem_cons.mp h with rfl | h
    · exact Nat.le_max_left ..
    · exact Nat.lt_of_lt_of_le (ih h) (Nat.le_max_right ..)

theorem lookup_freeHandle : disk.opened.lookup disk.freeHandle = none := by
  rw [List.lookup_eq_none_iff]
  intro entry h
  simpa using (Nat.ne_of_lt (lt_freeHandle h)).symm

theorem filter_freeHandle : disk.opened.filter (·.1 ≠ disk.freeHandle) = disk.opened := by
  rw [List.filter_eq_self]
  intro entry h
  simpa using Nat.ne_of_lt (lt_freeHandle h)

/-- A new file is open, and this much of it is written. -/
def underway (disk : Snapshot) (place : Location) (bits : Nat) (bytes : List UInt8) : Snapshot :=
  { disk.put place (.file bytes bits) with opened := (disk.freeHandle, place) :: disk.opened }

theorem lookup_underway :
    (disk.underway place bits bytes).opened.lookup disk.freeHandle = some place := by
  simp [underway]

/-- What has to be so for a file to be made at a place. -/
structure CanCreate (disk : Snapshot) (path : String) (place : Location) : Prop where
  find_eq : disk.find false path = .ok (place, none)
  granted : disk.grants isWritable place.dropLast = true
  untroubled : disk.trouble? .create place = none

theorem CanCreate.eq_of_find {other : Location} (h : CanCreate disk path place)
    (hfind : disk.find false path = .ok (other, none)) : place = other := by
  rw [h.find_eq, Except.ok.injEq, Prod.mk.injEq] at hfind
  exact hfind.1

theorem CanCreate.item?_eq (h : CanCreate disk path place) : disk.item? place = none :=
  item?_of_find h.find_eq

theorem CanCreate.ne_nil (h : CanCreate disk path place) : place ≠ [] :=
  ne_nil_of_item?_eq_none h.item?_eq

theorem CanCreate.create_eq (h : CanCreate disk path place) (mode : Nat) :
    disk.create path mode =
      (.ok disk.freeHandle, disk.underway place (mode - (mode &&& disk.umask)) []) := by
  rw [create, h.find_eq]
  simp only [h.granted, h.untroubled]
  rfl

theorem exists_canCreate_or_create_eq (disk : Snapshot) (path : String) (mode : Nat) :
    (∃ place, CanCreate disk path place) ∨ ∃ fault, disk.create path mode = (.error fault, disk) := by
  rw [create]
  rcases hf : disk.find false path with cause | ⟨place, _ | item⟩
  · simp
  · cases hg : disk.grants isWritable place.dropLast with
    | false => simp [hg]
    | true =>
      cases ht : disk.trouble? .create place with
      | some trouble => simp [hg, ht]
      | none => exact .inl ⟨place, hf, hg, ht⟩
  · simp

theorem write_underway (hp : place ≠ []) (content : List UInt8) :
    ∃ taken, (disk.underway place bits []).write disk.freeHandle content =
        (answer .write (disk.trouble? .write place), disk.underway place bits taken) ∧
      (disk.trouble? .write place = none → taken = content) := by
  have hitem : (disk.underway place bits []).item? place = some (.file [] bits) :=
    item?_put_self hp
  have htrouble : (disk.underway place bits []).trouble? .write place =
      disk.trouble? .write place := rfl
  refine ⟨(disk.trouble? .write place).elim content (content.take ·.taken), ?_, ?_⟩
  · rw [write, lookup_underway]
    simp only [htrouble, extend, hitem, List.nil_append]
    simp [underway, put, erase, List.filter_filter]
  · intro h
    rw [h]
    rfl

theorem sync_underway : (disk.underway place bits bytes).sync disk.freeHandle =
    answer .sync (disk.trouble? .sync place) := by
  rw [sync, lookup_underway]
  rfl

theorem close_underway : (disk.underway place bits bytes).close disk.freeHandle =
    (answer .close (disk.trouble? .close place), disk.put place (.file bytes bits)) := by
  have hopened : (disk.underway place bits bytes).opened.filter (·.1 ≠ disk.freeHandle) =
      disk.opened := by
    simp only [underway, List.filter_cons, ne_eq, not_true_eq_false, decide_false,
      Bool.false_eq_true, if_false]
    exact filter_freeHandle
  rw [close, lookup_underway]
  simp only [hopened]
  rfl

/-- A handle that has been given back is not known any more. -/
theorem close_put (item : Item) : (disk.put place item).close disk.freeHandle =
    (.error { cause := .badHandle, call := .close }, disk.put place item) := by
  have hlookup : (disk.put place item).opened.lookup disk.freeHandle = none := lookup_freeHandle
  rw [close, hlookup]

theorem CanCreate.find_put (h : CanCreate disk path place) (bits : Nat) (bytes : List UInt8) :
    (disk.put place (.file bytes bits)).find false path =
      .ok (place, some (.file bytes bits)) := by
  have hd : FilesDiffer disk (disk.put place (.file bytes bits)) :=
    filesDiffer_put h.ne_nil (by simp [h.item?_eq]) rfl
  rw [hd.find h.find_eq, item?_put_self h.ne_nil]

theorem CanCreate.remove_put (h : CanCreate disk path place) (bits : Nat) (bytes : List UInt8) :
    (disk.put place (.file bytes bits)).remove path =
      match disk.trouble? .remove place with
      | none => (.ok (), disk)
      | some trouble => (.error { cause := trouble.cause, call := .unlink path },
          disk.put place (.file bytes bits)) := by
  have hgranted : (disk.put place (.file bytes bits)).grants isWritable place.dropLast = true := by
    have hne : place.dropLast ≠ place := by
      intro he
      have hlength := congrArg List.length he
      have := List.length_pos_iff.mpr h.ne_nil
      rw [List.length_dropLast] at hlength
      omega
    rw [grants_congr (item?_put_of_ne hne)]
    exact h.granted
  have htrouble : (disk.put place (.file bytes bits)).trouble? .remove place =
      disk.trouble? .remove place := rfl
  rw [remove, h.find_put]
  simp only [hgranted, htrouble, erase_put h.item?_eq]
  cases disk.trouble? .remove place <;> rfl

theorem CanCreate.rename_put (h : CanCreate disk path place) (bits : Nat) (bytes : List UInt8)
    (target : String) :
    (∃ fault, (disk.put place (.file bytes bits)).rename path target =
        (.error fault, disk.put place (.file bytes bits)) ∧
      (disk.trouble? .rename place ≠ none ∨
        ∃ cause, (disk.put place (.file bytes bits)).renameTarget place target = .error cause)) ∨
    ∃ goal, (disk.put place (.file bytes bits)).rename path target =
        (.ok (), disk.put goal (.file bytes bits)) ∧
      disk.trouble? .rename place = none ∧
        (disk.put place (.file bytes bits)).renameTarget place target = .ok goal := by
  have htrouble : (disk.put place (.file bytes bits)).trouble? .rename place =
      disk.trouble? .rename place := rfl
  rw [rename, h.find_put]
  simp only [htrouble, erase_put h.item?_eq]
  cases (disk.put place (.file bytes bits)).renameTarget place target with
  | error cause => exact .inl ⟨_, rfl, .inr ⟨cause, rfl⟩⟩
  | ok goal =>
    cases disk.trouble? .rename place with
    | some trouble => exact .inl ⟨_, rfl, .inl (by simp)⟩
    | none => exact .inr ⟨goal, rfl, rfl, rfl⟩

end ProjectOrder.Disk.Snapshot

namespace ProjectOrder.Bundle
open ProjectOrder.Disk ProjectOrder.Disk.Snapshot ProjectOrder.Text

/-- What an attempt to write these bytes at `path` by way of a file at `temporary` ends with, and the
disk that it leaves. -/
inductive Attempt (disk : Snapshot) (temporary path : String) (bits : Nat) (bytes : List UInt8) :
    Except Failure Unit → Snapshot → Prop
  /-- No file is made. -/
  | refused {fault : Disk.Fault} : (∀ place, ¬ CanCreate disk temporary place) →
      Attempt disk temporary path bits bytes (.error { fault, held := none }) disk
  /-- Not all is written, or it is not known to be safe. -/
  | broken {fault : Disk.Fault} {place : Location} {taken : List UInt8} :
      CanCreate disk temporary place →
      disk.trouble? .write place ≠ none ∨ disk.trouble? .sync place ≠ none →
      Attempt disk temporary path bits bytes (.error { fault, held := some disk.freeHandle })
        (disk.underway place bits taken)
  /-- The handle is gone, though the fault of giving it back lets it pass for held. -/
  | unclosed {fault : Disk.Fault} {place : Location} : CanCreate disk temporary place →
      (∀ effort ∈ [.write, .sync], disk.trouble? effort place = none) →
      disk.trouble? .close place ≠ none →
      Attempt disk temporary path bits bytes (.error { fault, held := some disk.freeHandle })
        (disk.put place (.file bytes bits))
  | unnamed {fault : Disk.Fault} {place : Location} : CanCreate disk temporary place →
      (∀ effort ∈ [.write, .sync, .close], disk.trouble? effort place = none) →
      (disk.trouble? .rename place ≠ none ∨
        ∃ cause, (disk.put place (.file bytes bits)).renameTarget place path = .error cause) →
      Attempt disk temporary path bits bytes (.error { fault, held := none })
        (disk.put place (.file bytes bits))
  | named {place goal : Location} : CanCreate disk temporary place →
      (∀ effort ∈ [.write, .sync, .close, .rename], disk.trouble? effort place = none) →
      (disk.put place (.file bytes bits)).renameTarget place path = .ok goal →
      Attempt disk temporary path bits bytes (.ok ()) (disk.put goal (.file bytes bits))

variable {disk after : Snapshot} {temporary path : String} {bits mode : Nat} {bytes : List UInt8}
  {content : List Char}

theorem answer_cases (call : Call) (trouble : Option Trouble) :
    trouble = none ∧ answer call trouble = .ok () ∨
      trouble ≠ none ∧ ∃ fault, answer call trouble = .error fault := by
  cases trouble with
  | none => exact .inl ⟨rfl, rfl⟩
  | some trouble => exact .inr ⟨by simp, _, rfl⟩

/-- Step by step, from making the file to giving it its name. -/
theorem attempt_writeAnew (hmode : outcome (modeFor path) disk = (.ok mode, disk)) :
    Attempt disk temporary path (mode - (mode &&& disk.umask)) (Utf8.encode content)
      (outcome (writeAnew temporary path content) disk).1
      (outcome (writeAnew temporary path content) disk).2 := by
  rw [writeAnew, outcome_bind, outcome_adapt, hmode]
  simp only [Except.mapError]
  rw [outcome_bind, outcome_adapt, FileSystem.outcome_create]
  by_cases hcan : ∃ place, CanCreate disk temporary place
  swap
  · obtain ⟨fault, hcreate⟩ := (exists_canCreate_or_create_eq disk temporary mode).resolve_left hcan
    rw [hcreate]
    exact .refused (not_exists.mp hcan)
  obtain ⟨place, hcan⟩ := hcan
  rw [hcan.create_eq]
  simp only [Except.mapError]
  rw [outcome_bind, outcome_adapt, FileSystem.outcome_write]
  obtain ⟨taken, hwrite, htaken⟩ := write_underway hcan.ne_nil (Utf8.encode content)
  rw [hwrite]
  obtain ⟨hnone, hok⟩ | ⟨hsome, fault, herror⟩ :=
    answer_cases .write (disk.trouble? .write place)
  swap
  · rw [herror]
    exact .broken hcan (.inl hsome)
  have hwritten := hnone
  rw [hok, htaken hwritten]
  simp only [Except.mapError]
  rw [outcome_bind, outcome_adapt, FileSystem.outcome_sync, sync_underway]
  obtain ⟨hnone, hok⟩ | ⟨hsome, fault, herror⟩ := answer_cases .sync (disk.trouble? .sync place)
  swap
  · rw [herror]
    exact .broken hcan (.inr hsome)
  have hsynced := hnone
  rw [hok]
  simp only [Except.mapError]
  rw [outcome_bind, outcome_adapt, FileSystem.outcome_close, close_underway]
  obtain ⟨hnone, hok⟩ | ⟨hsome, fault, herror⟩ :=
    answer_cases .close (disk.trouble? .close place)
  swap
  · rw [herror]
    exact .unclosed hcan (by simp [hwritten, hsynced]) hsome
  have hclosed := hnone
  rw [hok]
  simp only [Except.mapError]
  rw [outcome_adapt, FileSystem.outcome_rename]
  obtain ⟨fault, hrename, hwhy⟩ | ⟨goal, hrename, hnone, htarget⟩ :=
    hcan.rename_put (mode - (mode &&& disk.umask)) (Utf8.encode content) path
  · rw [hrename]
    exact .unnamed hcan (by simp [hwritten, hsynced, hclosed]) hwhy
  · rw [hrename]
    exact .named hcan (by simp [hwritten, hsynced, hclosed, hnone]) htarget

theorem exists_attempt (hmode : outcome (modeFor path) disk = (.ok mode, disk)) :
    ∃ result after, outcome (writeAnew temporary path content) disk = (result, after) ∧
      Attempt disk temporary path (mode - (mode &&& disk.umask)) (Utf8.encode content) result after :=
  ⟨_, _, rfl, attempt_writeAnew hmode⟩

theorem outcome_clearUp_none :
    outcome (clearUp temporary none) disk = disk.remove temporary :=
  FileSystem.outcome_remove temporary disk

theorem outcome_clearUp_some {handle : Handle} :
    outcome (clearUp temporary (some handle)) disk = match disk.close handle with
      | (.ok (), after) => after.remove temporary
      | (.error fault, after) => (.error fault, after) := by
  change outcome (FileSystem.close handle >>= fun _ => FileSystem.remove temporary) disk = _
  rw [outcome_bind, FileSystem.outcome_close]
  rcases disk.close handle with ⟨fault | _, after⟩ <;> rfl

/-- What was made could not be taken away again: its handle was not given back, or it could not be
removed. -/
structure LeftBehind (disk : Snapshot) (temporary : String) (place : Location)
    (after : Snapshot) : Prop where
  canCreate : CanCreate disk temporary place
  troubled : disk.trouble? .close place ≠ none ∨ disk.trouble? .remove place ≠ none
  after_eq : ∃ bits bytes, after = disk.put place (.file bytes bits)

theorem clearUp_made {place : Location} (h : CanCreate disk temporary place) :
    outcome (clearUp temporary none) (disk.put place (.file bytes bits)) = (.ok (), disk) ∨
      ∃ left after, outcome (clearUp temporary none) (disk.put place (.file bytes bits)) =
        (.error left, after) ∧ LeftBehind disk temporary place after := by
  rw [outcome_clearUp_none, h.remove_put]
  cases ht : disk.trouble? .remove place with
  | none => exact .inl rfl
  | some trouble => exact .inr ⟨_, _, rfl, h, .inr (by simp [ht]), bits, bytes, rfl⟩

/-- Clearing up takes back all that an attempt did that failed, or leaves a file behind. -/
theorem Attempt.clearUp_cases {failure : Failure}
    (h : Attempt disk temporary path bits bytes (.error failure) after) :
    (∀ place, ¬ CanCreate disk temporary place) ∧ after = disk ∧ failure.held = none ∨
    outcome (clearUp temporary failure.held) after = (.ok (), disk) ∨
      ∃ place left cleared, outcome (clearUp temporary failure.held) after = (.error left, cleared) ∧
        LeftBehind disk temporary place cleared := by
  cases h with
  | refused hcannot => exact .inl ⟨hcannot, rfl, rfl⟩
  | @broken _ place taken hcan _ =>
    refine .inr ?_
    rw [outcome_clearUp_some, close_underway]
    obtain ⟨hnone, hok⟩ | ⟨hsome, fault, herror⟩ :=
      answer_cases .close (disk.trouble? .close place)
    · rw [hok]
      obtain hcleared | ⟨left, cleared, hleft, hbehind⟩ := @clearUp_made disk temporary bits taken _ hcan
      · exact .inl hcleared
      · exact .inr ⟨place, left, cleared, hleft, hbehind⟩
    · rw [herror]
      exact .inr ⟨place, fault, _, rfl, hcan, .inl hsome, bits, taken, rfl⟩
  | @unclosed _ place hcan _ hsome =>
    rw [outcome_clearUp_some, close_put]
    exact .inr (.inr ⟨place, _, _, rfl, hcan, .inl hsome, bits, bytes, rfl⟩)
  | @unnamed _ place hcan _ _ =>
    refine .inr ?_
    obtain hcleared | ⟨left, cleared, hleft, hbehind⟩ := @clearUp_made disk temporary bits bytes _ hcan
    · exact .inl hcleared
    · exact .inr ⟨place, left, cleared, hleft, hbehind⟩

end ProjectOrder.Bundle
