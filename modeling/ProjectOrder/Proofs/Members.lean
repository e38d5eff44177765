import ProjectOrder.Json.Value
import ProjectOrder.Proofs.Arrangement

/-! The value that holds for each key of an object. -/
namespace ProjectOrder.Json
open ProjectOrder.Text

variable {key : Units} {value : Value} {members others : List (Units × Value)}

theorem lastValue?_concat (key : Units) (members : List (Units × Value)) (member : Units × Value) :
    lastValue? key (members ++ [member]) =
      if member.1 = key then some member.2 else lastValue? key members := by
  rw [lastValue?, List.reverse_append, List.reverse_singleton, List.singleton_append,
    List.find?_cons]
  by_cases h : member.1 = key
  · rw [if_pos h, beq_iff_eq.mpr h]
    rfl
  · rw [if_neg h, beq_eq_false_iff_ne.mpr h]
    rfl

theorem mem_of_lastValue?_eq_some (h : lastValue? key members = some value) :
    (key, value) ∈ members := by
  unfold lastValue? at h
  obtain ⟨member, hfind, rfl⟩ := Option.map_eq_some_iff.mp h
  obtain rfl : member.1 = key := by simpa using List.find?_some hfind
  simpa using List.mem_of_find?_eq_some hfind

theorem lastValue?_eq_none_iff : lastValue? key members = none ↔ key ∉ members.map (·.1) := by
  simp only [lastValue?, Option.map_eq_none_iff, List.find?_eq_none, List.mem_reverse,
    beq_iff_eq, List.mem_map, not_exists, not_and]

/-- Where no key is there twice, no member hides another. -/
theorem lastValue?_eq_some_iff (h : (members.map (·.1)).Nodup) :
    lastValue? key members = some value ↔ (key, value) ∈ members := by
  refine ⟨mem_of_lastValue?_eq_some, fun hm => ?_⟩
  cases hlast : lastValue? key members with
  | none =>
    have hkey := List.mem_map_of_mem (f := (·.1)) hm
    exact absurd hkey (lastValue?_eq_none_iff.mp hlast)
  | some last =>
    have hinj := List.inj_on_of_nodup_map h hm (mem_of_lastValue?_eq_some hlast) rfl
    rw [(Prod.mk.injEq ..).mp hinj |>.2]

theorem lastValue?_perm (h : (members.map (·.1)).Nodup) (hp : others.Perm members) (key : Units) :
    lastValue? key others = lastValue? key members := by
  have hothers : (others.map (·.1)).Nodup := (hp.map _).nodup_iff.mpr h
  ext value
  rw [lastValue?_eq_some_iff hothers, lastValue?_eq_some_iff h, hp.mem_iff]

/-- The indices of arrays among the keys come first, but every key comes once. -/
theorem exists_keys (members : List (Units × Value)) :
    ∃ keys : List Units, keys.Perm (distinct (members.map (·.1))) ∧
      fields members = keys.filterMap fun key => (lastValue? key members).map (key, ·) := by
  refine ⟨_, ?_, rfl⟩
  generalize distinct (members.map (·.1)) = keys
  have hindices : ((keys.filterMap fun key => (arrayIndex? key).map (·, key)).map (·.2)) =
      keys.filter fun key => (arrayIndex? key).isSome := by
    induction keys with
    | nil => rfl
    | cons key rest ih => cases h : arrayIndex? key <;> simp [h, ih]
  have hsorted := (List.mergeSort_perm (keys.filterMap fun key => (arrayIndex? key).map (·, key))
    fun a b => decide (a.1 ≤ b.1)).map (·.2)
  have hsplit := List.filter_append_perm (fun key => (arrayIndex? key).isSome) keys
  rw [hindices] at hsorted
  simpa using (hsorted.append_right _).trans hsplit

theorem nodup_fields (members : List (Units × Value)) : ((fields members).map (·.1)).Nodup := by
  obtain ⟨keys, hperm, hfields⟩ := exists_keys members
  have hkeys : keys.Nodup :=
    hperm.nodup_iff.mpr (by simpa using nodup_map_distinctBy id (members.map (·.1)))
  have hsublist : ((fields members).map (·.1)).Sublist keys := by
    rw [hfields]
    clear hperm hfields hkeys
    induction keys with
    | nil => simp
    | cons key rest ih => cases h : lastValue? key members <;> simp [h, ih, List.Sublist.cons]
  exact hkeys.sublist hsublist

theorem lastValue?_fields (key : Units) (members : List (Units × Value)) :
    lastValue? key (fields members) = lastValue? key members := by
  obtain ⟨keys, hperm, hfields⟩ := exists_keys members
  have hmem : key ∈ keys ↔ key ∈ members.map (·.1) := by
    rw [hperm.mem_iff]
    have hdistinct : key ∈ (distinct (members.map (·.1))).map id ↔ key ∈ (members.map (·.1)).map id :=
      mem_map_distinctBy
    simpa using hdistinct
  ext value
  rw [lastValue?_eq_some_iff (nodup_fields members), hfields, List.mem_filterMap]
  constructor
  · intro h
    obtain ⟨other, -, hother⟩ := h
    obtain ⟨found, hfound, heq⟩ := Option.map_eq_some_iff.mp hother
    cases heq
    exact hfound
  · intro h
    have hkey := List.mem_map_of_mem (f := (·.1)) (mem_of_lastValue?_eq_some h)
    exact ⟨key, hmem.mpr hkey, by rw [h, Option.map_some]⟩

end ProjectOrder.Json
