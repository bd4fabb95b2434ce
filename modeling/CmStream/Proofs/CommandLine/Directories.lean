import CmStream.CommandLine.Directory

/-!
# Writing a file

A file that is written is there afterwards under the path that it has been written to, with what has
been written and nothing else, and every other entry is as it was. The folders on the way to it are
not touched, so the path leads to the same place as before.
-/

namespace CmStream.CommandLine

namespace Directory

variable {d after : Directory} {location place : Location} {entry : Entry}

/-- A folder that has been entered can still be entered once a file has been put elsewhere. -/
theorem enter_put (hlocation : location ≠ []) (hnot : d.find? location ≠ some .folder)
    {name : Name} {next : Location} (h : d.enter place name = .ok next) :
    (d.put location entry).enter place name = .ok next := by
  unfold enter at h ⊢
  by_cases hself : name.isSelf = true
  · rwa [if_pos hself] at h ⊢
  rw [if_neg hself] at h ⊢
  by_cases hparent : name.isParent = true
  · rwa [if_pos hparent] at h ⊢
  rw [if_neg hparent] at h ⊢
  by_cases hlong : name.isTooLong = true
  · rw [if_pos hlong] at h
    cases h
  rw [if_neg hlong] at h ⊢
  split at h
  case h_1 hfolder =>
    -- What has been entered was a folder, so it is not what has been put there.
    have hother : place ++ [name] ≠ location := by
      rintro rfl
      exact hnot hfolder
    rw [find?_put d hlocation, if_neg hother, hfolder]
    exact h
  case h_2 => cases h
  case h_3 => cases h

theorem follow_put (hlocation : location ≠ []) (hnot : d.find? location ≠ some .folder)
    {names : List Name} {target : Target} (h : d.follow place names = .ok target) :
    (d.put location entry).follow place names = .ok target := by
  induction names generalizing place with
  | nil => exact h
  | cons name rest ih =>
    cases rest with
    | nil => exact h
    | cons second rest =>
      unfold follow at h ⊢
      cases henter : d.enter place name with
      | error error =>
        rw [henter] at h
        cases h
      | ok next =>
        rw [henter] at h
        rw [enter_put hlocation hnot henter]
        exact ih h

theorem resolve_put (hlocation : location ≠ []) (hnot : d.find? location ≠ some .folder)
    {path : SystemText} {target : Target} (h : d.resolve path = .ok target) :
    (d.put location entry).resolve path = .ok target := by
  unfold resolve at h ⊢
  by_cases hempty : path.isEmpty = true
  · rw [if_pos hempty] at h
    cases h
  rw [if_neg hempty] at h ⊢
  by_cases hlong : Path.maxLength < path.length
  · rw [if_pos hlong] at h
    cases h
  rw [if_neg hlong] at h ⊢
  exact follow_put hlocation hnot h

/-! ## Writing and reading -/

variable {path : SystemText} {contents : List Byte}

/-- The path leads to a name under which a file can be created. -/
structure LeadsTo (d : Directory) (path : SystemText) (place : Location) (name : Name) : Prop where
  resolve : d.resolve path = .ok (.named place name)
  file : (Path.ofText path).asksForFolder = false
  short : name.isTooLong = false
  free : d.find? (place ++ [name]) ≠ some .folder

theorem exists_of_create_eq_ok (h : d.create path = .ok (location, after)) :
    ∃ place name, d.LeadsTo path place name ∧ location = place ++ [name]
      ∧ after = d.put (place ++ [name]) (.file []) := by
  unfold create at h
  split at h
  case h_1 => cases h
  case h_2 => cases h
  case h_3 place name hresolve =>
    by_cases hfolder : (Path.ofText path).asksForFolder = true
    · rw [if_pos hfolder] at h
      cases h
    rw [if_neg hfolder] at h
    by_cases hlong : name.isTooLong = true
    · rw [if_pos hlong] at h
      cases h
    rw [if_neg hlong] at h
    split at h
    case h_1 => cases h
    case h_2 hfree =>
      cases h
      exact ⟨place, name, ⟨hresolve, (Bool.not_eq_true _).mp hfolder,
        (Bool.not_eq_true _).mp hlong, hfree⟩, rfl, rfl⟩

theorem put_put (d : Directory) (location : Location) (first second : Entry) :
    (d.put location first).put location second = d.put location second := by
  simp [put]

/-- What a write that succeeds has done: it has put a file where there was no folder. -/
theorem exists_of_write_eq_ok (h : d.write path contents = .ok after) :
    ∃ place name, d.LeadsTo path place name
      ∧ after = d.put (place ++ [name]) (.file contents) := by
  unfold write at h
  split at h
  case h_2 => cases h
  case h_1 location created hcreate =>
    obtain ⟨place, name, hleads, rfl, rfl⟩ := exists_of_create_eq_ok hcreate
    -- The file has just been emptied, so it holds nothing in front of what is written to it.
    have hempty : (d.put (place ++ [name]) (.file [])).find? (place ++ [name])
        = some (.file []) := by
      rw [find?_put d (by simp), if_pos rfl]
    rw [append, hempty] at h
    dsimp only at h
    rw [put_put, List.nil_append] at h
    exact ⟨place, name, hleads, (Except.ok.inj h).symm⟩

/-- A file has been put where the path leads to, or its contents have been replaced; nothing else
has changed, anywhere below the root. -/
structure Replaced (d after : Directory) (path : SystemText) (contents : List Byte) : Prop where
  read : after.read path = .ok contents
  rest : ∃ place name, d.resolve path = .ok (.named place name)
    ∧ d.find? (place ++ [name]) ≠ some .folder
    ∧ after.find? (place ++ [name]) = some (.file contents)
    ∧ ∀ other, other ≠ place ++ [name] → after.find? other = d.find? other
  working : after.working = d.working

theorem replaced_of_write (h : d.write path contents = .ok after) :
    d.Replaced after path contents := by
  obtain ⟨place, name, ⟨hresolve, hfolder, hlong, hnot⟩, rfl⟩ := exists_of_write_eq_ok h
  have hlocation : place ++ [name] ≠ [] :=
    List.append_ne_nil_of_right_ne_nil _ (List.cons_ne_nil _ _)
  have hput : (d.put (place ++ [name]) (.file contents)).find? (place ++ [name])
      = some (.file contents) := by
    rw [find?_put d hlocation, if_pos rfl]
  refine ⟨?_, ⟨place, name, hresolve, hnot, hput, fun other hother => ?_⟩, rfl⟩
  · unfold read
    rw [resolve_put hlocation hnot hresolve]
    dsimp only
    rw [hlong, if_neg Bool.false_ne_true, hput]
    dsimp only
    rw [hfolder, if_neg Bool.false_ne_true]
  · rw [find?_put d hlocation, if_neg hother]

/-- A file that is written with an absolute path can be read with one that leads up from the
working directory, and the file of that name in the working directory is as it was. -/
example : ∃ after, (empty.insert [['f']] (.file [1])).write (.encode "/f") [2] = .ok after
    ∧ after.read (.encode "../f") = .ok [2] ∧ after.read (.encode "./f") = .ok [1] :=
  ⟨_, rfl, rfl, rfl⟩

end Directory

end CmStream.CommandLine
