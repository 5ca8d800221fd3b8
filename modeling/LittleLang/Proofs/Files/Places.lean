import LittleLang.Files.Disk

/-!
# Places

The place that a path leads to depends on the folders alone. Reading looks at what stands there, and
writing changes it.
-/

namespace LittleLang.Disk

variable {d d' d'' : Disk} {path : String} {place place' : Place} {content : List UInt8}

/-- The place that a path leads to. -/
def place? (d : Disk) (path : String) : Option Place :=
  (d.locate path).toOption.map fun
    | none => []
    | some (folder, name) => step folder name

/-! ## Entries -/

@[simp]
theorem entry_root (d : Disk) : d.entry? [] = some .folder := rfl

theorem ne_root_of_free (free : d.entry? place ≠ some .folder) : place ≠ [] :=
  fun root => free (root ▸ d.entry_root)

theorem entry_put_self (d : Disk) (entry : Entry) (h : place ≠ []) :
    entry? (d.put place entry) place = some entry := by
  have gone : (d.entries.filter (·.1 ≠ place)).find? (·.1 = place) = none := by
    simp [List.find?_eq_none]
  simp only [put, entry?, if_neg h, List.find?_append, gone]
  simp

theorem entry_put_of_ne (d : Disk) (entry : Entry) (h : place' ≠ place) :
    entry? (d.put place entry) place' = d.entry? place' := by
  have kept : (d.entries.filter (·.1 ≠ place)).find? (·.1 = place') =
      d.entries.find? (·.1 = place') := by
    rw [List.find?_filter]
    congr 1
    funext e
    by_cases there : e.1 = place' <;> simp [there, h]
  simp only [put, entry?, List.find?_append, kept]
  simp [h.symm]

/-! ## Reading and writing -/

theorem read_eq_ok_iff : d.read path = .ok content ↔ ∃ place, d.place? path = some place ∧
    d.entry? place = some (.file content) ∧ Path.endsInSlash path = false := by
  rcases located : d.locate path with fault | _ | ⟨folder, name⟩
  · simp [read, look, place?, located, bind, Except.bind, Except.toOption]
  · simp [read, look, place?, located, bind, Except.bind, Except.toOption, pure, Except.pure]
  · cases there : d.entry? (step folder name) with
    | none => simp [read, look, place?, located, there, bind, Except.bind, Except.toOption]
    | some entry =>
        cases entry <;> cases slash : Path.endsInSlash path <;>
          simp [read, look, place?, located, there, slash, bind, Except.bind, Except.toOption, pure,
            Except.pure]

theorem write_eq_ok_iff : d.write path content = .ok d' ↔ ∃ place, d.place? path = some place ∧
    d.entry? place ≠ some .folder ∧ Path.endsInSlash path = false ∧
      d' = d.put place (.file content) := by
  rcases located : d.locate path with fault | _ | ⟨folder, name⟩
  · simp [write, place?, located, bind, Except.bind, Except.toOption]
  · simp [write, place?, located, bind, Except.bind, Except.toOption]
  · cases there : d.entry? (step folder name) with
    | none =>
        cases slash : Path.endsInSlash path <;>
          simp [write, place?, located, there, slash, bind, Except.bind, Except.toOption, pure,
            Except.pure, eq_comm]
    | some entry =>
        cases entry <;> cases slash : Path.endsInSlash path <;>
          simp [write, place?, located, there, slash, bind, Except.bind, Except.toOption, pure,
            Except.pure, eq_comm]

/-! ## Folders that stay -/

/-- Paths start in the same folder, and the folders of the first disk are folders of the second. -/
structure KeepsFolders (d d' : Disk) : Prop where
  home_eq : d'.home = d.home
  folder : ∀ place, d.entry? place = some .folder → d'.entry? place = some .folder

theorem KeepsFolders.enter (h : KeepsFolders d d') {here : Place} {names : List String}
    (entered : d.enter here names = .ok place) : d'.enter here names = .ok place := by
  induction names generalizing here with
  | nil => exact entered
  | cons name rest ih =>
      simp only [Disk.enter] at entered ⊢
      cases there : d.entry? (step here name) with
      | none => simp [there] at entered
      | some entry =>
          cases entry with
          | file content => simp [there] at entered
          | folder =>
              rw [there] at entered
              rw [h.folder _ there]
              exact ih entered

theorem KeepsFolders.locate (h : KeepsFolders d d') {found : Option (Place × String)}
    (located : d.locate path = .ok found) : d'.locate path = .ok found := by
  unfold Disk.locate at located ⊢
  split at located
  · cases located
  · rename_i nonempty
    rw [if_neg nonempty]
    cases last : (Path.pieces path).getLast? with
    | none =>
        rw [last] at located
        exact located
    | some name =>
        rw [last] at located
        have start_eq : d'.start path = d.start path := by rw [start, start, h.home_eq]
        cases entered : d.enter (d.start path) (Path.pieces path).dropLast with
        | error fault =>
            rw [entered] at located
            cases located
        | ok folder =>
            rw [entered] at located
            rw [start_eq, h.enter entered]
            exact located

theorem KeepsFolders.place? (h : KeepsFolders d d') (led : d.place? path = some place) :
    d'.place? path = some place := by
  simp only [Disk.place?, Option.map_eq_some_iff] at led ⊢
  obtain ⟨found, located, ended⟩ := led
  cases result : d.locate path with
  | error fault =>
      rw [result] at located
      cases located
  | ok other =>
      rw [result] at located
      rw [h.locate result]
      exact ⟨found, located, ended⟩

/-! ## Disks with the same folders -/

/-- The two disks differ in files at most. -/
structure SameFolders (d d' : Disk) : Prop where
  home_eq : d'.home = d.home
  folder_iff : ∀ place, d.entry? place = some .folder ↔ d'.entry? place = some .folder

theorem SameFolders.refl (d : Disk) : SameFolders d d := ⟨rfl, fun _ => Iff.rfl⟩

theorem SameFolders.trans (h : SameFolders d d') (h' : SameFolders d' d'') : SameFolders d d'' :=
  ⟨h'.home_eq.trans h.home_eq, fun place => (h.folder_iff place).trans (h'.folder_iff place)⟩

theorem SameFolders.place?_eq (h : SameFolders d d') (path : String) :
    d'.place? path = d.place? path := by
  have keeps : KeepsFolders d d' := ⟨h.home_eq, fun place => (h.folder_iff place).mp⟩
  have keeps' : KeepsFolders d' d := ⟨h.home_eq.symm, fun place => (h.folder_iff place).mpr⟩
  ext place
  exact ⟨keeps'.place?, keeps.place?⟩

theorem sameFolders_put (free : d.entry? place ≠ some .folder) :
    SameFolders d (d.put place (.file content)) := by
  refine ⟨rfl, fun other => ?_⟩
  by_cases same : other = place
  · rw [same, entry_put_self _ _ (ne_root_of_free free)]
    simp [free]
  · rw [entry_put_of_ne _ _ same]

/-! ## Written files -/

theorem sameFolders_of_write (h : d.write path content = .ok d') : SameFolders d d' := by
  obtain ⟨place, -, free, -, rfl⟩ := write_eq_ok_iff.mp h
  exact sameFolders_put free

theorem read_written (h : d.write path content = .ok d') : d'.read path = .ok content := by
  have same := sameFolders_of_write h
  obtain ⟨place, led, free, slash, rfl⟩ := write_eq_ok_iff.mp h
  exact read_eq_ok_iff.mpr
    ⟨place, (same.place?_eq path).trans led, entry_put_self _ _ (ne_root_of_free free), slash⟩

/-! ## Folders that are made -/

/-- What stands on the first disk stands on the second, and all that is new there is folders. -/
structure AddsFolders (d d' : Disk) : Prop where
  home_eq : d'.home = d.home
  entry : ∀ place, d'.entry? place = d.entry? place ∨
    d.entry? place = none ∧ d'.entry? place = some .folder

theorem AddsFolders.refl (d : Disk) : AddsFolders d d := ⟨rfl, fun _ => .inl rfl⟩

theorem AddsFolders.trans (h : AddsFolders d d') (h' : AddsFolders d' d'') : AddsFolders d d'' := by
  refine ⟨h'.home_eq.trans h.home_eq, fun place => ?_⟩
  rcases h'.entry place with same' | ⟨free', made'⟩
  · rw [same']
    exact h.entry place
  · rcases h.entry place with same | ⟨-, made⟩
    · exact .inr ⟨same ▸ free', made'⟩
    · rw [made] at free'
      cases free'

theorem addsFolders_of_makeFolder (h : d.makeFolder path = .ok d') : AddsFolders d d' := by
  rcases located : d.locate path with fault | _ | ⟨folder, name⟩
  · simp [makeFolder, located, bind, Except.bind] at h
  · simp [makeFolder, located, bind, Except.bind] at h
  · cases there : d.entry? (step folder name) with
    | some entry => simp [makeFolder, located, there, bind, Except.bind] at h
    | none =>
        simp only [makeFolder, located, there, bind, Except.bind, pure, Except.pure,
          Except.ok.injEq] at h
        subst h
        refine ⟨rfl, fun place => ?_⟩
        by_cases same : place = step folder name
        · have free : d.entry? (step folder name) ≠ some .folder := by simp [there]
          rw [same]
          exact .inr ⟨there, entry_put_self d .folder (ne_root_of_free free)⟩
        · exact .inl (entry_put_of_ne d .folder same)

theorem addsFolders_makeAfter {parents : Disk → Except FileFault Unit × Disk}
    (h : ∀ d, AddsFolders d (parents d).2) (path : String) (d : Disk) :
    AddsFolders d (makeAfter parents path d).2 := by
  unfold makeAfter
  split
  · rename_i made
    exact addsFolders_of_makeFolder made
  · have above := h d
    split
    · rename_i later failed
      rwa [failed] at above
    · rename_i later done
      rw [done] at above
      split
      · rename_i made
        exact above.trans (addsFolders_of_makeFolder made)
      · exact above
  · exact AddsFolders.refl d

theorem addsFolders_makeAbove (absolute : Bool) (names : List String) (d : Disk) :
    AddsFolders d (makeAbove absolute names d).2 := by
  induction names generalizing d with
  | nil => exact AddsFolders.refl d
  | cons name above ih => exact addsFolders_makeAfter ih _ d

theorem addsFolders_makeFolders (path : String) (d : Disk) :
    AddsFolders d (makeFolders path d).2 := by
  unfold makeFolders
  split
  · exact AddsFolders.refl d
  · exact addsFolders_makeAfter (addsFolders_makeAbove _ _) path d

/-- All that stands on the first disk stands on the second. -/
structure Grows (d d' : Disk) : Prop where
  home_eq : d'.home = d.home
  entry : ∀ place entry, d.entry? place = some entry → d'.entry? place = some entry

theorem Grows.read (h : Grows d d') (before : d.read path = .ok content) :
    d'.read path = .ok content := by
  have keeps : KeepsFolders d d' := ⟨h.home_eq, fun place => h.entry place .folder⟩
  obtain ⟨place, led, there, slash⟩ := read_eq_ok_iff.mp before
  exact read_eq_ok_iff.mpr ⟨place, keeps.place? led, h.entry _ _ there, slash⟩

theorem AddsFolders.grows (h : AddsFolders d d') : Grows d d' := by
  refine ⟨h.home_eq, fun place entry stood => ?_⟩
  rcases h.entry place with same | ⟨free, -⟩
  · rw [same, stood]
  · rw [stood] at free
    cases free

theorem grows_makeFolders (path : String) (d : Disk) : Grows d (makeFolders path d).2 :=
  (addsFolders_makeFolders path d).grows

end LittleLang.Disk
