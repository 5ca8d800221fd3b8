import LittleLang.Proofs.Command.Folder

/-!
# Results stay in their folder

A result is a file right below the folder for the results, whatever the path of its input is. Besides
the folders that lead there, a run changes nothing on the disk but the results of inputs that compile.
-/

namespace LittleLang.Command

variable {o : Options} {folder : String}

/-- The disk after a run is the one with the folder for the results, or that with results. -/
theorem run_disk {arguments : List String} (accepted : Options.read arguments = .ok o)
    (into : o.output = some folder) (w : World) :
    (World.run arguments w).2.disk = (w.disk.makeFolders folder).2 ∨
      ∃ w', makeOutput (m := StateM World) o w = (.ok (), w') ∧
        w'.disk = (w.disk.makeFolders folder).2 ∧
          (World.run arguments w).2.disk =
            (compileFiles (m := StateM World) o o.files w').2.disk := by
  have making := makeOutput_into into w
  cases made : (w.disk.makeFolders folder).1 with
  | error fault =>
      rw [made] at making
      rw [World.run, run_of_unmade accepted making]
      exact .inl (finish_disk _ _)
  | ok done =>
      rw [made] at making
      exact .inr ⟨_, making, rfl, run_disk_of_made accepted making⟩

/-- The target of an input is one name within the folder. The name ends in `.py` and has more before
that, and depends on the stem of the input alone. Where a run leaves the disk other than it was, it has
made a folder, or the place is that of a target: it is right below the place of the folder, and holds
the result for an input with that target. The disk has no links (`Disk`), through which a result could
go elsewhere. -/
theorem results_stay_in_folder :
    (∀ folder input, ∃ name, outputPath folder input = Path.join folder name ∧
      Path.pieces (outputPath folder input) = Path.pieces folder ++ [name] ∧
        '/' ∉ name.toList ∧ ".py".toList.length < name.toList.length ∧
          ".py".toList <:+ name.toList ∧ name ≠ "." ∧ name ≠ "..") ∧
    (∀ folder input input', outputPath folder input = outputPath folder input' ↔
      (Path.fileStem? input).getD "out" = (Path.fileStem? input').getD "out") ∧
    ∀ (arguments : List String) (o : Options) (folder : String) (w : World),
      Options.read arguments = .ok o → o.output = some folder →
        let ended := (World.run arguments w).2.disk
        ∀ place, ended.entry? place ≠ w.disk.entry? place →
          w.disk.entry? place = none ∧ ended.entry? place = some .folder ∨
            ∃ inside name input out w',
              ended.enter (ended.start folder) (Path.pieces folder) = .ok inside ∧
                place = inside ++ [name] ∧ outputPath folder input = Path.join folder name ∧
                  makeOutput (m := StateM World) o w = (.ok (), w') ∧
                    CompiledAs o o.files w' input out ∧ ended.entry? place = some (.file out) := by
  refine ⟨fun folder input => ?_, fun folder input input' => outputPath_eq_iff, ?_⟩
  · have name := targetName_isName input
    exact ⟨targetName input, rfl, Path.pieces_join folder name, name.slash,
      length_lt_targetName input, suffix_targetName input, name.ne_here, name.ne_above⟩
  · intro arguments o folder w accepted into ended place changed
    have folders := (Disk.addsFolders_makeFolders folder w.disk).entry place
    obtain same | ⟨w', making, made, same⟩ := run_disk accepted into w
    · have stands : ended.entry? place = Disk.entry? (w.disk.makeFolders folder).2 place := by
        rw [← same]
      rw [← stands] at folders
      exact .inl (folders.resolve_left changed)
    · have stands : ended.entry? place =
          Disk.entry? (compileFiles (m := StateM World) o o.files w').2.disk place := by
        rw [← same]
      by_cases later : ended.entry? place = w'.disk.entry? place
      · rw [← made, ← later] at folders
        exact .inl (folders.resolve_left changed)
      · rw [stands] at later
        obtain ⟨input, out, compiled, led, holds⟩ := compileFiles_changed into later
        have unmoved := (sameFolders_compileFiles into o.files w').place?_eq (outputPath folder input)
        rw [← same, led, outputPath_eq, Disk.place?_join _ folder (targetName_isName input)] at unmoved
        obtain ⟨inside, entered, below⟩ := Option.map_eq_some_iff.mp unmoved
        exact .inr ⟨inside, targetName input, input, out, w',
          Outcome.eq_ok_of_toOption entered, below.symm, rfl, making, compiled, stands.trans holds⟩

/-- An input that fails leaves no file, and one whose name begins with two dots has its result in the
folder. What has no stem goes where `out.txt` goes. -/
theorem results_stay_in_folder_of_dots :
    let disk : Disk := ⟨[(["bad.decl"], .file (ascii "let 3")),
      (["..x"], .file (ascii "let v = 1"))], []⟩
    let w : World := ⟨[], disk, [], ""⟩
    let o : Options := ⟨false, false, some "out", ["bad.decl", "./..x"]⟩
    let ended := (World.run ["-o", "out", "bad.decl", "./..x"] w).2.disk
    outputPath "out" "a/.." = outputPath "out" "out.txt" ∧
      Options.read ["-o", "out", "bad.decl", "./..x"] = .ok o ∧ o.output = some "out" ∧
      ended.entry? ["out", "..py"] ≠ w.disk.entry? ["out", "..py"] ∧
      ∃ inside name input out w',
        ended.enter (ended.start "out") (Path.pieces "out") = .ok inside ∧
          ["out", "..py"] = inside ++ [name] ∧ outputPath "out" input = Path.join "out" name ∧
            makeOutput (m := StateM World) o w = (.ok (), w') ∧
              CompiledAs o o.files w' input out ∧
                ended.entry? ["out", "..py"] = some (.file out) := by
  intro disk w o ended
  obtain ⟨-, stems, places⟩ := results_stay_in_folder
  have accepted : Options.read ["-o", "out", "bad.decl", "./..x"] = .ok o := by decide +kernel
  have changed : ended.entry? ["out", "..py"] ≠ w.disk.entry? ["out", "..py"] := by decide +kernel
  have file : ¬ (w.disk.entry? ["out", "..py"] = none ∧
      ended.entry? ["out", "..py"] = some .folder) := by decide +kernel
  exact ⟨(stems _ _ _).mpr (by decide +kernel), accepted, rfl, changed,
    (places _ o "out" w accepted rfl _ changed).resolve_left file⟩

end LittleLang.Command
