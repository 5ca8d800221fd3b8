import LittleLang.Command.Run
import LittleLang.Proofs.Files.Places
import LittleLang.Proofs.Text.Splitting

/-!
# Names within a folder

A name joined to a folder leads to that name in the place of the folder, so that results under
different names go to different places.
-/

namespace LittleLang

namespace Path

/-! ## Pieces -/

theorem slash_not_mem_of_mem_pieces {path piece : String} (h : piece ∈ pieces path) :
    '/' ∉ piece.toList := by
  obtain ⟨part, kept, rfl⟩ := List.mem_map.mp h
  rw [String.toList_ofList]
  exact not_mem_of_mem_splitOn (List.mem_filter.mp kept).1

theorem stem_subset (name : List Char) : stem name ⊆ name := by
  unfold stem
  split
  · exact List.Subset.refl name
  · intro c h
    have tail := List.mem_reverse.mp h
    exact List.mem_reverse.mp
      ((List.dropWhile_sublist _).subset (List.mem_of_mem_tail tail))

theorem stem_ne_nil {name : List Char} (h : name ≠ []) : stem name ≠ [] := by
  unfold stem
  split
  · exact h
  · assumption

theorem ne_nil_of_mem_pieces {path piece : String} (h : piece ∈ pieces path) :
    piece.toList ≠ [] := by
  obtain ⟨part, kept, rfl⟩ := List.mem_map.mp h
  rw [String.toList_ofList]
  simpa using (List.mem_filter.mp kept).2

theorem mem_pieces_of_fileName? {path name : String} (h : fileName? path = some name) :
    name ∈ pieces path := by
  unfold fileName? at h
  split at h
  · rename_i last ends
    split at h
    · cases h
    · cases h
      exact (List.mem_filter.mp (List.mem_of_getLast? ends)).1
  · cases h

theorem fileStem?_ne_nil {path stem : String} (h : fileStem? path = some stem) :
    stem.toList ≠ [] := by
  obtain ⟨name, found, rfl⟩ := Option.map_eq_some_iff.mp h
  rw [String.toList_ofList]
  exact stem_ne_nil (ne_nil_of_mem_pieces (mem_pieces_of_fileName? found))

theorem slash_not_mem_fileStem? {path stem : String} (h : fileStem? path = some stem) :
    '/' ∉ stem.toList := by
  obtain ⟨name, found, rfl⟩ := Option.map_eq_some_iff.mp h
  rw [String.toList_ofList]
  exact fun slash =>
    slash_not_mem_of_mem_pieces (mem_pieces_of_fileName? found) (stem_subset _ slash)

/-! ## Names joined to folders -/

/-- The text is the name of an entry: it is one piece, and moves the walk into that entry. -/
structure IsName (name : String) : Prop where
  nonempty : name.toList ≠ []
  slash : '/' ∉ name.toList
  ne_here : name ≠ "."
  ne_above : name ≠ ".."

variable {name : String}

theorem IsName.pieces (h : IsName name) : pieces name = [name] := by
  have whole : name.toList.splitOn '/' = [name.toList] := List.splitOn_eq_singleton h.slash
  simp [Path.pieces, whole, h.nonempty, String.ofList_toList]

theorem pieces_append_slash (before after : String) :
    pieces (before ++ "/" ++ after) = pieces before ++ pieces after := by
  have chars : (before ++ "/" ++ after).toList = before.toList ++ '/' :: after.toList := by simp
  simp only [pieces, chars, List.splitOn_append_cons_self, List.filter_append, List.map_append]

/-- A path that ends in a slash has the pieces of what stands before the slash. -/
theorem exists_append_slash {path : String} (h : endsInSlash path) :
    ∃ before, path = before ++ "/" := by
  have last : path.toList.getLast? = some '/' := by simpa [endsInSlash] using h
  obtain ⟨before, chars⟩ := List.getLast?_eq_some_iff.mp last
  exact ⟨String.ofList before, String.ext (by simp [chars])⟩

theorem pieces_join (folder : String) (h : IsName name) :
    pieces (join folder name) = pieces folder ++ [name] := by
  by_cases empty : folder.isEmpty
  · have none : folder = "" := by simpa using empty
    rw [none, join, if_pos (by simp), String.empty_append, h.pieces]
    rfl
  · by_cases slash : endsInSlash folder
    · obtain ⟨before, rfl⟩ := exists_append_slash slash
      rw [join, if_pos (by simp [slash]), pieces_append_slash, h.pieces]
      have bare := pieces_append_slash before ""
      rw [String.append_empty] at bare
      rw [bare]
      simp [pieces]
    · rw [join, if_neg (by simp [empty, slash]), pieces_append_slash, h.pieces]

theorem join_inj {folder name name' : String} :
    join folder name = join folder name' ↔ name = name' := by
  unfold join
  split <;> simp

theorem isAbsolute_join (folder : String) (h : IsName name) :
    isAbsolute (join folder name) = isAbsolute folder := by
  by_cases empty : folder.isEmpty
  · have none : folder = "" := by simpa using empty
    rw [none, join, if_pos (by simp), String.empty_append]
    obtain ⟨c, rest, chars⟩ := List.exists_cons_of_ne_nil h.nonempty
    have first : c ≠ '/' := by
      rintro rfl
      exact h.slash (chars ▸ List.mem_cons_self)
    simp [isAbsolute, chars, first]
  · have nonempty : folder.toList ≠ [] := by simpa using empty
    obtain ⟨c, rest, chars⟩ := List.exists_cons_of_ne_nil nonempty
    unfold join
    split <;> simp [isAbsolute, chars]

end Path

/-! ## Places -/

namespace Disk

variable {name name' folder : String} {place : Place}

theorem place?_join (d : Disk) (folder : String) (h : Path.IsName name) :
    d.place? (Path.join folder name) =
      (d.enter (d.start folder) (Path.pieces folder)).toOption.map (· ++ [name]) := by
  have nonempty : ¬ (Path.join folder name).isEmpty := by
    intro empty
    have none : Path.join folder name = "" := by simpa using empty
    have pieces := Path.pieces_join folder h
    rw [none] at pieces
    exact List.append_ne_nil_of_right_ne_nil _ (List.cons_ne_nil name []) pieces.symm
  have starts : d.start (Path.join folder name) = d.start folder := by
    rw [start, start, Path.isAbsolute_join folder h]
  rw [place?, locate, if_neg nonempty, Path.pieces_join folder h, List.getLast?_concat,
    List.dropLast_concat, starts]
  cases d.enter (d.start folder) (Path.pieces folder) with
  | error fault => rfl
  | ok inside =>
      simp [bind, Except.bind, pure, Except.pure, Except.toOption, step, h.ne_here, h.ne_above]

theorem name_eq_of_place?_join {d : Disk} (h : Path.IsName name) (h' : Path.IsName name')
    (led : d.place? (Path.join folder name) = some place)
    (led' : d.place? (Path.join folder name') = some place) : name = name' := by
  rw [place?_join d folder h] at led
  rw [place?_join d folder h'] at led'
  obtain ⟨inside, entered, rfl⟩ := Option.map_eq_some_iff.mp led
  obtain ⟨inside', entered', same⟩ := Option.map_eq_some_iff.mp led'
  rw [entered, Option.some.injEq] at entered'
  rw [entered'] at same
  simpa using same.symm

end Disk

/-! ## Results -/

namespace Command

/-- The name of the result for an input. -/
def targetName (input : String) : String := (Path.fileStem? input).getD "out" ++ ".py"

theorem outputPath_eq (folder input : String) :
    outputPath folder input = Path.join folder (targetName input) := rfl

theorem toList_targetName (input : String) : (targetName input).toList =
    ((Path.fileStem? input).getD "out").toList ++ ".py".toList := by
  simp [targetName]

theorem suffix_targetName (input : String) : ".py".toList <:+ (targetName input).toList :=
  ⟨_, (toList_targetName input).symm⟩

theorem length_lt_targetName (input : String) :
    ".py".toList.length < (targetName input).toList.length := by
  have stem : ((Path.fileStem? input).getD "out").toList ≠ [] := by
    cases found : Path.fileStem? input with
    | none => decide
    | some stem => exact Path.fileStem?_ne_nil found
  rw [toList_targetName, List.length_append]
  exact Nat.lt_add_of_pos_left (List.length_pos_iff.mpr stem)

theorem targetName_isName (input : String) : Path.IsName (targetName input) := by
  have long (text : String) (h : targetName input = text) : 3 < text.toList.length := by
    rw [← h]
    exact length_lt_targetName input
  refine ⟨fun h => ?_, ?_, fun h => ?_, fun h => ?_⟩
  · exact absurd (length_lt_targetName input) (by simp [h])
  · rw [toList_targetName]
    cases found : Path.fileStem? input with
    | none => decide
    | some stem => simp [Path.slash_not_mem_fileStem? found]
  · exact absurd (long _ h) (by decide)
  · exact absurd (long _ h) (by decide)

/-- An input without a stem goes where one of the stem `out` goes. -/
theorem outputPath_eq_iff {folder input input' : String} :
    outputPath folder input = outputPath folder input' ↔
      (Path.fileStem? input).getD "out" = (Path.fileStem? input').getD "out" := by
  rw [outputPath_eq, outputPath_eq, Path.join_inj, targetName, targetName, String.append_left_inj]

/-- Results under different names go to different places. -/
theorem outputPath_eq_of_place? {d : Disk} {folder input input' : String} {place : Place}
    (led : d.place? (outputPath folder input) = some place)
    (led' : d.place? (outputPath folder input') = some place) :
    outputPath folder input = outputPath folder input' := by
  have same : targetName input = targetName input' :=
    Disk.name_eq_of_place?_join (targetName_isName input) (targetName_isName input') led led'
  rw [outputPath_eq, outputPath_eq, same]

end Command

end LittleLang
