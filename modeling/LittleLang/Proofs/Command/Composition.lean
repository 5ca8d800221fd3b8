import Mathlib.Control.Monad.Basic
import LittleLang.Command.World
import LittleLang.Proofs.Command.Arguments

/-!
# Options compose

What arguments ask for does not depend on those before them, so options add up from left to right.
Arguments that are refused are reported before anything else is done.
-/

namespace LittleLang.Command

namespace Options

variable {o later : Options} {argument : String} {before after : List String} {fault : OptionFault}

/-! ## Options after options -/

/-- All that either of the options asks for. Of two folders, the later one counts. -/
def followedBy (o later : Options) : Options where
  tokens := o.tokens || later.tokens
  tree := o.tree || later.tree
  output := later.output.or o.output
  files := o.files ++ later.files

theorem followedBy_none (o : Options) : o.followedBy none = o := by
  simp [followedBy, none]

theorem followedBy_tokens :
    { o.followedBy later with tokens := true } = o.followedBy { later with tokens := true } := by
  simp [followedBy]

theorem followedBy_tree :
    { o.followedBy later with tree := true } = o.followedBy { later with tree := true } := by
  simp [followedBy]

theorem followedBy_output (folder : String) :
    { o.followedBy later with output := some folder } =
      o.followedBy { later with output := some folder } := by
  simp [followedBy]

theorem followedBy_file (argument : String) :
    { o.followedBy later with files := (o.followedBy later).files ++ [argument] } =
      o.followedBy { later with files := later.files ++ [argument] } := by
  simp [followedBy]

/-- What has been asked for before can be added when all arguments have been read. -/
theorem readAfter_followedBy (o later : Options) (arguments : List String) :
    (o.followedBy later).readAfter arguments = (o.followedBy ·) <$> later.readAfter arguments := by
  fun_induction readAfter later arguments with
  | case1 later => rfl
  | case2 later argument rest tokens ih =>
      rw [readAfter_tokens tokens, followedBy_tokens]
      exact ih
  | case3 later argument rest notTokens tree ih =>
      rw [readAfter_tree notTokens tree, followedBy_tree]
      exact ih
  | case4 later argument notTokens notTree output folder rest ih =>
      rw [readAfter_output notTokens notTree output, followedBy_output]
      exact ih
  | case5 later argument notTokens notTree output =>
      rw [readAfter_output_last notTokens notTree output]
      rfl
  | case6 later argument rest notTokens notTree notOutput dash =>
      rw [readAfter_unknown notTokens notTree notOutput dash]
      rfl
  | case7 later argument rest notTokens notTree notOutput noDash ih =>
      rw [readAfter_file notTokens notTree notOutput noDash, followedBy_file]
      exact ih

theorem readAfter_eq (o : Options) (arguments : List String) :
    o.readAfter arguments = (o.followedBy ·) <$> read arguments := by
  have added := readAfter_followedBy o none arguments
  rwa [followedBy_none] at added

theorem read_append_of_ok (accepted : read before = .ok o) (after : List String) :
    read (before ++ after) = (o.followedBy ·) <$> read after := by
  have complete : read before ≠ .error .missingFolder := by simp [accepted]
  rw [← readAfter_eq]
  exact (readAfter_append complete after).trans (congrArg (· >>= (readAfter · after)) accepted)

theorem read_append_of_error (refused : read before = .error fault)
    (complete : fault ≠ .missingFolder) (after : List String) :
    read (before ++ after) = .error fault := by
  have complete' : read before ≠ .error .missingFolder := by simp [refused, complete]
  exact (readAfter_append complete' after).trans (congrArg (· >>= (readAfter · after)) refused)

end Options

/-! ## Refused arguments -/

/-- Of all that a host can do, a report is the only thing that is asked of it. -/
theorem run_of_refused {m : Type → Type} [Monad m] [Host m] {arguments : List String}
    {fault : OptionFault} (refused : Options.read arguments = .error fault) :
    (run arguments : m UInt8) = do
      Host.report (fatal fault.message)
      return 1 := by
  simp only [run, refused, finish]

/-- Arguments that are accepted have no part in how later ones are read: a fault of these remains,
and otherwise the options add up. An option that is not known is reported whatever follows it. If the
arguments are refused, a run reports the fault and ends with one, and does nothing else: it does not
read, it has no output and the disk stays as it is. -/
theorem options_compose :
    (∀ before after o, Options.read before = .ok o →
      (∀ fault, Options.read after = .error fault →
        Options.read (before ++ after) = .error fault) ∧
      ∀ later, Options.read after = .ok later →
        Options.read (before ++ after) = .ok
          ⟨o.tokens || later.tokens, o.tree || later.tree, later.output.or o.output,
            o.files ++ later.files⟩) ∧
    (∀ before after argument, Options.read before = .error (.unknown argument) →
      Options.read (before ++ after) = .error (.unknown argument)) ∧
    ∀ arguments fault, Options.read arguments = .error fault →
      (∀ (m : Type → Type) [Monad m] [Host m], (run arguments : m UInt8) = do
        Host.report (fatal fault.message)
        return 1) ∧
      ∀ w : World, World.run arguments w = (1, { w with log := w.log ++ fatal fault.message }) := by
  refine ⟨fun before after o accepted => ⟨fun fault refused => ?_, fun later accepted' => ?_⟩,
    fun before after argument refused => ?_, fun arguments fault refused => ⟨?_, fun w => ?_⟩⟩
  · rw [Options.read_append_of_ok accepted, refused]
    rfl
  · rw [Options.read_append_of_ok accepted, accepted']
    rfl
  · exact Options.read_append_of_error refused nofun after
  · intro m _ _
    exact run_of_refused refused
  · rw [World.run, run_of_refused refused]
    rfl

/-- The folder of the second arguments is called `-T`, and it counts. A folder that is missing at the
end is reported, and nothing happens to the file before it. -/
theorem options_compose_with_folder_like_option :
    Options.read (["-t", "-o", "out", "a.decl"] ++ ["-o", "-T", "--tree", "b.decl"]) =
        .ok ⟨true, true, some "-T", ["a.decl", "b.decl"]⟩ ∧
      Options.read (["-t", "-o", "out", "a.decl"] ++ ["b.decl", "-o"]) = .error .missingFolder ∧
      Options.read (["a.decl", "-"] ++ ["-o", "out"]) = .error (.unknown "-") ∧
      ∀ w : World, World.run ["a.decl", "-o"] w =
        (1, { w with log := w.log ++ "Error: --output needs a directory\n" }) := by
  obtain ⟨added, unknown, refused⟩ := options_compose
  have first : Options.read ["-t", "-o", "out", "a.decl"] =
      .ok ⟨true, false, some "out", ["a.decl"]⟩ := by decide +kernel
  have second : Options.read ["-o", "-T", "--tree", "b.decl"] =
      .ok ⟨false, true, some "-T", ["b.decl"]⟩ := by decide +kernel
  have missing : Options.read ["b.decl", "-o"] = .error .missingFolder := by decide +kernel
  have missing' : Options.read ["a.decl", "-o"] = .error .missingFolder := by decide +kernel
  have dash : Options.read ["a.decl", "-"] = .error (.unknown "-") := by decide +kernel
  exact ⟨(added _ _ _ first).2 _ second, (added _ _ _ first).1 _ missing, unknown _ _ _ dash,
    (refused _ _ missing').2⟩

end LittleLang.Command
