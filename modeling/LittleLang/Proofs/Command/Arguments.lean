import LittleLang.Command.Options

/-!
# Reading arguments from left to right

The arguments that come first are read alike whatever follows them, unless the last one still waits
for its folder. An argument that asks for a listing has no part in how the others are read.
-/

namespace LittleLang.Command.Options

variable {o o' : Options} {argument folder : String} {before rest : List String}

/-! ## One argument -/

theorem readAfter_tokens (h : argument = "--tokens" ∨ argument = "-t") :
    o.readAfter (argument :: rest) = readAfter { o with tokens := true } rest := by
  rw [readAfter.eq_def]
  exact if_pos h

section

variable (notTokens : ¬ (argument = "--tokens" ∨ argument = "-t"))
include notTokens

theorem readAfter_tree (h : argument = "--tree" ∨ argument = "-T") :
    o.readAfter (argument :: rest) = readAfter { o with tree := true } rest := by
  rw [readAfter.eq_def]
  exact (if_neg notTokens).trans (if_pos h)

variable (notTree : ¬ (argument = "--tree" ∨ argument = "-T"))
include notTree

theorem readAfter_output (h : argument = "--output" ∨ argument = "-o") :
    o.readAfter (argument :: folder :: rest) = readAfter { o with output := some folder } rest := by
  rw [readAfter.eq_def]
  exact (if_neg notTokens).trans ((if_neg notTree).trans (if_pos h))

theorem readAfter_output_last (h : argument = "--output" ∨ argument = "-o") :
    o.readAfter [argument] = .error .missingFolder := by
  rw [readAfter.eq_def]
  exact (if_neg notTokens).trans ((if_neg notTree).trans (if_pos h))

variable (notOutput : ¬ (argument = "--output" ∨ argument = "-o"))
include notOutput

theorem readAfter_unknown (h : argument.toList.head? = some '-') :
    o.readAfter (argument :: rest) = .error (.unknown argument) := by
  rw [readAfter.eq_def]
  exact (if_neg notTokens).trans ((if_neg notTree).trans ((if_neg notOutput).trans (if_pos h)))

theorem readAfter_file (h : argument.toList.head? ≠ some '-') :
    o.readAfter (argument :: rest) = readAfter { o with files := o.files ++ [argument] } rest := by
  rw [readAfter.eq_def]
  exact (if_neg notTokens).trans ((if_neg notTree).trans ((if_neg notOutput).trans (if_neg h)))

end

/-! ## Several arguments -/

theorem readAfter_append (complete : o.readAfter before ≠ .error .missingFolder)
    (after : List String) :
    o.readAfter (before ++ after) = o.readAfter before >>= (readAfter · after) := by
  fun_induction readAfter o before with
  | case1 o => rfl
  | case2 o argument rest tokens ih =>
      rw [List.cons_append, readAfter_tokens tokens]
      exact ih complete
  | case3 o argument rest notTokens tree ih =>
      rw [List.cons_append, readAfter_tree notTokens tree]
      exact ih complete
  | case4 o argument notTokens notTree output folder rest ih =>
      rw [List.cons_append, List.cons_append, readAfter_output notTokens notTree output]
      exact ih complete
  | case5 => exact absurd rfl complete
  | case6 o argument rest notTokens notTree notOutput dash =>
      rw [List.cons_append, readAfter_unknown notTokens notTree notOutput dash]
      rfl
  | case7 o argument rest notTokens notTree notOutput noDash ih =>
      rw [List.cons_append, readAfter_file notTokens notTree notOutput noDash]
      exact ih complete

/-! ## Listings -/

/-- The arguments that ask for a listing. -/
def listings : List String := ["--tokens", "-t", "--tree", "-T"]

/-- The options without what they list. -/
def quiet (o : Options) : Options := { o with tokens := false, tree := false }

theorem quiet_eq_iff : o.quiet = o'.quiet ↔ o.output = o'.output ∧ o.files = o'.files := by
  simp [quiet]

theorem quiet_readAfter (same : o.quiet = o'.quiet) (arguments : List String) :
    quiet <$> o.readAfter arguments = quiet <$> o'.readAfter arguments := by
  obtain ⟨output, files⟩ := quiet_eq_iff.mp same
  fun_induction readAfter o arguments generalizing o' with
  | case1 o => exact congrArg Except.ok same
  | case2 o argument rest tokens ih =>
      rw [readAfter_tokens tokens]
      exact ih (quiet_eq_iff.mpr ⟨output, files⟩) output files
  | case3 o argument rest notTokens tree ih =>
      rw [readAfter_tree notTokens tree]
      exact ih (quiet_eq_iff.mpr ⟨output, files⟩) output files
  | case4 o argument notTokens notTree isOutput folder rest ih =>
      rw [readAfter_output notTokens notTree isOutput]
      exact ih (quiet_eq_iff.mpr ⟨rfl, files⟩) rfl files
  | case5 o argument notTokens notTree isOutput =>
      rw [readAfter_output_last notTokens notTree isOutput]
  | case6 o argument rest notTokens notTree notOutput dash =>
      rw [readAfter_unknown notTokens notTree notOutput dash]
  | case7 o argument rest notTokens notTree notOutput noDash ih =>
      have added : o.files ++ [argument] = o'.files ++ [argument] := by rw [files]
      rw [readAfter_file notTokens notTree notOutput noDash]
      exact ih (quiet_eq_iff.mpr ⟨output, added⟩) output added

theorem quiet_readAfter_listing (mem : argument ∈ listings) (o : Options) (rest : List String) :
    quiet <$> o.readAfter (argument :: rest) = quiet <$> o.readAfter rest := by
  simp only [listings, List.mem_cons, List.not_mem_nil, or_false] at mem
  by_cases tokens : argument = "--tokens" ∨ argument = "-t"
  · rw [readAfter_tokens tokens]
    apply quiet_readAfter
    rfl
  · rw [readAfter_tree tokens ((or_assoc.mpr mem).resolve_left tokens)]
    apply quiet_readAfter
    rfl

theorem quiet_read_insert (mem : argument ∈ listings)
    (complete : read before ≠ .error .missingFolder) (after : List String) :
    quiet <$> read (before ++ argument :: after) = quiet <$> read (before ++ after) := by
  rw [read, read, readAfter_append complete, readAfter_append complete]
  cases none.readAfter before with
  | error fault => rfl
  | ok o => exact quiet_readAfter_listing mem o after

end LittleLang.Command.Options
