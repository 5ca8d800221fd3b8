import LittleLang.Decl.Token
import LittleLang.Scan.Lemmas.Progress

/-!
The rules of the declaration language's lexicon pass at least one byte each.
-/
namespace LittleLang.Decl

open Scanner

/-- A string ends no earlier than it begins. -/
theorem takeString_follows {s : Scanner} (loaded : s.loaded = true) : (takeString s).2.Follows s := by
  fun_induction takeString s with
  | case1 s h _ ih =>
    have step : (if s.byte = 0x0A then s.addLines 1 else s).advance.Follows s := by
      split
      · exact (advance_follows _).trans (addLines_follows 1 loaded)
      · exact advance_follows s
    exact (ih step.loaded).trans step
  | case2 s h => exact .rfl loaded

theorem readString_passes {s : Scanner} (loaded : s.loaded = true) (h : s.hasByte = true) :
    (readString s).2.Passes s := by
  have inside := takeString_follows (advance_follows s).loaded
  have pass := advance_passes loaded h
  simp only [readString]
  split
  · exact ((advance_follows _).trans inside).trans_passes pass
  · exact inside.trans_passes pass

theorem letters_subset {b : UInt8} (h : ByteClass.letters.contains b = true) :
    ByteClass.alphanumeric.contains b = true :=
  ByteClass.contains_alphanumeric.mpr (.inl h)

theorem lexicon_advances : lexicon.Advances where
  skip s loaded has _ := by
    show (if s.byte = 0x0A then (s.addLines 1).advance else s.advance).Passes s
    split
    · exact (advance_passes (s := s.addLines 1) loaded has).of_addLines
    · exact advance_passes loaded has
  read rule mem s loaded has trigger := by
    simp only [lexicon, List.mem_cons, List.not_mem_nil, or_false] at mem
    rcases mem with rfl | rfl | rfl | rfl
    · exact takeWhile_passes loaded has trigger
    · exact takeWhile_passes loaded has (letters_subset trigger)
    · exact advance_passes loaded has
    · exact readString_passes loaded has

end LittleLang.Decl
