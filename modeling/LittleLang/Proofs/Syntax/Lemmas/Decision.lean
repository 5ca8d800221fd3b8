import LittleLang.Proofs.Syntax.Lemmas.Reading

/-!
# Every list of tokens is decided

From left to right, either the tokens begin with a whole phrase, or there is a first place at which
nothing that is wanted comes next. Nothing here depends on the rules that read.
-/

namespace LittleLang.Decl.Syntax

variable {t name : Token} {ts : List Token}

/-- The tokens begin with a phrase, or stop fitting somewhere within it. -/
def Decided (whole : List Token → Prop) (awaits : List Token → Wanted → Prop) (ts : List Token) :
    Prop :=
  ∃ us rest, ts = us ++ rest ∧ (whole us ∨ ∃ w fault, awaits us w ∧ w.Refuses fault rest)

theorem Wanted.refuses_or_admits (w : Wanted) (hw : w.final = false) (ts : List Token) :
    (∃ fault, w.Refuses fault ts) ∨ ∃ t us, ts = t :: us ∧ w.admits t = true := by
  cases ts with
  | nil => exact .inl ⟨_, hw, rfl⟩
  | cons t us =>
      cases h : w.admits t with
      | false => exact .inl ⟨_, h, rfl⟩
      | true => exact .inr ⟨t, us, rfl, h⟩

theorem refuses_or_kind (kind : TokenKind) (ts : List Token) :
    (∃ fault, (Wanted.kind kind).Refuses fault ts) ∨ ∃ t us, ts = t :: us ∧ t.kind = kind := by
  simpa [Wanted.kind] using (Wanted.kind kind).refuses_or_admits rfl ts

theorem exists_value (h : Wanted.value.admits t = true) : ∃ v, Value [t] v := by
  simp only [Wanted.value, literalKind?] at h
  cases kind : t.kind with
  | num => exact ⟨_, .number kind⟩
  | str => exact ⟨_, .string kind⟩
  | word =>
      simp only [kind] at h
      split at h
      · exact ⟨_, .boolean ((‹_ ∨ _›).imp (⟨kind, ·⟩) (⟨kind, ·⟩))⟩
      · cases h
  | _ => simp [kind] at h

theorem binding_decided (ts : List Token) :
    Decided (fun us => ∃ name v, Binding us name v) AwaitsBinding ts := by
  rcases refuses_or_kind .word ts with ⟨fault, h⟩ | ⟨name, ts, rfl, hn⟩
  · exact ⟨[], ts, rfl, .inr ⟨_, fault, .name, h⟩⟩
  rcases refuses_or_kind .eql ts with ⟨fault, h⟩ | ⟨equals, ts, rfl, he⟩
  · exact ⟨[name], ts, rfl, .inr ⟨_, fault, .equals hn, h⟩⟩
  rcases Wanted.value.refuses_or_admits rfl ts with ⟨fault, h⟩ | ⟨t, ts, rfl, ht⟩
  · exact ⟨[name, equals], ts, rfl, .inr ⟨_, fault, .value hn he, h⟩⟩
  · obtain ⟨v, hv⟩ := exists_value ht
    exact ⟨[name, equals, t], ts, rfl, .inl ⟨name, v, .mk hn he hv⟩⟩

/-- From the name of a parameter on: a whole parameter, with what is wanted after it, or a default
value that is missing. -/
theorem param_decided (hn : name.kind = .word) (ts : List Token) :
    ∃ us rest, name :: ts = name :: us ++ rest ∧
      ((∃ n, Param (name :: us) n ∧ ∀ fault, Wanted.afterParam.Refuses fault rest →
          ∃ w, AwaitsParam (name :: us) w ∧ w.Refuses fault rest) ∨
        ∃ w fault, AwaitsParam (name :: us) w ∧ w.Refuses fault rest) := by
  rcases refuses_or_kind .eql ts with ⟨fault, h⟩ | ⟨equals, ts, rfl, he⟩
  · refine ⟨[], ts, rfl, .inl ⟨_, .bare hn, fun fault after => ⟨_, .bare hn, ?_⟩⟩⟩
    cases ts with
    | nil => exact after
    | cons t ts => exact ⟨Bool.or_eq_false_iff.mpr ⟨after.1, h.1⟩, after.2⟩
  · rcases Wanted.value.refuses_or_admits rfl ts with ⟨fault, h⟩ | ⟨t, ts, rfl, ht⟩
    · exact ⟨[equals], ts, rfl, .inr ⟨_, fault, .value hn he, h⟩⟩
    · obtain ⟨v, hv⟩ := exists_value ht
      have whole := Binding.mk hn he hv
      exact ⟨[equals, t], ts, rfl, .inl ⟨_, .withDefault whole, fun fault after =>
        ⟨_, .withDefault whole, after⟩⟩⟩

/-- After a whole parameter: more parameters with the closing bracket, a place within them, or
neither a comma nor the bracket. -/
theorem more_decided (ts : List Token) :
    (∃ us closing rest ns, ts = us ++ closing :: rest ∧ MoreParams us ns ∧
        closing.kind = .rightPrt) ∨
      (∃ us rest w fault, ts = us ++ rest ∧ AwaitsMore us w ∧ w.Refuses fault rest) ∨
      ∃ fault, Wanted.afterParam.Refuses fault ts := by
  -- A comma with its parameter leaves a shorter list.
  induction len : ts.length using Nat.strongRecOn generalizing ts with
  | ind k ih =>
      rcases Wanted.afterParam.refuses_or_admits rfl ts with h | ⟨comma, ts, rfl, hc⟩
      · exact .inr (.inr h)
      simp only [Wanted.afterParam, Wanted.orKind, Wanted.kind, Bool.or_eq_true, beq_iff_eq] at hc
      rcases hc with hc | hc
      · rcases refuses_or_kind .word ts with ⟨fault, h⟩ | ⟨name, ts, rfl, hn⟩
        · exact .inr (.inl ⟨[comma], ts, _, fault, rfl, .param hc .name, h⟩)
        obtain ⟨us, rest, eq, ⟨n, hp, after⟩ | ⟨w, fault, hw, h⟩⟩ := param_decided hn ts
        · have shorter : rest.length < k := by
            have := congrArg List.length eq
            simp only [List.length_cons, List.length_append] at this len
            omega
          rcases ih _ shorter rest rfl with ⟨vs, closing, rest, ns, rfl, hm, hr⟩ |
            ⟨vs, rest, w, fault, rfl, hm, h⟩ | ⟨fault, h⟩
          · exact .inl ⟨comma :: (name :: us ++ vs), closing, rest, n :: ns, by simp [eq],
              .next hc hp hm, hr⟩
          · exact .inr (.inl ⟨comma :: (name :: us ++ vs), rest, w, fault, by simp [eq],
              .later hc hp hm, h⟩)
          · obtain ⟨w, hw, h⟩ := after fault h
            exact .inr (.inl ⟨comma :: name :: us, rest, w, fault, by simp [eq], .param hc hw, h⟩)
        · exact .inr (.inl ⟨comma :: name :: us, rest, w, fault, by simp [eq], .param hc hw, h⟩)
      · exact .inl ⟨[], comma, ts, [], rfl, .none, hc⟩

theorem args_decided (ts : List Token) : Decided (fun us => ∃ n, Args us n) AwaitsArgs ts := by
  rcases refuses_or_kind .leftPrt ts with ⟨fault, h⟩ | ⟨opening, ts, rfl, ho⟩
  · exact ⟨[], ts, rfl, .inr ⟨_, fault, .opening, h⟩⟩
  rcases ((Wanted.kind .word).orKind .rightPrt).refuses_or_admits rfl ts with
    ⟨fault, h⟩ | ⟨name, ts, rfl, hn⟩
  · exact ⟨[opening], ts, rfl, .inr ⟨_, fault, .first ho, h⟩⟩
  simp only [Wanted.orKind, Wanted.kind, Bool.or_eq_true, beq_iff_eq] at hn
  rcases hn with hn | hc
  · obtain ⟨us, rest, eq, ⟨n, hp, after⟩ | ⟨w, fault, hw, h⟩⟩ := param_decided hn ts
    · rcases more_decided rest with ⟨vs, closing, rest, ns, rfl, hm, hr⟩ |
        ⟨vs, rest, w, fault, rfl, hm, h⟩ | ⟨fault, h⟩
      · exact ⟨opening :: (name :: us ++ (vs ++ [closing])), rest, by simp [eq],
          .inl ⟨_, .some ho hp hm hr⟩⟩
      · exact ⟨opening :: (name :: us ++ vs), rest, by simp [eq],
          .inr ⟨w, fault, .more ho hp hm, h⟩⟩
      · obtain ⟨w, hw, h⟩ := after fault h
        exact ⟨opening :: name :: us, rest, by simp [eq], .inr ⟨w, fault, .param ho hw nofun, h⟩⟩
    · exact ⟨opening :: name :: us, rest, by simp [eq], .inr ⟨w, fault, .param ho hw nofun, h⟩⟩
  · exact ⟨[opening, name], ts, rfl, .inl ⟨_, .none ho hc⟩⟩

/-! ## Declarations, members and blocks -/

theorem Awaits.eq_start {phrase : Phrase} {w : Wanted} (h : Awaits phrase [] w) :
    w = phrase.start := by
  cases h <;> rfl

/-- Lists of fewer than `k` tokens are decided for every phrase. -/
def DecidedBelow (k : Nat) : Prop :=
  ∀ (phrase : Phrase) (us : List Token), us.length < k →
    Decided (fun vs => ∃ n, Derives phrase vs n) (Awaits phrase) us

variable {k : Nat}

/-- Whole parts as far as they go, and then something that no part begins with, or a place within
the next part. -/
theorem parts_decided (below : DecidedBelow k) (phrase : Phrase) (hs : phrase.start.final = false)
    (lt : ts.length < k) :
    ∃ (parts : List Part) (rest : List Token), (∀ p ∈ parts, Derives phrase p.tokens p.tree) ∧
      ts = parts.flatMap Part.tokens ++ rest ∧
      ((∃ fault, phrase.start.Refuses fault rest) ∨ ∃ us vs w fault, rest = us ++ vs ∧ us ≠ [] ∧
        Awaits phrase us w ∧ w.Refuses fault vs) := by
  -- A whole part is not empty, so the list after it is shorter.
  induction len : ts.length using Nat.strongRecOn generalizing ts with
  | ind n ih =>
      rcases phrase.start.refuses_or_admits hs ts with h | ⟨t, us, rfl, ht⟩
      · exact ⟨[], ts, by simp, rfl, .inl h⟩
      obtain ⟨first, rest, eq, ⟨m, hd⟩ | ⟨w, fault, hw, h⟩⟩ := below phrase (t :: us) lt
      · have := List.length_pos_iff.mpr hd.ne_nil
        have := congrArg List.length eq
        simp only [List.length_append] at this
        obtain ⟨parts, last, each, rfl, stop⟩ := ih rest.length (by omega) (by omega) rfl
        exact ⟨⟨first, m⟩ :: parts, last, by simpa using ⟨hd, each⟩, by simp [eq], stop⟩
      · refine ⟨[], t :: us, by simp, rfl, .inr ⟨first, rest, w, fault, eq, ?_, hw, h⟩⟩
        -- What a part begins with has come already, so the part has been begun.
        rintro rfl
        cases hw.eq_start
        rw [List.nil_append] at eq
        rw [← eq] at h
        exact absurd h.1 (by simp [ht])

/-- The parts of a block or class with the closing brace, or a place before it. -/
theorem body_decided (below : DecidedBelow k) (phrase : Phrase) (hs : phrase.start.final = false)
    (lt : ts.length < k) :
    ∃ (parts : List Part) (rest : List Token), (∀ p ∈ parts, Derives phrase p.tokens p.tree) ∧
      ts = parts.flatMap Part.tokens ++ rest ∧
      ((∃ closing us, rest = closing :: us ∧ closing.kind = .rightBrace) ∨
        (∃ fault, (phrase.start.orKind .rightBrace).Refuses fault rest) ∨
        ∃ us vs w fault, rest = us ++ vs ∧ us ≠ [] ∧ Awaits phrase us w ∧ w.Refuses fault vs) := by
  obtain ⟨parts, rest, each, rfl, ⟨fault, h⟩ | inside⟩ := parts_decided below phrase hs lt
  · refine ⟨parts, rest, each, rfl, ?_⟩
    cases rest with
    | nil => exact .inr (.inl ⟨fault, h⟩)
    | cons closing us =>
        by_cases hc : closing.kind = .rightBrace
        · exact .inl ⟨closing, us, rfl, hc⟩
        · exact .inr (.inl ⟨fault, Bool.or_eq_false_iff.mpr ⟨h.1, by simpa using hc⟩, h.2⟩)
  · exact ⟨parts, rest, each, rfl, .inr (.inr inside)⟩

/-- Arguments and a block, or a place within one of them. -/
theorem callable_decided (below : DecidedBelow k) (lt : ts.length < k) :
    (∃ us vs rest a b, ts = us ++ vs ++ rest ∧ Args us a ∧ Derives .block vs b) ∨
      (∃ us rest w fault, ts = us ++ rest ∧ AwaitsArgs us w ∧ w.Refuses fault rest) ∨
      ∃ us vs rest a w fault, ts = us ++ vs ++ rest ∧ Args us a ∧ Awaits .block vs w ∧
        w.Refuses fault rest := by
  obtain ⟨us, rest, rfl, ⟨a, ha⟩ | ⟨w, fault, hw, h⟩⟩ := args_decided ts
  · simp only [List.length_append] at lt
    obtain ⟨vs, rest, rfl, ⟨b, hb⟩ | ⟨w, fault, hw, h⟩⟩ := below .block rest (by omega)
    · exact .inl ⟨us, vs, rest, a, b, by simp, ha, hb⟩
    · exact .inr (.inr ⟨us, vs, rest, a, w, fault, by simp, ha, hw, h⟩)
  · exact .inr (.inl ⟨us, rest, w, fault, rfl, hw, h⟩)

theorem function_decided (below : DecidedBelow k) (lt : ts.length < k) (ht : t.Spells "function") :
    Decided (fun us => ∃ n, Derives .declaration us n) (Awaits .declaration) (t :: ts) := by
  rcases refuses_or_kind .word ts with ⟨fault, h⟩ | ⟨name, ts, rfl, hn⟩
  · exact ⟨[t], ts, rfl, .inr ⟨_, fault, .functionName ht, h⟩⟩
  rcases callable_decided below (Nat.lt_of_succ_lt lt) with
    ⟨us, vs, rest, a, b, rfl, ha, hb⟩ | ⟨us, rest, w, fault, rfl, hw, h⟩ |
    ⟨us, vs, rest, a, w, fault, rfl, ha, hw, h⟩
  · exact ⟨t :: name :: (us ++ vs), rest, rfl, .inl ⟨_, .funcDeclaration ht hn ha hb⟩⟩
  · exact ⟨t :: name :: us, rest, rfl, .inr ⟨w, fault, .functionArgs ht hn hw, h⟩⟩
  · exact ⟨t :: name :: (us ++ vs), rest, rfl, .inr ⟨w, fault, .functionBlock ht hn ha hw, h⟩⟩

theorem class_decided (below : DecidedBelow k) (lt : ts.length < k) (ht : t.Spells "class") :
    Decided (fun us => ∃ n, Derives .declaration us n) (Awaits .declaration) (t :: ts) := by
  rcases refuses_or_kind .word ts with ⟨fault, h⟩ | ⟨name, ts, rfl, hn⟩
  · exact ⟨[t], ts, rfl, .inr ⟨_, fault, .className ht, h⟩⟩
  rcases refuses_or_kind .leftBrace ts with ⟨fault, h⟩ | ⟨opening, ts, rfl, ho⟩
  · exact ⟨[t, name], ts, rfl, .inr ⟨_, fault, .classOpening ht hn, h⟩⟩
  simp only [List.length_cons] at lt
  obtain ⟨parts, rest, each, rfl, ⟨closing, us, rfl, hc⟩ | ⟨fault, h⟩ |
    ⟨us, vs, w, fault, rfl, ne, hw, h⟩⟩ :=
    body_decided below .member rfl (show ts.length < k by omega)
  · exact ⟨t :: name :: opening :: (parts.flatMap Part.tokens ++ [closing]), us, by simp,
      .inl ⟨_, .classDeclaration ht hn ho each hc⟩⟩
  · exact ⟨t :: name :: opening :: parts.flatMap Part.tokens, rest, rfl,
      .inr ⟨_, fault, .classNext ht hn ho each, h⟩⟩
  · exact ⟨t :: name :: opening :: (parts.flatMap Part.tokens ++ us), vs, by simp,
      .inr ⟨w, fault, .classMember ht hn ho each hw ne, h⟩⟩

theorem declaration_decided (below : DecidedBelow k) (le : ts.length ≤ k) :
    Decided (fun us => ∃ n, Derives .declaration us n) (Awaits .declaration) ts := by
  rcases Wanted.keyword.refuses_or_admits rfl ts with ⟨fault, h⟩ | ⟨t, ts, rfl, ht⟩
  · exact ⟨[], ts, rfl, .inr ⟨_, fault, .keyword, h⟩⟩
  simp only [Wanted.keyword, Bool.or_eq_true, isBindingWord_iff, isWord_iff] at ht
  rcases ht with (ht | ht) | ht
  · obtain ⟨us, rest, rfl, ⟨name, v, hb⟩ | ⟨w, fault, hw, h⟩⟩ := binding_decided ts
    · exact ⟨t :: us, rest, rfl, .inl ⟨_, .varDeclaration ht hb⟩⟩
    · exact ⟨t :: us, rest, rfl, .inr ⟨w, fault, .binding ht hw, h⟩⟩
  · exact function_decided below le ht
  · exact class_decided below le ht

theorem member_decided (below : DecidedBelow k) (le : ts.length ≤ k) :
    Decided (fun us => ∃ n, Derives .member us n) (Awaits .member) ts := by
  rcases Wanted.member.refuses_or_admits rfl ts with ⟨fault, h⟩ | ⟨t, ts, rfl, ht⟩
  · exact ⟨[], ts, rfl, .inr ⟨_, fault, .member, h⟩⟩
  simp only [Wanted.member, Bool.or_eq_true, beq_iff_eq] at ht
  rcases ht with ht | ht
  · obtain ⟨us, rest, rfl, ⟨name, v, hb⟩ | ⟨w, fault, hw, h⟩⟩ := binding_decided ts
    · exact ⟨t :: us, rest, rfl, .inl ⟨_, .privateField ht hb⟩⟩
    · exact ⟨t :: us, rest, rfl, .inr ⟨w, fault, .privateField ht hw, h⟩⟩
  · rcases callable_decided below le with
      ⟨us, vs, rest, a, b, rfl, ha, hb⟩ | ⟨us, rest, w, fault, rfl, hw, h⟩ |
      ⟨us, vs, rest, a, w, fault, rfl, ha, hw, h⟩
    · exact ⟨t :: (us ++ vs), rest, rfl, .inl ⟨_, .method ht ha hb⟩⟩
    · exact ⟨t :: us, rest, rfl, .inr ⟨w, fault, .methodArgs ht hw, h⟩⟩
    · exact ⟨t :: (us ++ vs), rest, rfl, .inr ⟨w, fault, .methodBlock ht ha hw, h⟩⟩

theorem block_decided (below : DecidedBelow k) (le : ts.length ≤ k) :
    Decided (fun us => ∃ n, Derives .block us n) (Awaits .block) ts := by
  rcases refuses_or_kind .leftBrace ts with ⟨fault, h⟩ | ⟨opening, ts, rfl, ho⟩
  · exact ⟨[], ts, rfl, .inr ⟨_, fault, .opening, h⟩⟩
  obtain ⟨parts, rest, each, rfl, ⟨closing, us, rfl, hc⟩ | ⟨fault, h⟩ |
    ⟨us, vs, w, fault, rfl, ne, hw, h⟩⟩ := body_decided below .declaration rfl le
  · exact ⟨opening :: (parts.flatMap Part.tokens ++ [closing]), us, by simp,
      .inl ⟨_, .block ho each hc⟩⟩
  · exact ⟨opening :: parts.flatMap Part.tokens, rest, rfl,
      .inr ⟨_, fault, .blockNext ho each, h⟩⟩
  · exact ⟨opening :: (parts.flatMap Part.tokens ++ us), vs, by simp,
      .inr ⟨w, fault, .blockDeclaration ho each hw ne, h⟩⟩

theorem decidedBelow (k : Nat) : DecidedBelow k := by
  induction k with
  | zero => exact fun _ _ lt => absurd lt (Nat.not_lt_zero _)
  | succ k ih =>
      intro phrase us lt
      have le := Nat.le_of_lt_succ lt
      cases phrase with
      | declaration => exact declaration_decided ih le
      | member => exact member_decided ih le
      | block => exact block_decided ih le

/-- A list of tokens without a tree has a first place at which nothing that is wanted comes next. -/
theorem root_decided (ne : ts ≠ []) :
    (∃ n, Root ts n) ∨
      ∃ us rest w fault, ts = us ++ rest ∧ AwaitsRoot us w ∧ w.Refuses fault rest := by
  obtain ⟨parts, rest, each, rfl, ⟨fault, h⟩ | ⟨us, vs, w, fault, rfl, ne, hw, h⟩⟩ :=
    parts_decided (decidedBelow _) .declaration rfl (Nat.lt_succ_self ts.length)
  · cases rest with
    | nil =>
        refine .inl ⟨.plain .root (parts.map Part.tree), ?_⟩
        rw [List.append_nil] at ne ⊢
        exact .mk (by rintro rfl; exact ne rfl) each
    | cons t rest => exact .inr ⟨_, t :: rest, _, fault, rfl, .next each, h⟩
  · exact .inr ⟨parts.flatMap Part.tokens ++ us, vs, w, fault, by simp, .declaration each hw ne, h⟩

end LittleLang.Decl.Syntax
