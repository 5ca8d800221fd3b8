import LittleLang.Proofs.Print.Legible
import LittleLang.Proofs.Print.Literal
import LittleLang.Proofs.Spelling.Lemmas.Recovery

/-!
# First lines are told apart

What stands on one line of a printed text can be told from the text, together with the bytes that
come after it.
-/

namespace LittleLang.Decl

open Printer Syntax

variable {r s : List UInt8} {v w : Node}

/-! ## Runs -/

/-- No run goes on with these bytes. -/
def Stops (r : List UInt8) : Prop := ∀ b ∈ r.head?, ByteClass.alphanumeric.contains b = false

theorem stops_cons {b : UInt8} (hb : ByteClass.alphanumeric.contains b = false) (r : List UInt8) :
    Stops (b :: r) := by
  rintro c ⟨⟩
  exact hb

theorem run_cancel {bs cs : List UInt8} (hb : ∀ b ∈ bs, ByteClass.alphanumeric.contains b = true)
    (hc : ∀ c ∈ cs, ByteClass.alphanumeric.contains c = true) (hr : Stops r) (hs : Stops s)
    (same : bs ++ r = cs ++ s) : bs = cs ∧ r = s := by
  obtain ⟨taken, dropped⟩ := takeWhile_run hb hr
  obtain ⟨taken', dropped'⟩ := takeWhile_run hc hs
  rw [same] at taken dropped
  exact ⟨taken.symm.trans taken', dropped.symm.trans dropped'⟩

theorem name_cancel {t u : Token} (ht : t.IsName) (hu : u.IsName) (hr : Stops r) (hs : Stops s)
    (same : t.value ++ r = u.value ++ s) : t.unplaced = u.unplaced ∧ r = s := by
  obtain ⟨kind, -, run⟩ := ht
  obtain ⟨kind', -, run'⟩ := hu
  obtain ⟨value, rest⟩ := run_cancel run run' hr hs same
  exact ⟨Token.unplaced_eq (kind.trans kind'.symm) value, rest⟩

theorem alphanumeric_of_digit {b : UInt8} (hb : ByteClass.digits.contains b = true) :
    ByteClass.alphanumeric.contains b = true :=
  ByteClass.contains_alphanumeric.mpr (.inr hb)

/-! ## Values -/

/-- The kind of the literal that begins with the byte. -/
def literalKindOf (b : UInt8) : NodeKind :=
  if ByteClass.digits.contains b then .numberLiteral
  else if b = 0x22 then .stringLiteral else .boolLiteral

theorem literalText_string_append (t : Token) (r : List UInt8) :
    literalText (.named .stringLiteral t []) ++ r =
      0x22 :: (t.value.flatMap escapeByte ++ 0x22 :: r) := by
  have quote : ascii "\"" = [0x22] := by decide
  have bytes : escaped = escapeByte := rfl
  simp [quote, bytes]

theorem boolText_cases (t : Token) : literalText (.named .boolLiteral t []) = ascii "True" ∨
    literalText (.named .boolLiteral t []) = ascii "False" := by
  rw [literalText_bool]
  split <;> simp

theorem boolText_run (t : Token) : ∀ b ∈ literalText (.named .boolLiteral t []),
    ByteClass.alphanumeric.contains b = true := by
  rcases boolText_cases t with h | h
  · rw [h]
    exact List.all_eq_true.mp (by decide)
  · rw [h]
    exact List.all_eq_true.mp (by decide)

theorem LegibleValue.begins (h : LegibleValue v) (r : List UInt8) :
    ∃ b bs, literalText v ++ r = b :: bs ∧ v.kind = literalKindOf b := by
  cases h with
  | @number t ht ne digits =>
      obtain ⟨b, bs, spelled⟩ := List.exists_cons_of_ne_nil ne
      have hb := digits b (by simp [spelled])
      refine ⟨b, bs ++ r, ?_, ?_⟩
      · rw [literalText_number, spelled, List.cons_append]
      · rw [literalKindOf, if_pos hb]
        rfl
  | @string t ht free plain => exact ⟨_, _, literalText_string_append t r, rfl⟩
  | @boolean t ht =>
      rcases boolText_cases t with text | text
      · rw [text]
        exact ⟨_, _, rfl, rfl⟩
      · rw [text]
        exact ⟨_, _, rfl, rfl⟩

theorem keepsBackslashes_of_plain {bs : List UInt8} (plain : 0x5C ∉ bs) : KeepsBackslashes bs := by
  induction bs with
  | nil => trivial
  | cons b bs ih =>
      simp only [List.mem_cons, not_or] at plain
      exact ⟨fun hb => absurd hb.symm plain.1, ih plain.2⟩

theorem bool_cancel {t u : Token} (ht : t.Spells "true" ∨ t.Spells "false")
    (hu : u.Spells "true" ∨ u.Spells "false")
    (same : literalText (.named .boolLiteral t []) = literalText (.named .boolLiteral u [])) :
    t.unplaced = u.unplaced := by
  rw [literalText_bool, literalText_bool] at same
  rcases ht with ht | ht
  · rcases hu with hu | hu
    · exact Token.unplaced_eq (ht.1.trans hu.1.symm) (ht.2.trans hu.2.symm)
    · rw [ht.2, hu.2] at same
      exact absurd same (by decide)
  · rcases hu with hu | hu
    · rw [ht.2, hu.2] at same
      exact absurd same (by decide)
    · exact Token.unplaced_eq (ht.1.trans hu.1.symm) (ht.2.trans hu.2.symm)

theorem value_cancel (h : LegibleValue v) (h' : LegibleValue w) (hr : Stops r) (hs : Stops s)
    (same : literalText v ++ r = literalText w ++ s) : v.unplaced = w.unplaced ∧ r = s := by
  have kinds : v.kind = w.kind := by
    obtain ⟨b, bs, text, kind⟩ := h.begins r
    obtain ⟨c, cs, text', kind'⟩ := h'.begins s
    rw [same, text'] at text
    cases text
    exact kind.trans kind'.symm
  cases h with
  | @number t ht ne digits =>
      cases h' with
      | @number u hu ne' digits' =>
          obtain ⟨value, rest⟩ := run_cancel (fun b hb => alphanumeric_of_digit (digits b hb))
            (fun b hb => alphanumeric_of_digit (digits' b hb)) hr hs same
          simp [Token.unplaced_eq (ht.trans hu.symm) value, rest]
      | string => cases kinds
      | boolean => cases kinds
  | @string t ht free plain =>
      cases h' with
      | number => cases kinds
      | @string u hu free' plain' =>
          rw [literalText_string_append, literalText_string_append] at same
          have read := readInside_escaped free (keepsBackslashes_of_plain plain) r
          have read' := readInside_escaped free' (keepsBackslashes_of_plain plain') s
          rw [List.tail_eq_of_cons_eq same, read'] at read
          simp only [Option.some.injEq, Prod.mk.injEq] at read
          obtain ⟨value, rest⟩ := read
          simp [Token.unplaced_eq (ht.trans hu.symm) value.symm, rest]
      | boolean => cases kinds
  | @boolean t ht =>
      cases h' with
      | number => cases kinds
      | string => cases kinds
      | @boolean u hu =>
          obtain ⟨text, rest⟩ := run_cancel (boolText_run t) (boolText_run u) hr hs same
          simp [bool_cancel ht hu text, rest]

/-! ## Parameters -/

/-- A comma or a closing bracket comes next. -/
def ParamEnds (r : List UInt8) : Prop := ∃ b rest, r = b :: rest ∧ (b = 0x2C ∨ b = 0x29)

theorem ParamEnds.stops (h : ParamEnds r) : Stops r := by
  obtain ⟨b, rest, rfl, rfl | rfl⟩ := h
  · exact stops_cons rfl rest
  · exact stops_cons rfl rest

theorem paramText_bare_append (name : Token) (r : List UInt8) :
    paramText (.named .param name []) ++ r = name.value ++ r := rfl

theorem paramText_default_append (name : Token) (v : Node) (r : List UInt8) :
    paramText (.named .param name [v]) ++ r = name.value ++ 0x3D :: (literalText v ++ r) := by
  have mark : ascii "=" = [0x3D] := by decide
  have text : paramText (.named .param name [v]) = name.value ++ ascii "=" ++ literalText v := rfl
  simp [text, mark]

theorem LegibleParam.cancel {p q : Node} (h : LegibleParam p) (h' : LegibleParam q)
    (hr : ParamEnds r) (hs : ParamEnds s) (same : paramText p ++ r = paramText q ++ s) :
    p.unplaced = q.unplaced ∧ r = s := by
  have marks (x : List UInt8) : Stops (0x3D :: x) := stops_cons rfl x
  cases h with
  | @bare name hn =>
      cases h' with
      | @bare name' hn' =>
          obtain ⟨named, rest⟩ := name_cancel hn hn' hr.stops hs.stops same
          simp [named, rest]
      | @withDefault name' v hn' hv' =>
          rw [paramText_bare_append, paramText_default_append] at same
          obtain ⟨-, rest⟩ := name_cancel hn hn' hr.stops (marks _) same
          obtain ⟨b, bs, rfl, rfl | rfl⟩ := hr <;> cases rest
  | @withDefault name v hn hv =>
      rw [paramText_default_append] at same
      cases h' with
      | @bare name' hn' =>
          rw [paramText_bare_append] at same
          obtain ⟨-, rest⟩ := name_cancel hn hn' (marks _) hs.stops same
          obtain ⟨b, bs, rfl, rfl | rfl⟩ := hs <;> cases rest
      | @withDefault name' v' hn' hv' =>
          rw [paramText_default_append] at same
          obtain ⟨named, rest⟩ := name_cancel hn hn' (marks _) (marks _) same
          obtain ⟨value, rest⟩ :=
            value_cancel hv hv' hr.stops hs.stops (List.tail_eq_of_cons_eq rest)
          simp [named, value, rest]

theorem intercalate_cons_eq (sep text : List UInt8) (texts : List (List UInt8)) :
    sep.intercalate (text :: texts) = text ++ texts.flatMap (sep ++ ·) := by
  induction texts generalizing text with
  | nil => simp
  | cons next texts ih => simp [List.intercalate_cons_cons, ih, List.append_assoc]

/-- The parameters after others, with the closing bracket and what comes after it. -/
def moreParams (ps : List Node) (r : List UInt8) : List UInt8 :=
  ps.flatMap (fun p => ascii ", " ++ paramText p) ++ 0x29 :: r

theorem moreParams_nil (r : List UInt8) : moreParams [] r = 0x29 :: r := rfl

theorem moreParams_cons (p : Node) (ps : List Node) (r : List UInt8) :
    moreParams (p :: ps) r = 0x2C :: 0x20 :: (paramText p ++ moreParams ps r) := by
  have mark : ascii ", " = [0x2C, 0x20] := by decide
  simp [moreParams, mark]

theorem paramEnds_moreParams (ps : List Node) (r : List UInt8) : ParamEnds (moreParams ps r) := by
  cases ps with
  | nil => exact ⟨_, _, moreParams_nil r, .inr rfl⟩
  | cons p ps => exact ⟨_, _, moreParams_cons p ps r, .inl rfl⟩

theorem moreParams_cancel {ps qs : List Node} (hp : ∀ p ∈ ps, LegibleParam p)
    (hq : ∀ q ∈ qs, LegibleParam q) (same : moreParams ps r = moreParams qs s) :
    ps.map Node.unplaced = qs.map Node.unplaced ∧ r = s := by
  induction ps generalizing qs with
  | nil =>
      rw [moreParams_nil] at same
      cases qs with
      | nil =>
          cases same
          exact ⟨rfl, rfl⟩
      | cons q qs =>
          rw [moreParams_cons] at same
          cases same
  | cons p ps ih =>
      rw [moreParams_cons] at same
      cases qs with
      | nil => cases same
      | cons q qs =>
          rw [moreParams_cons] at same
          obtain ⟨first, others⟩ := List.forall_mem_cons.mp hp
          obtain ⟨first', others'⟩ := List.forall_mem_cons.mp hq
          have texts := List.tail_eq_of_cons_eq (List.tail_eq_of_cons_eq same)
          obtain ⟨param, rest⟩ := first.cancel first' (paramEnds_moreParams ps r)
            (paramEnds_moreParams qs s) texts
          obtain ⟨params, rest⟩ := ih others others' rest
          exact ⟨by rw [List.map_cons, List.map_cons, param, params], rest⟩

theorem LegibleParam.begins {p : Node} (h : LegibleParam p) (r : List UInt8) :
    ∃ b bs, paramText p ++ r = b :: bs ∧ ByteClass.alphanumeric.contains b = true := by
  have name_begins {name : Token} (hn : name.IsName) (x : List UInt8) :
      ∃ b bs, name.value ++ x = b :: bs ∧ ByteClass.alphanumeric.contains b = true := by
    obtain ⟨-, ne, run⟩ := hn
    obtain ⟨b, bs, spelled⟩ := List.exists_cons_of_ne_nil ne
    exact ⟨b, bs ++ x, by rw [spelled, List.cons_append], run b (by simp [spelled])⟩
  cases h with
  | bare hn => exact name_begins hn r
  | withDefault hn hv =>
      rw [paramText_default_append]
      exact name_begins hn _

/-- The parameters of a function, with the closing bracket and what comes after it. -/
def paramList (ps : List Node) (r : List UInt8) : List UInt8 :=
  (ascii ", ").intercalate (ps.map paramText) ++ 0x29 :: r

theorem paramList_cons (p : Node) (ps : List Node) (r : List UInt8) :
    paramList (p :: ps) r = paramText p ++ moreParams ps r := by
  rw [paramList, List.map_cons, intercalate_cons_eq, List.flatMap_map, List.append_assoc]
  rfl

theorem paramList_cons_ne {p : Node} (h : LegibleParam p) (ps : List Node) :
    paramList (p :: ps) r ≠ paramList [] s := by
  intro same
  obtain ⟨b, bs, text, run⟩ := h.begins (moreParams ps r)
  rw [paramList_cons, text] at same
  cases same
  cases run

theorem paramList_cancel {ps qs : List Node} (hp : ∀ p ∈ ps, LegibleParam p)
    (hq : ∀ q ∈ qs, LegibleParam q) (same : paramList ps r = paramList qs s) :
    ps.map Node.unplaced = qs.map Node.unplaced ∧ r = s := by
  cases ps with
  | nil =>
      cases qs with
      | nil =>
          cases same
          exact ⟨rfl, rfl⟩
      | cons q qs => exact absurd same.symm (paramList_cons_ne (hq q (by simp)) qs)
  | cons p ps =>
      cases qs with
      | nil => exact absurd same (paramList_cons_ne (hp p (by simp)) ps)
      | cons q qs =>
          rw [paramList_cons, paramList_cons] at same
          obtain ⟨first, others⟩ := List.forall_mem_cons.mp hp
          obtain ⟨first', others'⟩ := List.forall_mem_cons.mp hq
          obtain ⟨param, rest⟩ := first.cancel first' (paramEnds_moreParams ps r)
            (paramEnds_moreParams qs s) same
          obtain ⟨params, rest⟩ := moreParams_cancel others others' rest
          exact ⟨by rw [List.map_cons, List.map_cons, param, params], rest⟩

/-! ## Lines -/

variable {name name' : Token} {ps qs : List Node}

theorem bindingText_append (name : Token) (v : Node) (r : List UInt8) :
    bindingText name v ++ r = name.value ++ 0x20 :: 0x3D :: 0x20 :: (literalText v ++ r) := by
  have mark : ascii " = " = [0x20, 0x3D, 0x20] := by decide
  simp [bindingText, mark]

theorem signature_append (name : Token) (texts : List (List UInt8)) (r : List UInt8) :
    signature name texts ++ r = ascii "def" ++ 0x20 :: (name.value ++
      0x28 :: ((ascii ", ").intercalate texts ++ 0x29 :: 0x3A :: r)) := by
  have word : ascii "def " = ascii "def" ++ [0x20] := by decide
  have opening : ascii "(" = [0x28] := by decide
  have closing : ascii "):" = [0x29, 0x3A] := by decide
  simp [signature, word, opening, closing]

theorem classHeader_append (name : Token) (r : List UInt8) :
    classHeader name ++ r = ascii "class" ++ 0x20 :: (name.value ++ 0x3A :: r) := by
  have word : ascii "class " = ascii "class" ++ [0x20] := by decide
  have colon : ascii ":" = [0x3A] := by decide
  simp [classHeader, word, colon]

theorem binding_cancel (hn : name.IsName) (hn' : name'.IsName) (hv : LegibleValue v)
    (hw : LegibleValue w)
    (same : bindingText name v ++ 0x0A :: r = bindingText name' w ++ 0x0A :: s) :
    name.unplaced = name'.unplaced ∧ v.unplaced = w.unplaced ∧ r = s := by
  rw [bindingText_append, bindingText_append] at same
  obtain ⟨named, rest⟩ := name_cancel hn hn' (stops_cons rfl _) (stops_cons rfl _) same
  simp only [List.cons.injEq, true_and] at rest
  obtain ⟨value, rest⟩ := value_cancel hv hw (stops_cons rfl _) (stops_cons rfl _) rest
  exact ⟨named, value, List.tail_eq_of_cons_eq rest⟩

theorem classHeader_cancel (hn : name.IsName) (hn' : name'.IsName)
    (same : classHeader name ++ r = classHeader name' ++ s) :
    name.unplaced = name'.unplaced ∧ r = s := by
  rw [classHeader_append, classHeader_append] at same
  have names := List.tail_eq_of_cons_eq (List.append_cancel_left same)
  obtain ⟨named, rest⟩ := name_cancel hn hn' (stops_cons rfl _) (stops_cons rfl _) names
  exact ⟨named, List.tail_eq_of_cons_eq rest⟩

theorem signature_cancel {texts texts' : List (List UInt8)} (hn : name.IsName)
    (hn' : name'.IsName) (same : signature name texts ++ r = signature name' texts' ++ s) :
    name.unplaced = name'.unplaced ∧
      (ascii ", ").intercalate texts ++ 0x29 :: 0x3A :: r =
        (ascii ", ").intercalate texts' ++ 0x29 :: 0x3A :: s := by
  rw [signature_append, signature_append] at same
  have names := List.tail_eq_of_cons_eq (List.append_cancel_left same)
  obtain ⟨named, rest⟩ := name_cancel hn hn' (stops_cons rfl _) (stops_cons rfl _) names
  exact ⟨named, List.tail_eq_of_cons_eq rest⟩

theorem function_cancel (hn : name.IsName) (hn' : name'.IsName) (hp : ∀ p ∈ ps, LegibleParam p)
    (hq : ∀ q ∈ qs, LegibleParam q)
    (same : signature name (ps.map paramText) ++ r = signature name' (qs.map paramText) ++ s) :
    name.unplaced = name'.unplaced ∧ ps.map Node.unplaced = qs.map Node.unplaced ∧ r = s := by
  obtain ⟨named, rest⟩ := signature_cancel hn hn' same
  obtain ⟨params, rest⟩ := paramList_cancel hp hq rest
  exact ⟨named, params, List.tail_eq_of_cons_eq rest⟩

theorem method_cancel (hn : name.IsName) (hn' : name'.IsName) (hp : ∀ p ∈ ps, LegibleParam p)
    (hq : ∀ q ∈ qs, LegibleParam q)
    (same : signature name (ascii "self" :: ps.map paramText) ++ r =
      signature name' (ascii "self" :: qs.map paramText) ++ s) :
    name.unplaced = name'.unplaced ∧ ps.map Node.unplaced = qs.map Node.unplaced ∧ r = s := by
  have receiver (ps : List Node) (r : List UInt8) :
      (ascii ", ").intercalate (ascii "self" :: ps.map paramText) ++ 0x29 :: r =
        ascii "self" ++ moreParams ps r := by
    rw [intercalate_cons_eq, List.flatMap_map, List.append_assoc]
    rfl
  obtain ⟨named, rest⟩ := signature_cancel hn hn' same
  rw [receiver, receiver] at rest
  obtain ⟨params, rest⟩ := moreParams_cancel hp hq (List.append_cancel_left rest)
  exact ⟨named, params, List.tail_eq_of_cons_eq rest⟩

/-! ## What a line is -/

/-- What a line of a program can be. -/
inductive LineKind where
  | binding
  | callable
  | classHeader
  | other

/-- What a line is, by the first bytes that belong to no run. -/
def lineKind (text : List UInt8) : LineKind :=
  match text.dropWhile ByteClass.alphanumeric.contains with
  | 0x20 :: 0x3D :: _ => .binding
  | 0x20 :: _ => if text.head? = some 0x64 then .callable else .classHeader
  | _ => .other

theorem lineKind_binding {run : List UInt8}
    (h : ∀ b ∈ run, ByteClass.alphanumeric.contains b = true) (r : List UInt8) :
    lineKind (run ++ 0x20 :: 0x3D :: r) = .binding := by
  rw [lineKind, (takeWhile_run h (stops_cons rfl _)).2]
  rfl

theorem lineKind_header {word : List UInt8}
    (h : ∀ b ∈ word, ByteClass.alphanumeric.contains b = true) (hn : name.IsName)
    (r : List UInt8) : lineKind (word ++ 0x20 :: (name.value ++ r)) =
      if (word ++ 0x20 :: (name.value ++ r)).head? = some 0x64 then .callable else .classHeader := by
  obtain ⟨-, ne, run⟩ := hn
  obtain ⟨b, bs, spelled⟩ := List.exists_cons_of_ne_nil ne
  have hb := run b (by simp [spelled])
  have other : b ≠ 0x3D := by
    rintro rfl
    cases hb
  rw [lineKind, (takeWhile_run h (stops_cons rfl _)).2, spelled]
  simp [other]

end LittleLang.Decl
