import LittleLang.Proofs.Syntax.Lemmas.Decision

/-!
# Every unfinished phrase can be finished
-/

namespace LittleLang.Decl.Syntax

variable {t : Token} {ts : List Token} {w : Wanted}

/-! ## Some phrase of each sort -/

def sample (kind : TokenKind) : Token := ⟨kind, [], 1, 1⟩

theorem exists_binding : ∃ ts name v, Binding ts name v :=
  ⟨[sample .word, sample .eql, sample .num], _, _, .mk rfl rfl (.number rfl)⟩

theorem exists_args : ∃ ts a, Args ts a :=
  ⟨[sample .leftPrt, sample .rightPrt], _, .none rfl rfl⟩

theorem exists_block : ∃ ts b, Derives .block ts b :=
  ⟨[sample .leftBrace, sample .rightBrace], _, @Derives.block _ _ [] rfl (by simp) rfl⟩

/-! ## Completions -/

/-- Every token that is wanted leads on to something whole. -/
def Completes (whole : List Token → Prop) (ts : List Token) (w : Wanted) : Prop :=
  ∀ t, w.admits t = true → ∃ more, whole (ts ++ t :: more)

theorem Completes.within {whole outer : List Token → Prop} (h : Completes whole ts w)
    {b a : List Token} (step : ∀ us, whole us → outer (b ++ us ++ a)) :
    Completes outer (b ++ ts) w := by
  intro t ht
  obtain ⟨more, hm⟩ := h t ht
  exact ⟨more ++ a, by simpa using step _ hm⟩

theorem completes_kind {whole : List Token → Prop} {kind : TokenKind}
    (h : ∀ t : Token, t.kind = kind → ∃ more, whole (ts ++ t :: more)) :
    Completes whole ts (.kind kind) :=
  fun t ht => h t (by simpa [Wanted.kind] using ht)

theorem Completes.orKind {whole : List Token → Prop} {kind : TokenKind} (h : Completes whole ts w)
    (hk : Completes whole ts (.kind kind)) : Completes whole ts (w.orKind kind) := by
  intro t ht
  simp only [Wanted.orKind, Bool.or_eq_true] at ht
  rcases ht with ht | ht
  · exact h t ht
  · exact hk t ht

theorem AwaitsBinding.completes (h : AwaitsBinding ts w) :
    Completes (fun us => ∃ name v, Binding us name v) ts w := by
  cases h with
  | name => exact completes_kind fun t ht => ⟨[sample .eql, sample .num], _, _,
      .mk ht rfl (.number rfl)⟩
  | equals hn => exact completes_kind fun t ht => ⟨[sample .num], _, _, .mk hn ht (.number rfl)⟩
  | value hn he =>
      intro t ht
      obtain ⟨v, hv⟩ := exists_value ht
      exact ⟨[], _, v, .mk hn he hv⟩

/-- What is left of an argument list after a parameter. -/
def MoreTail (us : List Token) : Prop :=
  ∃ qs ns closing, us = qs ++ [closing] ∧ MoreParams qs ns ∧ closing.kind = .rightPrt

/-- What is left of an argument list before a parameter. -/
def ParamTail (us : List Token) : Prop :=
  ∃ ps n qs, us = ps ++ qs ∧ Param ps n ∧ MoreTail qs

theorem moreTail_closing {closing : Token} (h : closing.kind = .rightPrt) : MoreTail [closing] :=
  ⟨[], [], closing, rfl, .none, h⟩

theorem Param.completes {n} (h : Param ts n) : Completes ParamTail ts .afterParam := by
  refine Completes.orKind ?_ ?_
  · refine completes_kind fun comma hc => ⟨[sample .word, sample .rightPrt], ts, n, _, rfl, h, ?_⟩
    exact ⟨[comma, sample .word], _, sample .rightPrt, rfl, .next hc (.bare rfl) .none, rfl⟩
  · exact completes_kind fun closing hc => ⟨[], ts, n, _, rfl, h, moreTail_closing hc⟩

theorem AwaitsParam.completes (h : AwaitsParam ts w) : Completes ParamTail ts w := by
  cases h with
  | name => exact completes_kind fun t ht => ⟨[sample .rightPrt], [t], _, _, rfl, .bare ht,
      moreTail_closing rfl⟩
  | value hn he =>
      intro t ht
      obtain ⟨v, hv⟩ := exists_value ht
      exact ⟨[sample .rightPrt], _, _, [sample .rightPrt], rfl, .withDefault (.mk hn he hv),
        moreTail_closing rfl⟩
  | bare hn =>
      refine Completes.orKind (Param.bare hn).completes (completes_kind fun t ht => ?_)
      exact ⟨[sample .num, sample .rightPrt], _, _, [sample .rightPrt], rfl,
        .withDefault (.mk hn ht (.number rfl)), moreTail_closing rfl⟩
  | withDefault hb => exact (Param.withDefault hb).completes

theorem AwaitsMore.completes (h : AwaitsMore ts w) : Completes MoreTail ts w := by
  induction h with
  | @param comma ts w hc hp =>
      refine Completes.within (b := [comma]) (a := []) hp.completes ?_
      rintro us ⟨ps, n, qs, rfl, hp, rs, ns, closing, rfl, hm, hr⟩
      exact ⟨comma :: (ps ++ rs), n :: ns, closing, by simp, .next hc hp hm, hr⟩
  | @later comma ts n us w hc hp hm ih =>
      refine Completes.within (b := comma :: ts) (a := []) ih ?_
      rintro us ⟨qs, ns, closing, rfl, hm, hr⟩
      exact ⟨comma :: (ts ++ qs), n :: ns, closing, by simp, .next hc hp hm, hr⟩

theorem AwaitsArgs.completes (h : AwaitsArgs ts w) :
    Completes (fun us => ∃ n, Args us n) ts w := by
  cases h with
  | opening => exact completes_kind fun t ht => ⟨[sample .rightPrt], _, .none ht rfl⟩
  | first ho =>
      refine Completes.orKind ?_ (completes_kind fun closing hc => ⟨[], _, .none ho hc⟩)
      exact completes_kind fun name hn =>
        ⟨[sample .rightPrt], _, @Args.some _ _ _ _ _ (sample .rightPrt) ho (.bare hn) .none rfl⟩
  | @param opening ts w ho hp ne =>
      refine Completes.within (b := [opening]) (a := []) hp.completes ?_
      rintro us ⟨ps, n, qs, rfl, hp, rs, ns, closing, rfl, hm, hr⟩
      rw [List.append_nil]
      exact ⟨_, .some ho hp hm hr⟩
  | @more opening ts n us w ho hp hm =>
      refine Completes.within (b := opening :: ts) (a := []) hm.completes ?_
      rintro us ⟨qs, ns, closing, rfl, hm, hr⟩
      rw [List.append_nil]
      exact ⟨_, .some ho hp hm hr⟩

/-! ## Declarations, members and blocks -/

theorem completes_keyword : Completes (fun us => ∃ n, Derives .declaration us n) [] .keyword := by
  intro t ht
  simp only [Wanted.keyword, Bool.or_eq_true, isBindingWord_iff, isWord_iff] at ht
  obtain ⟨as, a, ha⟩ := exists_args
  obtain ⟨bs, b, hb⟩ := exists_block
  rcases ht with (ht | ht) | ht
  · obtain ⟨ts, name, v, hv⟩ := exists_binding
    exact ⟨ts, _, .varDeclaration ht hv⟩
  · exact ⟨sample .word :: (as ++ bs), _, .funcDeclaration ht rfl ha hb⟩
  · exact ⟨[sample .word, sample .leftBrace, sample .rightBrace], _,
      @Derives.classDeclaration _ _ _ (sample .rightBrace) [] ht rfl rfl (by simp) rfl⟩

theorem completes_member : Completes (fun us => ∃ n, Derives .member us n) [] .member := by
  intro t ht
  simp only [Wanted.member, Bool.or_eq_true, beq_iff_eq] at ht
  rcases ht with ht | ht
  · obtain ⟨ts, name, v, hv⟩ := exists_binding
    exact ⟨ts, _, .privateField ht hv⟩
  · obtain ⟨as, a, ha⟩ := exists_args
    obtain ⟨bs, b, hb⟩ := exists_block
    exact ⟨as ++ bs, _, .method ht ha hb⟩

theorem each_concat {phrase : Phrase} {parts : List Part} {n : Node}
    (h : ∀ p ∈ parts, Derives phrase p.tokens p.tree) (hd : Derives phrase ts n) :
    ∀ p ∈ parts ++ [⟨ts, n⟩], Derives phrase p.tokens p.tree := by
  intro p hp
  rcases List.mem_append.mp hp with hp | hp
  · exact h p hp
  · cases List.mem_singleton.mp hp
    exact hd

/-- A class is completed by completing the member that it ends in. -/
theorem completes_class {keyword name opening : Token} {parts : List Part}
    (hk : keyword.Spells "class") (hn : name.kind = .word) (ho : opening.kind = .leftBrace)
    (hm : ∀ p ∈ parts, Derives .member p.tokens p.tree)
    (h : Completes (fun us => ∃ n, Derives .member us n) ts w) :
    Completes (fun us => ∃ n, Derives .declaration us n)
      (keyword :: name :: opening :: (parts.flatMap Part.tokens ++ ts)) w := by
  refine Completes.within (b := keyword :: name :: opening :: parts.flatMap Part.tokens)
    (a := [sample .rightBrace]) h ?_
  rintro us ⟨n, hd⟩
  have whole := Derives.classDeclaration hk hn ho (each_concat hm hd)
    (show (sample .rightBrace).kind = .rightBrace from rfl)
  exact ⟨_, by simpa using whole⟩

/-- A block is completed by completing the declaration that it ends in. -/
theorem completes_block {opening : Token} {parts : List Part} (ho : opening.kind = .leftBrace)
    (hd : ∀ p ∈ parts, Derives .declaration p.tokens p.tree)
    (h : Completes (fun us => ∃ n, Derives .declaration us n) ts w) :
    Completes (fun us => ∃ n, Derives .block us n)
      (opening :: (parts.flatMap Part.tokens ++ ts)) w := by
  refine Completes.within (b := opening :: parts.flatMap Part.tokens)
    (a := [sample .rightBrace]) h ?_
  rintro us ⟨n, hn⟩
  have whole := Derives.block ho (each_concat hd hn)
    (show (sample .rightBrace).kind = .rightBrace from rfl)
  exact ⟨_, by simpa using whole⟩

theorem Awaits.completes {phrase : Phrase} (h : Awaits phrase ts w) :
    Completes (fun us => ∃ n, Derives phrase us n) ts w := by
  induction h with
  | keyword => exact completes_keyword
  | member => exact completes_member
  | opening =>
      exact completes_kind fun t ht =>
        ⟨[sample .rightBrace], _, @Derives.block _ (sample .rightBrace) [] ht (by simp) rfl⟩
  | @binding keyword ts w hk hb =>
      refine Completes.within (b := [keyword]) (a := []) hb.completes ?_
      rintro us ⟨name, v, hb⟩
      rw [List.append_nil]
      exact ⟨_, .varDeclaration hk hb⟩
  | functionName hk =>
      obtain ⟨as, a, ha⟩ := exists_args
      obtain ⟨bs, b, hb⟩ := exists_block
      exact completes_kind fun name hn => ⟨as ++ bs, _, .funcDeclaration hk hn ha hb⟩
  | @functionArgs keyword name ts w hk hn ha =>
      obtain ⟨bs, b, hb⟩ := exists_block
      refine Completes.within (b := [keyword, name]) (a := bs) ha.completes ?_
      rintro us ⟨a, ha⟩
      exact ⟨_, .funcDeclaration hk hn ha hb⟩
  | @functionBlock keyword name ts a us w hk hn ha hb ih =>
      refine Completes.within (b := keyword :: name :: ts) (a := []) ih ?_
      rintro us ⟨b, hb⟩
      rw [List.append_nil]
      exact ⟨_, .funcDeclaration hk hn ha hb⟩
  | className hk =>
      exact completes_kind fun name hn => ⟨[sample .leftBrace, sample .rightBrace], _,
        @Derives.classDeclaration _ _ _ (sample .rightBrace) [] hk hn rfl (by simp) rfl⟩
  | classOpening hk hn =>
      exact completes_kind fun opening ho => ⟨[sample .rightBrace], _,
        @Derives.classDeclaration _ _ _ (sample .rightBrace) [] hk hn ho (by simp) rfl⟩
  | @classNext keyword name opening parts hk hn ho hm =>
      refine Completes.orKind ?_ (completes_kind fun closing hc =>
        ⟨[], _, .classDeclaration hk hn ho hm hc⟩)
      simpa using completes_class hk hn ho hm completes_member
  | classMember hk hn ho hm ha ne ih => exact completes_class hk hn ho hm ih
  | @privateField mark ts w hm hb =>
      refine Completes.within (b := [mark]) (a := []) hb.completes ?_
      rintro us ⟨name, v, hb⟩
      rw [List.append_nil]
      exact ⟨_, .privateField hm hb⟩
  | @methodArgs name ts w hn ha =>
      obtain ⟨bs, b, hb⟩ := exists_block
      refine Completes.within (b := [name]) (a := bs) ha.completes ?_
      rintro us ⟨a, ha⟩
      exact ⟨_, .method hn ha hb⟩
  | @methodBlock name ts a us w hn ha hb ih =>
      refine Completes.within (b := name :: ts) (a := []) ih ?_
      rintro us ⟨b, hb⟩
      rw [List.append_nil]
      exact ⟨_, .method hn ha hb⟩
  | blockNext ho hd =>
      refine Completes.orKind ?_ (completes_kind fun closing hc => ⟨[], _, .block ho hd hc⟩)
      simpa using completes_block ho hd completes_keyword
  | blockDeclaration ho hd ha ne ih => exact completes_block ho hd ih

theorem root_concat {parts : List Part} (hd : ∀ p ∈ parts, Derives .declaration p.tokens p.tree)
    (us : List Token) (h : ∃ n, Derives .declaration us n) :
    ∃ n, Root (parts.flatMap Part.tokens ++ us ++ []) n := by
  obtain ⟨n, hn⟩ := h
  exact ⟨_, by simpa using Root.mk (by simp) (each_concat hd hn)⟩

theorem AwaitsRoot.completes (h : AwaitsRoot ts w) :
    Completes (fun us => ∃ n, Root us n) ts w := by
  cases h with
  | @next parts hd =>
      have last : Completes (fun us => ∃ n, Root us n) (parts.flatMap Part.tokens ++ []) .keyword :=
        Completes.within (a := []) completes_keyword (root_concat hd)
      intro t ht
      simpa using last t ht
  | @declaration parts ts w hd ha ne =>
      exact Completes.within (a := []) ha.completes (root_concat hd)

/-! ## What is wanted -/

namespace Wanted

theorem occurs_afterParam : Wanted.afterParam.Occurs :=
  .orKind (.kind (by decide)) (by decide)

/-- Something is always wanted. -/
theorem Occurs.possible {w : Wanted} (h : w.Occurs) : ∃ t, w.admits t = true := by
  induction h with
  | @kind k => exact ⟨sample k, by simp [Wanted.kind, sample]⟩
  | value => exact ⟨sample .num, rfl⟩
  | keyword => exact ⟨⟨.word, ascii "class", 1, 1⟩, by simp [Wanted.keyword, Token.isWord]⟩
  | member => exact ⟨sample .hash, rfl⟩
  | @orKind w k => exact ⟨sample k, by simp [Wanted.orKind, sample]⟩
  | orEnd h ih => exact ih

/-- A fault of its own is reported where a value or a member is wanted. -/
theorem Occurs.fault_eq {w : Wanted} (h : w.Occurs) {num hash : Token} (hn : num.kind = .num)
    (hh : hash.kind = .hash) :
    w.fault = .unhandledToken ∧ (w.admits num = true ∨ w.admits hash = true) ∨
      w.fault = .invalidSyntax ∧ w.admits num = false ∧ w.admits hash = false := by
  induction h with
  | kind other => simp [Wanted.kind, hn, hh, other.1.symm, other.2.symm]
  | value => simp [Wanted.value, literalKind?, hn]
  | keyword => simp [Wanted.keyword, isBindingWord, Token.isWord, hn, hh]
  | member => simp [Wanted.member, hh]
  | orKind h other ih => simpa [Wanted.orKind, hn, hh, other.1.symm, other.2.symm] using ih
  | orEnd h ih => exact ih

/-- A reader that is stopped reports that a token cannot be handled exactly if there is one, in the
place of a value or a member. -/
theorem Occurs.unhandled_iff {fault : ParseFault} {rest : List Token} (h : w.Occurs)
    (refused : w.Refuses fault rest) {num hash : Token} (hn : num.kind = .num)
    (hh : hash.kind = .hash) :
    fault = .unhandledToken ↔ rest ≠ [] ∧ (w.admits num = true ∨ w.admits hash = true) := by
  cases rest with
  | nil => simp [refused.2]
  | cons t rest =>
      obtain ⟨own, wanted⟩ | ⟨own, notNum, notHash⟩ := h.fault_eq hn hh
      · simp [refused.2, own, wanted]
      · simp [refused.2, own, notNum, notHash]

theorem Occurs.refuses_cases {fault : ParseFault} {rest : List Token} (h : w.Occurs)
    (refused : w.Refuses fault rest) : fault = .unhandledToken ∨ fault = .invalidSyntax := by
  cases rest with
  | nil => exact .inr refused.2
  | cons t rest =>
      have own := h.fault_eq (show (sample .num).kind = .num from rfl)
        (show (sample .hash).kind = .hash from rfl)
      rcases own with ⟨own, -⟩ | ⟨own, -⟩
      · exact .inl (refused.2.trans own)
      · exact .inr (refused.2.trans own)

end Wanted

open Wanted

theorem AwaitsBinding.occurs (h : AwaitsBinding ts w) : w.Occurs := by
  cases h with
  | name => exact .kind (by decide)
  | equals => exact .kind (by decide)
  | value => exact .value

theorem AwaitsParam.occurs (h : AwaitsParam ts w) : w.Occurs := by
  cases h with
  | name => exact .kind (by decide)
  | value => exact .value
  | bare => exact .orKind occurs_afterParam (by decide)
  | withDefault => exact occurs_afterParam

theorem AwaitsMore.occurs (h : AwaitsMore ts w) : w.Occurs := by
  induction h with
  | param hc hp => exact hp.occurs
  | later hc hp hm ih => exact ih

theorem AwaitsArgs.occurs (h : AwaitsArgs ts w) : w.Occurs := by
  cases h with
  | opening => exact .kind (by decide)
  | first => exact .orKind (.kind (by decide)) (by decide)
  | param ho hp ne => exact hp.occurs
  | more ho hp hm => exact hm.occurs

theorem Awaits.occurs {phrase : Phrase} (h : Awaits phrase ts w) : w.Occurs := by
  induction h with
  | keyword => exact .keyword
  | member => exact .member
  | opening => exact .kind (by decide)
  | binding hk hb => exact hb.occurs
  | functionName => exact .kind (by decide)
  | functionArgs hk hn ha => exact ha.occurs
  | functionBlock hk hn ha hb ih => exact ih
  | className => exact .kind (by decide)
  | classOpening => exact .kind (by decide)
  | classNext => exact .orKind .member (by decide)
  | classMember hk hn ho hm ha ne ih => exact ih
  | privateField hm hb => exact hb.occurs
  | methodArgs hn ha => exact ha.occurs
  | methodBlock hn ha hb ih => exact ih
  | blockNext => exact .orKind .keyword (by decide)
  | blockDeclaration ho hd ha ne ih => exact ih

theorem AwaitsRoot.occurs (h : AwaitsRoot ts w) : w.Occurs := by
  cases h with
  | next => exact .orEnd .keyword
  | declaration hd ha ne => exact ha.occurs

/-- What has been read before a place at which something is wanted is the beginning of a text. -/
theorem AwaitsRoot.exists_root (h : AwaitsRoot ts w) : ∃ more n, Root (ts ++ more) n := by
  obtain ⟨t, ht⟩ := h.occurs.possible
  obtain ⟨more, n, hr⟩ := h.completes t ht
  exact ⟨t :: more, n, hr⟩

end LittleLang.Decl.Syntax
