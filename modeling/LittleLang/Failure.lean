/-!
How a computation that follows the rules of a table can fail: a fault is raised, or the rules never
come to an end.
-/
namespace LittleLang

/-- Why there is no result. -/
inductive Failure (ε : Type) where
  /-- A rule, or the engine that runs the rules, reports a fault. -/
  | raised (fault : ε)
  /-- The rules go on without end. -/
  | endless
  deriving DecidableEq

/-- The outcome of running the rules of a table. -/
abbrev Outcome (ε α : Type) := Except (Failure ε) α

/-- Rewrites the fault, if there is one. -/
def Failure.map {ε δ : Type} (f : ε → δ) : Failure ε → Failure δ
  | .raised fault => .raised (f fault)
  | .endless => .endless

namespace Outcome

variable {ε δ α : Type}

instance instDecidableEqOutcome [DecidableEq ε] [DecidableEq α] : DecidableEq (Outcome ε α)
  | .ok a, .ok b => decidable_of_iff (a = b) ⟨congrArg Except.ok, Except.ok.inj⟩
  | .error e, .error f => decidable_of_iff (e = f) ⟨congrArg Except.error, Except.error.inj⟩
  | .ok _, .error _ => .isFalse nofun
  | .error _, .ok _ => .isFalse nofun

/-- Raises a fault. -/
def fault (e : ε) : Outcome ε α := .error (.raised e)

/-- Rewrites the fault, if there is one. -/
def mapFault (f : ε → δ) (o : Outcome ε α) : Outcome δ α := o.mapError (Failure.map f)

/-- The outcome is a value or a fault. -/
def Ends (o : Outcome ε α) : Prop := o ≠ .error .endless

/-- The outcome is a value. -/
def Succeeds (o : Outcome ε α) : Prop := ∃ a, o = .ok a

/-- The outcome of rules that are known to come to an end. -/
def settle : (o : Outcome ε α) → Ends o → Except ε α
  | .ok a, _ => .ok a
  | .error (.raised e), _ => .error e
  | .error .endless, h => absurd rfl h

@[simp] theorem mapFault_ok (f : ε → δ) (a : α) : mapFault f (.ok a) = .ok a := rfl

@[simp] theorem mapFault_raised (f : ε → δ) (e : ε) :
    mapFault f (.error (.raised e) : Outcome ε α) = .error (.raised (f e)) := rfl

@[simp] theorem mapFault_endless (f : ε → δ) :
    mapFault f (.error .endless : Outcome ε α) = .error .endless := rfl

theorem ends_ok (a : α) : Ends (.ok a : Outcome ε α) := nofun

theorem ends_fault (e : ε) : Ends (fault e : Outcome ε α) := nofun

theorem ends_error_iff {failure : Failure ε} :
    Ends (.error failure : Outcome ε α) ↔ failure ≠ .endless := by
  simp [Ends]

theorem bind_eq_ok_iff {β : Type} {o : Outcome ε α} {f : α → Outcome ε β} {b : β} :
    o >>= f = .ok b ↔ ∃ a, o = .ok a ∧ f a = .ok b := by
  cases o with
  | error failure =>
    constructor
    · nofun
    · nofun
  | ok a =>
    constructor
    · exact fun run => ⟨a, rfl, run⟩
    · rintro ⟨_, ⟨⟩, run⟩
      exact run

theorem map_eq_ok_iff {β : Type} {o : Outcome ε α} {f : α → β} {b : β} :
    f <$> o = .ok b ↔ ∃ a, o = .ok a ∧ f a = b := by
  cases o with
  | error failure =>
    constructor
    · nofun
    · nofun
  | ok a =>
    show Except.ok (f a) = .ok b ↔ _
    simp

theorem succeeds_bind_iff {β : Type} {o : Outcome ε α} {f : α → Outcome ε β} :
    Succeeds (o >>= f) ↔ ∃ a, o = .ok a ∧ Succeeds (f a) := by
  simp only [Succeeds, bind_eq_ok_iff]
  constructor
  · rintro ⟨b, a, run, later⟩
    exact ⟨a, run, b, later⟩
  · rintro ⟨a, run, b, later⟩
    exact ⟨b, a, run, later⟩

theorem succeeds_pure (a : α) : Succeeds (pure a : Outcome ε α) := ⟨a, rfl⟩

theorem succeeds_map_iff {β : Type} {o : Outcome ε α} {f : α → β} :
    Succeeds (f <$> o) ↔ Succeeds o := by
  simp only [Succeeds, map_eq_ok_iff]
  constructor
  · rintro ⟨-, a, run, -⟩
    exact ⟨a, run⟩
  · rintro ⟨a, run⟩
    exact ⟨f a, a, run, rfl⟩

theorem Ends.bind {β : Type} {o : Outcome ε α} {f : α → Outcome ε β} (ho : Ends o)
    (hf : ∀ a, o = .ok a → Ends (f a)) : Ends (o >>= f) := by
  cases o with
  | error e => exact fun h => ho (congrArg Except.error (Except.error.inj h))
  | ok a => exact hf a rfl

theorem Ends.map {β : Type} {o : Outcome ε α} (f : α → β) (ho : Ends o) : Ends (f <$> o) := by
  cases o with
  | error e => exact fun h => ho (congrArg Except.error (Except.error.inj h))
  | ok a => exact ends_ok _

theorem Ends.mapFault {o : Outcome ε α} (f : ε → δ) (ho : Ends o) : Ends (mapFault f o) := by
  rcases o with (e | _) | a
  · exact ends_fault (f e)
  · exact absurd rfl ho
  · exact ends_ok a

theorem mapFault_eq_ok_iff {f : ε → δ} {o : Outcome ε α} {a : α} :
    mapFault f o = .ok a ↔ o = .ok a := by
  rcases o with (e | _) | b <;> simp

theorem mapFault_eq_endless_iff {f : ε → δ} {o : Outcome ε α} :
    mapFault f o = .error .endless ↔ o = .error .endless := by
  rcases o with (e | _) | b <;> simp

theorem mapFault_map {β : Type} (f : ε → δ) (g : α → β) (o : Outcome ε α) :
    mapFault f (g <$> o) = g <$> mapFault f o := by
  rcases o with (e | _) | b <;> rfl

theorem mapFault_eq_fault_iff {f : ε → δ} {o : Outcome ε α} {d : δ} :
    mapFault f o = .error (.raised d) ↔ ∃ e, o = .error (.raised e) ∧ f e = d := by
  rcases o with (e | _) | a <;> simp

theorem ends_mapM {β : Type} {f : α → Outcome ε β} {xs : List α} (h : ∀ a ∈ xs, Ends (f a)) :
    Ends (xs.mapM f) := by
  induction xs with
  | nil => exact ends_ok _
  | cons a xs ih =>
    rw [List.mapM_cons]
    refine (h a List.mem_cons_self).bind fun b _ => ?_
    exact (ih fun c hc => h c (List.mem_cons_of_mem _ hc)).bind fun bs _ => ends_ok _

theorem mapM_cons_eq_ok_iff {β : Type} {f : α → Outcome ε β} {a : α} {as : List α} {bs : List β} :
    (a :: as).mapM f = .ok bs ↔
      ∃ b later, f a = .ok b ∧ as.mapM f = .ok later ∧ bs = b :: later := by
  simp only [List.mapM_cons, bind_eq_ok_iff]
  constructor
  · rintro ⟨b, first, later, rest, last⟩
    cases last
    exact ⟨b, later, first, rest, rfl⟩
  · rintro ⟨b, later, first, rest, rfl⟩
    exact ⟨b, first, later, rest, rfl⟩

theorem succeeds_mapM_iff {β : Type} {f : α → Outcome ε β} {as : List α} :
    Succeeds (as.mapM f) ↔ ∀ a ∈ as, Succeeds (f a) := by
  induction as with
  | nil => exact iff_of_true ⟨[], rfl⟩ (by simp)
  | cons a as ih =>
    rw [List.forall_mem_cons, ← ih]
    simp only [Succeeds, mapM_cons_eq_ok_iff]
    constructor
    · rintro ⟨bs, b, later, first, rest, -⟩
      exact ⟨⟨b, first⟩, later, rest⟩
    · rintro ⟨⟨b, first⟩, later, rest⟩
      exact ⟨b :: later, b, later, first, rest, rfl⟩

theorem mapM_congr {β : Type} {f g : α → Outcome ε β} {xs : List α} (same : ∀ a ∈ xs, f a = g a) :
    xs.mapM f = xs.mapM g := by
  induction xs with
  | nil => rfl
  | cons a xs ih =>
    rw [List.mapM_cons, List.mapM_cons, same a List.mem_cons_self,
      ih fun b mem => same b (List.mem_cons_of_mem _ mem)]

theorem eq_ok_of_toOption {o : Except ε α} {a : α} (h : o.toOption = some a) : o = .ok a := by
  cases o with
  | error e => cases h
  | ok b =>
    cases h
    rfl

theorem settle_eq_ok_iff {o : Outcome ε α} {h : Ends o} {a : α} :
    settle o h = .ok a ↔ o = .ok a := by
  rcases o with (e | _) | b
  · simp [settle]
  · exact absurd rfl h
  · simp [settle]

theorem settle_eq_error_iff {o : Outcome ε α} {h : Ends o} {e : ε} :
    settle o h = .error e ↔ o = .error (.raised e) := by
  rcases o with (d | _) | b
  · simp [settle]
  · exact absurd rfl h
  · simp [settle]

end Outcome

end LittleLang
