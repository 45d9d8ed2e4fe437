import Mathlib.Data.List.Forall2

namespace Xript

section

variable {ι ε δ α β γ σ τ : Type}

/-- A computation that notes its findings and goes on; it may also fail outright. -/
def Collecting (ι ε α : Type) := Except ε (α × List ι)

namespace Collecting

/-- One computation after another, with the findings of both. -/
def andThen (x : Collecting ι ε α) (f : α → Collecting ι ε β) : Collecting ι ε β :=
  match x with
  | .error e => .error e
  | .ok (a, found) =>
    match f a with
    | .error e => .error e
    | .ok (b, more) => .ok (b, found ++ more)

instance : Monad (Collecting ι ε) where
  pure a := .ok (a, [])
  bind := andThen

theorem andThen_error {f : α → Collecting ι ε β} {a : α} {found : List ι} {e : ε} (run : f a = .error e) :
    andThen (.ok (a, found)) f = .error e := by
  simp only [andThen]
  rw [run]

theorem andThen_ok {f : α → Collecting ι ε β} {a : α} {b : β} {found more : List ι} (run : f a = .ok (b, more)) :
    andThen (.ok (a, found)) f = .ok (b, found ++ more) := by
  simp only [andThen]
  rw [run]

theorem pure_andThen (a : α) (f : α → Collecting ι ε β) : andThen (.ok (a, [])) f = f a := by
  cases run : f a with
  | error e => exact andThen_error run
  | ok made => exact andThen_ok run

theorem andThen_pure (x : Collecting ι ε α) : andThen x (fun a => .ok (a, [])) = x := by
  rcases x with e | ⟨a, found⟩
  · rfl
  · exact congrArg (fun l => Except.ok (a, l)) (List.append_nil found)

theorem andThen_assoc (x : Collecting ι ε α) (f : α → Collecting ι ε β) (g : β → Collecting ι ε γ) :
    andThen (andThen x f) g = andThen x fun a => andThen (f a) g := by
  rcases x with e | ⟨a, found⟩
  · rfl
  · cases first : f a with
    | error e =>
      have right : andThen (f a) g = .error e := by rw [first]; rfl
      rw [andThen_error first]
      exact (andThen_error right).symm
    | ok made =>
      obtain ⟨b, more⟩ := made
      rw [andThen_ok first]
      cases second : g b with
      | error e =>
        have right : andThen (f a) g = .error e := by rw [first, andThen_error second]
        rw [andThen_error second]
        exact (andThen_error right).symm
      | ok made =>
        have right : andThen (f a) g = .ok (made.1, more ++ made.2) := by rw [first, andThen_ok second]
        rw [andThen_ok second, List.append_assoc]
        exact (andThen_ok right).symm

instance : LawfulMonad (Collecting ι ε) :=
  LawfulMonad.mk' _ (fun x => andThen_pure x) (fun a f => pure_andThen a f) (fun x f g => andThen_assoc x f g)

end Collecting

/-- Notes a finding and goes on. -/
def note (finding : ι) : Collecting ι ε Unit := .ok ((), [finding])

/-- Runs a collecting computation, and fails with what it found if it found anything. -/
def settle (refuse : List ι → ε) (collecting : Collecting ι ε α) : Except ε α :=
  match collecting with
  | .error e => .error e
  | .ok (a, found) => if found.isEmpty then .ok a else .error (refuse found)

namespace Collecting

/-- What a collecting computation returns, with what it found. -/
def Gives (x : Collecting ι ε α) (a : α) (found : List ι) : Prop := x = .ok (a, found)

/-- What a collecting computation returns. -/
def Returns (x : Collecting ι ε α) (a : α) : Prop := ∃ found, Gives x a found

theorem gives_bind {x : Collecting ι ε α} {f : α → Collecting ι ε β} {b : β} {found : List ι}
    (gives : Gives (x >>= f) b found) : ∃ a first rest, Gives x a first ∧ Gives (f a) b rest ∧ found = first ++ rest := by
  rcases x with e | ⟨a, first⟩
  · cases gives
  · replace gives : andThen (.ok (a, first)) f = .ok (b, found) := gives
    cases run : f a with
    | error e =>
      rw [andThen_error run] at gives
      cases gives
    | ok made =>
      obtain ⟨b', rest⟩ := made
      rw [andThen_ok run] at gives
      cases gives
      exact ⟨a, first, rest, rfl, run, rfl⟩

theorem gives_pure {a b : α} {found : List ι} (gives : Gives (pure a : Collecting ι ε α) b found) : b = a ∧ found = [] := by
  cases gives
  exact ⟨rfl, rfl⟩

theorem returns_bind {x : Collecting ι ε α} {f : α → Collecting ι ε β} {b : β} (returns : Returns (x >>= f) b) :
    ∃ a, Returns x a ∧ Returns (f a) b := by
  obtain ⟨found, gives⟩ := returns
  obtain ⟨a, first, rest, run, later, -⟩ := gives_bind gives
  exact ⟨a, ⟨first, run⟩, rest, later⟩

theorem returns_pure {a b : α} (returns : Returns (pure a : Collecting ι ε α) b) : b = a := by
  obtain ⟨found, gives⟩ := returns
  exact (gives_pure gives).1

/-- What every step of a loop keeps, the loop keeps. -/
theorem foldlM_keeps {f : β → γ → Collecting ι ε β} (P : β → Prop) {entries : List γ}
    (step : ∀ made entry, entry ∈ entries → P made → ∀ next, Returns (f made entry) next → P next)
    {start result : β} (initially : P start) (returns : Returns (entries.foldlM f start) result) : P result := by
  induction entries generalizing start with
  | nil => exact returns_pure returns ▸ initially
  | cons entry entries ih =>
    rw [List.foldlM_cons] at returns
    obtain ⟨next, first, rest⟩ := returns_bind returns
    exact ih (fun made other inside => step made other (List.mem_cons_of_mem _ inside))
      (step start entry (List.mem_cons_self ..) initially next first) rest

theorem returns_mapM {f : γ → Collecting ι ε β} {entries : List γ} {made : List β}
    (returns : Returns (entries.mapM f) made) : List.Forall₂ (fun entry b => Returns (f entry) b) entries made := by
  induction entries generalizing made with
  | nil =>
    rw [List.mapM_nil] at returns
    exact returns_pure returns ▸ .nil
  | cons entry entries ih =>
    rw [List.mapM_cons] at returns
    obtain ⟨b, first, returns⟩ := returns_bind returns
    obtain ⟨rest, later, returns⟩ := returns_bind returns
    exact returns_pure returns ▸ .cons first (ih later)

end Collecting

open Collecting

/-- One computation collects where the other stops: where the other returns, it returns the like and finds
nothing, and where the other fails, it fails too or finds something. -/
def Mirrors (R : α → β → Prop) (collecting : Collecting ι ε α) (stopping : Except δ β) : Prop :=
  (∃ a b, R a b ∧ stopping = .ok b ∧ collecting = .ok (a, [])) ∨
    (∃ e, stopping = .error e) ∧
      ((∃ e, collecting = .error e) ∨ ∃ a found, found ≠ [] ∧ collecting = .ok (a, found))

namespace Mirrors

theorem pure {R : α → β → Prop} {a : α} {b : β} (alike : R a b) :
    Mirrors R (Pure.pure a : Collecting ι ε α) (Pure.pure b : Except δ β) :=
  Or.inl ⟨a, b, alike, rfl, rfl⟩

theorem throw (R : α → β → Prop) (e : ε) (e' : δ) :
    Mirrors R (.error e : Collecting ι ε α) (.error e' : Except δ β) :=
  Or.inr ⟨⟨e', rfl⟩, Or.inl ⟨e, rfl⟩⟩

/-- What one notes the other stops at. -/
theorem note_bind (R : α → β → Prop) (finding : ι) (a : α) (e : δ) (b : β) :
    Mirrors R (note finding >>= fun _ => Pure.pure a : Collecting ι ε α)
      ((.error e : Except δ Unit) >>= fun _ => Pure.pure b) :=
  Or.inr ⟨⟨e, rfl⟩, Or.inr ⟨a, [finding], List.cons_ne_nil _ _, rfl⟩⟩

/-- One step after another. -/
theorem bind {R : α → β → Prop} {S : σ → τ → Prop} {x : Collecting ι ε α} {y : Except δ β}
    {f : α → Collecting ι ε σ} {g : β → Except δ τ} (first : Mirrors R x y)
    (next : ∀ a b, R a b → Returns x a → Mirrors S (f a) (g b)) : Mirrors S (x >>= f) (y >>= g) := by
  rcases first with ⟨a, b, alike, rfl, rfl⟩ | ⟨⟨e, rfl⟩, ⟨e', rfl⟩ | ⟨a, found, some, rfl⟩⟩
  · show Mirrors S (andThen (.ok (a, [])) f) (g b)
    rw [pure_andThen]
    exact next a b alike ⟨[], rfl⟩
  · exact Or.inr ⟨⟨e, rfl⟩, Or.inl ⟨e', rfl⟩⟩
  · refine Or.inr ⟨⟨e, rfl⟩, ?_⟩
    show (∃ e, andThen (.ok (a, found)) f = .error e) ∨ ∃ c l, l ≠ [] ∧ andThen (.ok (a, found)) f = .ok (c, l)
    cases run : f a with
    | error e' => exact Or.inl ⟨e', andThen_error run⟩
    | ok made =>
      exact Or.inr ⟨made.1, found ++ made.2, fun none => some (List.append_eq_nil_iff.mp none).1, andThen_ok run⟩

/-- One step after another, where both return the same at each. -/
theorem bind_same {S : σ → τ → Prop} {x : Collecting ι ε α} {y : Except δ α} {f : α → Collecting ι ε σ}
    {g : α → Except δ τ} (first : Mirrors Eq x y) (next : ∀ a, Returns x a → Mirrors S (f a) (g a)) :
    Mirrors S (x >>= f) (y >>= g) := by
  refine first.bind ?_
  rintro a _ rfl returns
  exact next a returns

/-- Two loops, under what the collecting one keeps true of what it made and of the entries left. -/
theorem foldlM {f : β → γ → Collecting ι ε β} {g : β → γ → Except δ β} (I : β → List γ → Prop)
    (each : ∀ made entry rest, I made (entry :: rest) → Mirrors Eq (f made entry) (g made entry))
    (keeps : ∀ made entry rest, I made (entry :: rest) → ∀ next, Returns (f made entry) next → I next rest)
    {entries : List γ} {start : β} (initially : I start entries) :
    Mirrors Eq (entries.foldlM f start) (entries.foldlM g start) := by
  induction entries generalizing start with
  | nil => exact pure rfl
  | cons entry entries ih =>
    rw [List.foldlM_cons, List.foldlM_cons]
    exact (each start entry entries initially).bind_same fun next returns =>
      ih (keeps start entry entries initially next returns)

/-- Two loops whose steps mirror each other whatever was made before. -/
theorem foldlM_each {f : β → γ → Collecting ι ε β} {g : β → γ → Except δ β} {entries : List γ}
    (each : ∀ made, ∀ entry ∈ entries, Mirrors Eq (f made entry) (g made entry)) (start : β) :
    Mirrors Eq (entries.foldlM f start) (entries.foldlM g start) := by
  refine foldlM (fun _ rest => rest ⊆ entries) ?_ ?_ (List.Subset.refl entries)
  · intro made entry rest inside
    exact each made entry (inside (List.mem_cons_self ..))
  · intro made entry rest inside next _
    exact fun other member => inside (List.mem_cons_of_mem _ member)

/-- Two computations over a list, entry by entry. -/
theorem mapM {R : α → β → Prop} {f : γ → Collecting ι ε α} {g : γ → Except δ β} {entries : List γ}
    (each : ∀ entry ∈ entries, Mirrors R (f entry) (g entry)) :
    Mirrors (List.Forall₂ R) (entries.mapM f) (entries.mapM g) := by
  induction entries with
  | nil =>
    rw [List.mapM_nil, List.mapM_nil]
    exact pure .nil
  | cons entry entries ih =>
    have rest := ih fun other inside => each other (List.mem_cons_of_mem _ inside)
    rw [List.mapM_cons, List.mapM_cons]
    refine (each entry (List.mem_cons_self ..)).bind fun a b alike _ => ?_
    exact rest.bind fun _ _ others _ => pure (.cons alike others)

/-- Settled, both fail or both return the like. -/
theorem settle {R : α → β → Prop} {x : Collecting ι ε α} {y : Except δ β} (mirrors : Mirrors R x y)
    (refuse : List ι → ε) :
    (∃ a b, R a b ∧ Returns x a ∧ y = .ok b ∧ Xript.settle refuse x = .ok a) ∨
      (∃ e, y = .error e) ∧ ∃ e, Xript.settle refuse x = .error e := by
  rcases mirrors with ⟨a, b, alike, same, run⟩ | ⟨stops, ⟨e, run⟩ | ⟨a, found, some, run⟩⟩
  · exact Or.inl ⟨a, b, alike, ⟨[], run⟩, same, by simp only [Xript.settle, run, List.isEmpty_nil, if_true]⟩
  · exact Or.inr ⟨stops, e, by simp only [Xript.settle, run]⟩
  · refine Or.inr ⟨stops, refuse found, ?_⟩
    cases found with
    | nil => exact absurd rfl some
    | cons first rest => simp [Xript.settle, run]

end Mirrors

end

end Xript
