import Mathlib.Order.Lattice
import Mathlib.Order.MinMax

namespace Xript

/-- Declared cost, cheapest first. -/
inductive IntentDuration where
  | instant
  | brief
  | long
  | unbounded
  deriving DecidableEq

/-- Declared restrictiveness, least first. -/
inductive IntentAffinity where
  | any
  | pinned
  | isolated
  deriving DecidableEq

def IntentDuration.rank : IntentDuration → Nat
  | .instant => 0
  | .brief => 1
  | .long => 2
  | .unbounded => 3

def IntentAffinity.rank : IntentAffinity → Nat
  | .any => 0
  | .pinned => 1
  | .isolated => 2

theorem IntentDuration.rank_injective : Function.Injective IntentDuration.rank := by
  intro a b same
  cases a <;> cases b <;> first | rfl | cases same

theorem IntentAffinity.rank_injective : Function.Injective IntentAffinity.rank := by
  intro a b same
  cases a <;> cases b <;> first | rfl | cases same

instance : LinearOrder IntentDuration := LinearOrder.lift' IntentDuration.rank IntentDuration.rank_injective

instance : LinearOrder IntentAffinity := LinearOrder.lift' IntentAffinity.rank IntentAffinity.rank_injective

/-- An intent as a manifest writes it: either axis may be left out. -/
structure ExecutionIntent where
  duration : Option IntentDuration
  affinity : Option IntentAffinity
  deriving DecidableEq

/-- An intent with both axes settled. -/
structure ResolvedIntent where
  duration : IntentDuration
  affinity : IntentAffinity
  deriving DecidableEq

/-- The schema defaults of the axes. -/
def ExecutionIntent.resolved (intent : ExecutionIntent) : ResolvedIntent :=
  ⟨intent.duration.getD .brief, intent.affinity.getD .any⟩

namespace ResolvedIntent

/-- The pairwise maximum. -/
def widen (a b : ResolvedIntent) : ResolvedIntent := ⟨max a.duration b.duration, max a.affinity b.affinity⟩

theorem axes_injective : Function.Injective fun a : ResolvedIntent => (a.duration, a.affinity) := by
  intro a b same
  obtain ⟨duration, affinity⟩ := Prod.mk.inj same
  exact congrArg₂ ResolvedIntent.mk duration affinity

/-- The order of the axes, taken pairwise. -/
instance : PartialOrder ResolvedIntent := PartialOrder.lift _ axes_injective

instance : SemilatticeSup ResolvedIntent where
  sup := widen
  le_sup_left _ _ := ⟨le_max_left .., le_max_left ..⟩
  le_sup_right _ _ := ⟨le_max_right .., le_max_right ..⟩
  sup_le _ _ _ first second := ⟨max_le first.1 second.1, max_le first.2 second.2⟩

instance (a b : ResolvedIntent) : Decidable (a ≤ b) :=
  inferInstanceAs (Decidable (a.duration ≤ b.duration ∧ a.affinity ≤ b.affinity))

theorem le_widen_left (a b : ResolvedIntent) : a ≤ a.widen b := le_sup_left

theorem le_widen_right (a b : ResolvedIntent) : b ≤ a.widen b := le_sup_right

theorem widen_le {a b c : ResolvedIntent} (first : a ≤ c) (second : b ≤ c) : a.widen b ≤ c := sup_le first second

/-- Every party's intent, the first party's and then those of the others. -/
def widenAll (first : ResolvedIntent) (others : List ResolvedIntent) : ResolvedIntent := others.foldl widen first

end ResolvedIntent

/-- On each axis, one of the parties asks for as much as a claim does. -/
structure Covered (parties : List ResolvedIntent) (claim : ResolvedIntent) : Prop where
  duration : ∃ party ∈ parties, claim.duration ≤ party.duration
  affinity : ∃ party ∈ parties, claim.affinity ≤ party.affinity

theorem Covered.of_mem {parties : List ResolvedIntent} {claim : ResolvedIntent} (member : claim ∈ parties) :
    Covered parties claim :=
  ⟨⟨claim, member, le_rfl⟩, ⟨claim, member, le_rfl⟩⟩

namespace ResolvedIntent

theorem exists_widen_iff {T : Type} [LinearOrder T] {axis : ResolvedIntent → T}
    (widened : ∀ a b, axis (widen a b) = max (axis a) (axis b)) {a b : ResolvedIntent} {others : List ResolvedIntent}
    {claim : T} :
    (∃ party ∈ a.widen b :: others, claim ≤ axis party) ↔ ∃ party ∈ a :: b :: others, claim ≤ axis party := by
  simp only [List.mem_cons, exists_eq_or_imp, widened, le_max_iff, or_assoc]

theorem le_widenAll_iff {first : ResolvedIntent} {others : List ResolvedIntent} {claim : ResolvedIntent} :
    claim ≤ widenAll first others ↔ Covered (first :: others) claim := by
  induction others generalizing first with
  | nil =>
    constructor
    · rintro ⟨duration, affinity⟩
      exact ⟨⟨first, List.mem_cons_self, duration⟩, ⟨first, List.mem_cons_self, affinity⟩⟩
    · rintro ⟨⟨party, only, duration⟩, ⟨other, alone, affinity⟩⟩
      cases List.mem_singleton.mp only
      cases List.mem_singleton.mp alone
      exact ⟨duration, affinity⟩
  | cons next others ih =>
    rw [widenAll, List.foldl_cons, ← widenAll, ih]
    constructor
    · rintro ⟨duration, affinity⟩
      exact ⟨(exists_widen_iff fun _ _ => rfl).mp duration, (exists_widen_iff fun _ _ => rfl).mp affinity⟩
    · rintro ⟨duration, affinity⟩
      exact ⟨(exists_widen_iff fun _ _ => rfl).mpr duration, (exists_widen_iff fun _ _ => rfl).mpr affinity⟩

theorem le_widen_iff {a b claim : ResolvedIntent} : claim ≤ a.widen b ↔ Covered [a, b] claim :=
  @le_widenAll_iff a [b] claim

end ResolvedIntent

end Xript
