import Xript.Fragment.Sites
import Xript.Text.Join

namespace Xript

namespace Rust

/-- `key_token`, on a string or a finite number. -/
def keyToken : RepeatKey → JSString
  | .number x => js "n:" ++ F64.toText x
  | .text s => js "s:" ++ s

/-- `RepeatSite::id`. -/
def siteId (site : RepeatSite) : JSString :=
  [46].intercalate (site.template.map decimal) ++ 124 :: [0].intercalate (site.within.map keyToken)

theorem keyToken_eq {key : RepeatKey} (valid : key.Valid) : keyToken key = Xript.keyToken key := by
  cases key with
  | text s => rfl
  | number x =>
    cases x with
    | finite x => rw [keyToken_number, keyToken]
    | nan | infinite => cases valid

end Rust

namespace RepeatSite

/-- The keys of two sites, one by one: numbers and strings are told apart and the two zeros are one number. -/
def SameKeys (a b : RepeatSite) : Prop := List.Forall₂ (fun s t => RepeatKey.same s t = true) a.within b.within

/-- What a repeat is told by. -/
structure Equal (a b : RepeatSite) : Prop where
  template : a.template = b.template
  keys : a.SameKeys b

/-- A string is a key and a finite number is one. -/
def Valid (site : RepeatSite) : Prop := ∀ key ∈ site.within, key.Valid

instance (key : RepeatKey) : Decidable key.Valid :=
  match key with
  | .text _ => inferInstanceAs (Decidable True)
  | .number x => inferInstanceAs (Decidable (x.isFinite = true))

instance (site : RepeatSite) : Decidable site.Valid := inferInstanceAs (Decidable (∀ key ∈ site.within, key.Valid))

variable {a b : RepeatSite}

theorem sameKeys_iff (validA : a.Valid) (validB : b.Valid) :
    a.SameKeys b ↔ a.within.map keyToken = b.within.map keyToken := by
  rw [SameKeys]
  revert validA validB
  rw [Valid, Valid]
  generalize a.within = keys
  generalize b.within = others
  intro validA validB
  induction keys generalizing others with
  | nil =>
    rw [List.forall₂_nil_left_iff, List.map_nil, List.nil_eq, List.map_eq_nil_iff]
  | cons key keys ih =>
    cases others with
    | nil => exact iff_of_false nofun nofun
    | cons other others =>
      rw [List.forall_mem_cons] at validA validB
      rw [List.forall₂_cons, ih others validA.2 validB.2, ← keyToken_eq_iff validA.1 validB.1, List.map_cons, List.map_cons,
        List.cons.injEq]

theorem equal_iff (validA : a.Valid) (validB : b.Valid) : a.Equal b ↔ a.Same b :=
  ⟨fun equal => ⟨equal.template, (sameKeys_iff validA validB).mp equal.keys⟩,
    fun same => ⟨same.template, (sameKeys_iff validA validB).mpr same.tokens⟩⟩

/-- The keys of a site, cut at every NUL. -/
def pieces (site : RepeatSite) : List JSString := site.within.flatMap fun key => (Rust.keyToken key).splitOn 0

/-- Two sites of one template whose keys differ in where they end, and in nothing else. -/
structure Regrouped (a b : RepeatSite) : Prop where
  template : a.template = b.template
  apart : ¬ a.SameKeys b
  pieces : a.pieces = b.pieces

end RepeatSite

open RepeatSite

theorem decimal_plain {n u : Nat} (member : u ∈ decimal n) : u ≠ 46 ∧ u ≠ 124 := by
  have digit := List.all_eq_true.mp (decimal_digits n) u member
  simp only [isDigit, Bool.and_eq_true, decide_eq_true_eq] at digit
  omega

theorem decimals_joined_inj {m n : List Nat} (same : [46].intercalate (m.map decimal) = [46].intercalate (n.map decimal)) :
    m = n := by
  have apart : ∀ l : List Nat, ∀ d ∈ l.map decimal, 46 ∉ d := by
    intro l d member inside
    obtain ⟨k, -, rfl⟩ := List.mem_map.mp member
    exact (decimal_plain inside).1 rfl
  have written : ∀ k (l : List Nat), [46].intercalate ((k :: l).map decimal) ≠ [] := by
    intro k l empty
    have cut := List.splitOn_intercalate 46 (apart (k :: l)) nofun
    rw [empty, List.splitOn_nil, List.map_cons] at cut
    exact decimal_ne_nil k (List.cons.inj cut).1.symm
  cases m with
  | nil =>
    cases n with
    | nil => rfl
    | cons k n => exact absurd same.symm (written k n)
  | cons j m =>
    cases n with
    | nil => exact absurd same (written j m)
    | cons k n =>
      have cut := congrArg (List.splitOn 46) same
      rw [List.splitOn_intercalate 46 (apart _) (by simp),
        List.splitOn_intercalate 46 (apart _) (by simp)] at cut
      exact List.map_injective_iff.mpr (fun _ _ => decimal_injective) cut

theorem Rust.keyToken_ne_nil (key : RepeatKey) : Rust.keyToken key ≠ [] := by
  cases key <;> nofun

/-- The Rust id keeps the template and the pieces of the keys. -/
theorem Rust.siteId_eq_iff {a b : RepeatSite} :
    Rust.siteId a = Rust.siteId b ↔ a.template = b.template ∧ a.pieces = b.pieces := by
  have absent : ∀ site : RepeatSite, 124 ∉ [46].intercalate (site.template.map decimal) := by
    intro site member
    rcases mem_intercalate member with same | ⟨d, inside, found⟩
    · cases List.mem_singleton.mp same
    · obtain ⟨k, -, rfl⟩ := List.mem_map.mp inside
      exact (decimal_plain found).2 rfl
  have joined : [0].intercalate (a.within.map Rust.keyToken) = [0].intercalate (b.within.map Rust.keyToken) ↔
      a.pieces = b.pieces := by
    rw [RepeatSite.pieces, RepeatSite.pieces]
    generalize a.within = keys
    generalize b.within = others
    have tokens : ∀ keys : List RepeatKey, (keys.flatMap fun key => (Rust.keyToken key).splitOn 0) =
        (keys.map Rust.keyToken).flatMap fun token => token.splitOn 0 := fun keys => (List.flatMap_map ..).symm
    have written : ∀ key (keys : List RepeatKey), [0].intercalate ((key :: keys).map Rust.keyToken) ≠ [] ∧
        ((key :: keys).flatMap fun key => (Rust.keyToken key).splitOn 0) ≠ [] := by
      intro key keys
      constructor
      · cases keys with
        | nil => simpa using Rust.keyToken_ne_nil key
        | cons other keys =>
          rw [List.map_cons, List.map_cons, List.intercalate_cons_cons]
          simp
      · rw [List.flatMap_cons]
        exact fun empty => List.splitOn_ne_nil 0 _ (List.append_eq_nil_iff.mp empty).1
    cases keys with
    | nil =>
      cases others with
      | nil => exact iff_of_true rfl rfl
      | cons other others => exact iff_of_false (written other others).1.symm (written other others).2.symm
    | cons key keys =>
      cases others with
      | nil => exact iff_of_false (written key keys).1 (written key keys).2
      | cons other others =>
        rw [tokens, tokens]
        exact intercalate_eq_iff nofun nofun
  rw [← joined]
  constructor
  · intro same
    have cut := congrArg (breakOn [124]) same
    rw [siteId, siteId, breakOn_singleton (absent a), breakOn_singleton (absent b)] at cut
    obtain ⟨templates, keys⟩ := Prod.mk.inj (Option.some.inj cut)
    exact ⟨decimals_joined_inj templates, keys⟩
  · rintro ⟨template, keys⟩
    rw [siteId, siteId, template, keys]

theorem RepeatSite.SameKeys.pieces {a b : RepeatSite} (validA : a.Valid) (validB : b.Valid) (keys : a.SameKeys b) :
    a.pieces = b.pieces := by
  have tokens : ∀ {site : RepeatSite}, site.Valid → site.pieces = (site.within.map keyToken).flatMap fun token => token.splitOn 0 := by
    intro site valid
    rw [RepeatSite.pieces, List.flatMap_map]
    refine List.flatMap_congr fun key member => ?_
    rw [Rust.keyToken_eq (valid key member)]
  rw [tokens validA, tokens validB, (sameKeys_iff validA validB).mp keys]

theorem Rust.keyToken_clean {key : RepeatKey} (valid : key.Valid) (clean : ∀ s, key = .text s → 0 ∉ s) :
    0 ∉ Rust.keyToken key := by
  cases key with
  | text s =>
    rw [Rust.keyToken, List.mem_append, not_or]
    exact ⟨by decide, clean s rfl⟩
  | number x =>
    cases x with
    | nan | infinite => cases valid
    | finite x =>
      rw [Rust.keyToken, List.mem_append, not_or]
      refine ⟨by decide, fun member => ?_⟩
      have unit := List.all_eq_true.mp (toText_units x) 0 member
      cases unit

/-- Where no string key holds a NUL, the keys of a site are told by their pieces. -/
theorem RepeatSite.not_regrouped {a b : RepeatSite} (validA : a.Valid) (validB : b.Valid)
    (cleanA : ∀ s, .text s ∈ a.within → 0 ∉ s) (cleanB : ∀ s, .text s ∈ b.within → 0 ∉ s) : ¬ a.Regrouped b := by
  have whole : ∀ {site : RepeatSite}, site.Valid → (∀ s, .text s ∈ site.within → 0 ∉ s) →
      site.pieces = site.within.map keyToken := by
    intro site valid clean
    rw [RepeatSite.pieces, List.map_eq_flatMap]
    refine List.flatMap_congr fun key member => ?_
    rw [List.splitOn_eq_singleton (Rust.keyToken_clean (valid key member) fun s is => clean s (is ▸ member)),
      Rust.keyToken_eq (valid key member)]
  rintro ⟨-, apart, pieces⟩
  rw [whole validA cleanA, whole validB cleanB] at pieces
  exact apart ((sameKeys_iff validA validB).mpr pieces)

/-- Both ids tell two sites apart exactly where these are told apart by their template or their keys, unless the keys of
the one are the keys of the other cut in other places. -/
theorem siteIds_agree_iff (a b : RepeatSite) (validA : a.Valid) (validB : b.Valid) :
    ((repeatSiteId a = repeatSiteId b ↔ a.Equal b) ∧ (Rust.siteId a = Rust.siteId b ↔ a.Equal b)) ↔ ¬ a.Regrouped b := by
  rw [and_iff_right (repeatSiteId_eq_iff.trans (equal_iff validA validB).symm), Rust.siteId_eq_iff]
  constructor
  · intro same regrouped
    exact regrouped.apart (same.mp ⟨regrouped.template, regrouped.pieces⟩).keys
  · intro grouped
    constructor
    · rintro ⟨template, pieces⟩
      refine ⟨template, ?_⟩
      by_contra apart
      exact grouped ⟨template, apart, pieces⟩
    · exact fun equal => ⟨equal.template, equal.keys.pieces validA validB⟩

/-- Two copies of the same keys, whatever these are. -/
theorem siteIds_agree_nested : (repeatSiteId ⟨[0, 0, 0], [.text (js "a"), .text (js "b")]⟩ =
      repeatSiteId ⟨[0, 0, 0], [.text (js "a"), .text (js "c")]⟩ ↔
      Equal ⟨[0, 0, 0], [.text (js "a"), .text (js "b")]⟩ ⟨[0, 0, 0], [.text (js "a"), .text (js "c")]⟩) ∧
    (Rust.siteId ⟨[0, 0, 0], [.text (js "a"), .text (js "b")]⟩ =
      Rust.siteId ⟨[0, 0, 0], [.text (js "a"), .text (js "c")]⟩ ↔
      Equal ⟨[0, 0, 0], [.text (js "a"), .text (js "b")]⟩ ⟨[0, 0, 0], [.text (js "a"), .text (js "c")]⟩) :=
  (siteIds_agree_iff _ _ (by decide) (by decide)).mpr fun regrouped => absurd regrouped.pieces (by decide +kernel)

/-- Two copies inside copies of different keys have one Rust id: `a\0s:b` before `c` and `a` before `b\0s:c`. -/
theorem siteIds_collide : ¬ ∀ a b : RepeatSite, a.Valid → b.Valid →
    (repeatSiteId a = repeatSiteId b ↔ a.Equal b) ∧ (Rust.siteId a = Rust.siteId b ↔ a.Equal b) := by
  intro agree
  have same := (agree ⟨[0, 0, 0], [.text (js "a" ++ 0 :: js "s:b"), .text (js "c")]⟩
    ⟨[0, 0, 0], [.text (js "a"), .text (js "b" ++ 0 :: js "s:c")]⟩ (by decide) (by decide)).2.mp (by decide +kernel)
  cases same.keys with
  | cons first _ => cases first

end Xript
