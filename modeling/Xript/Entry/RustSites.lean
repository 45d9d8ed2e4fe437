import Xript.Entry.Sites

namespace Xript

namespace CommonJs

namespace Rust

/-- Where no occurrence that begins inside another is `ok`, the loop finds what there is to find. -/
theorem findFrom_iff {word : List Nat} {ok : Option Nat → List Nat → Bool} (nonempty : word ≠ [])
    (inner : ∀ u ∈ word, ∀ after, ok (some u) after = false) {skip : Nat} {last : Option Nat} {text : List Nat} :
    findFrom word ok skip last text = true ↔
      ∃ before after, text = before ++ (word ++ after) ∧ skip ≤ before.length ∧ ok (before.getLast?.or last) after = true := by
  induction text generalizing skip last with
  | nil =>
    simp only [findFrom, Bool.false_eq_true, false_iff]
    rintro ⟨before, after, split, -, -⟩
    exact nonempty (List.append_eq_nil_iff.mp (List.append_eq_nil_iff.mp split.symm).2).1
  | cons b text ih =>
    have shifted : ∀ before : List Nat, (b :: before).getLast?.or last = before.getLast?.or (some b) :=
      fun before => Re.getLast?_append_or (s := [b]) last
    cases skip with
    | succ skip =>
      rw [findFrom, ih]
      constructor
      · rintro ⟨before, after, rfl, far, found⟩
        exact ⟨b :: before, after, rfl, Nat.succ_le_succ far, by rwa [shifted]⟩
      · rintro ⟨before, after, split, far, found⟩
        cases before with
        | nil => exact absurd far (Nat.not_succ_le_zero skip)
        | cons c before =>
          obtain ⟨rfl, rfl⟩ := List.cons.inj split
          rw [shifted] at found
          exact ⟨before, after, rfl, Nat.le_of_succ_le_succ far, found⟩
    | zero =>
      rw [findFrom]
      split
      · rename_i within
        obtain ⟨rest, first⟩ := within
        rw [Bool.or_eq_true, ih, ← first, List.drop_left]
        constructor
        · rintro (found | ⟨before, after, rfl, -, found⟩)
          · exact ⟨[], rest, rfl, Nat.zero_le _, found⟩
          · exact ⟨b :: before, after, first, Nat.zero_le _, by rwa [shifted]⟩
        · rintro ⟨before, after, split, -, found⟩
          cases before with
          | nil => exact .inl ((List.append_cancel_left split) ▸ found)
          | cons c before =>
            rw [first] at split
            obtain ⟨rfl, rfl⟩ := List.cons.inj split
            rw [shifted] at found
            refine .inr ⟨before, after, rfl, ?_, found⟩
            -- An occurrence that begins inside the first one has a unit of the word before it.
            by_contra near
            have prior : b :: before <+: word :=
              List.prefix_of_prefix_length_le ⟨word ++ after, rfl⟩ ⟨rest, first⟩ (by rw [List.length_cons]; omega)
            have inside : ∀ u ∈ (b :: before).getLast?.or last, u ∈ word := by
              intro u member
              rw [List.getLast?_eq_some_getLast (List.cons_ne_nil b before)] at member
              obtain rfl := Option.some.inj member
              exact prior.subset (List.getLast_mem _)
            rw [← shifted, List.getLast?_eq_some_getLast (List.cons_ne_nil b before), Option.some_or] at found
            rw [List.getLast?_eq_some_getLast (List.cons_ne_nil b before), Option.some_or] at inside
            rw [inner _ (inside _ rfl)] at found
            cases found
      · rename_i apart
        rw [ih]
        constructor
        · rintro ⟨before, after, rfl, -, found⟩
          exact ⟨b :: before, after, rfl, Nat.zero_le _, by rwa [shifted]⟩
        · rintro ⟨before, after, split, -, found⟩
          cases before with
          | nil => exact absurd ⟨after, split.symm⟩ apart
          | cons c before =>
            obtain ⟨rfl, rfl⟩ := List.cons.inj split
            rw [shifted] at found
            exact ⟨before, after, rfl, Nat.zero_le _, found⟩

theorem dropWhile_head_iff {p : Nat → Bool} {u : Nat} (outside : p u = false) {bytes : List Nat} :
    (bytes.dropWhile p).head? = some u ↔ ∃ gap rest, bytes = gap ++ u :: rest ∧ gap.all p = true := by
  constructor
  · intro found
    cases rest : bytes.dropWhile p with
    | nil => simp [rest] at found
    | cons v rest' =>
      rw [rest] at found
      obtain rfl := Option.some.inj found
      have split := List.takeWhile_append_dropWhile (p := p) (l := bytes)
      rw [rest] at split
      exact ⟨bytes.takeWhile p, rest', split.symm, List.all_takeWhile⟩
  · rintro ⟨gap, rest, rfl, all⟩
    rw [List.dropWhile_append_of_pos (List.all_eq_true.mp all), List.dropWhile_cons_of_neg (by simp [outside])]
    rfl

theorem assignmentFollows_iff {bytes : List Nat} : assignmentFollows bytes = true ↔
    ∃ gap rest, bytes = gap ++ 61 :: rest ∧ gap.all isGap = true ∧ rest.head? ≠ some 61 := by
  unfold assignmentFollows
  constructor
  · intro follows
    split at follows
    · rename_i rest found
      have split := List.takeWhile_append_dropWhile (p := isGap) (l := bytes)
      rw [found] at split
      exact ⟨bytes.takeWhile isGap, rest, split.symm, List.all_takeWhile, by simpa using follows⟩
    · cases follows
  · rintro ⟨gap, rest, rfl, all, single⟩
    rw [List.dropWhile_append_of_pos (List.all_eq_true.mp all), List.dropWhile_cons_of_neg (by decide)]
    simpa using single

theorem containsRequireCall_iff {bytes : List Nat} : containsRequireCall bytes = true ↔
    ∃ before gap after, ∃ split : bytes = before ++ (js "require" ++ (gap ++ 40 :: after)),
      (Site.call before gap after split).rust := by
  have letters : ∀ u ∈ js "require", isIdentChar u = true := by decide
  rw [containsRequireCall, findFrom_iff (by decide) (fun u member after => by simp [letters u member])]
  simp only [Option.or_none, Bool.and_eq_true, Bool.not_eq_true', decide_eq_true_iff, dropWhile_head_iff (p := isBlank)
    (u := 40) (by decide)]
  constructor
  · rintro ⟨before, _, rfl, -, free, gap, after, rfl, blanks⟩
    exact ⟨before, gap, after, rfl, free, blanks⟩
  · rintro ⟨before, gap, after, split, free, blanks⟩
    exact ⟨before, _, split, Nat.zero_le _, free, gap, after, rfl, blanks⟩

theorem takeWhile_name {name rest : List Nat} {u : Nat} (all : name.all isIdentChar = true) (stop : isIdentChar u = false) :
    (name ++ u :: rest).dropWhile isIdentChar = u :: rest := by
  rw [List.dropWhile_append_of_pos (List.all_eq_true.mp all), List.dropWhile_cons_of_neg (by simp [stop])]

theorem gap_not_ident {u : Nat} (gap : isGap u = true) : isIdentChar u = false := by
  simp only [isGap, Bool.or_eq_true, decide_eq_true_eq] at gap
  rcases gap with ((rfl | rfl) | rfl) | rfl <;> decide

theorem exportsMemberIsAssigned_iff {bytes : List Nat} : exportsMemberIsAssigned bytes = true ↔
    (∃ name beforeEqual after, bytes = 46 :: (name ++ (beforeEqual ++ 61 :: after)) ∧ name.all isIdentChar = true ∧
      beforeEqual.all isGap = true ∧ after.head? ≠ some 61) ∨
      ∃ after, bytes = 91 :: after ∧ assignmentFollows (afterIndex 1 after) = true := by
  unfold exportsMemberIsAssigned
  constructor
  · intro assigned
    split at assigned
    · rename_i rest
      obtain ⟨gap, after, split, gaps, single⟩ := assignmentFollows_iff.mp assigned
      have named := List.takeWhile_append_dropWhile (p := isIdentChar) (l := rest)
      rw [split] at named
      exact .inl ⟨rest.takeWhile isIdentChar, gap, after, by rw [named], List.all_takeWhile, gaps, single⟩
    · rename_i rest
      exact .inr ⟨rest, rfl, assigned⟩
    · cases assigned
  · rintro (⟨name, beforeEqual, after, rfl, named, gaps, single⟩ | ⟨after, rfl, assigned⟩)
    · have stop : (name ++ (beforeEqual ++ 61 :: after)).dropWhile isIdentChar = beforeEqual ++ 61 :: after := by
        cases beforeEqual with
        | nil => exact takeWhile_name named (by decide)
        | cons u beforeEqual =>
          simp only [List.all_cons, Bool.and_eq_true] at gaps
          exact takeWhile_name named (gap_not_ident gaps.1)
      change assignmentFollows _ = true
      rw [stop]
      exact assignmentFollows_iff.mpr ⟨beforeEqual, after, rfl, gaps, single⟩
    · exact assigned

theorem containsExportsAssignment_iff {bytes : List Nat} : containsExportsAssignment bytes = true ↔
    (∃ before beforeDot afterDot name beforeEqual after,
      ∃ split : bytes = before ++ (js "exports" ++ (beforeDot ++ 46 :: (afterDot ++ (name ++ (beforeEqual ++ 61 :: after))))),
        (Site.member before beforeDot afterDot name beforeEqual after split).rust) ∨
      ∃ before gap after, ∃ split : bytes = before ++ (js "exports" ++ (gap ++ 91 :: after)),
        (Site.index before gap after split).rust := by
  have letters : ∀ u ∈ js "exports", isIdentChar u = true := by decide
  rw [containsExportsAssignment, findFrom_iff (by decide) (fun u member after => by simp [letters u member])]
  simp only [Option.or_none, Bool.and_eq_true, Bool.not_eq_true', exportsMemberIsAssigned_iff]
  constructor
  · rintro ⟨before, _, split, -, free, ⟨name, beforeEqual, after, rfl, named, gaps, single⟩ | ⟨after, rfl, assigned⟩⟩
    · exact .inl ⟨before, [], [], name, beforeEqual, after, split, free, rfl, rfl, named, gaps, single⟩
    · exact .inr ⟨before, [], after, split, free, rfl, assigned⟩
  · rintro (⟨before, _, _, name, beforeEqual, after, split, free, rfl, rfl, named, gaps, single⟩ |
      ⟨before, _, after, split, free, rfl, assigned⟩)
    · exact ⟨before, _, split, Nat.zero_le _, free, .inl ⟨name, beforeEqual, after, rfl, named, gaps, single⟩⟩
    · exact ⟨before, _, split, Nat.zero_le _, free, .inr ⟨after, rfl, assigned⟩⟩

/-- The Rust runtime reports an artifact where what it scans has a site it reads. -/
theorem detectCommonjs_iff {source : List Char} :
    detectCommonjs source ≠ none ↔ ∃ site : Site (scanned source), site.rust := by
  have found : detectCommonjs source ≠ none ↔ containsRequireCall (scanned source) = true ∨
      js "module.exports" <:+: scanned source ∨ containsExportsAssignment (scanned source) = true := by
    unfold detectCommonjs
    split_ifs <;> simp [*]
  have whole : js "module.exports" = js "module" ++ 46 :: js "exports" := by decide
  rw [found, containsRequireCall_iff, containsExportsAssignment_iff]
  constructor
  · rintro (⟨before, gap, after, split, read⟩ | ⟨before, after, split⟩ |
      ⟨before, beforeDot, afterDot, name, beforeEqual, after, split, read⟩ | ⟨before, gap, after, split, read⟩)
    · exact ⟨_, read⟩
    · rw [whole] at split
      exact ⟨.module before [] [] after (by simp [← split]), rfl, rfl⟩
    · exact ⟨_, read⟩
    · exact ⟨_, read⟩
  · rintro ⟨site, read⟩
    cases site with
    | call before gap after split => exact .inl ⟨before, gap, after, split, read⟩
    | module before beforeDot afterDot after split =>
      obtain ⟨rfl, rfl⟩ := read
      exact .inr (.inl ⟨before, after, by rw [split, whole]; simp⟩)
    | member before beforeDot afterDot name beforeEqual after split =>
      exact .inr (.inr (.inl ⟨before, beforeDot, afterDot, name, beforeEqual, after, split, read⟩))
    | index before gap after split => exact .inr (.inr (.inr ⟨before, gap, after, split, read⟩))

/-- A text with no quote and no comment opener. -/
structure Plain (text : List Nat) : Prop where
  quotes : ∀ u ∈ text, u ≠ 34 ∧ u ≠ 39 ∧ u ≠ 96
  line : ¬ [47, 47] <:+: text
  block : ¬ [47, 42] <:+: text

theorem stripFrom_plain {text : List Nat} (plain : Plain text) : stripFrom .code text = text.map Char.ofNat := by
  induction text with
  | nil => rfl
  | cons u text ih =>
    have within : text <:+: u :: text := ⟨[u], [], by simp⟩
    have rest : Plain text := ⟨fun v member => plain.quotes v (List.mem_cons_of_mem u member),
      fun found => plain.line (found.trans within), fun found => plain.block (found.trans within)⟩
    have next : ∀ v, text.head? = some v → [u, v] <:+: u :: text := by
      intro v head
      obtain ⟨later, rfl⟩ := List.head?_eq_some_iff.mp head
      exact ⟨[], later, rfl⟩
    obtain ⟨double, single, template⟩ := plain.quotes u List.mem_cons_self
    rw [stripFrom, if_neg, if_neg, if_neg, ih rest, List.map_cons]
    · simp [double, single, template]
    · rintro ⟨rfl, head⟩
      exact plain.block (next 42 head)
    · rintro ⟨rfl, head⟩
      exact plain.line (next 47 head)

theorem flatMap_single {f : Char → List Nat} {s : List Char} (single : ∀ c ∈ s, f c = [c.toNat]) :
    s.flatMap f = s.map Char.toNat := by
  induction s with
  | nil => rfl
  | cons c s ih =>
    rw [List.flatMap_cons, single c List.mem_cons_self, ih fun d member => single d (List.mem_cons_of_mem c member)]
    rfl

/-- The scanners read a source of ASCII characters with no quote and no comment opener as it is. -/
theorem scanned_plain {source : List Char} (ascii : ∀ c ∈ source, c.toNat < 128) (plain : Plain (source.map Char.toNat)) :
    scanned source = utf16 source := by
  have bytes : asBytes source = source.map Char.toNat := flatMap_single fun c member => if_pos (ascii c member)
  have units : utf16 source = source.map Char.toNat :=
    flatMap_single fun c member => if_pos ((ascii c member).trans (by decide))
  have kept : stripStringsAndComments source = source := by
    rw [stripStringsAndComments, bytes, stripFrom_plain plain, List.map_map]
    exact List.map_id'' (fun c => Char.ofNat_toNat c) source
  rw [scanned, kept, bytes, units]

end Rust

/-- The three detectors all report an artifact, or none does. -/
def DetectorsAgree (source : List Char) : Prop :=
  (detectCommonJS (utf16 source) ≠ none ∧ Validate.detectCommonJs (utf16 source) ≠ none ∧ Rust.detectCommonjs source ≠ none) ∨
    (detectCommonJS (utf16 source) = none ∧ Validate.detectCommonJs (utf16 source) = none ∧ Rust.detectCommonjs source = none)

/-- The detectors agree where the source has a site the JavaScript runtime reads and what Rust scans has one Rust reads, or
where the validator and Rust read none. Rust scans a plain source as it is (`Rust.scanned_plain`). -/
theorem detectorsAgree_iff (source : List Char) : DetectorsAgree source ↔
    ((∃ site : Site (utf16 source), site.js) ∧ ∃ site : Site (Rust.scanned source), site.rust) ∨
      (∀ site : Site (utf16 source), ¬ site.validator) ∧ ∀ site : Site (Rust.scanned source), ¬ site.rust := by
  have noValidator := not_congr (@detectCommonJs_iff (utf16 source))
  have noRust := not_congr (@Rust.detectCommonjs_iff source)
  rw [not_not, not_exists] at noValidator noRust
  constructor
  · rintro (⟨byJs, -, byRust⟩ | ⟨-, byValidator, byRust⟩)
    · exact .inl ⟨detectCommonJS_iff.mp byJs, Rust.detectCommonjs_iff.mp byRust⟩
    · exact .inr ⟨noValidator.mp byValidator, noRust.mp byRust⟩
  · rintro (⟨⟨site, read⟩, byRust⟩ | ⟨byValidator, byRust⟩)
    · exact .inl ⟨detectCommonJS_iff.mpr ⟨site, read⟩, detectCommonJs_iff.mpr ⟨site, Site.validator_of_js read⟩,
        Rust.detectCommonjs_iff.mpr byRust⟩
    · refine .inr ⟨?_, noValidator.mpr byValidator, noRust.mpr byRust⟩
      by_contra byJs
      obtain ⟨site, read⟩ := detectCommonJS_iff.mp byJs
      exact byValidator site (Site.validator_of_js read)

/-- The JavaScript runtime's pattern for an indexed export wants the equals sign right after the bracket. -/
theorem detectors_exportsIndex : ¬ DetectorsAgree "exports[name] = run".toList := by
  have byJs : detectCommonJS (utf16 "exports[name] = run".toList) = none := by decide
  have byRust : Rust.detectCommonjs "exports[name] = run".toList = some .exportsMember := by decide
  rintro (⟨reported, -⟩ | ⟨-, -, unreported⟩)
  · exact reported byJs
  · rw [byRust] at unreported
    cases unreported

end CommonJs

end Xript
