import Xript.Expr.Eval
import Xript.Expr.Accepts

namespace Xript

namespace F64

theorem isFinite_iff {x : F64} : x.isFinite = true ↔ ∃ b, x = .finite b := by
  cases x <;> simp [isFinite]

theorem integral_isFinite (x : Binary64) {n : Int} (low : -(largest : Int) ≤ n) (high : n ≤ largest) :
    (integral x n).isFinite = true := by
  refine round_isFinite _ (abs_le.mpr ⟨?_, ?_⟩)
  · exact_mod_cast low
  · exact_mod_cast high

theorem floor_isFinite {x : F64} (finite : x.isFinite = true) : (floor x).isFinite = true := by
  obtain ⟨b, rfl⟩ := isFinite_iff.1 finite
  obtain ⟨low, high⟩ := abs_le.mp b.abs_value_le
  refine integral_isFinite b (Int.le_floor.mpr (by exact_mod_cast low)) ?_
  exact_mod_cast (Int.floor_le b.value).trans high

theorem ceil_isFinite {x : F64} (finite : x.isFinite = true) : (ceil x).isFinite = true := by
  obtain ⟨b, rfl⟩ := isFinite_iff.1 finite
  obtain ⟨low, high⟩ := abs_le.mp b.abs_value_le
  refine integral_isFinite b ?_ (Int.ceil_le.mpr (by exact_mod_cast high))
  exact_mod_cast low.trans (Int.le_ceil b.value)

theorem abs_isFinite {x : F64} (finite : x.isFinite = true) : (abs x).isFinite = true := by
  obtain ⟨b, rfl⟩ := isFinite_iff.1 finite
  rfl

theorem neg_isFinite {x : F64} (finite : x.isFinite = true) : (neg x).isFinite = true := by
  obtain ⟨b, rfl⟩ := isFinite_iff.1 finite
  rfl

end F64

theorem mathRound_isFinite {x : F64} (finite : x.isFinite = true) : (mathRound x).isFinite = true := by
  obtain ⟨b, rfl⟩ := F64.isFinite_iff.1 finite
  obtain ⟨low, high⟩ := abs_le.mp b.abs_value_le
  refine F64.integral_isFinite b (Int.le_floor.mpr ?_) (Int.floor_le_iff.mpr ?_)
  · push_cast
    linarith
  · push_cast
    linarith

theorem mathMin_isFinite {x y : F64} (finiteX : x.isFinite = true) (finiteY : y.isFinite = true) :
    (mathMin x y).isFinite = true := by
  obtain ⟨a, rfl⟩ := F64.isFinite_iff.1 finiteX
  obtain ⟨b, rfl⟩ := F64.isFinite_iff.1 finiteY
  simp only [mathMin, F64.isNaN, Bool.or_self, Bool.false_eq_true, if_false]
  split_ifs <;> rfl

theorem mathMax_isFinite {x y : F64} (finiteX : x.isFinite = true) (finiteY : y.isFinite = true) :
    (mathMax x y).isFinite = true := by
  obtain ⟨a, rfl⟩ := F64.isFinite_iff.1 finiteX
  obtain ⟨b, rfl⟩ := F64.isFinite_iff.1 finiteY
  simp only [mathMax, F64.isNaN, Bool.or_self, Bool.false_eq_true, if_false]
  split_ifs <;> rfl

theorem mathMin_infinite {x : F64} (finite : x.isFinite = true) : mathMin (.infinite false) x = x := by
  obtain ⟨b, rfl⟩ := F64.isFinite_iff.1 finite
  rfl

theorem mathMax_infinite {x : F64} (finite : x.isFinite = true) : mathMax (.infinite true) x = x := by
  obtain ⟨b, rfl⟩ := F64.isFinite_iff.1 finite
  rfl

theorem lengthNumber_isFinite (n : Nat) : (lengthNumber n).isFinite = true := by
  obtain ⟨x, exact, -⟩ := F64.ofNat_exact (show min n (2 ^ 53 - 1) < 2 ^ 53 by omega)
  rw [lengthNumber, exact]
  rfl

mutual

/-- Only finite numbers, and no key that names a prototype, at any depth. -/
def Json.Clean : Json → Prop
  | .num x => x.isFinite = true
  | .arr items => CleanItems items
  | .obj members => CleanMembers members
  | _ => True

def CleanItems : List Json → Prop
  | [] => True
  | item :: items => item.Clean ∧ CleanItems items

def CleanMembers : List (JSString × Json) → Prop
  | [] => True
  | (key, value) :: members => key ∉ forbiddenPropNames ∧ value.Clean ∧ CleanMembers members

end

theorem cleanItems_iff {items : List Json} : CleanItems items ↔ ∀ item ∈ items, item.Clean := by
  induction items with
  | nil => simp [CleanItems]
  | cons item items ih => simp [CleanItems, ih]

theorem CleanMembers.value {members : List (JSString × Json)} (clean : CleanMembers members) {entry : JSString × Json}
    (member : entry ∈ members) : entry.2.Clean := by
  induction members with
  | nil => cases member
  | cons first members ih =>
    obtain ⟨-, head, tail⟩ := clean
    rcases List.mem_cons.mp member with rfl | later
    · exact head
    · exact ih tail later

mutual

/-- A normalized host value is clean. -/
theorem toExprValue_clean : ∀ value : JsValue, (toExprValue value).Clean
  | .undefined | .null | .func _ _ | .bool _ | .str _ => by simp [toExprValue, Json.Clean]
  | .num x => by
    rw [toExprValue]
    split
    · rename_i finite
      simpa only [Json.Clean] using finite
    · simp only [Json.Clean]
  | .arr items => by
    simp only [toExprValue, Json.Clean]
    exact toExprItems_clean items
  | .obj members => by
    simp only [toExprValue, Json.Clean]
    exact toExprMembers_clean members

theorem toExprItems_clean : ∀ items : List JsValue, CleanItems (toExprItems items)
  | [] => by simp only [toExprItems, CleanItems]
  | item :: items => by
    simp only [toExprItems, CleanItems]
    exact ⟨toExprValue_clean item, toExprItems_clean items⟩

theorem toExprMembers_clean : ∀ members : List (JSString × JsValue), CleanMembers (toExprMembers members)
  | [] => by simp only [toExprMembers, CleanMembers]
  | (key, value) :: members => by
    rw [toExprMembers]
    split
    · exact toExprMembers_clean members
    · rename_i allowed
      simp only [CleanMembers]
      exact ⟨allowed, toExprValue_clean value, toExprMembers_clean members⟩

end

theorem clean_null : Json.Clean .null := trivial

theorem clean_bool (b : Bool) : Json.Clean (.bool b) := trivial

theorem clean_str (s : JSString) : Json.Clean (.str s) := trivial

theorem clean_num {x : F64} : Json.Clean (.num x) ↔ x.isFinite = true := Iff.rfl

theorem clean_arr {items : List Json} : Json.Clean (.arr items) ↔ CleanItems items := Iff.rfl

theorem clean_obj {members : List (JSString × Json)} : Json.Clean (.obj members) ↔ CleanMembers members := Iff.rfl

theorem finite_clean (x : F64) : (finite x).Clean := by
  unfold finite
  split
  · exact clean_num.2 ‹_›
  · exact clean_null

theorem asNumber_finite {value : ExprValue} {x : F64} (read : asNumber value = some x) : x.isFinite = true := by
  unfold asNumber at read
  split at read
  · split at read
    · rename_i finite
      exact Option.some.inj read ▸ finite
    · cases read
  · cases read

theorem itemAt_clean {items : List ExprValue} (clean : CleanItems items) (index : F64) :
    ((itemAt items index).getD .null).Clean := by
  unfold itemAt
  split
  · cases found : items[(toInteger index).toNat]? with
    | none => exact clean_null
    | some item => exact cleanItems_iff.1 clean item (List.mem_of_getElem? found)
  · exact clean_null

theorem get_clean {members : List (JSString × Json)} (clean : CleanMembers members) (key : JSString) :
    ((Record.get members key).getD .null).Clean := by
  cases found : Record.get members key with
  | none => exact clean_null
  | some value => exact clean.value (Record.mem_of_get found)

theorem unitAt_clean (text : JSString) (index : F64) : (unitAt text index).Clean := by
  unfold unitAt
  split
  · exact clean_str _
  · exact clean_null

/-- A member of a clean value is clean. -/
theorem readMember_clean {target : ExprValue} (clean : target.Clean) (key : MemberKey) :
    (readMember target key).Clean := by
  unfold readMember
  split
  · split
    · exact unitAt_clean ..
    · exact clean_null
  · split
    · exact clean_num.2 (lengthNumber_isFinite _)
    · exact clean_null
  · split
    · exact clean_num.2 (lengthNumber_isFinite _)
    · exact itemAt_clean (clean_arr.1 clean) _
  · exact itemAt_clean (clean_arr.1 clean) _
  · exact get_clean (clean_obj.1 clean) _
  · exact get_clean (clean_obj.1 clean) _
  · exact clean_null

/-- A run that returns, and returns a clean value. -/
def Yields (run : Except Thrown ExprValue) : Prop := ∃ value, run = .ok value ∧ value.Clean

theorem yields_ok {value : ExprValue} (clean : value.Clean) : Yields (.ok value) := ⟨value, rfl, clean⟩

theorem yields_null : Yields (.ok .null) := yields_ok clean_null

theorem yields_ite {c : Prop} [Decidable c] {first second : Except Thrown ExprValue} (yes : Yields first)
    (no : Yields second) : Yields (if c then first else second) := by
  split
  · exact yes
  · exact no

section

variable {args : List ExprValue}

theorem argument_clean (clean : CleanItems args) (i : Nat) : (argument args i).Clean := by
  unfold argument
  rw [List.getD_eq_getElem?_getD]
  cases found : args[i]? with
  | none => exact clean_null
  | some item => exact cleanItems_iff.1 clean item (List.mem_of_getElem? found)

theorem ofNumber_yields {f : F64 → F64} (keeps : ∀ {x : F64}, x.isFinite = true → (f x).isFinite = true) :
    Yields (ofNumber args f) := by
  unfold ofNumber
  split
  · exact yields_ok (clean_num.2 (keeps (asNumber_finite ‹_›)))
  · exact yields_null

theorem ofString_yields (f : JSString → JSString) : Yields (ofString args f) := by
  unfold ofString
  split
  · exact yields_ok (clean_str _)
  · exact yields_null

theorem asNumbers_finite {nums : List F64} (read : asNumbers args = some nums) :
    nums.length = args.length ∧ ∀ x ∈ nums, x.isFinite = true := by
  rw [asNumbers] at read
  induction args generalizing nums with
  | nil =>
    obtain rfl : [] = nums := Option.some.inj read
    exact ⟨rfl, fun x member => nomatch member⟩
  | cons arg args ih =>
    rw [List.mapM_cons] at read
    obtain ⟨x, first, read⟩ := Option.bind_eq_some_iff.mp read
    obtain ⟨rest, others, read⟩ := Option.bind_eq_some_iff.mp read
    obtain rfl : x :: rest = nums := Option.some.inj read
    obtain ⟨length, finite⟩ := ih others
    refine ⟨by rw [List.length_cons, List.length_cons, length], ?_⟩
    intro y member
    rcases List.mem_cons.mp member with rfl | later
    · exact asNumber_finite first
    · exact finite y later

/-- `min` and `max` of at least one number; of no number they would be infinite. -/
theorem foldNumbers_yields {f : F64 → F64 → F64} {none : F64} (nonempty : args ≠ [])
    (unit : ∀ {x : F64}, x.isFinite = true → f none x = x)
    (keeps : ∀ {x y : F64}, x.isFinite = true → y.isFinite = true → (f x y).isFinite = true) :
    Yields (foldNumbers args f none) := by
  have folded : ∀ (nums : List F64) (x : F64), x.isFinite = true → (∀ y ∈ nums, y.isFinite = true) →
      (nums.foldl f x).isFinite = true := by
    intro nums
    induction nums with
    | nil => exact fun x finite _ => finite
    | cons y nums ih =>
      intro x finite all
      exact ih (f x y) (keeps finite (all y (List.mem_cons_self ..))) fun z later =>
        all z (List.mem_cons_of_mem _ later)
  unfold foldNumbers
  split
  · rename_i nums read
    obtain ⟨length, finite⟩ := asNumbers_finite read
    refine yields_ok (clean_num.2 ?_)
    cases nums with
    | nil => exact absurd (List.eq_nil_of_length_eq_zero length.symm) nonempty
    | cons x nums =>
      have first := finite x (List.mem_cons_self ..)
      rw [List.foldl_cons, unit first]
      exact folded nums x first fun y later => finite y (List.mem_cons_of_mem _ later)
  · exact yields_null

theorem callClamp_yields : Yields (callClamp args) := by
  unfold callClamp
  split
  · rename_i x lo hi readX readLo readHi
    split
    · exact yields_null
    · exact yields_ok (clean_num.2 (mathMin_isFinite (mathMax_isFinite (asNumber_finite readX)
        (asNumber_finite readLo)) (asNumber_finite readHi)))
  · exact yields_null

/-- The digits `fixed` lets through are ones `toFixed` takes. -/
theorem callFixed_yields : Yields (callFixed args) := by
  unfold callFixed
  split
  · split
    · rename_i n _ _ inside
      rw [toFixedText, if_neg (by omega)]
      exact yields_ok (clean_str _)
    · exact yields_null
  · exact yields_null

/-- `pad` repeats its filler a non-negative number of times. -/
theorem padText_yields (s : JSString) (n : Int) {ch : JSString} (some : ch ≠ []) : Yields (padText s n ch) := by
  unfold padText
  split
  · exact yields_ok (clean_str _)
  · rename_i short
    have width : 0 < (ch.length : Int) := by
      have := List.length_pos_iff.mpr some
      omega
    have count : 0 ≤ (n - s.length + ch.length - 1) / (ch.length : Int) :=
      Int.ediv_nonneg (by omega) width.le
    simp only [repeatText]
    rw [if_neg (by omega)]
    exact yields_ok (clean_str _)

theorem callPad_yields : Yields (callPad args) := by
  simp only [callPad]
  split
  · split
    · rename_i inside
      exact padText_yields _ _ inside.2.2.2
    · exact yields_null
  · exact yields_null

theorem callSlice_yields : Yields (callSlice args) := by
  simp only [callSlice]
  split
  · split
    · split
      · exact yields_ok (clean_str _)
      · exact yields_null
    · exact yields_ok (clean_str _)
  · exact yields_null

theorem callLen_yields : Yields (callLen args) := by
  unfold callLen
  split
  · exact yields_ok (clean_num.2 (lengthNumber_isFinite _))
  · exact yields_ok (clean_num.2 (lengthNumber_isFinite _))
  · exact yields_ok (clean_num.2 (lengthNumber_isFinite _))
  · exact yields_null

theorem callHas_yields : Yields (callHas args) := by
  unfold callHas
  split
  · split <;> exact yields_ok (clean_bool _)
  · exact yields_ok (clean_bool _)
  · split <;> exact yields_ok (clean_bool _)
  · exact yields_null

theorem callJoin_yields : Yields (callJoin args) := by
  simp only [callJoin]
  split
  · exact yields_ok (clean_str _)
  · exact yields_null

theorem callAt_yields (clean : CleanItems args) : Yields (callAt args) := by
  have target := argument_clean clean 0
  unfold callAt
  split
  · split
    · split
      · exact yields_ok (unitAt_clean ..)
      · rename_i items same
        rw [same] at target
        exact yields_ok (itemAt_clean (clean_arr.1 target) _)
      · exact yields_null
    · exact yields_null
  · exact yields_null

theorem callNum_yields : Yields (callNum args) := by
  unfold callNum
  split
  · exact yields_ok (finite_clean _)
  · refine yields_ok (clean_num.2 ?_)
    rename_i b _
    cases b <;> decide +kernel
  · split
    · exact yields_null
    · exact yields_ok (finite_clean _)
  · exact yields_null

/-- No builtin throws, and each gives a clean value; `min` and `max` of at least one argument. -/
theorem callBuiltin_yields (clean : CleanItems args) (nonempty : args ≠ []) (name : JSString) :
    Yields (callBuiltin args name) := by
  unfold callBuiltin
  refine yields_ite (ofNumber_yields F64.abs_isFinite) ?_
  refine yields_ite (ofNumber_yields mathRound_isFinite) ?_
  refine yields_ite (ofNumber_yields F64.floor_isFinite) ?_
  refine yields_ite (ofNumber_yields F64.ceil_isFinite) ?_
  refine yields_ite (foldNumbers_yields nonempty mathMin_infinite mathMin_isFinite) ?_
  refine yields_ite (foldNumbers_yields nonempty mathMax_infinite mathMax_isFinite) ?_
  refine yields_ite callClamp_yields ?_
  refine yields_ite callFixed_yields ?_
  refine yields_ite (ofString_yields _) ?_
  refine yields_ite (ofString_yields _) ?_
  refine yields_ite (ofString_yields _) ?_
  refine yields_ite callPad_yields ?_
  refine yields_ite callSlice_yields ?_
  refine yields_ite callLen_yields ?_
  refine yields_ite callHas_yields ?_
  refine yields_ite callJoin_yields ?_
  refine yields_ite (callAt_yields clean) ?_
  refine yields_ite (yields_ok (clean_str _)) ?_
  refine yields_ite callNum_yields ?_
  refine yields_ite (yields_ok (clean_bool _)) ?_
  exact yields_null

end

end Xript
