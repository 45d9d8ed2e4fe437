import Xript.Sanitize.Segments

namespace Xript

/-- A site stands in the text between its braces. -/
theorem Reads.site_stands {s : JSString} {parts : List TextPart} (reads : Reads s parts) :
    ∀ {i k : Nat} {body : JSString}, (k, body) ∈ sitesFrom i parts →
      ∃ before after, s = before ++ (123 :: 123 :: (body ++ 125 :: 125 :: after)) ∧ k = i + before.length := by
  induction reads with
  | done =>
    intro i k body member
    cases member
  | escape _ ih =>
    intro i k body member
    obtain ⟨before, after, rfl, rfl⟩ := ih member
    exact ⟨92 :: 123 :: 123 :: before, after, rfl, by simp only [List.length_cons]; omega⟩
  | opener _ _ ih =>
    intro i k body member
    obtain ⟨before, after, rfl, rfl⟩ := ih member
    exact ⟨123 :: 123 :: before, after, rfl, by simp only [List.length_cons]; omega⟩
  | @site s first rest parts closed _ ih =>
    intro i k body member
    rw [sitesFrom, List.mem_cons] at member
    rcases member with here | later
    · cases here
      refine ⟨[], rest, ?_, rfl⟩
      rw [breakOn_split closed]
      simp
    · obtain ⟨before, after, rfl, rfl⟩ := ih later
      refine ⟨123 :: 123 :: (first ++ 125 :: 125 :: before), after, ?_, ?_⟩
      · rw [breakOn_split closed]
        simp
      · simp only [List.length_cons, List.length_append]
        omega
  | unit _ _ _ ih =>
    intro i k body member
    obtain ⟨before, after, rfl, rfl⟩ := ih member
    exact ⟨_ :: before, after, rfl, by simp only [List.length_cons]; omega⟩

/-- The sites of a text, each with the offset it opens at. -/
def textSites (text : JSString) : List (Nat × JSString) := sitesFrom 0 (textParts text)

/-- A position of the text is the one of an error in the trimmed source of the site that opens at `i`. -/
def PointsAt (text : JSString) (i : Nat) (body : JSString) (error position : Nat) : Prop :=
  ∃ before after : JSString, before.all isSpace ∧ after.all isSpace ∧ body = before ++ trim body ++ after ∧
    position = i + 2 + before.length + error ∧ (trim body).drop error <+: text.drop position

/-- Such a position shows the rest of the source. -/
theorem pointsAt_of_split {text before after body : JSString} {i error : Nat} (site : (i, body) ∈ textSites text)
    (spaceBefore : before.all isSpace) (spaceAfter : after.all isSpace) (split : body = before ++ trim body ++ after) :
    PointsAt text i body error (i + 2 + before.length + error) := by
  refine ⟨before, after, spaceBefore, spaceAfter, split, rfl, ?_⟩
  obtain ⟨front, back, whole, offset⟩ := (reads_textParts text).site_stands site
  rw [Nat.zero_add] at offset
  have here : text = (front ++ [123, 123] ++ before) ++ (trim body ++ (after ++ 125 :: 125 :: back)) := by
    rw [whole]
    conv_lhs => rw [split]
    simp
  have length : (front ++ [123, 123] ++ before).length = i + 2 + before.length := by
    simp only [List.length_append, List.length_cons, List.length_nil, offset]
  rw [here, ← length, List.drop_length_add_append, List.drop_append]
  exact List.prefix_append _ _

/-- `segmentText` reports the issues of the text's sites. The issue of a site whose body is not an expression points
at the mistake exactly when the body holds no other opener and no white space stands in front of its source. -/
theorem segmentText_points_iff (text : JSString) :
    (segmentText text).2 = ((textSites text).flatMap fun site => siteIssues site.1 site.2) ∧
      ∀ i body e, (i, body) ∈ textSites text →
        parseExpression defaultMaxExpressionNodes (trim body) = .error e →
        ∀ issue ∈ siteIssues i body,
          (PointsAt text i body e.position issue.position ↔
            ¬js "\x7b\x7b" <:+: body ∧ (trim body = [] ∨ body.takeWhile isSpace = [])) := by
  refine ⟨by rw [segmentText_eq]; rfl, ?_⟩
  intro i body e site failed issue reported
  rw [siteIssues] at reported
  split at reported
  · rename_i nested
    obtain rfl := List.mem_singleton.mp reported
    refine iff_of_false ?_ fun condition => condition.1 nested
    rintro ⟨before, after, -, -, -, position, -⟩
    dsimp only at position
    omega
  · rename_i plain
    rw [failed] at reported
    obtain rfl := List.mem_singleton.mp reported
    constructor
    · rintro ⟨before, after, space, -, split, position, -⟩
      refine ⟨plain, or_iff_not_imp_left.mpr fun solid => ?_⟩
      rw [← trim_before space split solid]
      dsimp only at position
      exact List.eq_nil_of_length_eq_zero (by omega)
    · rintro ⟨-, blank | flush⟩
      · have split : body = [] ++ trim body ++ body := by rw [blank]; rfl
        exact pointsAt_of_split site rfl (trim_eq_nil.mp blank) split
      · obtain ⟨after, space, split⟩ := trim_split body
        rw [flush] at split
        exact pointsAt_of_split site rfl space split

theorem segmentText_points_flush : PointsAt (js "a \x7b\x7b@\x7d\x7d") 2 (js "@") 0 4 := by
  have failed : parseExpression defaultMaxExpressionNodes (trim (js "@")) = .error ⟨0, js "unexpected character '@'"⟩ := by
    rfl
  have reported := segmentText_points_iff (js "a \x7b\x7b@\x7d\x7d")
  exact (reported.2 2 (js "@") _ (by decide +kernel) failed ⟨4, js "unexpected character '@'"⟩ (by decide +kernel)).mpr
    ⟨by decide +kernel, .inr (by decide +kernel)⟩

/-- With white space in front of the source the position falls short of the mistake by as much. -/
theorem segmentText_points_early :
    ¬∀ text i body e, (i, body) ∈ textSites text →
      parseExpression defaultMaxExpressionNodes (trim body) = .error e →
      ∀ issue ∈ siteIssues i body, PointsAt text i body e.position issue.position := by
  intro points
  have failed : parseExpression defaultMaxExpressionNodes (trim (js " @")) = .error ⟨0, js "unexpected character '@'"⟩ := by
    rfl
  obtain ⟨before, after, space, -, split, position, -⟩ := points (js "\x7b\x7b @\x7d\x7d") 0 (js " @") _
    (by decide +kernel) failed ⟨2, js "unexpected character '@'"⟩ (by decide +kernel)
  rw [trim_before space split (by decide +kernel)] at position
  exact absurd position (by decide +kernel)

end Xript
