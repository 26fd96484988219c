import Xola.Memory.EpisodicLog

/-!
# Searching goals for a keyword

`find_similar_goals` escapes a keyword in three passes, each over the output of the one before. The
pass for the backslash comes first, so it meets none of the escapes of the others, and the later two
leave backslashes alone. So the passes escape each special character once, and the search is one for
the keyword as it stands.
-/

namespace Xola.EpisodicLog

/-- The three passes are one. -/
theorem escaped_toList (keyword : String) :
    (escaped keyword).toList = keyword.toList.flatMap likeSyntax.quote := by
  simp only [escaped, replaceChar, String.toList_ofList, List.flatMap_assoc]
  apply List.flatMap_congr
  intro c _
  by_cases hescape : c = '\\'
  · subst hescape
    decide
  · by_cases hany : c = '%'
    · subst hany
      decide
    · by_cases hone : c = '_'
      · subst hone
        decide
      · have hspecial : ¬likeSyntax.Special c := by
          rintro (h | h | h)
          · exact hany h
          · exact hone h
          · exact hescape h
        rw [Like.Syntax.quote, if_neg hspecial]
        simp [hescape, hany, hone]

theorem pattern_toList (keyword : String) :
    (pattern keyword).toList =
      likeSyntax.any :: (keyword.toList.flatMap likeSyntax.quote ++ [likeSyntax.any]) := by
  rw [pattern, String.toList_append, String.toList_append, escaped_toList]
  rfl

/-- **A keyword is searched for as it stands.** Whatever the characters of the keyword and of the
goal, the pattern is one that has a meaning, and it matches exactly if the keyword occurs in the goal
under the folding. -/
theorem similarGoal_eq {β : Type} [DecidableEq β] (fold : Char → β) (keyword taskGoal : String) :
    similarGoal fold keyword taskGoal =
      some (decide (keyword.toList.map fold <:+: taskGoal.toList.map fold)) := by
  rw [similarGoal, pattern_toList]
  exact Like.like_escape _ _ _

example : similarGoal Char.toLower "50%_\\" "save 50%_\\ MORE" = some true := by decide +kernel

example : similarGoal Char.toLower "a_c" "abc" = some false := by decide +kernel

end Xola.EpisodicLog
