import ManifestAssist.Metrics.Exposition
import ManifestAssist.Proofs.Metrics.Registry
import ManifestAssist.Proofs.Text.Lines
import ManifestAssist.Proofs.Text.Split

/-! # Comments of an exposition

A comment tells of a family if it has one of two keywords in front and the name of the family a
space behind it. Each keyword sets a field of its own, so comments next to each other may change
places unless they share both the keyword and the name.
-/

namespace ManifestAssist

open Text

namespace Exposition

variable {line comment : Text} {keyword name : String} {told : Exposition}

/-- The keywords of comments that tell of a family. -/
def keywords : List String :=
  ["HELP", "TYPE"]

def IsComment (line : Text) : Prop :=
  ∃ comment, trim line = '#' :: comment

/-- Is the line a comment with the keyword in front and the name a space behind it? The name goes on
to the next space or to the end. -/
def Tells (line : Text) (keyword name : String) : Prop :=
  ' ' ∉ name.toList ∧ ∃ comment behind, trim line = '#' :: comment ∧
    trimStart comment = keyword.toList ++ ' ' :: (name.toList ++ behind) ∧
    ∀ c ∈ behind.head?, c = ' '

/-- The keyword and the name of a family that is told of without a sample. -/
def heading? : Exposition → Option (String × String)
  | help name _ => some ("HELP", name)
  | kind name _ => some ("TYPE", name)
  | sample _ _ => none

theorem bind_ofComment?_heading?_eq_some_iff :
    (ofComment? comment).bind heading? = some (keyword, name) ↔
      keyword ∈ keywords ∧ ∃ rest, splitFirst ' ' (trimStart comment) = some (keyword.toList, rest) ∧
        rest.takeWhile (· != ' ') = name.toList := by
  cases hsplit : splitFirst ' ' (trimStart comment) with
  | none => simp [ofComment?, hsplit]
  | some parts =>
    obtain ⟨word, rest⟩ := parts
    simp only [ofComment?, hsplit, Option.bind_eq_bind, Option.bind_some, ← fst_getD_splitFirst,
      Option.some.injEq, Prod.mk.injEq, and_assoc, exists_and_left, exists_eq_left']
    generalize (splitFirst ' ' rest).getD (rest, []) = parts
    -- both keywords head a comment alike: the words of the two sides are compared
    have hhead {word : String} (hword : word ∈ keywords) :
        some (word, String.ofList parts.1) = some (keyword, name) ↔
          keyword ∈ keywords ∧ word.toList = keyword.toList ∧ parts.1 = name.toList := by
      rw [Option.some.injEq, Prod.mk.injEq, ← String.toList_inj, ← String.toList_inj,
        String.toList_ofList]
      apply (and_iff_right_of_imp _).symm
      rintro ⟨heq, -⟩
      exact String.toList_inj.mp heq ▸ hword
    split
    · next hword =>
      rw [hword]
      exact hhead (by decide)
    · next hhelp =>
      split
      · next hword =>
        rw [hword]
        exact hhead (by decide)
      · next htype =>
        rw [Option.bind_none]
        refine ⟨nofun, ?_⟩
        rintro ⟨hkeyword, hword, -⟩
        rcases List.mem_pair.mp hkeyword with rfl | rfl
        · exact absurd hword hhelp
        · exact absurd hword htype

theorem exists_of_ofSample? (h : ofSample? line = some told) :
    ∃ series labels, told = .sample series labels ∧ series ≠ "" := by
  simp only [ofSample?, Option.bind_eq_bind, Option.bind_eq_some_iff, Option.pure_def] at h
  generalize line.span (fun c => !(c == '\x7b' || isBlank c)) = parts at h
  obtain ⟨⟨⟩, hguard, h⟩ := h
  have hne : String.ofList parts.1 ≠ "" := by
    rw [Ne, ← String.toList_inj, String.toList_ofList, String.toList_empty]
    intro hnil
    simp [hnil] at hguard
  split at h
  · obtain ⟨labels, -, h⟩ := Option.bind_eq_some_iff.mp h
    exact ⟨_, labels, (Option.some.inj h).symm, hne⟩
  · exact ⟨_, [], (Option.some.inj h).symm, hne⟩

theorem ofLine?_of_comment (h : trim line = '#' :: comment) :
    ofLine? line = ofComment? comment := by
  simp [ofLine?, h]

theorem exists_of_not_isComment (h : ¬ IsComment line) (hline : ofLine? line = some told) :
    ∃ series labels, told = .sample series labels ∧ series ≠ "" := by
  unfold ofLine? at hline
  split at hline
  · cases hline
  · next comment hcomment => exact absurd ⟨comment, hcomment⟩ h
  · exact exists_of_ofSample? hline

theorem bind_ofLine?_heading?_eq_some_iff :
    (ofLine? line).bind heading? = some (keyword, name) ↔
      keyword ∈ keywords ∧ Tells line keyword name := by
  by_cases hcomment : IsComment line
  · obtain ⟨comment, hcomment⟩ := hcomment
    rw [ofLine?_of_comment hcomment, bind_ofComment?_heading?_eq_some_iff]
    apply and_congr_right
    intro hkeyword
    have hspace : ' ' ∉ keyword.toList := by
      rcases List.mem_pair.mp hkeyword with rfl | rfl <;> decide
    simp only [splitFirst_eq_some_iff, takeWhile_ne_eq_iff]
    constructor
    · rintro ⟨_, ⟨-, hfront⟩, hname, behind, rfl, hbehind⟩
      exact ⟨hname, comment, behind, hcomment, hfront, hbehind⟩
    · rintro ⟨hname, comment', behind, hcomment', hfront, hbehind⟩
      obtain ⟨-, rfl⟩ := List.cons.inj (hcomment.symm.trans hcomment')
      exact ⟨_, ⟨hspace, hfront⟩, hname, behind, rfl, hbehind⟩
  · constructor
    · intro h
      obtain ⟨told, hline, hheading⟩ := Option.bind_eq_some_iff.mp h
      obtain ⟨_, _, rfl, -⟩ := exists_of_not_isComment hcomment hline
      cases hheading
    · rintro ⟨-, -, comment, -, htrim, -⟩
      exact absurd ⟨comment, htrim⟩ hcomment

theorem exists_heading?_of_isComment (h : IsComment line) (hline : ofLine? line = some told) :
    ∃ keyword name, told.heading? = some (keyword, name) := by
  obtain ⟨comment, hcomment⟩ := h
  rw [ofLine?_of_comment hcomment] at hline
  simp only [ofComment?, Option.bind_eq_bind, Option.bind_eq_some_iff] at hline
  obtain ⟨_, -, hline⟩ := hline
  split at hline
  · obtain rfl := Option.some.inj hline
    exact ⟨_, _, rfl⟩
  · split at hline
    · obtain rfl := Option.some.inj hline
      exact ⟨_, _, rfl⟩
    · cases hline

/-- What a line that tells of a family sets in it. -/
def set : Exposition → Family → Family
  | help _ text, family => { family with help := text }
  | kind _ known, family => { family with kind := known }
  | sample _ _, family => family

end Exposition

namespace Scrape

open Exposition

variable {scrape : Scrape} {told told' : Exposition} {keyword keyword' name name' : String}
  {first second : Text}

theorem add_of_heading? (h : told.heading? = some (keyword, name)) :
    scrape.add told = scrape.modify name {} told.set := by
  cases told with
  | help name help =>
    obtain ⟨-, rfl⟩ := Prod.mk.inj (Option.some.inj h)
    rfl
  | kind name kind =>
    obtain ⟨-, rfl⟩ := Prod.mk.inj (Option.some.inj h)
    rfl
  | sample series labels => cases h

theorem set_set_comm (h : told.heading? = some (keyword, name))
    (h' : told'.heading? = some (keyword', name)) (hne : keyword ≠ keyword') (family : Family) :
    told'.set (told.set family) = told.set (told'.set family) := by
  cases told <;> cases told' <;> simp_all [heading?, Exposition.set]

theorem add_add_comm (h : told.heading? = some (keyword, name))
    (h' : told'.heading? = some (keyword', name')) (hne : (keyword, name) ≠ (keyword', name')) :
    (scrape.add told).add told' = (scrape.add told').add told := by
  rw [add_of_heading? h, add_of_heading? h', add_of_heading? h', add_of_heading? h]
  apply Registry.modify_modify_comm
  rintro rfl
  apply set_set_comm h h'
  rintro rfl
  exact hne rfl

/-- Two comments leave the same in either order unless they share both the keyword and the name. -/
theorem foldl_add_swap (hfirst : IsComment first) (hsecond : IsComment second)
    (hdiffer : ∀ keyword ∈ keywords, ∀ name,
      ¬ (Tells first keyword name ∧ Tells second keyword name)) :
    ([first, second].filterMap ofLine?).foldl add scrape =
      ([second, first].filterMap ofLine?).foldl add scrape := by
  cases htold : ofLine? first with
  | none => simp [List.filterMap_cons, htold]
  | some told =>
    cases htold' : ofLine? second with
    | none => simp [htold, htold']
    | some told' =>
      obtain ⟨keyword, name, hheading⟩ := exists_heading?_of_isComment hfirst htold
      obtain ⟨keyword', name', hheading'⟩ := exists_heading?_of_isComment hsecond htold'
      have hne : (keyword, name) ≠ (keyword', name') := by
        intro heq
        have hbind : (ofLine? first).bind heading? = some (keyword, name) := by
          rw [htold, Option.bind_some, hheading]
        have hbind' : (ofLine? second).bind heading? = some (keyword, name) := by
          rw [htold', Option.bind_some, hheading', heq]
        obtain ⟨hkeyword, htells⟩ := bind_ofLine?_heading?_eq_some_iff.mp hbind
        obtain ⟨-, htells'⟩ := bind_ofLine?_heading?_eq_some_iff.mp hbind'
        exact hdiffer keyword hkeyword name ⟨htells, htells'⟩
      simpa [List.filterMap_cons, htold, htold'] using add_add_comm hheading hheading' hne

/-- Comments next to each other change places without effect unless they share both the keyword and
the name. -/
theorem ofExposition_swap_comments {text : Text} {above below : List Text}
    (hlines : splitAll '\n' text = above ++ first :: second :: below)
    (hfirst : IsComment first) (hsecond : IsComment second)
    (hdiffer : ∀ keyword ∈ keywords, ∀ name,
      ¬ (Tells first keyword name ∧ Tells second keyword name)) :
    ofExposition (['\n'].intercalate (above ++ second :: first :: below)) = ofExposition text := by
  have hread : splitAll '\n' (['\n'].intercalate (above ++ second :: first :: below)) =
      above ++ second :: first :: below := by
    apply splitAll_intercalate (by simp)
    intro line hline
    have hmem : line ∈ splitAll '\n' text := by
      rw [hlines]
      simp only [List.mem_append, List.mem_cons] at hline ⊢
      tauto
    exact not_mem_of_mem_splitAll hmem
  have hcut (line line' : Text) :
      above ++ line :: line' :: below = above ++ [line, line'] ++ below := by
    simp
  rw [ofExposition, ofExposition, hread, hlines, hcut, hcut]
  simp only [List.filterMap_append, List.foldl_append]
  rw [foldl_add_swap hfirst hsecond hdiffer]

/-- The kind and the description of a family, which a sample renames. -/
def kindAndHelp : Text :=
  "# TYPE x counter\n#HELP x what x counts\nx_total 1".toList

theorem ofExposition_swap_comments_kindAndHelp :
    (splitAll '\n' kindAndHelp =
          [] ++ "# TYPE x counter".toList :: "#HELP x what x counts".toList ::
            ["x_total 1".toList] ∧
        IsComment "# TYPE x counter".toList ∧ IsComment "#HELP x what x counts".toList ∧
        ∀ keyword ∈ keywords, ∀ name, ¬ (Tells "# TYPE x counter".toList keyword name ∧
          Tells "#HELP x what x counts".toList keyword name)) ∧
      ofExposition (['\n'].intercalate ([] ++ "#HELP x what x counts".toList ::
        "# TYPE x counter".toList :: ["x_total 1".toList])) = ofExposition kindAndHelp := by
  have hlines : splitAll '\n' kindAndHelp =
      [] ++ "# TYPE x counter".toList :: "#HELP x what x counts".toList :: ["x_total 1".toList] := by
    cbv
  have hkind : IsComment "# TYPE x counter".toList := ⟨" TYPE x counter".toList, by cbv⟩
  have hhelp : IsComment "#HELP x what x counts".toList := ⟨"HELP x what x counts".toList, by cbv⟩
  have hdiffer : ∀ keyword ∈ keywords, ∀ name, ¬ (Tells "# TYPE x counter".toList keyword name ∧
      Tells "#HELP x what x counts".toList keyword name) := by
    rintro keyword hkeyword name ⟨htells, htells'⟩
    have hread : (ofLine? "# TYPE x counter".toList).bind heading? = some ("TYPE", "x") := by
      decide +kernel
    have hread' : (ofLine? "#HELP x what x counts".toList).bind heading? = some ("HELP", "x") := by
      decide +kernel
    rw [bind_ofLine?_heading?_eq_some_iff.mpr ⟨hkeyword, htells⟩] at hread
    rw [bind_ofLine?_heading?_eq_some_iff.mpr ⟨hkeyword, htells'⟩, hread] at hread'
    simp at hread'
  exact ⟨⟨hlines, hkind, hhelp, hdiffer⟩, ofExposition_swap_comments hlines hkind hhelp hdiffer⟩

end Scrape

end ManifestAssist
