import MoonShot.Tokenizer.StepAgreement

/-!
The stemmer beside the published algorithm.

Owns the runs of both behind step 1a, the proof that a slip shortens the stem, and the exact
condition for the published stem.

Does not own the published algorithm.
-/

namespace MoonShot.Tokenizer

open MoonShot.Lib
open Porter2

/-! ## Steps that find no suffix -/

/-- Words with this ending meet no suffix of the table. -/
theorem applyLongest_apart {rules : List Rule} {word : Word} {tail : String} (region : Nat)
    (ends : endsWith word tail = true)
    (apart : ∀ suffix ∈ rules.map Rule.suffix, meets tail suffix = false) :
    applyLongest rules region word = word :=
  applyLongest_none fun rule member =>
    not_ends_of_apart ends (apart rule.suffix (List.mem_map_of_mem member))

theorem firstInRegion_apart {table : List (String × String)} {word : Word} {tail : String}
    (region : Nat) (ends : endsWith word tail = true)
    (apart : ∀ entry ∈ table, meets tail entry.1 = false) :
    firstInRegion table region word = none := by
  refine List.find?_eq_none.mpr fun entry member => ?_
  rw [inRegion_false region (not_ends_of_apart ends (apart entry member))]
  decide

theorem last_of_ends {word : Word} {tail : String} (ends : endsWith word tail = true) {letter : Char}
    (last : tail.toList.getLast? = some letter) : word.getLast? = some letter := by
  obtain ⟨before, rfl⟩ := endsWith_iff.mp ends
  have nonempty : tail.toList ≠ [] := by
    intro empty
    rw [empty] at last
    cases last
  rw [List.getLast?_append_of_ne_nil _ nonempty, last]

theorem step5_other {word : Word} {letter : Char} (r1 r2 : Nat) (last : word.getLast? = some letter)
    (notE : letter ≠ 'e') (notL : letter ≠ 'l') : Porter2.step5 r1 r2 word = word := by
  rw [Porter2.step5, last, if_neg fun same => notE (Option.some_inj.mp same),
    if_neg fun same => notL (Option.some_inj.mp same)]

theorem step1c_other {word : Word} {letter : Char} (last : word.getLast? = some letter)
    (notY : letter ≠ 'y') (notCapital : letter ≠ 'Y') : Porter2.step1c word = word := by
  unfold Porter2.step1c
  split
  · rename_i final before first rest shape
    have same : word.getLast? = some final := by
      rw [List.getLast?_eq_head?_reverse, shape]
      rfl
    obtain rfl := Option.some_inj.mp (last.symm.trans same)
    exact if_neg fun both => both.1.elim notY notCapital
  · rfl

/-- Steps 3 to 5 leave a word with such an ending. -/
theorem lastSteps_apart {word : Word} {tail : String} {letter : Char} (r1 r2 : Nat)
    (ends : endsWith word tail = true)
    (apart3 : ∀ suffix ∈ (Porter2.step3Rules 0).map Rule.suffix, meets tail suffix = false)
    (apart4 : ∀ suffix ∈ Porter2.step4Rules.map Rule.suffix, meets tail suffix = false)
    (last : tail.toList.getLast? = some letter) (notE : letter ≠ 'e') (notL : letter ≠ 'l') :
    Porter2.step5 r1 r2 (Porter2.step4 r2 (Porter2.step3 r1 r2 word)) = word := by
  have third : Porter2.step3 r1 r2 word = word := applyLongest_apart r1 ends (by
    rw [step3_suffixes]
    exact apart3)
  have fourth : Porter2.step4 r2 word = word := applyLongest_apart r2 ends apart4
  rw [third, fourth]
  exact step5_other r1 r2 (last_of_ends ends last) notE notL

/-! ## `ization` -/

/-- Behind `ation` R2 starts two letters behind R1. -/
theorem region2_of_ization {token word : Word} (agrees : ∀ limit, Agrees token limit word)
    (ends : endsWith word "ization" = true)
    (start : region1 token = (front word "ization").length + 2) :
    region2 token = (front word "ization").length + 4 := by
  have size := length_of_front ends
  have seven : "ization".toList.length = 7 := rfl
  have letterOf : ∀ {index : Nat} {letter : Char}, "ization".toList[index]? = some letter →
      index < 6 → token[(front word "ization").length + index]? = some letter := by
    intro index letter here inside
    rw [← (agrees (word.length + 1)).letters _ (by omega) (by omega)]
    exact letter_in_suffix ends here
  have second : (token.drop (region1 token))[0]? = some 'a' := by
    rw [List.getElem?_drop, start]
    exact @letterOf 2 'a' rfl (by decide)
  have third : (token.drop (region1 token))[1]? = some 't' := by
    rw [List.getElem?_drop, start]
    exact @letterOf 3 't' rfl (by decide)
  have found : regionStart (token.drop (region1 token)) = 2 := by
    revert second third
    cases token.drop (region1 token) with
    | nil =>
        intro second
        cases second
    | cons first rest =>
        cases rest with
        | nil =>
            intro _ third
            cases third
        | cons other rest =>
            intro second third
            obtain rfl := Option.some_inj.mp second
            obtain rfl := Option.some_inj.mp third
            rfl
  rw [region2, found, start]

/-- The steps from `step_2` on. -/
def tailValue (r1 r2 : Nat) (word : Word) : Word :=
  Porter2.step5 r1 r2 (step4Value r2 (step3Value r1 r2 (step2Value r1 word)))

/-- The published steps from step 2 on. -/
def tailSteps (r1 r2 : Nat) (word : Word) : Word :=
  Porter2.step5 r1 r2 (Porter2.step4 r2 (Porter2.step3 r1 r2 (Porter2.step2 r1 word)))

section Ization

variable {word : Word} {r1 r2 : Nat} (ends : endsWith word "ization" = true)
  (start1 : r1 = (front word "ization").length + 2)
  (start2 : r2 = (front word "ization").length + 4)

include ends start1

/-- The algorithm leaves `ization` in steps 2 and 3. -/
theorem kept_ization : Porter2.step3 r1 r2 (Porter2.step2 r1 word) = word := by
  have second : Porter2.step2 r1 word = word := by
    have isLongest : IsLongest Porter2.step2Rules word (replaceBy "ization" "ize") := by
      refine ⟨List.mem_cons_self, ends, fun other member _ => ?_⟩
      have longest : ∀ suffix ∈ Porter2.step2Rules.map Rule.suffix, suffix.toList.length ≤ 7 := by
        decide
      exact longest other.suffix (List.mem_map_of_mem member)
    rw [Porter2.step2, applyLongest_of_longest step2_extends.distinct isLongest]
    refine if_neg ?_
    show ¬r1 ≤ (front word "ization").length
    omega
  rw [second]
  exact applyLongest_apart r1 ends (by
    rw [step3_suffixes]
    decide)

include start2

/-- With `ation` in R1 the stemmer makes `izate` of `ization`, and deletes the `e` in the end. -/
theorem tailValue_ization : tailValue r1 r2 word = front word "ization" ++ "izat".toList := by
  have ationEnds : endsWith word "ation" = true := ends_of_longer ends (by decide)
  have ationFront : front word "ation" = front word "ization" ++ ['i', 'z'] :=
    front_of_nested ends (by decide)
  have ationInside : inRegion word "ation" r1 = true := by
    refine inRegion_iff.mpr ⟨ationEnds, ?_⟩
    rw [ationFront, List.length_append, start1]
    exact Nat.le_refl _
  have second : step2Value r1 word = front word "ization" ++ "izate".toList := by
    have found : firstInRegion step2Rules r1 word = some ("ation", "ate") := by
      cases found : firstInRegion step2Rules r1 word with
      | none =>
          have outside := firstInRegion_none found ("ation", "ate") (by decide)
          rw [ationInside] at outside
          cases outside
      | some entry =>
          obtain ⟨member, inside⟩ := firstInRegion_some found
          have only : ∀ entry ∈ step2Rules, meets "ization" entry.1 = true →
              entry.1 = "ization" ∨ entry = ("ation", "ate") := by decide
          rcases only entry member (meets_of_ends ends (inRegion_ends inside).1) with long | same
          · have least := (inRegion_ends inside).2
            rw [long] at least
            omega
          · rw [same]
    rw [step2Value, found]
    dsimp only
    rw [step2RuleValue, if_pos (Or.inl (by decide)), ationFront, List.append_assoc]
    rfl
  have izate : endsWith (front word "ization" ++ "izate".toList) "izate" = true :=
    endsWith_iff.mpr (List.suffix_append _ _)
  have third : step3Value r1 r2 (front word "ization" ++ "izate".toList) =
      front word "ization" ++ "izate".toList := by
    rw [step3Value, firstInRegion_apart r1 izate (by decide)]
    dsimp only
    rw [inRegion_false r2 (not_ends_of_apart izate (by decide))]
    rfl
  have fourth : step4Value r2 (front word "ization" ++ "izate".toList) =
      front word "ization" ++ "izate".toList := by
    have found : firstInRegion step4Table r2 (front word "ization" ++ "izate".toList) = none := by
      cases found : firstInRegion step4Table r2 (front word "ization" ++ "izate".toList) with
      | none => rfl
      | some entry =>
          obtain ⟨member, inside⟩ := firstInRegion_some found
          have only : ∀ entry ∈ step4Table, meets "izate" entry.1 = true → entry.1 = "ate" := by
            decide
          have isAte := only entry member (meets_of_ends izate (inRegion_ends inside).1)
          have least := (inRegion_ends inside).2
          have five : "izate".toList.length = 5 := rfl
          have three : "ate".toList.length = 3 := rfl
          rw [isAte, front_length, List.length_append] at least
          omega
    rw [step4Value, step4Table_eq, found]
    dsimp only
    rw [inRegion_false r2 (not_ends_of_apart izate (by decide)), if_neg (by decide),
      inRegion_false r2 (not_ends_of_apart izate (by decide))]
    rfl
  have shape : front word "ization" ++ "izate".toList =
      (front word "ization" ++ "izat".toList) ++ ['e'] := by
    rw [List.append_assoc]
    rfl
  rw [tailValue, second, third, fourth, shape, Porter2.step5, List.dropLast_concat,
    List.getLast?_concat, if_pos rfl, if_pos (Or.inl ?_)]
  rw [List.length_append, start2]
  exact Nat.le_refl _

/-- The algorithm deletes `ion` behind `t`. -/
theorem tailSteps_ization : tailSteps r1 r2 word = front word "ization" ++ "izat".toList := by
  have kept := @kept_ization word r1 r2 ends start1
  have ionEnds : endsWith word "ion" = true := ends_of_longer ends (by decide)
  have ionFront : front word "ion" = front word "ization" ++ "izat".toList :=
    front_of_nested ends (by decide)
  have fourth : Porter2.step4 r2 word = front word "ization" ++ "izat".toList := by
    have isLongest : IsLongest Porter2.step4Rules word ionRule := by
      refine ⟨(step4_extends.covers ionRule).mpr (Or.inr rfl), ionEnds,
        fun other member otherEnds => ?_⟩
      have only : ∀ suffix ∈ Porter2.step4Rules.map Rule.suffix, meets "ization" suffix = true →
          suffix = "ion" := by decide
      have same := only other.suffix (List.mem_map_of_mem member) (meets_of_ends ends otherEnds)
      rw [same]
      exact Nat.le_refl _
    have inside : r2 ≤ (front word "ion").length := by
      rw [ionFront, List.length_append, start2]
      exact Nat.le_refl _
    rw [Porter2.step4, applyLongest_of_longest step4_extends.distinct isLongest,
      if_pos (show r2 ≤ (front word ionRule.suffix).length from inside),
      show ionRule.suffix = "ion" from rfl, ionFront]
    have behindT : (front word "ization" ++ "izat".toList).getLast? = some 't' := by
      rw [List.getLast?_append_of_ne_nil _ (by decide)]
      rfl
    show (if (front word "ization" ++ "izat".toList).getLast?.any fun letter =>
      letter == 's' || letter == 't' then _ else _) = _
    rw [behindT]
    rfl
  have behindT : (front word "ization" ++ "izat".toList).getLast? = some 't' := by
    rw [List.getLast?_append_of_ne_nil _ (by decide)]
    rfl
  rw [tailSteps, kept, fourth]
  exact step5_other r1 r2 behindT (by decide) (by decide)

end Ization

/-! ## A slip shortens the stem -/

theorem afterDeletion_length (r1 : Nat) (word : Word) :
    (afterDeletion r1 word).length ≤ word.length + 1 := by
  unfold afterDeletion
  split
  · rw [List.length_append, List.length_singleton]
  split
  · rw [List.length_dropLast]
    omega
  split
  · rw [List.length_append, List.length_singleton]
  · exact Nat.le_succ _

theorem laterValue_length {r1 r2 : Nat} (positive : 0 < r1) (ordered : r1 ≤ r2) (word : Word) :
    (laterValue r1 r2 word).length ≤ (step1bValue r1 word).length := by
  have third := (rewritten_step1c (step1bValue r1 word)).shorter
  have fourth := (@rewritten_step2 r1 positive (Porter2.step1c (step1bValue r1 word))).shorter
  have fifth := (@rewritten_step3 r1 positive
    (step2Value r1 (Porter2.step1c (step1bValue r1 word))) r2 ordered).shorter
  have sixth := (@rewritten_step4 r2 (Nat.lt_of_lt_of_le positive ordered) (step3Value r1 r2
    (step2Value r1 (Porter2.step1c (step1bValue r1 word))))).shorter
  have last := (@rewritten_step5 r1 positive (step4Value r2 (step3Value r1 r2
    (step2Value r1 (Porter2.step1c (step1bValue r1 word))))) r2 ordered).shorter
  exact Nat.le_trans last (Nat.le_trans sixth (Nat.le_trans fifth (Nat.le_trans fourth third)))

/-- The stemmer deletes the `ed` or `edly` that is left. -/
theorem step1bValue_slip {r1 : Nat} {word : Word} {long short : String}
    (longEnds : endsWith word long = true) (split : long.toList = 'e' :: short.toList)
    (noEedly : inRegion word "eedly" r1 = false) (noEed : inRegion word "eed" r1 = false)
    (found : ["ingly", "edly", "ing", "ed"].find? (endsWith word) = some short) :
    (step1bValue r1 word).length ≤ (front word long).length + 2 := by
  have nested : short.toList.isSuffixOf long.toList = true :=
    List.isSuffixOf_iff_suffix.mpr (by rw [split]; exact List.suffix_cons _ _)
  have shape : front word short = front word long ++ ['e'] := by
    have inner : front long.toList short = ['e'] := by
      rw [front, split, List.length_cons, Nat.add_sub_cancel_left]
      rfl
    rw [front_of_nested longEnds nested, inner]
  have vowel : (front word short).any isVowel = true := by
    rw [shape, List.any_append]
    exact Bool.or_true _
  rw [step1bValue, noEedly, if_neg (by decide), noEed, if_neg (by decide), found]
  dsimp only
  rw [if_pos vowel, shape]
  have length := afterDeletion_length r1 (front word long ++ ['e'])
  rw [List.length_append, List.length_singleton] at length
  exact length

theorem step1bRules_sorted (r1 : Nat) : (step1bRules r1).Pairwise fun first second =>
    second.suffix.toList.length ≤ first.suffix.toList.length := by
  simp [step1bRules, eedAction, deletion]

/-- The algorithm leaves a word that ends in `eed` out of R1. -/
theorem laterSteps_eed {r1 : Nat} {word : Word} (r2 : Nat) (ends : endsWith word "eed" = true)
    (outside : (front word "eed").length < r1) : laterSteps r1 r2 word = word := by
  have first : Porter2.step1b r1 word = word := by
    rw [Porter2.step1b, applyLongest_eq (step1bRules_sorted r1)]
    simp only [step1bRules, eedAction, deletion, List.find?_cons, ends,
      not_ends_of_apart ends (show meets "eed" "eedly" = false by decide),
      not_ends_of_apart ends (show meets "eed" "ingly" = false by decide),
      not_ends_of_apart ends (show meets "eed" "edly" = false by decide), Nat.zero_le, if_true]
    rw [if_neg (Nat.not_le.mpr outside), front_append ends]
  have third : Porter2.step1c word = word :=
    step1c_other (last_of_ends ends rfl) (by decide) (by decide)
  have fourth : Porter2.step2 r1 word = word := applyLongest_apart r1 ends (by decide)
  rw [laterSteps, first, third, fourth]
  exact lastSteps_apart r1 r2 ends (by decide) (by decide) rfl (by decide) (by decide)

/-- The algorithm deletes no more than the end of `eedly` out of R1. -/
theorem laterSteps_eedly {r1 : Nat} {word : Word} (r2 : Nat) (ends : endsWith word "eedly" = true)
    (outside : (front word "eedly").length < r1) :
    (front word "eedly").length + 3 ≤ (laterSteps r1 r2 word).length := by
  have first : Porter2.step1b r1 word = word := by
    rw [Porter2.step1b, applyLongest_eq (step1bRules_sorted r1)]
    simp only [step1bRules, eedAction, deletion, List.find?_cons, ends, Nat.zero_le, if_true]
    rw [if_neg (Nat.not_le.mpr outside), front_append ends]
  have third : Porter2.step1c word = front word "eedly" ++ "eedli".toList := by
    obtain ⟨before, rfl⟩ := endsWith_iff.mp ends
    rw [front_of_append]
    simp [Porter2.step1c, isVowel, List.dropLast_append_of_ne_nil]
  rw [laterSteps, first, third]
  generalize front word "eedly" = before
  have eedli : endsWith (before ++ "eedli".toList) "eedli" = true :=
    endsWith_iff.mpr (List.suffix_append _ _)
  have second : Porter2.step2 r1 (before ++ "eedli".toList) = before ++ "eedli".toList ∨
      Porter2.step2 r1 (before ++ "eedli".toList) = before ++ "eed".toList := by
    have apart : ∀ entry ∈ step2Rules, meets "eedli" entry.1 = false := by decide
    rw [Porter2.step2]
    cases step2_extends.outcome r1 (before ++ "eedli".toList) with
    | none outside notExtra same => exact Or.inl same
    | applied entry found entryEnds same =>
        rw [not_ends_of_apart eedli (apart entry (firstInRegion_some found).1)] at entryEnds
        cases entryEnds
    | outside entry member entryEnds outside same => exact Or.inl same
    | extra outside liEnds same =>
        have liFront : front (before ++ "eedli".toList) "li" = before ++ "eed".toList := by
          have shape : before ++ "eedli".toList = (before ++ "eed".toList) ++ "li".toList := by
            rw [List.append_assoc]
            rfl
          rw [shape]
          exact front_of_append _ "li"
        rw [show liRule.suffix = "li" from rfl, liFront] at same
        have behindD : (before ++ "eed".toList).getLast? = some 'd' := by
          rw [List.getLast?_append_of_ne_nil _ (by decide)]
          rfl
        have deleted : liRule.action (before ++ "eed".toList) = before ++ "eed".toList := by
          refine if_pos ?_
          show Option.any validLiEnding (before ++ "eed".toList).getLast? = true
          rw [behindD]
          rfl
        rw [deleted] at same
        by_cases inside : r1 ≤ (before ++ "eed".toList).length
        · exact Or.inr (same.trans (if_pos inside))
        · exact Or.inl (same.trans (if_neg inside))
  rcases second with unchanged | deleted
  · rw [unchanged, lastSteps_apart r1 r2 eedli (by decide) (by decide) rfl (by decide) (by decide),
      List.length_append]
    exact Nat.add_le_add_left (by decide) _
  · have eed : endsWith (before ++ "eed".toList) "eed" = true :=
      endsWith_iff.mpr (List.suffix_append _ _)
    rw [deleted, lastSteps_apart r1 r2 eed (by decide) (by decide) rfl (by decide) (by decide),
      List.length_append]
    exact Nat.add_le_add_left (by decide) _

section Slips

variable {r1 r2 : Nat} (positive : 0 < r1) (ordered : r1 ≤ r2) {word : Word}

include positive ordered

theorem eedSlip_shorter (slip : EedSlip r1 word) :
    (laterValue r1 r2 word).length < (laterSteps r1 r2 word).length := by
  refine Nat.lt_of_le_of_lt (laterValue_length positive ordered word) ?_
  rcases slip with ⟨ends, outside⟩ | ⟨ends, outside⟩
  · have published := laterSteps_eedly r2 ends outside
    have found : ["ingly", "edly", "ing", "ed"].find? (endsWith word) = some "edly" := by
      have edly : endsWith word "edly" = true := ends_of_longer ends (by decide)
      rw [List.find?_cons, not_ends_of_apart ends (by decide), List.find?_cons, edly]
    have value := step1bValue_slip ends rfl (inRegion_outside outside)
      (inRegion_false r1 (not_ends_of_apart ends (by decide))) found
    omega
  · have published := congrArg List.length (laterSteps_eed r2 ends outside)
    have size := length_of_front ends
    have three : "eed".toList.length = 3 := rfl
    have found : ["ingly", "edly", "ing", "ed"].find? (endsWith word) = some "ed" := by
      have ed : endsWith word "ed" = true := ends_of_longer ends (by decide)
      rw [List.find?_cons, not_ends_of_apart ends (by decide), List.find?_cons,
        not_ends_of_apart ends (by decide), List.find?_cons, not_ends_of_apart ends (by decide),
        List.find?_cons, ed]
    have value := step1bValue_slip ends rfl
      (inRegion_false r1 (not_ends_of_apart ends (by decide))) (inRegion_outside outside) found
    omega

theorem entliSlip_shorter (slip : EntliSlip r1 word) :
    (tailValue r1 r2 word).length < (tailSteps r1 r2 word).length := by
  obtain ⟨ends, outside, inside⟩ := slip
  have liEnds : endsWith word "li" = true := ends_of_longer ends (by decide)
  have liFront : front word "li" = front word "entli" ++ "ent".toList :=
    front_of_nested ends (by decide)
  have second : step2Value r1 word = front word "li" := by
    have found : firstInRegion step2Rules r1 word = none := by
      refine List.find?_eq_none.mpr fun entry member => ?_
      have only : ∀ entry ∈ step2Rules, meets "entli" entry.1 = true → entry.1 = "entli" := by decide
      intro entryInside
      have same := only entry member (meets_of_ends ends (inRegion_ends entryInside).1)
      rw [same, inRegion_outside outside] at entryInside
      cases entryInside
    have behindT : (front word "li").getLast? = some 't' := by
      rw [liFront, List.getLast?_append_of_ne_nil _ (by decide)]
      rfl
    rw [step2Value, found]
    dsimp only
    rw [inRegion_iff.mpr ⟨liEnds, inside⟩, behindT]
    rfl
  have published : tailSteps r1 r2 word = word := by
    have isLongest : IsLongest Porter2.step2Rules word (replaceBy "entli" "ent") := by
      refine ⟨(step2_extends.covers _).mpr (Or.inl ⟨("entli", "ent"), by decide, ?_⟩), ends,
        fun other member otherEnds => ?_⟩
      · have value : step2Action ("entli", "ent") = fun before => before ++ "ent".toList :=
          funext fun before => if_pos (Or.inl (by decide))
        rw [value]
        rfl
      · have only : ∀ suffix ∈ Porter2.step2Rules.map Rule.suffix, meets "entli" suffix = true →
            suffix.toList.length ≤ 5 := by decide
        exact only other.suffix (List.mem_map_of_mem member) (meets_of_ends ends otherEnds)
    have kept : Porter2.step2 r1 word = word := by
      rw [Porter2.step2, applyLongest_of_longest step2_extends.distinct isLongest]
      exact if_neg (Nat.not_le.mpr outside)
    rw [tailSteps, kept]
    exact lastSteps_apart r1 r2 ends (by decide) (by decide) rfl (by decide) (by decide)
  have third := (@rewritten_step3 r1 positive (step2Value r1 word) r2 ordered).shorter
  have fourth := (@rewritten_step4 r2 (Nat.lt_of_lt_of_le positive ordered)
    (step3Value r1 r2 (step2Value r1 word))).shorter
  have last := (@rewritten_step5 r1 positive
    (step4Value r2 (step3Value r1 r2 (step2Value r1 word))) r2 ordered).shorter
  have size := length_of_front liEnds
  have two : "li".toList.length = 2 := rfl
  rw [published, tailValue]
  rw [second] at last fourth third ⊢
  omega

/-- The last two steps behind a slip of step 4. -/
theorem step4Slip_shorter (slip : OuSlip r2 word ∨ MentSlip r2 word) :
    (Porter2.step5 r1 r2 (step4Value r2 word)).length <
      (Porter2.step5 r1 r2 (Porter2.step4 r2 word)).length := by
  have last := (@rewritten_step5 r1 positive (step4Value r2 word) r2 ordered).shorter
  rcases slip with ou | ⟨ends, inside, outside⟩
  · have ends := (inRegion_ends ou).1
    have value : step4Value r2 word = front word "ou" := by
      rw [step4Value, step4Table_eq, firstInRegion_apart r2 ends (by decide)]
      dsimp only
      rw [inRegion_false r2 (not_ends_of_apart ends (by decide)), if_neg (by decide)]
      exact if_pos ou
    have kept : Porter2.step4 r2 word = word := applyLongest_apart r2 ends (by decide)
    have size := length_of_front ends
    have two : "ou".toList.length = 2 := rfl
    rw [kept, step5_other r1 r2 (last_of_ends ends rfl) (by decide) (by decide)]
    rw [value] at last ⊢
    omega
  · have entEnds : endsWith word "ent" = true := ends_of_longer ends (by decide)
    have value : (step4Value r2 word).length < word.length := by
      rw [step4Value, step4Table_eq]
      cases found : firstInRegion step4Table r2 word with
      | none =>
          have none := firstInRegion_none found ("ent", "") (by decide)
          rw [inRegion_iff.mpr ⟨entEnds, inside⟩] at none
          cases none
      | some entry =>
          obtain ⟨member, entryInside⟩ := firstInRegion_some found
          have some : ∀ entry ∈ step4Table, 0 < entry.1.toList.length := by decide
          have size := length_of_front (inRegion_ends entryInside).1
          have more := some entry member
          dsimp only
          omega
    have kept : Porter2.step4 r2 word = word := by
      have apply : ∀ {suffix : String}, (front word suffix).length < r2 →
          IsLongest Porter2.step4Rules word (replaceBy suffix "") →
            Porter2.step4 r2 word = word := by
        intro suffix suffixOutside isLongest
        rw [Porter2.step4, applyLongest_of_longest step4_extends.distinct isLongest]
        exact if_neg (Nat.not_le.mpr suffixOutside)
      cases ement : endsWith word "ement" with
      | true =>
          rw [ement] at outside
          refine apply outside ⟨by simp [Porter2.step4Rules], ement, fun other member _ => ?_⟩
          have longest : ∀ suffix ∈ Porter2.step4Rules.map Rule.suffix, suffix.toList.length ≤ 5 := by
            decide
          exact longest other.suffix (List.mem_map_of_mem member)
      | false =>
          rw [ement] at outside
          refine apply outside ⟨by simp [Porter2.step4Rules], ends, fun other member otherEnds => ?_⟩
          have only : ∀ suffix ∈ Porter2.step4Rules.map Rule.suffix, meets "ment" suffix = true →
              suffix = "ement" ∨ suffix.toList.length ≤ 4 := by decide
          rcases only other.suffix (List.mem_map_of_mem member) (meets_of_ends ends otherEnds) with
            same | shorter
          · rw [same, ement] at otherEnds
            cases otherEnds
          · exact shorter
    rw [kept, step5_other r1 r2 (last_of_ends entEnds rfl) (by decide) (by decide)]
    exact Nat.lt_of_le_of_lt last value

end Slips

/-! ## The stemmer and the algorithm -/

section Run

variable {token word : Word} (agrees : ∀ limit, Agrees token limit word)

include agrees

/-- Before step 4 the words are the same, or the next steps make them the same. -/
theorem before_step4 (noSlip : ¬EntliSlip (region1 token) word) :
    step3Value (region1 token) (region2 token) (step2Value (region1 token) word) =
        Porter2.step3 (region1 token) (region2 token) (Porter2.step2 (region1 token) word) ∨
      (endsWith word "ization" = true ∧
        region1 token = (front word "ization").length + 2) := by
  by_cases ization : endsWith word "ization" = true ∧
      (front word "ization").length < region1 token ∧ inRegion word "ation" (region1 token) = true
  · obtain ⟨ends, outside, inside⟩ := ization
    have behind := boundary_behind_vowel (agrees _) ends rfl (by decide) (by decide) outside
    have least := (inRegion_ends inside).2
    have shape : front word "ation" = front word "ization" ++ ['i', 'z'] :=
      front_of_nested ends (by decide)
    rw [shape, List.length_append] at least
    have two : ['i', 'z'].length = 2 := rfl
    exact Or.inr ⟨ends, by omega⟩
  · have second := step2_agrees (agrees _) noSlip ization
    have third := step3_agrees (agrees (region1 token)).step2 (region1_le_region2 token)
    rw [second] at third ⊢
    exact Or.inl third

theorem tail_agrees (noEntli : ¬EntliSlip (region1 token) word)
    (noOu : ¬OuSlip (region2 token) (Porter2.step3 (region1 token) (region2 token)
      (Porter2.step2 (region1 token) word)))
    (noMent : ¬MentSlip (region2 token) (Porter2.step3 (region1 token) (region2 token)
      (Porter2.step2 (region1 token) word))) :
    tailValue (region1 token) (region2 token) word =
      tailSteps (region1 token) (region2 token) word := by
  rcases before_step4 agrees noEntli with same | ⟨ends, start⟩
  · rw [tailValue, tailSteps, same, step4_agrees noOu noMent]
  · have start2 := region2_of_ization agrees ends start
    rw [tailValue_ization ends start start2, tailSteps_ization ends start start2]

theorem tail_shorter (nonempty : token ≠ []) (slip : EntliSlip (region1 token) word ∨
    OuSlip (region2 token) (Porter2.step3 (region1 token) (region2 token)
      (Porter2.step2 (region1 token) word)) ∨
    MentSlip (region2 token) (Porter2.step3 (region1 token) (region2 token)
      (Porter2.step2 (region1 token) word))) :
    (tailValue (region1 token) (region2 token) word).length <
      (tailSteps (region1 token) (region2 token) word).length := by
  have positive := region1_pos nonempty
  have ordered := region1_le_region2 token
  by_cases entli : EntliSlip (region1 token) word
  · exact entliSlip_shorter positive ordered entli
  · have slip := slip.resolve_left entli
    rcases before_step4 agrees entli with same | ⟨ends, start⟩
    · rw [tailValue, tailSteps, same]
      exact step4Slip_shorter positive ordered slip
    · have kept := @kept_ization word (region1 token) (region2 token) ends start
      rw [kept] at slip
      rcases slip with ou | ⟨ment, -, -⟩
      · have apart := inRegion_false (region2 token)
          (not_ends_of_apart ends (show meets "ization" "ou" = false by decide))
        rw [OuSlip, apart] at ou
        cases ou
      · rw [not_ends_of_apart ends (by decide)] at ment
        cases ment

end Run

section Later

variable {token word : Word} (isFront : word <+: token)

include isFront

theorem agrees_before_step2 (limit : Nat) :
    Agrees token limit (Porter2.step1c (step1bValue (region1 token) word)) := by
  refine agrees_of_front ?_ ?_ limit
  · rw [step1c_dropLast]
    exact (step1b_isFront (region1 token) word).trans isFront
  · have first := (rewritten_step1b (region1 token) word).shorter
    have second := (rewritten_step1c (step1bValue (region1 token) word)).shorter
    exact Nat.le_trans second (Nat.le_trans first isFront.length_le)

theorem laterValue_agrees (noSlips : ¬Slips (region1 token) (region2 token) word) :
    laterValue (region1 token) (region2 token) word =
      laterSteps (region1 token) (region2 token) word := by
  obtain ⟨noEed, later⟩ := not_or.mp noSlips
  obtain ⟨noEntli, last⟩ := not_or.mp later
  obtain ⟨noOu, noMent⟩ := not_or.mp last
  have agrees := agrees_before_step2 isFront
  rw [step1b_agrees noEed] at agrees
  have tail := tail_agrees agrees noEntli noOu noMent
  rw [laterValue, step1b_agrees noEed]
  exact tail

theorem laterValue_shorter (nonempty : token ≠ [])
    (slips : Slips (region1 token) (region2 token) word) :
    (laterValue (region1 token) (region2 token) word).length <
      (laterSteps (region1 token) (region2 token) word).length := by
  by_cases eed : EedSlip (region1 token) word
  · exact eedSlip_shorter (region1_pos nonempty) (region1_le_region2 token) eed
  · have agrees := agrees_before_step2 isFront
    rw [step1b_agrees eed] at agrees
    have tail := tail_shorter agrees nonempty (slips.resolve_left eed)
    rw [laterValue, step1b_agrees eed]
    exact tail

end Later

/-! ## Words of at most two letters -/

theorem not_ends_of_short {word : Word} {suffix : String}
    (short : word.length < suffix.toList.length) : endsWith word suffix = false := by
  cases ends : endsWith word suffix with
  | false => rfl
  | true => exact absurd (length_of_ends ends) (Nat.not_le.mpr short)

/-- No suffix is in a region that is null. -/
theorem inRegion_null {word : Word} {suffix : String} {region : Nat} (null : word.length ≤ region)
    (some : 0 < suffix.toList.length) : inRegion word suffix region = false := by
  cases ends : endsWith word suffix with
  | false => exact inRegion_false region ends
  | true =>
      have size := length_of_front ends
      exact inRegion_outside (by omega)

theorem firstInRegion_null {table : List (String × String)} {word : Word} {region : Nat}
    (null : word.length ≤ region) (some : ∀ entry ∈ table, 0 < entry.1.toList.length) :
    firstInRegion table region word = none := by
  refine List.find?_eq_none.mpr fun entry member => ?_
  rw [inRegion_null null (some entry member)]
  decide

theorem step1a_short {word : Word} (short : word.length ≤ 2) : Porter2.step1a word = word := by
  have none : (front word "s").dropLast = [] := by
    refine List.length_eq_zero_iff.mp ?_
    have size := front_length word "s"
    have single : "s".toList.length = 1 := rfl
    rw [List.length_dropLast]
    omega
  rw [porter2_step1a, not_ends_of_short (Nat.lt_of_le_of_lt short (by decide)), if_neg (by decide),
    not_ends_of_short (Nat.lt_of_le_of_lt short (by decide)),
    not_ends_of_short (Nat.lt_of_le_of_lt short (by decide)), if_neg (by decide), none]
  split
  · rfl
  · exact ite_self _

theorem laterValue_short {word : Word} {r1 r2 : Nat} (short : word.length ≤ 2)
    (null : word.length ≤ r1) (ordered : r1 ≤ r2) : laterValue r1 r2 word = word := by
  have null2 : word.length ≤ r2 := Nat.le_trans null ordered
  have first : step1bValue r1 word = word := by
    rw [step1bValue, inRegion_null null (by decide), if_neg (by decide),
      inRegion_null null (by decide), if_neg (by decide)]
    split
    · rfl
    · rename_i suffix found
      have none : front word suffix = [] := by
        have long : ∀ suffix ∈ ["ingly", "edly", "ing", "ed"], 2 ≤ suffix.toList.length := by decide
        have two := long suffix (List.mem_of_find?_eq_some found)
        refine List.length_eq_zero_iff.mp ?_
        rw [front_length]
        omega
      rw [none]
      rfl
  have second : Porter2.step1c word = word := by
    unfold Porter2.step1c
    split
    · rename_i last before third rest shape
      have size := congrArg List.length shape
      rw [List.length_reverse] at size
      simp only [List.length_cons] at size
      omega
    · rfl
  have third : step2Value r1 word = word := by
    rw [step2Value, firstInRegion_null null (by decide)]
    dsimp only
    rw [inRegion_null null (by decide)]
    rfl
  have fourth : step3Value r1 r2 word = word := by
    rw [step3Value, firstInRegion_null null (by decide)]
    dsimp only
    rw [inRegion_null null2 (by decide)]
    rfl
  have fifth : step4Value r2 word = word := by
    rw [step4Value, firstInRegion_null null2 (by decide)]
    dsimp only
    rw [inRegion_null null2 (by decide), inRegion_null null2 (by decide)]
    rfl
  have last : Porter2.step5 r1 r2 word = word := by
    have size : word.dropLast.length = word.length - 1 := List.length_dropLast
    unfold Porter2.step5
    dsimp only
    split
    · rename_i isE
      have some : 0 < word.length := by
        cases word with
        | nil => cases isE
        | cons letter rest => exact Nat.succ_pos _
      refine if_neg fun inside => ?_
      rcases inside with inR2 | ⟨inR1, -⟩
      · omega
      · omega
    · split
      · rename_i isL
        have some : 0 < word.length := by
          cases word with
          | nil => cases isL
          | cons letter rest => exact Nat.succ_pos _
        refine if_neg fun both => ?_
        omega
      · rfl
  rw [laterValue, first, second, third, fourth, fifth, last]

theorem region1_short {word : Word} (short : word.length ≤ 2) : word.length ≤ region1 word := by
  have start : word.length ≤ regionStart word := by
    rcases word with _ | ⟨first, _ | ⟨second, _ | ⟨third, rest⟩⟩⟩
    · exact Nat.le_refl 0
    · exact Nat.le_refl 1
    · rw [regionStart]
      split
      · exact Nat.le_refl 2
      · exact Nat.le_refl 2
    · simp at short
  unfold region1
  split_ifs <;> omega

/-! ## The stem -/

/-- The words whose stem is the published one. -/
def FollowsPorter2 (token : Word) : Prop :=
  token.length ≤ 2 ∨ (exceptional token).isSome = true ∨
    keptAfterStep1a (lower (Porter2.step1a (setY true token))) = true ∨
      ¬Slips (region1 (setY true token)) (region2 (setY true token))
        (Porter2.step1a (setY true token))

theorem kept_lower (word : Word) :
    keptAfterStep1a (lower word) = invariants.any fun kept => word == kept.toList := by
  have plain : ∀ kept ∈ invariants, Plain kept.toList := by decide
  have each : ∀ kept ∈ invariants, (lower word == kept.toList) = (word == kept.toList) := by
    intro kept member
    rw [Bool.eq_iff_iff, beq_iff_eq, beq_iff_eq]
    constructor
    · intro same
      have whole := (suffix_lower (plain kept member) word).mp (by rw [same])
      exact (whole.eq_of_length (by rw [← same, lower_length])).symm
    · rintro rfl
      exact lower_plain (plain kept member)
  rw [keptAfterStep1a, Bool.eq_iff_iff, List.any_eq_true, List.any_eq_true]
  constructor
  · rintro ⟨kept, member, same⟩
    exact ⟨kept, member, (each kept member).symm.trans same⟩
  · rintro ⟨kept, member, same⟩
    exact ⟨kept, member, (each kept member).trans same⟩

/-- The stemmer returns the published stem exactly where it does not slip. -/
theorem porter2Stem_published_iff (token : Word) (nonempty : token ≠ [])
    (lowercase : ∀ letter ∈ token, letter.isLower = true) :
    porter2Stem token = .ok (Porter2.stem token) ↔ FollowsPorter2 token := by
  have noCapital : 'Y' ∉ token := fun member => absurd (lowercase 'Y' member) (by decide)
  have lowered := lower_setY noCapital true
  have size := setY_length true token
  have markedSome : setY true token ≠ [] := by
    intro empty
    rw [empty] at size
    exact nonempty (List.length_eq_zero_iff.mp size.symm)
  cases found : exceptional token with
  | some stem =>
      have run : porter2Stem token = .ok stem := by
        rw [porter2Stem, found]
        rfl
      obtain ⟨entry, first, rfl⟩ := Option.map_eq_some_iff.mp found
      have same := List.find?_some first
      have long : ∀ entry ∈ exceptions, 2 < entry.1.toList.length := by decide
      have more : ¬token.length ≤ 2 := by
        rw [eq_of_beq same]
        exact Nat.not_le.mpr (long entry (List.mem_of_find?_eq_some first))
      have published : Porter2.stem token = entry.2.toList := by
        have inTable : exceptions.find? (fun entry => token == entry.1.toList) = some entry := first
        rw [Porter2.stem, if_neg more, inTable]
      rw [run, published]
      exact iff_of_true rfl (Or.inr (Or.inl (by rw [found]; rfl)))
  | none =>
      have notInTable : exceptions.find? (fun entry => token == entry.1.toList) = none :=
        Option.map_eq_none_iff.mp found
      obtain ⟨run, -⟩ := porter2Stem_run nonempty lowercase found
      rw [run]
      by_cases short : token.length ≤ 2
      · have shortMarked : (setY true token).length ≤ 2 := by rwa [size]
        have notKept : keptAfterStep1a (lower (setY true token)) = false := by
          have long : ∀ kept ∈ invariants, 2 < kept.toList.length := by decide
          rw [kept_lower, List.any_eq_false]
          intro kept member same
          rw [eq_of_beq same] at shortMarked
          exact absurd (long kept member) (Nat.not_lt.mpr shortMarked)
        have value : stemValue (setY true token) = setY true token := by
          rw [stemValue, step1a_short shortMarked, notKept, if_neg (by decide)]
          exact laterValue_short shortMarked (region1_short shortMarked) (region1_le_region2 _)
        rw [value, lowered, Porter2.stem, if_pos short]
        exact iff_of_true rfl (Or.inl short)
      · have published : Porter2.stem token =
            if keptAfterStep1a (lower (Porter2.step1a (setY true token))) then
              lower (Porter2.step1a (setY true token))
            else lower (laterSteps (region1 (setY true token)) (region2 (setY true token))
              (Porter2.step1a (setY true token))) := by
          rw [Porter2.stem, if_neg short, notInTable, kept_lower]
        rw [published, stemValue]
        by_cases kept : keptAfterStep1a (lower (Porter2.step1a (setY true token))) = true
        · rw [if_pos kept, if_pos kept]
          exact iff_of_true rfl (Or.inr (Or.inr (Or.inl kept)))
        · have isFront := step1a_isFront (setY true token)
          rw [if_neg kept, if_neg kept, FollowsPorter2, found]
          constructor
          · intro same
            refine Or.inr (Or.inr (Or.inr fun slips => ?_))
            have shorter := laterValue_shorter isFront markedSome slips
            have lengths := congrArg List.length (Except.ok.inj same)
            rw [lower_length, lower_length] at lengths
            omega
          · intro follows
            rcases follows with few | isSome | isKept | noSlips
            · exact absurd few short
            · cases isSome
            · exact absurd isKept kept
            · rw [laterValue_agrees isFront noSlips]

theorem porter2Stem_published_suggesting :
    porter2Stem "suggesting".toList = .ok (Porter2.stem "suggesting".toList) ∧
      FollowsPorter2 "suggesting".toList := by
  have lowercase : ("suggesting".toList.all fun letter => letter.isLower) = true := by decide
  have published : porter2Stem "suggesting".toList =
      .ok (Porter2.stem "suggesting".toList) := by decide
  refine ⟨published, ?_⟩
  exact (porter2Stem_published_iff "suggesting".toList (by decide)
    (List.all_eq_true.mp lowercase)).mp published

/-- `eed` of `feed` is not in R1; the stemmer deletes its `ed`. -/
theorem feed_loses_ed : porter2Stem "feed".toList = .ok "fe".toList ∧
    Porter2.stem "feed".toList = "feed".toList ∧
      porter2Stem "feed".toList ≠ .ok (Porter2.stem "feed".toList) := by
  have run : porter2Stem "feed".toList = .ok "fe".toList := by decide
  have published : Porter2.stem "feed".toList = "feed".toList := by decide
  refine ⟨run, published, ?_⟩
  rw [run, published]
  decide

end MoonShot.Tokenizer
