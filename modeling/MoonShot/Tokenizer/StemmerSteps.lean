import MoonShot.Tokenizer.Spelling

/-!
The steps of the stemmer on words with `Y`.

Owns the value of every step, and the proof that the step returns it: every index, slice and
difference of lengths in the step is in range.

Does not own what the values are good for.
-/

namespace MoonShot.Tokenizer

open MoonShot.Lib
open Porter2

/-! ## The longest suffix -/

/-- In a table with the longer suffixes first the longest suffix is the first one. -/
theorem longestRule_eq_find? {rules : List Rule}
    (sorted : rules.Pairwise fun first second =>
      second.suffix.toList.length ≤ first.suffix.toList.length) (word : Word) :
    longestRule word rules = rules.find? fun rule => endsWith word rule.suffix := by
  induction rules with
  | nil => rfl
  | cons rule rest inductionHypothesis =>
      rw [List.pairwise_cons] at sorted
      rw [longestRule, inductionHypothesis sorted.2, List.find?_cons]
      cases endsWith word rule.suffix with
      | false => rfl
      | true =>
          rw [if_pos rfl]
          cases found : rest.find? fun other => endsWith word other.suffix with
          | none => rfl
          | some other =>
              have shorter := sorted.1 other (List.mem_of_find?_eq_some found)
              exact if_neg (by omega)

theorem applyLongest_eq {rules : List Rule}
    (sorted : rules.Pairwise fun first second =>
      second.suffix.toList.length ≤ first.suffix.toList.length) (region : Nat) (word : Word) :
    applyLongest rules region word =
      match rules.find? fun rule => endsWith word rule.suffix with
      | none => word
      | some rule =>
          if region ≤ (front word rule.suffix).length then rule.action (front word rule.suffix)
          else word := by
  unfold applyLongest
  exact congrArg (fun found : Option Rule =>
    match found with
    | none => word
    | some rule =>
        if region ≤ (front word rule.suffix).length then rule.action (front word rule.suffix)
        else word) (longestRule_eq_find? sorted word)

/-! ## Step 1a -/

theorem dropLast_eq_front (word : Word) (suffix : String)
    (single : suffix.toList.length = 1) : word.dropLast = front word suffix := by
  rw [front, single, List.dropLast_eq_take]

/-- Step 1a, case by case. -/
theorem porter2_step1a (word : Word) :
    Porter2.step1a word =
      if endsWith word "sses" then front word "sses" ++ ['s', 's']
      else if endsWith word "ied" || endsWith word "ies" then
        front word "ied" ++ if 1 < (front word "ied").length then ['i'] else ['i', 'e']
      else if endsWith word "us" || endsWith word "ss" then word
      else if endsWith word "s" then
        if (front word "s").dropLast.any isVowel then front word "s" else word
      else word := by
  have sorted : step1aRules.Pairwise fun first second =>
      second.suffix.toList.length ≤ first.suffix.toList.length := by decide
  rw [Porter2.step1a, applyLongest_eq sorted]
  simp only [step1aRules, replaceBy, iedAction, deleteIf, List.find?_cons, List.find?_nil]
  cases endsWith word "sses" with
  | true => rfl
  | false =>
  cases endsWith word "ied" with
  | true => rfl
  | false =>
  cases endsWith word "ies" with
  | true => rfl
  | false =>
  cases us : endsWith word "us" with
  | true => exact (if_pos (Nat.zero_le _)).trans (front_append us)
  | false =>
  cases ss : endsWith word "ss" with
  | true => exact (if_pos (Nat.zero_le _)).trans (front_append ss)
  | false =>
  cases single : endsWith word "s" with
  | true =>
      have whole := front_append single
      simp only [Bool.false_or, Nat.zero_le, if_true, Bool.false_eq_true, if_false, whole]
  | false => rfl

/-- `step_1a` -/
theorem step1a_eq {marks : List Bool} {word : Word} (marked : Marked marks word) :
    step1a (lower word) marks = .ok (lower (Porter2.step1a word)) := by
  rw [porter2_step1a, step1a, endsWith_lower (by decide), endsWith_lower (by decide),
    endsWith_lower (by decide), endsWith_lower (by decide), endsWith_lower (by decide),
    endsWith_lower (by decide), lower_length]
  by_cases sses : endsWith word "sses" = true
  · rw [if_pos sses, if_pos sses]
    exact replaceSuffix_front sses (by decide)
  rw [if_neg sses, if_neg sses]
  by_cases ied : (endsWith word "ied" || endsWith word "ies") = true
  · have long : 3 ≤ word.length := by
      rcases Bool.or_eq_true_iff.mp ied with ends | ends
      · exact length_of_ends ends
      · exact length_of_ends ends
    have tail : tailFrom (lower word) (word.length - 3) =
        .ok ((lower word).drop (word.length - 3)) := if_pos (by rw [lower_length]; omega)
    have size : ((lower word).drop (word.length - 3)).length = 3 := by
      rw [List.length_drop, lower_length]
      omega
    have frontSize : (front word "ied").length = word.length - 3 := front_length word "ied"
    rw [if_pos ied, if_pos ied, subUsize_eq long, ok_bind, tail, ok_bind, frontSize]
    have fits : ((lower word).drop (word.length - 3)).length ≤ word.length := by omega
    by_cases more : word.length > 4
    · rw [if_pos more, if_pos (by omega), replaceSuffix_eq fits (by decide), size]
      rfl
    · rw [if_neg more, if_neg (by omega), replaceSuffix_eq fits (by decide), size]
      rfl
  rw [if_neg ied, if_neg ied]
  by_cases us : (endsWith word "us" || endsWith word "ss") = true
  · rw [if_pos us, if_pos us]
    rfl
  rw [if_neg us, if_neg us]
  cases single : endsWith word "s" with
  | false => rfl
  | true =>
      have shorter : (front word "s").dropLast = word.take (word.length - 2) := by
        rw [← dropLast_eq_front word "s" rfl, List.dropLast_eq_take, List.dropLast_eq_take,
          List.length_take, List.take_take]
        congr 1
        omega
      rw [if_pos rfl, Bool.true_and, shorter, ← dropLast_eq_front word "s" rfl]
      by_cases long : word.length > 2
      · rw [if_pos (decide_eq_true long), subUsize_eq (by omega), ok_bind,
          containsVowel_eq marked (by omega), ok_bind]
        cases (word.take (word.length - 2)).any isVowel with
        | true =>
            rw [if_pos rfl, if_pos rfl, lower_dropLast]
            rfl
        | false => rfl
      · have none : word.take (word.length - 2) = [] := by
          rw [show word.length - 2 = 0 by omega, List.take_zero]
        rw [if_neg (by simpa using long), none, List.any_nil]
        rfl

/-! ## Step 1b -/

theorem lower_noCapital (word : Word) : 'Y' ∉ lower word := by
  intro member
  obtain ⟨letter, -, same⟩ := List.mem_map.mp member
  unfold lowerLetter at same
  split at same
  · exact absurd same (by decide)
  · rename_i other
    exact other same

theorem suffix_lower {text : Word} (plain : Plain text) (word : Word) :
    text <:+ lower word ↔ text <:+ word := by
  have reversed : Plain text.reverse := plain_iff.mpr fun letter member =>
    plain_iff.mp plain letter (List.mem_reverse.mp member)
  have back : (lower word).reverse = lower word.reverse := List.map_reverse.symm
  rw [← List.reverse_prefix, ← List.reverse_prefix, back, ← List.isPrefixOf_iff_prefix,
    ← List.isPrefixOf_iff_prefix, isPrefixOf_lower reversed]

/-- A `y` behind an `l` is no consonant, so a suffix that ends in `ly` is one of the word with
`Y`. -/
theorem suffix_lower_ly {word text : Word} (spelled : setY true (lower word) = word)
    (plain : Plain text) : text ++ ['l', 'y'] <:+ lower word ↔ text ++ ['l', 'y'] <:+ word := by
  constructor
  · rintro ⟨before, split⟩
    have split : (before ++ text) ++ ['l'] ++ ['y'] = lower word := by
      rw [← split]
      simp
    have behindL : consonantBehind true ((before ++ text) ++ ['l']) = false := by
      rw [consonantBehind, setY_concat, if_neg (by simp), List.getLast?_concat]
      rfl
    have shape : setY true (before ++ text) ++ ['l'] ++ ['y'] = word := by
      rw [← spelled, ← split, setY_concat, behindL, setY_concat, if_neg (by simp), if_neg (by simp)]
    have lowered : lower (setY true (before ++ text)) = before ++ text := by
      refine lower_setY ?_ true
      intro member
      refine lower_noCapital word ?_
      rw [← split]
      exact List.mem_append_left _ (List.mem_append_left _ member)
    have inner : text <:+ setY true (before ++ text) := by
      rw [← suffix_lower plain, lowered]
      exact ⟨before, rfl⟩
    obtain ⟨start, same⟩ := inner
    exact ⟨start, by rw [← shape, ← same]; simp⟩
  · rintro ⟨before, rfl⟩
    refine ⟨lower before, ?_⟩
    rw [lower_append, lower_append, lower_plain plain]
    rfl

section Step1b

variable {word : Word} (spelled : setY true (lower word) = word)

include spelled

theorem endsWith_lower_ly {suffix : String} {text : Word} (shape : suffix.toList = text ++ ['l', 'y'])
    (plain : Plain text) : endsWith (lower word) suffix = endsWith word suffix := by
  rw [Bool.eq_iff_iff, endsWith_iff, endsWith_iff, shape]
  exact suffix_lower_ly spelled plain

theorem finishStem_eq (r1 : Nat) :
    finishStem (lower word) r1 = .ok (lower (afterDeletion r1 word)) := by
  have double : doubles.any (endsWith (lower word)) = endsDouble word := by
    have each : ∀ suffix ∈ doubles, endsWith (lower word) suffix = endsWith word suffix := by
      have plain : ∀ suffix ∈ doubles, Plain suffix.toList := by decide
      exact fun suffix member => endsWith_lower (plain suffix member) word
    rw [Bool.eq_iff_iff, endsDouble, List.any_eq_true, List.any_eq_true]
    constructor
    · rintro ⟨suffix, member, ends⟩
      exact ⟨suffix, member, (each suffix member).symm.trans ends⟩
    · rintro ⟨suffix, member, ends⟩
      exact ⟨suffix, member, (each suffix member).trans ends⟩
  have marks := markConsonantY_eq (lower_noCapital word)
  rw [spelled] at marks
  rw [finishStem, afterDeletion, endsWith_lower (by decide), endsWith_lower (by decide),
    endsWith_lower (by decide), double, marks, lower_length]
  by_cases ending : (endsWith word "at" || endsWith word "bl" || endsWith word "iz") = true
  · rw [if_pos ending, if_pos ending, lower_append]
    rfl
  rw [if_neg ending, if_neg ending]
  by_cases twice : endsDouble word = true
  · rw [if_pos twice, if_pos twice, lower_dropLast]
    rfl
  rw [if_neg twice, if_neg twice, ok_bind, isShort]
  by_cases null : word.length ≤ r1
  · rw [if_pos null, isShortSyllable_eq (marked_own word), ok_bind, decide_eq_true null,
      Bool.and_true]
    split
    · rw [lower_append]
      rfl
    · rfl
  · rw [if_neg null, decide_eq_false null, Bool.and_false]
    rfl

theorem suffixInRegion_eedly (region : Nat) :
    suffixInRegion (lower word) "eedly" region = .ok (inRegion word "eedly" region) := by
  rw [suffixInRegion, endsWith_lower_ly spelled (show _ = "eed".toList ++ ['l', 'y'] from rfl)
    (by decide), inRegion, lower_length, front_length]
  cases ends : endsWith word "eedly" with
  | false => rfl
  | true =>
      rw [if_pos rfl, subUsize_eq (length_of_ends ends)]
      rfl

end Step1b

/-- What `step_1b` makes of a word with `Y`. -/
def step1bValue (r1 : Nat) (word : Word) : Word :=
  if inRegion word "eedly" r1 then front word "eedly" ++ ['e', 'e']
  else if inRegion word "eed" r1 then front word "eed" ++ ['e', 'e']
  else
    match ["ingly", "edly", "ing", "ed"].find? (endsWith word) with
    | none => word
    | some suffix =>
        if (front word suffix).any isVowel then afterDeletion r1 (front word suffix) else word

/-- `step_1b` of a front of the token. -/
theorem step1b_eq {marks : List Bool} {token word : Word} (noCapital : 'Y' ∉ token)
    (marked : Marked marks word) (isFront : word <+: setY true token) (r1 : Nat) :
    step1b (lower word) r1 marks = .ok (lower (step1bValue r1 word)) := by
  have spelled := (setY_front noCapital isFront).2
  rw [step1b, suffixInRegion_eedly spelled, ok_bind, step1bValue]
  by_cases eedly : inRegion word "eedly" r1 = true
  · rw [if_pos eedly, if_pos eedly]
    exact replaceSuffix_eq (length_of_ends (inRegion_ends eedly).1) (by decide)
  rw [if_neg eedly, if_neg eedly, suffixInRegion_eq (by decide), ok_bind]
  by_cases eed : inRegion word "eed" r1 = true
  · rw [if_pos eed, if_pos eed]
    exact replaceSuffix_front (inRegion_ends eed).1 (by decide)
  rw [if_neg eed, if_neg eed]
  have same : ["ingly", "edly", "ing", "ed"].find? (endsWith (lower word)) =
      ["ingly", "edly", "ing", "ed"].find? (endsWith word) := by
    have ingly := endsWith_lower_ly spelled (show "ingly".toList = "ing".toList ++ ['l', 'y'] from rfl)
      (by decide)
    have edly := endsWith_lower_ly spelled (show "edly".toList = "ed".toList ++ ['l', 'y'] from rfl)
      (by decide)
    have ing := @endsWith_lower "ing" (by decide) word
    have ed := @endsWith_lower "ed" (by decide) word
    simp only [List.find?_cons, List.find?_nil, ingly, edly, ing, ed]
  rw [same]
  cases found : ["ingly", "edly", "ing", "ed"].find? (endsWith word) with
  | none => rfl
  | some suffix =>
      have ends := List.find?_some found
      have fits := length_of_ends ends
      have isStem : front word suffix <+: setY true token := (List.take_prefix _ word).trans isFront
      have stemSpelled := (setY_front noCapital isStem).2
      have stemLower : (lower word).take (word.length - suffix.toList.length) =
          lower (front word suffix) := (lower_take word _).symm
      have vowels : (word.take (word.length - suffix.toList.length)).any isVowel =
          (front word suffix).any isVowel := rfl
      dsimp only
      rw [lower_length, subUsize_eq fits, ok_bind, containsVowel_eq marked (Nat.sub_le _ _), ok_bind,
        vowels, stemLower]
      by_cases vowel : (front word suffix).any isVowel = true
      · rw [if_pos vowel, if_pos vowel]
        exact finishStem_eq stemSpelled r1
      · rw [if_neg vowel, if_neg vowel]
        rfl

/-! ## Step 1c -/

/-- `step_1c` -/
theorem step1c_eq {marks : List Bool} {word : Word} (marked : Marked marks word) :
    step1c (lower word) marks = .ok (lower (Porter2.step1c word)) := by
  obtain ⟨back, rfl⟩ : ∃ back : Word, word = back.reverse := ⟨word.reverse, by simp⟩
  rw [step1c, Porter2.step1c, List.reverse_reverse, lower_length]
  rcases back with _ | ⟨last, _ | ⟨before, _ | ⟨first, rest⟩⟩⟩
  · rfl
  · rfl
  · rfl
  · have shape : (last :: before :: first :: rest).reverse =
        rest.reverse ++ [first, before, last] := by simp
    have size : (last :: before :: first :: rest).reverse.length = rest.length + 3 := by simp
    have beforeHere : (last :: before :: first :: rest).reverse[rest.length + 1]? = some before := by
      rw [shape, List.getElem?_append_right (by simp)]
      simp
    have lastHere : (last :: before :: first :: rest).reverse[rest.length + 2]? = some last := by
      rw [shape, List.getElem?_append_right (by simp)]
      simp
    have positions : rest.length + 3 - 1 = rest.length + 2 ∧
        rest.length + 3 - 2 = rest.length + 1 := by omega
    have isY : (lowerLetter last = 'y' ∨ lowerLetter last = 'Y') ↔ (last = 'y' ∨ last = 'Y') := by
      unfold lowerLetter
      split
      · rename_i capital
        simp [capital]
      · rfl
    rw [size, if_neg (by omega), subUsize_eq (by omega), ok_bind, positions.1,
      letterAt_lower lastHere, ok_bind]
    by_cases final : last = 'y' ∨ last = 'Y'
    · rw [if_pos (isY.mpr final), subUsize_eq (by omega), ok_bind, positions.2,
        isVowelAt_eq marked beforeHere, ok_bind]
      dsimp only
      cases isVowel before with
      | true =>
          rw [if_pos rfl, if_neg (by simp)]
          rfl
      | false =>
          rw [if_neg (by decide), if_pos ⟨final, rfl⟩, lower_append, lower_dropLast]
          rfl
    · rw [if_neg fun y => final (isY.mp y)]
      dsimp only
      rw [if_neg fun both => final both.1]
      rfl

/-! ## Steps 2 to 4 -/

/-- What a rule of `step_2` makes of a word in its suffix. -/
def step2RuleValue (word : Word) (rule : String × String) : Word :=
  if rule.1 ≠ "ogi" ∨ (front word rule.1).getLast? = some 'l' then
    front word rule.1 ++ rule.2.toList
  else word

/-- What `step_2` makes of a word with `Y`. -/
def step2Value (r1 : Nat) (word : Word) : Word :=
  match firstInRegion step2Rules r1 word with
  | some rule => step2RuleValue word rule
  | none =>
      if inRegion word "li" r1 && (front word "li").getLast?.any validLiEnding then
        front word "li"
      else word

/-- The letter in front of a suffix. -/
theorem letter_before {word : Word} {suffix : String} (positive : 0 < (front word suffix).length) :
    ∃ letter, (front word suffix).getLast? = some letter ∧
      word[(front word suffix).length - 1]? = some letter := by
  have inside : (front word suffix).length - 1 < (front word suffix).length := by omega
  have here := List.getElem?_eq_getElem inside
  refine ⟨(front word suffix)[(front word suffix).length - 1], ?_, ?_⟩
  · rw [List.getLast?_eq_getElem?, here]
  · have isFront : (word.take (word.length - suffix.toList.length))[(front word suffix).length - 1]? =
        word[(front word suffix).length - 1]? :=
      List.getElem?_take_of_lt (by rw [front_length] at inside ⊢; exact inside)
    exact isFront.symm.trans here

theorem lowerLetter_eq_iff {letter other : Char} (notY : other ≠ 'y') (notCapital : other ≠ 'Y') :
    lowerLetter letter = other ↔ letter = other := by
  unfold lowerLetter
  split
  · rename_i capital
    rw [capital]
    exact iff_of_false notY.symm notCapital.symm
  · exact Iff.rfl

theorem step2Rule_eq {word : Word} {rule : String × String} {r1 : Nat} (positive : 0 < r1)
    (plain : Plain rule.2.toList) (inside : inRegion word rule.1 r1 = true) :
    step2Rule (lower word) rule = .ok (lower (step2RuleValue word rule)) := by
  obtain ⟨ends, least⟩ := inRegion_ends inside
  have fits := length_of_ends ends
  rw [step2Rule, step2RuleValue]
  by_cases isOgi : rule.1 = "ogi"
  · obtain ⟨letter, last, here⟩ := @letter_before word rule.1 (by omega)
    rw [front_length] at here least
    have isL : (lower word)[word.length - rule.1.toList.length - 1]? = some 'l' ↔
        (front word rule.1).getLast? = some 'l' := by
      rw [last, lower, List.getElem?_map, here, Option.map_some, Option.some_inj, Option.some_inj]
      exact lowerLetter_eq_iff (by decide) (by decide)
    rw [if_neg (not_not.mpr isOgi), lower_length, subUsize_eq fits, ok_bind,
      subUsize_eq (by omega), ok_bind]
    by_cases behindL : (front word rule.1).getLast? = some 'l'
    · rw [if_pos (isL.mpr behindL), if_pos (Or.inr behindL)]
      exact replaceSuffix_front ends plain
    · rw [if_neg fun same => behindL (isL.mp same), if_neg fun either =>
        either.elim (fun other => other isOgi) behindL]
      rfl
  · rw [if_pos isOgi, if_pos (Or.inl isOgi)]
    exact replaceSuffix_front ends plain

theorem validLiEnding_lower (letter : Char) :
    validLiEnding (lowerLetter letter) = validLiEnding letter := by
  by_cases capital : letter = 'Y'
  · rw [capital]
    decide
  · rw [lowerLetter_of_ne capital]

/-- `step_2` -/
theorem step2_eq {word : Word} {r1 : Nat} (positive : 0 < r1) :
    step2 (lower word) r1 = .ok (lower (step2Value r1 word)) := by
  have suffixes : ∀ entry ∈ step2Rules, Plain entry.1.toList := by decide
  have replacements : ∀ entry ∈ step2Rules, Plain entry.2.toList := by decide
  rw [step2, applyRules_eq suffixes fun entry member inside =>
    step2Rule_eq positive (replacements entry member) inside, ok_bind, step2Value]
  cases firstInRegion step2Rules r1 word with
  | some rule => rfl
  | none =>
      rw [Option.map_none]
      dsimp only
      rw [suffixInRegion_eq (by decide), ok_bind]
      cases inside : inRegion word "li" r1 with
      | false => rfl
      | true =>
          obtain ⟨ends, least⟩ := inRegion_ends inside
          have fits := length_of_ends ends
          have size : "li".toList.length = 2 := rfl
          obtain ⟨letter, last, here⟩ := @letter_before word "li" (by omega)
          rw [front_length, size] at here least
          rw [size] at fits
          have position : word.length - 2 - 1 = word.length - 3 := by omega
          rw [position] at here
          rw [if_pos rfl, lower_length, subUsize_eq (by omega), ok_bind, letterAt_lower here, ok_bind,
            validLiEnding_lower, last, Bool.true_and, Option.any_some]
          cases validLiEnding letter with
          | false => rfl
          | true =>
              rw [if_pos rfl, if_pos rfl, replaceSuffix_front ends (by decide)]
              exact congrArg (fun text => Except.ok (lower text)) (List.append_nil _)

/-- What `step_3` makes of a word with `Y`. -/
def step3Value (r1 r2 : Nat) (word : Word) : Word :=
  match firstInRegion step3Rules r1 word with
  | some rule => front word rule.1 ++ rule.2.toList
  | none => if inRegion word "ative" r2 then front word "ative" else word

/-- `step_3` -/
theorem step3_eq (word : Word) (r1 r2 : Nat) :
    step3 (lower word) r1 r2 = .ok (lower (step3Value r1 r2 word)) := by
  have suffixes : ∀ entry ∈ step3Rules, Plain entry.1.toList := by decide
  have replacements : ∀ entry ∈ step3Rules, Plain entry.2.toList := by decide
  rw [step3, applyRules_eq suffixes fun entry member inside =>
    replaceSuffix_front (inRegion_ends inside).1 (replacements entry member), ok_bind, step3Value]
  cases firstInRegion step3Rules r1 word with
  | some rule => rfl
  | none =>
      rw [Option.map_none]
      dsimp only
      rw [suffixInRegion_eq (by decide), ok_bind]
      cases inside : inRegion word "ative" r2 with
      | false => rfl
      | true =>
          rw [if_pos rfl, if_pos rfl, replaceSuffix_front (inRegion_ends inside).1 (by decide)]
          exact congrArg (fun text => Except.ok (lower text)) (List.append_nil _)

/-- What `step_4` makes of a word with `Y`. -/
def step4Value (r2 : Nat) (word : Word) : Word :=
  match firstInRegion (step4Suffixes.map fun suffix => (suffix, "")) r2 word with
  | some rule => front word rule.1
  | none =>
      if inRegion word "ion" r2 then
        if (front word "ion").getLast?.any fun letter => letter == 's' || letter == 't' then
          front word "ion"
        else word
      else if inRegion word "ou" r2 then front word "ou"
      else word

/-- `step_4` -/
theorem step4_eq {word : Word} {r2 : Nat} (positive : 0 < r2) :
    step4 (lower word) r2 = .ok (lower (step4Value r2 word)) := by
  have deleted : ∀ {suffix : String}, endsWith word suffix = true →
      replaceSuffix (lower word) suffix.toList "" = .ok (lower (front word suffix)) := by
    intro suffix ends
    rw [replaceSuffix_front ends (by decide)]
    exact congrArg (fun text => Except.ok (lower text)) (List.append_nil _)
  have suffixes : ∀ entry ∈ step4Suffixes.map fun suffix => (suffix, ""),
      Plain entry.1.toList := by decide
  have each : ∀ entry ∈ step4Suffixes.map fun suffix => (suffix, ""),
      inRegion word entry.1 r2 = true →
        plainRule (lower word) entry = .ok (lower (front word entry.1)) := by
    intro entry member inside
    obtain ⟨suffix, -, rfl⟩ := List.mem_map.mp member
    exact deleted (inRegion_ends inside).1
  rw [step4, applyRules_eq suffixes each, ok_bind, step4Value]
  cases firstInRegion (step4Suffixes.map fun suffix => (suffix, "")) r2 word with
  | some rule => rfl
  | none =>
      rw [Option.map_none]
      dsimp only
      rw [suffixInRegion_eq (by decide), ok_bind]
      cases ion : inRegion word "ion" r2 with
      | true =>
          obtain ⟨ends, least⟩ := inRegion_ends ion
          have fits := length_of_ends ends
          have size : "ion".toList.length = 3 := rfl
          obtain ⟨letter, last, here⟩ := @letter_before word "ion" (by omega)
          rw [front_length, size] at here least
          rw [size] at fits
          have position : word.length - 3 - 1 = word.length - 4 := by omega
          rw [position] at here
          have same : (lowerLetter letter = 's' ∨ lowerLetter letter = 't') ↔
              (letter = 's' ∨ letter = 't') :=
            or_congr (lowerLetter_eq_iff (by decide) (by decide))
              (lowerLetter_eq_iff (by decide) (by decide))
          rw [if_pos rfl, if_pos rfl, lower_length, subUsize_eq (by omega), ok_bind,
            letterAt_lower here, ok_bind, last, Option.any_some]
          by_cases suitable : letter = 's' ∨ letter = 't'
          · rw [if_pos (same.mpr suitable), if_pos (by simpa using suitable)]
            exact deleted ends
          · rw [if_neg fun either => suitable (same.mp either), if_neg (by simpa using suitable)]
            rfl
      | false =>
          rw [if_neg (by decide), if_neg (by decide), suffixInRegion_eq (by decide), ok_bind]
          cases ou : inRegion word "ou" r2 with
          | true =>
              rw [if_pos rfl, if_pos rfl]
              exact deleted (inRegion_ends ou).1
          | false => rfl

/-! ## Step 5 -/

theorem endsWith_single {word : Word} {suffix : String} {letter : Char}
    (single : suffix.toList = [letter]) :
    endsWith word suffix = true ↔ word.getLast? = some letter := by
  rw [endsWith_iff, single]
  exact List.singleton_suffix_iff_getLast?_eq_some

theorem endsWith_double {word : Word} {suffix : String} {first second : Char}
    (double : suffix.toList = [first, second]) :
    endsWith word suffix = true ↔
      word.getLast? = some second ∧ word.dropLast.getLast? = some first := by
  rw [endsWith_iff, double]
  rcases List.eq_nil_or_concat word with empty | ⟨before, last, shape⟩
  · rw [empty]
    simp
  · rw [shape, List.concat_eq_append, List.getLast?_concat, List.dropLast_concat,
      ← List.singleton_suffix_iff_getLast?_eq_some, Option.some_inj,
      show [first, second] = [first] ++ [second] from rfl, List.suffix_concat_iff]
    constructor
    · rintro (empty | ⟨text, same, ends⟩)
      · simp at empty
      · obtain ⟨rfl, lastSame⟩ := List.append_inj' same rfl
        exact ⟨(List.singleton_inj.mp lastSame).symm, ends⟩
    · rintro ⟨rfl, ends⟩
      exact Or.inr ⟨[first], rfl, ends⟩

/-- The marks of a word without its last letter are those in front of it. -/
theorem Marked.dropLast {marks : List Bool} {word : Word} (marked : Marked marks word) :
    Marked (marks.take (min marks.length word.dropLast.length)) word.dropLast := by
  rw [List.dropLast_eq_take]
  intro index letter here
  have inside := (List.getElem?_eq_some_iff.mp here).1
  have kept : (marks.take (min marks.length (word.take (word.length - 1)).length)).getD index false =
      marks.getD index false := by
    rw [List.getD_eq_getElem?_getD, List.getD_eq_getElem?_getD, List.getElem?_take]
    split
    · rfl
    · rw [List.getElem?_eq_none (by omega)]
  rw [kept]
  exact marked.take (word.length - 1) index letter here

/-- `step_5` -/
theorem step5_eq {marks : List Bool} {word : Word} (marked : Marked marks word) (r1 r2 : Nat) :
    step5 (lower word) r1 r2 marks = .ok (lower (Porter2.step5 r1 r2 word)) := by
  have endsE : endsWith word "e" = true ↔ word.getLast? = some 'e' := endsWith_single rfl
  have endsLL : endsWith word "ll" = true ↔
      word.getLast? = some 'l' ∧ word.dropLast.getLast? = some 'l' := endsWith_double rfl
  have size : word.dropLast.length = word.length - 1 := List.length_dropLast
  have shorter : (lower word).dropLast = lower word.dropLast := (lower_dropLast word).symm
  rw [step5, Porter2.step5, endsWith_lower (by decide), endsWith_lower (by decide), lower_length,
    shorter]
  dsimp only
  by_cases isE : word.getLast? = some 'e'
  · have nonempty : 0 < word.length := by
      cases word with
      | nil => cases isE
      | cons first rest => exact Nat.succ_pos _
    have stemLower : (lower word).take (word.length - 1) = lower word.dropLast := by
      rw [List.dropLast_eq_take, lower_take]
    rw [if_pos (endsE.mpr isE), if_pos isE, subUsize_eq nonempty, ok_bind, stemLower, lower_length,
      isShortSyllable_eq marked.dropLast, size]
    by_cases inR2 : r2 ≤ word.length - 1
    · rw [if_pos inR2, if_pos (Or.inl inR2)]
      rfl
    rw [if_neg inR2]
    by_cases inR1 : r1 ≤ word.length - 1
    · rw [if_pos inR1, if_pos (Nat.sub_le _ _), ok_bind]
      cases endsShortSyllable word.dropLast with
      | true =>
          rw [if_pos rfl, if_neg (by simp [inR2])]
          rfl
      | false =>
          rw [if_neg (by decide), if_pos (Or.inr ⟨inR1, rfl⟩)]
          rfl
    · rw [if_neg inR1, if_neg fun either => either.elim inR2 fun both => inR1 both.1]
      rfl
  · rw [if_neg fun ends => isE (endsE.mp ends), if_neg isE]
    by_cases isLL : endsWith word "ll" = true
    · obtain ⟨last, before⟩ := endsLL.mp isLL
      have long : 2 ≤ word.length := length_of_ends isLL
      rw [if_pos last, isLL, Bool.true_and]
      by_cases inR2 : r2 < word.length
      · rw [if_pos (decide_eq_true inR2), if_pos ⟨by omega, before⟩]
        rfl
      · rw [if_neg (by simpa using inR2), if_neg fun both => inR2 (by omega)]
        rfl
    · rw [Bool.eq_false_iff.mpr isLL, Bool.false_and, if_neg (by decide)]
      split
      · rename_i last
        rw [if_neg fun both => isLL (endsLL.mpr ⟨last, both.2⟩)]
        rfl
      · rfl

end MoonShot.Tokenizer
