import MoonShot.Tokenizer.SuffixTables

/-!
The steps of the stemmer beside those of the published algorithm.

Owns the four places where the stemmer goes on with a shorter suffix than the longest one, or
with a suffix that the algorithm does not have, and the proof that every step without such a
place is the published one.

Does not own the runs of the steps.
-/

namespace MoonShot.Tokenizer

open MoonShot.Lib
open Porter2

/-! ## Where the stemmer slips -/

/-- `eedly` or `eed` is not in R1, and the stemmer goes on with `edly` or `ed`. -/
def EedSlip (r1 : Nat) (word : Word) : Prop :=
  (endsWith word "eedly" = true ∧ (front word "eedly").length < r1) ∨
    (endsWith word "eed" = true ∧ (front word "eed").length < r1)

/-- `entli` is not in R1, and the stemmer goes on with `li`. -/
def EntliSlip (r1 : Nat) (word : Word) : Prop :=
  endsWith word "entli" = true ∧ (front word "entli").length < r1 ∧ r1 ≤ (front word "li").length

/-- `ou` is in R2. -/
def OuSlip (r2 : Nat) (word : Word) : Prop := inRegion word "ou" r2 = true

/-- The longest of `ement` and `ment` is not in R2, and the stemmer goes on with a shorter one. -/
def MentSlip (r2 : Nat) (word : Word) : Prop :=
  endsWith word "ment" = true ∧ r2 ≤ (front word "ent").length ∧
    (front word (if endsWith word "ement" then "ement" else "ment")).length < r2

/-- The published word meets one of them on its way. -/
def Slips (r1 r2 : Nat) (word : Word) : Prop :=
  EedSlip r1 word ∨ EntliSlip r1 (Porter2.step1c (Porter2.step1b r1 word)) ∨
    OuSlip r2 (Porter2.step3 r1 r2 (Porter2.step2 r1 (Porter2.step1c (Porter2.step1b r1 word)))) ∨
    MentSlip r2 (Porter2.step3 r1 r2 (Porter2.step2 r1 (Porter2.step1c (Porter2.step1b r1 word))))

/-! ## The letter in front of R1 -/

theorem regionStart_boundary {word : Word} (inside : regionStart word < word.length) :
    ∃ letter, word[regionStart word - 1]? = some letter ∧ isVowel letter = false := by
  fun_induction regionStart word with
  | case1 => exact absurd inside (Nat.lt_irrefl 0)
  | case2 => exact absurd inside (Nat.lt_irrefl 1)
  | case3 first second rest pair =>
      rw [Bool.and_eq_true, Bool.not_eq_true'] at pair
      exact ⟨second, rfl, pair.2⟩
  | case4 first second rest notPair inductionHypothesis =>
      obtain ⟨letter, here, consonant⟩ := inductionHypothesis (Nat.lt_of_succ_lt_succ inside)
      refine ⟨letter, ?_, consonant⟩
      have positive := @regionStart_pos (second :: rest) (by simp)
      rw [Nat.add_sub_cancel, ← Nat.sub_add_cancel positive, List.getElem?_cons_succ]
      exact here

theorem letter_of_isPrefixOf {text word : Word} (isFront : text.isPrefixOf word = true) {index : Nat}
    {letter : Char} (here : text[index]? = some letter) : word[index]? = some letter := by
  obtain ⟨rest, rfl⟩ := List.isPrefixOf_iff_prefix.mp isFront
  rw [List.getElem?_append_left (List.getElem?_eq_some_iff.mp here).1]
  exact here

/-- R1 starts behind a letter that is no vowel. -/
theorem region1_boundary {word : Word} (inside : region1 word < word.length) :
    ∃ letter, word[region1 word - 1]? = some letter ∧ isVowel letter = false := by
  unfold region1 at inside ⊢
  split
  · rename_i isFront
    exact ⟨'r', letter_of_isPrefixOf isFront rfl, rfl⟩
  · rename_i notGener
    rw [if_neg notGener] at inside
    split
    · rename_i isFront
      exact ⟨'n', letter_of_isPrefixOf isFront rfl, rfl⟩
    · rename_i notCommun
      rw [if_neg notCommun] at inside
      split
      · rename_i isFront
        exact ⟨'n', letter_of_isPrefixOf isFront rfl, rfl⟩
      · rename_i notArsen
        rw [if_neg notArsen] at inside
        exact regionStart_boundary inside

/-- Below the limit the letters of the word but the last are those of the token. -/
structure Agrees (token : Word) (limit : Nat) (word : Word) : Prop where
  size : word.length ≤ token.length
  letters : ∀ index, index < limit → index + 1 < word.length → word[index]? = token[index]?

theorem letter_in_suffix {word : Word} {suffix : String} (ends : endsWith word suffix = true)
    {index : Nat} {letter : Char} (here : suffix.toList[index]? = some letter) :
    word[(front word suffix).length + index]? = some letter := by
  obtain ⟨before, rfl⟩ := endsWith_iff.mp ends
  rw [front_of_append, List.getElem?_append_right (Nat.le_add_right _ _), Nat.add_sub_cancel_left]
  exact here

theorem length_of_front {word : Word} {suffix : String} (ends : endsWith word suffix = true) :
    word.length = (front word suffix).length + suffix.toList.length := by
  have fits := length_of_ends ends
  have size := front_length word suffix
  omega

/-- R1 does not start behind the first letter of a suffix that begins with a vowel. -/
theorem boundary_behind_vowel {token word : Word} (agrees : Agrees token (region1 token) word)
    {suffix : String} (ends : endsWith word suffix = true) {letter : Char}
    (first : suffix.toList[0]? = some letter) (vowel : isVowel letter = true)
    (long : 1 < suffix.toList.length) (outside : (front word suffix).length < region1 token) :
    (front word suffix).length + 1 < region1 token := by
  refine Nat.lt_of_not_le fun next => ?_
  have size := length_of_front ends
  have sizes := agrees.size
  obtain ⟨other, there, consonant⟩ := @region1_boundary token (by omega)
  have here := letter_in_suffix ends first
  rw [Nat.add_zero, agrees.letters _ outside (by omega)] at here
  rw [show region1 token - 1 = (front word suffix).length by omega, here, Option.some_inj] at there
  rw [there, consonant] at vowel
  cases vowel

/-! ## Step 1b -/

/-- `step_1b` without a slip. -/
theorem step1b_agrees {r1 : Nat} {word : Word} (noSlip : ¬EedSlip r1 word) :
    step1bValue r1 word = Porter2.step1b r1 word := by
  have sorted : (step1bRules r1).Pairwise fun first second =>
      second.suffix.toList.length ≤ first.suffix.toList.length := by
    simp [step1bRules, eedAction, deletion]
  rw [Porter2.step1b, applyLongest_eq sorted, step1bValue]
  simp only [step1bRules, eedAction, deletion, List.find?_cons, List.find?_nil, Nat.zero_le, if_true]
  cases eedly : endsWith word "eedly" with
  | true =>
      have inside : r1 ≤ (front word "eedly").length :=
        Nat.not_lt.mp fun outside => noSlip (Or.inl ⟨eedly, outside⟩)
      rw [if_pos (inRegion_iff.mpr ⟨eedly, inside⟩)]
      exact (if_pos inside).symm
  | false =>
  rw [inRegion_false r1 eedly, if_neg (by decide)]
  cases eed : endsWith word "eed" with
  | true =>
      have inside : r1 ≤ (front word "eed").length :=
        Nat.not_lt.mp fun outside => noSlip (Or.inr ⟨eed, outside⟩)
      rw [if_pos (inRegion_iff.mpr ⟨eed, inside⟩), not_ends_of_apart eed (by decide),
        not_ends_of_apart eed (by decide)]
      exact (if_pos inside).symm
  | false =>
  rw [inRegion_false r1 eed, if_neg (by decide)]
  cases ingly : endsWith word "ingly" with
  | true => simp only [front_append ingly]
  | false =>
  cases edly : endsWith word "edly" with
  | true => simp only [front_append edly]
  | false =>
  cases ing : endsWith word "ing" with
  | true => simp only [front_append ing]
  | false =>
  cases ed : endsWith word "ed" with
  | true => simp only [front_append ed]
  | false => rfl

/-! ## Step 2 -/

/-- What the algorithm makes of the part in front of a suffix of step 2. -/
def step2Action (entry : String × String) (before : Word) : Word :=
  if entry.1 ≠ "ogi" ∨ before.getLast? = some 'l' then before ++ entry.2.toList
  else before ++ entry.1.toList

def liRule : Rule := deleteIf "li" fun before => before.getLast?.any validLiEnding

theorem step2_extends : Extends step2Rules step2Action liRule Porter2.step2Rules := by
  have plain : ∀ suffix replacement : String, suffix ≠ "ogi" →
      Rule.mk suffix (step2Action (suffix, replacement)) = replaceBy suffix replacement := by
    intro suffix replacement other
    have value : step2Action (suffix, replacement) = fun before => before ++ replacement.toList :=
      funext fun before => if_pos (Or.inl other)
    rw [value]
    rfl
  have ogi : Rule.mk "ogi" (step2Action ("ogi", "og")) =
      ⟨"ogi", fun before => before ++ if before.getLast? = some 'l' then ['o', 'g']
        else ['o', 'g', 'i']⟩ := by
    have value : step2Action ("ogi", "og") = fun before =>
        before ++ if before.getLast? = some 'l' then ['o', 'g'] else ['o', 'g', 'i'] := by
      funext before
      by_cases behindL : before.getLast? = some 'l'
      · rw [step2Action, if_pos (Or.inr behindL), if_pos behindL]
        rfl
      · rw [step2Action, if_neg (fun either => either.elim (fun other => other rfl) behindL),
          if_neg behindL]
        rfl
    rw [value]
  have table : (step2Rules.map fun entry => Rule.mk entry.1 (step2Action entry)) ++ [liRule] =
      Porter2.step2Rules := by
    simp (disch := decide) only [step2Rules, List.map_cons, List.map_nil, plain, ogi]
    rfl
  refine ⟨fun rule => ?_, by decide, by decide, by decide, by decide⟩
  rw [← table, List.mem_append, List.mem_map, List.mem_singleton]
  simp only [eq_comm]

/-- The suffixes of step 2 that end another one. -/
theorem step2_nested : ∀ entry ∈ step2Rules, ∀ other ∈ step2Rules,
    other.1.toList.isSuffixOf entry.1.toList = true →
      other.1.toList.length < entry.1.toList.length →
        (entry.1 = "ization" ∧ other.1 = "ation") ∨ (entry.1 = "ational" ∧ other.1 = "tional") ∨
          (entry.1 = "abli" ∧ other.1 = "bli") := by decide +kernel

/-- The suffixes of step 2 that `li` ends: only `entli` has a letter in front of it that lets
`li` be deleted. -/
theorem step2_li : ∀ entry ∈ step2Rules, "li".toList.isSuffixOf entry.1.toList = true →
    entry.1 = "entli" ∨ ((front entry.1.toList "li").getLast?.any validLiEnding = false ∧
      front entry.1.toList "li" ≠ []) := by decide +kernel

/-- A shorter suffix that is in the region where a longer one is not. -/
theorem nested_of_outside {word : Word} {long short : String} {region : Nat}
    (longEnds : endsWith word long = true) (outside : (front word long).length < region)
    (shortInside : inRegion word short region = true) :
    short.toList.isSuffixOf long.toList = true ∧ short.toList.length < long.toList.length := by
  obtain ⟨shortEnds, least⟩ := inRegion_ends shortInside
  have longSize := length_of_front longEnds
  have shortSize := length_of_front shortEnds
  have shorter : short.toList.length < long.toList.length := by omega
  exact ⟨List.isSuffixOf_iff_suffix.mpr (ends_of_shorter shortEnds longEnds (Nat.le_of_lt shorter)),
    shorter⟩

/-- The part in front of the shorter of two suffixes. -/
theorem front_of_nested {word : Word} {long short : String} (longEnds : endsWith word long = true)
    (nested : short.toList.isSuffixOf long.toList = true) :
    front word short = front word long ++ front long.toList short := by
  obtain ⟨before, rfl⟩ := endsWith_iff.mp longEnds
  obtain ⟨between, split⟩ := List.isSuffixOf_iff_suffix.mp nested
  have inner : front long.toList short = between := by
    rw [← split]
    exact front_of_append between short
  rw [front_of_append, inner, ← split, ← List.append_assoc]
  exact front_of_append _ short

theorem step2_agrees {token word : Word} (agrees : Agrees token (region1 token) word)
    (noSlip : ¬EntliSlip (region1 token) word)
    (noIzation : ¬(endsWith word "ization" = true ∧
      (front word "ization").length < region1 token ∧
        inRegion word "ation" (region1 token) = true)) :
    step2Value (region1 token) word = Porter2.step2 (region1 token) word := by
  rw [step2Value, Porter2.step2]
  cases step2_extends.outcome (region1 token) word with
  | none outside notExtra same =>
      have noLi : inRegion word "li" (region1 token) = false := inRegion_false _ notExtra
      rw [outside, same]
      dsimp only
      rw [noLi]
      rfl
  | applied entry found ends same =>
      rw [found, same]
      dsimp only
      rw [step2RuleValue, step2Action, front_append ends]
  | extra outside ends same =>
      rw [outside, same]
      dsimp only
      have liEnds : endsWith word "li" = true := ends
      have value : liRule.action (front word "li") =
          if (front word "li").getLast?.any validLiEnding then front word "li" else word := by
        have whole := front_append liEnds
        show (if (front word "li").getLast?.any validLiEnding then front word "li"
          else front word "li" ++ "li".toList) = _
        rw [whole]
      rw [show liRule.suffix = "li" from rfl, value]
      by_cases inside : region1 token ≤ (front word "li").length
      · rw [if_pos inside, inRegion_iff.mpr ⟨liEnds, inside⟩, Bool.true_and]
      · rw [if_neg inside, inRegion_outside (Nat.not_le.mp inside)]
        rfl
  | outside entry member ends outside same =>
      rw [same]
      cases found : firstInRegion step2Rules (region1 token) word with
      | some other =>
          obtain ⟨otherMember, otherInside⟩ := firstInRegion_some found
          obtain ⟨nested, shorter⟩ := nested_of_outside ends outside otherInside
          have otherLeast := (inRegion_ends otherInside).2
          have otherEnds := (inRegion_ends otherInside).1
          have sizes : (front word entry.1).length + entry.1.toList.length =
              (front word other.1).length + other.1.toList.length := by
            rw [← length_of_front ends, ← length_of_front otherEnds]
          rcases step2_nested entry member other otherMember nested shorter with
            ⟨long, short⟩ | ⟨long, short⟩ | ⟨long, short⟩
          · rw [long] at ends outside
            rw [short] at otherInside
            exact absurd ⟨ends, outside, otherInside⟩ noIzation
          · rw [long] at ends outside sizes
            rw [short] at otherLeast sizes
            have behind := boundary_behind_vowel agrees ends rfl (by decide) (by decide) outside
            simp at sizes
            omega
          · rw [long] at ends outside sizes
            rw [short] at otherLeast sizes
            have behind := boundary_behind_vowel agrees ends rfl (by decide) (by decide) outside
            simp at sizes
            omega
      | none =>
          dsimp only
          cases inside : inRegion word "li" (region1 token) with
          | false => rfl
          | true =>
              obtain ⟨nested, -⟩ := nested_of_outside ends outside inside
              rcases step2_li entry member nested with isEntli | ⟨invalid, more⟩
              · rw [isEntli] at ends outside
                exact absurd ⟨ends, outside, (inRegion_ends inside).2⟩ noSlip
              · have lastLetter : (front word "li").getLast? = (front entry.1.toList "li").getLast? := by
                  rw [front_of_nested ends nested, List.getLast?_append_of_ne_nil _ more]
                rw [lastLetter, invalid]
                rfl

/-! ## Step 3 -/

def replaceAction (entry : String × String) (before : Word) : Word := before ++ entry.2.toList

def ativeRule (r2 : Nat) : Rule := deleteIf "ative" fun before => decide (r2 ≤ before.length)

theorem step3_suffixes (r2 : Nat) :
    (Porter2.step3Rules r2).map Rule.suffix = (Porter2.step3Rules 0).map Rule.suffix := rfl

theorem step3_extends (r2 : Nat) :
    Extends step3Rules replaceAction (ativeRule r2) (Porter2.step3Rules r2) := by
  have shorter : ∀ entry ∈ step3Rules, meets entry.1 "ative" = true →
      "ative".toList.length < entry.1.toList.length := by decide
  refine ⟨fun rule => ?_, ?_, by decide, by decide, shorter⟩
  · have table : (∃ entry ∈ step3Rules, rule = ⟨entry.1, replaceAction entry⟩) ↔
        rule ∈ step3Rules.map fun entry => replaceBy entry.1 entry.2 := by
      rw [List.mem_map]
      simp only [eq_comm]
      rfl
    rw [table]
    simp only [Porter2.step3Rules, step3Rules, ativeRule, List.map_cons, List.map_nil,
      List.mem_cons, List.not_mem_nil, or_false]
    tauto
  · rw [step3_suffixes]
    decide

theorem step3_nested : ∀ entry ∈ step3Rules, ∀ other ∈ step3Rules,
    other.1.toList.isSuffixOf entry.1.toList = true →
      other.1.toList.length < entry.1.toList.length →
        entry.1 = "ational" ∧ other.1 = "tional" := by decide

theorem step3_agrees {token word : Word} (agrees : Agrees token (region1 token) word) {r2 : Nat}
    (ordered : region1 token ≤ r2) :
    step3Value (region1 token) r2 word = Porter2.step3 (region1 token) r2 word := by
  rw [step3Value, Porter2.step3]
  cases (step3_extends r2).outcome (region1 token) word with
  | none outside notExtra same =>
      have noAtive : inRegion word "ative" r2 = false := inRegion_false _ notExtra
      rw [outside, same]
      dsimp only
      rw [noAtive]
      rfl
  | applied entry found ends same =>
      rw [found, same]
      rfl
  | extra outside ends same =>
      have ativeEnds : endsWith word "ative" = true := ends
      have whole : front word "ative" ++ "ative".toList = word := front_append ativeEnds
      have value : (ativeRule r2).action (front word "ative") =
          if decide (r2 ≤ (front word "ative").length) then front word "ative" else word := by
        show (if decide (r2 ≤ (front word "ative").length) then front word "ative"
          else front word "ative" ++ "ative".toList) = _
        rw [whole]
      rw [outside, same, show (ativeRule r2).suffix = "ative" from rfl, value, inRegion, ativeEnds]
      dsimp only
      by_cases inside : r2 ≤ (front word "ative").length
      · rw [if_pos (Nat.le_trans ordered inside), Bool.true_and]
      · rw [decide_eq_false inside]
        exact (ite_self _).symm
  | outside entry member ends outside same =>
      rw [same]
      cases found : firstInRegion step3Rules (region1 token) word with
      | some other =>
          obtain ⟨otherMember, otherInside⟩ := firstInRegion_some found
          obtain ⟨nested, shorter⟩ := nested_of_outside ends outside otherInside
          obtain ⟨otherEnds, otherLeast⟩ := inRegion_ends otherInside
          obtain ⟨long, short⟩ := step3_nested entry member other otherMember nested shorter
          have sizes := (length_of_front ends).symm.trans (length_of_front otherEnds)
          rw [long] at ends outside sizes
          rw [short] at otherLeast sizes
          have behind := boundary_behind_vowel agrees ends rfl (by decide) (by decide) outside
          simp at sizes
          omega
      | none =>
          have apart : ∀ entry ∈ step3Rules, meets entry.1 "ative" = false := by decide
          dsimp only
          rw [inRegion_false r2 (not_ends_of_apart ends (apart entry member))]
          rfl

/-! ## Step 4 -/

def ionRule : Rule :=
  deleteIf "ion" fun before => before.getLast?.any fun letter => letter == 's' || letter == 't'

def step4Table : List (String × String) := step4Suffixes.map fun suffix => (suffix, "")

theorem step4Table_eq : (step4Suffixes.map fun suffix => (suffix, "")) = step4Table := rfl

theorem step4_extends : Extends step4Table replaceAction ionRule Porter2.step4Rules := by
  refine ⟨fun rule => ?_, by decide, by decide, by decide, by decide⟩
  have table : (∃ entry ∈ step4Table, rule = ⟨entry.1, replaceAction entry⟩) ↔
      rule ∈ step4Table.map fun entry => replaceBy entry.1 entry.2 := by
    rw [List.mem_map]
    simp only [eq_comm]
    rfl
  rw [table]
  simp only [Porter2.step4Rules, step4Table, step4Suffixes, ionRule, List.map_cons, List.map_nil,
    List.mem_cons, List.not_mem_nil, or_false]
  tauto

theorem step4_nested : ∀ entry ∈ step4Table, ∀ other ∈ step4Table,
    other.1.toList.isSuffixOf entry.1.toList = true →
      other.1.toList.length < entry.1.toList.length →
        (entry.1 = "ement" ∨ entry.1 = "ment") ∧ (other.1 = "ment" ∨ other.1 = "ent") := by
  decide +kernel

theorem ends_of_longer {word : Word} {long short : String} (longEnds : endsWith word long = true)
    (nested : short.toList.isSuffixOf long.toList = true) : endsWith word short = true :=
  endsWith_iff.mpr ((List.isSuffixOf_iff_suffix.mp nested).trans (endsWith_iff.mp longEnds))

theorem front_antitone (word : Word) {long short : String}
    (shorter : short.toList.length ≤ long.toList.length) :
    (front word long).length ≤ (front word short).length := by
  rw [front_length, front_length]
  omega

/-- A longer suffix out of R2 with `ent` in R2 is a slip. -/
theorem mentSlip_of_nested {word : Word} {long short : String} {r2 : Nat}
    (longEnds : endsWith word long = true) (outside : (front word long).length < r2)
    (shortInside : inRegion word short r2 = true) (isLong : long = "ement" ∨ long = "ment")
    (isShort : short = "ment" ∨ short = "ent") : MentSlip r2 word := by
  obtain ⟨shortEnds, least⟩ := inRegion_ends shortInside
  have inside : r2 ≤ (front word "ent").length := by
    refine Nat.le_trans least (front_antitone word ?_)
    rcases isShort with rfl | rfl
    · decide
    · decide
  have longer : (front word "ement").length ≤ (front word long).length := by
    refine front_antitone word ?_
    rcases isLong with rfl | rfl
    · decide
    · decide
  have ends : endsWith word "ment" = true := by
    refine ends_of_longer longEnds ?_
    rcases isLong with rfl | rfl
    · decide
    · decide
  refine ⟨ends, inside, ?_⟩
  split
  · exact Nat.lt_of_le_of_lt longer outside
  · rename_i notEnds
    rcases isLong with rfl | rfl
    · exact absurd longEnds notEnds
    · exact outside

theorem step4_agrees {word : Word} {r2 : Nat} (noOu : ¬OuSlip r2 word) (noMent : ¬MentSlip r2 word) :
    step4Value r2 word = Porter2.step4 r2 word := by
  have ouOutside : inRegion word "ou" r2 = false := Bool.eq_false_iff.mpr noOu
  rw [step4Value, Porter2.step4, step4Table_eq]
  cases step4_extends.outcome r2 word with
  | none outside notExtra same =>
      have noIon : inRegion word "ion" r2 = false := inRegion_false _ notExtra
      rw [outside, same]
      dsimp only
      rw [noIon, ouOutside]
      rfl
  | applied entry found ends same =>
      obtain ⟨suffix, -, rfl⟩ := List.mem_map.mp (firstInRegion_some found).1
      rw [found, same]
      exact (List.append_nil _).symm
  | extra outside ends same =>
      have ionEnds : endsWith word "ion" = true := ends
      have whole : front word "ion" ++ "ion".toList = word := front_append ionEnds
      have value : ionRule.action (front word "ion") =
          if (front word "ion").getLast?.any fun letter => letter == 's' || letter == 't' then
            front word "ion" else word := by
        show (if (front word "ion").getLast?.any fun letter => letter == 's' || letter == 't' then
          front word "ion" else front word "ion" ++ "ion".toList) = _
        rw [whole]
      rw [outside, same, show ionRule.suffix = "ion" from rfl, value]
      dsimp only
      by_cases inside : r2 ≤ (front word "ion").length
      · rw [if_pos inside, if_pos (inRegion_iff.mpr ⟨ionEnds, inside⟩)]
      · rw [if_neg inside, inRegion_outside (Nat.not_le.mp inside), ouOutside]
        rfl
  | outside entry member ends outside same =>
      rw [same]
      cases found : firstInRegion step4Table r2 word with
      | some other =>
          obtain ⟨otherMember, otherInside⟩ := firstInRegion_some found
          obtain ⟨nested, shorter⟩ := nested_of_outside ends outside otherInside
          obtain ⟨isLong, isShort⟩ := step4_nested entry member other otherMember nested shorter
          exact absurd (mentSlip_of_nested ends outside otherInside isLong isShort) noMent
      | none =>
          have apart : ∀ entry ∈ step4Table, meets entry.1 "ion" = false := by decide
          dsimp only
          rw [inRegion_false r2 (not_ends_of_apart ends (apart entry member)), ouOutside]
          rfl

/-! ## The word between the steps -/

theorem agrees_of_front {token word : Word} (isFront : word.dropLast <+: token)
    (size : word.length ≤ token.length) (limit : Nat) : Agrees token limit word := by
  refine ⟨size, fun index _ inside => ?_⟩
  obtain ⟨rest, split⟩ := isFront
  have within : index < word.dropLast.length := by
    rw [List.length_dropLast]
    omega
  rw [← split, List.getElem?_append_left within, List.getElem?_dropLast, if_pos (by omega)]

/-- Step 1b writes at most one letter that the word does not have there. -/
theorem step1b_isFront (r1 : Nat) (word : Word) : (step1bValue r1 word).dropLast <+: word := by
  unfold step1bValue
  split
  · rename_i inside
    exact (List.dropLast_prefix _).trans (front_isFront (inRegion_ends inside).1 ⟨['d', 'l', 'y'], rfl⟩)
  split
  · rename_i inside
    exact (List.dropLast_prefix _).trans (front_isFront (inRegion_ends inside).1 ⟨['d'], rfl⟩)
  split
  · exact List.dropLast_prefix word
  · rename_i suffix found
    have isFront : front word suffix <+: word := List.take_prefix _ word
    split
    · unfold afterDeletion
      split
      · rw [List.dropLast_concat]
        exact isFront
      split
      · exact ((List.dropLast_prefix _).trans (List.dropLast_prefix _)).trans isFront
      split
      · rw [List.dropLast_concat]
        exact isFront
      · exact (List.dropLast_prefix _).trans isFront
    · exact List.dropLast_prefix word

theorem step1c_dropLast (word : Word) : (Porter2.step1c word).dropLast = word.dropLast := by
  unfold Porter2.step1c
  split
  · split
    · exact List.dropLast_concat
    · rfl
  · rfl

/-- A step in the region leaves the letters below it. -/
theorem Agrees.replaced {token word : Word} {limit : Nat} (agrees : Agrees token limit word)
    {suffix : String} (inside : inRegion word suffix limit = true)
    (positive : 0 < suffix.toList.length) {text : Word}
    (fits : text.length ≤ suffix.toList.length) : Agrees token limit (front word suffix ++ text) := by
  obtain ⟨ends, least⟩ := inRegion_ends inside
  have size := length_of_front ends
  have sizes := agrees.size
  refine ⟨?_, fun index below _ => ?_⟩
  · rw [List.length_append]
    omega
  · rw [← agrees.letters index below (by omega), List.getElem?_append_left (by omega), front,
      List.getElem?_take_of_lt (by rw [front_length] at least; omega)]

theorem Agrees.step2 {token word : Word} {r1 : Nat} (agrees : Agrees token r1 word) :
    Agrees token r1 (step2Value r1 word) := by
  unfold step2Value
  split
  · rename_i rule found
    obtain ⟨member, inside⟩ := firstInRegion_some found
    have sound : ∀ rule ∈ step2Rules, 0 < rule.1.toList.length ∧
        rule.2.toList.length ≤ rule.1.toList.length := by decide
    obtain ⟨positive, fits⟩ := sound rule member
    unfold step2RuleValue
    split
    · exact agrees.replaced inside positive fits
    · exact agrees
  · split
    · rename_i inside
      have deleted := @Agrees.replaced token word r1 agrees "li" (Bool.and_eq_true_iff.mp inside).1
        (by decide) [] (Nat.zero_le _)
      rwa [List.append_nil] at deleted
    · exact agrees

end MoonShot.Tokenizer
