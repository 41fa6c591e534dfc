import MoonShot.Tokenizer.Porter2

/-!
The words with `Y` behind the marks of the stemmer.

Owns the helpers of the stemmer on a word and its marks, told as functions of the word with
`Y`: the marks, the regions, the suffixes, the vowels and the short syllables.

Does not own the steps.
-/

namespace MoonShot.Tokenizer

open MoonShot.Lib
open Porter2

/-! ## Words with `Y` -/

/-- No letter is a `y`. -/
def Plain (text : Word) : Prop := (text.all fun letter => letter != 'y' && letter != 'Y') = true

instance (text : Word) : Decidable (Plain text) := inferInstanceAs (Decidable (_ = true))

theorem plain_iff {text : Word} : Plain text ↔ ∀ letter ∈ text, letter ≠ 'y' ∧ letter ≠ 'Y' := by
  simp [Plain]

@[simp] theorem lower_length (word : Word) : (lower word).length = word.length :=
  List.length_map _

@[simp] theorem lower_append (left right : Word) :
    lower (left ++ right) = lower left ++ lower right := List.map_append

theorem lower_take (word : Word) (count : Nat) : lower (word.take count) = (lower word).take count :=
  List.map_take

theorem lower_dropLast (word : Word) : lower word.dropLast = (lower word).dropLast := by
  rw [lower, List.map_dropLast]
  rfl

theorem lowerLetter_of_ne {letter : Char} (other : letter ≠ 'Y') : lowerLetter letter = letter :=
  if_neg other

theorem lower_plain {text : Word} (plain : Plain text) : lower text = text := by
  refine (List.map_congr_left ?_).trans (List.map_id text)
  intro letter member
  exact lowerLetter_of_ne (plain_iff.mp plain letter member).2

/-- The marks say which letters are vowels. -/
def Marked (marks : List Bool) (word : Word) : Prop :=
  ∀ index letter, word[index]? = some letter →
    (isVowel (lowerLetter letter) &&
      !(lowerLetter letter == 'y' && marks.getD index false)) = isVowel letter

theorem letterAt_lower {word : Word} {index : Nat} {letter : Char}
    (here : word[index]? = some letter) : letterAt (lower word) index = .ok (lowerLetter letter) := by
  rw [letterAt, lower, List.getElem?_map, here]
  rfl

theorem isVowelAt_eq {marks : List Bool} {word : Word} (marked : Marked marks word) {index : Nat}
    {letter : Char} (here : word[index]? = some letter) :
    isVowelAt (lower word) index marks = .ok (isVowel letter) := by
  rw [isVowelAt, letterAt_lower here, ok_bind, marked index letter here]
  rfl

theorem Marked.take {marks : List Bool} {word : Word} (marked : Marked marks word) (count : Nat) :
    Marked marks (word.take count) := by
  intro index letter here
  refine marked index letter ?_
  rw [List.getElem?_take] at here
  split at here
  · exact here
  · cases here

/-- Letters that are no `y` need no mark. -/
theorem Marked.append {marks : List Bool} {word text : Word} (marked : Marked marks word)
    (plain : Plain text) : Marked marks (word ++ text) := by
  intro index letter here
  rw [List.getElem?_append] at here
  split at here
  · exact marked index letter here
  · have member := List.mem_of_getElem? here
    obtain ⟨notY, notMarked⟩ := plain_iff.mp plain letter member
    rw [lowerLetter_of_ne notMarked]
    simp [notY]

/-! ## The marks -/

theorem setY_length (consonant : Bool) (word : Word) : (setY consonant word).length = word.length := by
  induction word generalizing consonant with
  | nil => rfl
  | cons letter rest inductionHypothesis =>
      rw [setY]
      split
      · rw [List.length_cons, inductionHypothesis, List.length_cons]
      · rw [List.length_cons, inductionHypothesis, List.length_cons]

theorem setY_take (consonant : Bool) (word : Word) (count : Nat) :
    (setY consonant word).take count = setY consonant (word.take count) := by
  induction word generalizing consonant count with
  | nil => simp [setY]
  | cons letter rest inductionHypothesis =>
      cases count with
      | zero => simp [setY]
      | succ count =>
          rw [List.take_succ_cons, setY, setY]
          split
          · rw [List.take_succ_cons, inductionHypothesis]
          · rw [List.take_succ_cons, inductionHypothesis]

theorem lower_setY {word : Word} (noCapital : 'Y' ∉ word) (consonant : Bool) :
    lower (setY consonant word) = word := by
  induction word generalizing consonant with
  | nil => rfl
  | cons letter rest inductionHypothesis =>
      have restNone : 'Y' ∉ rest := fun member => noCapital (List.mem_cons_of_mem _ member)
      have letterNot : letter ≠ 'Y' := fun same => noCapital (by rw [same]; exact List.mem_cons_self)
      rw [setY]
      split
      · rename_i isY
        rw [lower, List.map_cons, isY.1]
        exact congrArg _ (inductionHypothesis restNone false)
      · rw [lower, List.map_cons, lowerLetter_of_ne letterNot]
        exact congrArg _ (inductionHypothesis restNone _)

/-- Whether a `y` behind these letters is a consonant. -/
def consonantBehind (consonant : Bool) (word : Word) : Bool :=
  (setY consonant word).getLast?.elim consonant isVowel

theorem setY_concat (consonant : Bool) (word : Word) (letter : Char) :
    setY consonant (word ++ [letter]) = setY consonant word ++
      [if letter = 'y' ∧ consonantBehind consonant word = true then 'Y' else letter] := by
  induction word generalizing consonant with
  | nil =>
      have behind : consonantBehind consonant [] = consonant := rfl
      simp only [behind, List.nil_append, setY]
      split <;> rfl
  | cons first rest inductionHypothesis =>
      have tail : ∀ head : Char, consonantBehind (isVowel head) rest =
          (head :: setY (isVowel head) rest).getLast?.elim consonant isVowel := by
        intro head
        rw [consonantBehind, List.getLast?_cons]
        cases (setY (isVowel head) rest).getLast? <;> rfl
      rw [List.cons_append, setY, setY, consonantBehind, setY]
      split
      · rw [inductionHypothesis, List.cons_append]
        rw [show false = isVowel 'Y' from rfl, tail 'Y']
      · rw [inductionHypothesis, List.cons_append, tail first]

/-- The marks of a word in which `Y` is set. -/
def flags (word : Word) : List Bool := word.map (· == 'Y')

theorem marked_flags (word : Word) (others : List Bool) : Marked (flags word ++ others) word := by
  intro index letter here
  have inside := (List.getElem?_eq_some_iff.mp here).1
  have flag : (flags word ++ others).getD index false = (letter == 'Y') := by
    rw [List.getD_eq_getElem?_getD, List.getElem?_append_left (by rwa [flags, List.length_map]),
      flags, List.getElem?_map, here]
    rfl
  rw [flag]
  by_cases capital : letter = 'Y'
  · rw [capital]
    decide
  · rw [lowerLetter_of_ne capital, beq_eq_false_iff_ne.mpr capital]
    simp

theorem marked_own (word : Word) : Marked (flags word) word := by
  have marked := marked_flags word []
  rwa [List.append_nil] at marked

/-- The turn at a position sets its mark. -/
theorem markTurn_eq {token before after : Word} {letter : Char}
    (split : token = before ++ letter :: after) (noCapital : 'Y' ∉ token) :
    markTurn token (flags (setY true before) ++ List.replicate (after.length + 1) false)
        before.length =
      .ok (flags (setY true (before ++ [letter])) ++ List.replicate after.length false) := by
  have here : token[before.length]? = some letter := by
    rw [split, List.getElem?_append_right (Nat.le_refl _), Nat.sub_self]
    rfl
  have read : letterAt token before.length = .ok letter := by
    rw [letterAt, here]
  have behind : before.length ≠ 0 → (do
      let position ← subUsize before.length 1
      isVowelAt token position
        (flags (setY true before) ++ List.replicate (after.length + 1) false)) =
      .ok (consonantBehind true before) := by
    intro nonempty
    obtain ⟨init, last, shape⟩ : ∃ init last, setY true before = init ++ [last] := by
      rcases List.eq_nil_or_concat (setY true before) with empty | ⟨init, last, shape⟩
      · have lengths := setY_length true before
        rw [empty] at lengths
        exact absurd lengths.symm nonempty
      · exact ⟨init, last, by rw [shape, List.concat_eq_append]⟩
    have lengths := setY_length true before
    rw [shape, List.length_append, List.length_singleton] at lengths
    have position : before.length - 1 = init.length := by omega
    have beforeNone : 'Y' ∉ before := by
      intro member
      exact noCapital (by rw [split]; exact List.mem_append_left _ member)
    have same : token[init.length]? = (lower (setY true before))[init.length]? := by
      rw [lower_setY beforeNone, split, List.getElem?_append_left (by omega)]
    have lastHere : (setY true before)[init.length]? = some last := by
      rw [shape, List.getElem?_append_right (Nat.le_refl _), Nat.sub_self]
      rfl
    have vowel := isVowelAt_eq (marked_flags (setY true before)
      (List.replicate (after.length + 1) false)) lastHere
    rw [isVowelAt, letterAt, ← same] at vowel
    rw [subUsize_eq (by omega), ok_bind, position, isVowelAt, letterAt, vowel, consonantBehind,
      shape, List.getLast?_concat]
    rfl
  have decided : isConsonantY token
      (flags (setY true before) ++ List.replicate (after.length + 1) false) before.length =
      .ok (decide (letter = 'y' ∧ consonantBehind true before = true)) := by
    rw [isConsonantY, read, ok_bind]
    by_cases isY : letter = 'y'
    · rw [if_neg (not_not.mpr isY)]
      by_cases first : before.length = 0
      · rw [if_pos first, List.length_eq_zero_iff.mp first, isY]
        rfl
      · rw [if_neg first, behind first, isY]
        simp
    · rw [if_pos isY, decide_eq_false fun both => isY both.1]
      rfl
  have marksLength : (flags (setY true before)).length = before.length := by
    rw [flags, List.length_map, setY_length]
  rw [markTurn, decided, ok_bind, setY_concat]
  by_cases consonant : letter = 'y' ∧ consonantBehind true before = true
  · have inside : before.length <
        (flags (setY true before) ++ List.replicate (after.length + 1) false).length := by
      rw [List.length_append, marksLength, List.length_replicate]
      omega
    rw [decide_eq_true consonant, if_neg (by decide), if_pos inside, if_pos consonant,
      List.replicate_succ, List.set_append_right _ _ (Nat.le_of_eq marksLength), marksLength,
      Nat.sub_self]
    simp [flags]
    rfl
  · have notCapital : (letter == 'Y') = false := by
      refine beq_eq_false_iff_ne.mpr ?_
      rintro rfl
      exact noCapital (by rw [split]; simp)
    rw [decide_eq_false consonant, if_pos rfl, if_neg consonant, List.replicate_succ]
    simp [flags, notCapital]
    rfl

/-- The marks of a token are the places of the `Y`. -/
theorem markConsonantY_eq {token : Word} (noCapital : 'Y' ∉ token) :
    markConsonantY token = .ok (flags (setY true token)) := by
  have upTo : ∀ {before after : Word}, token = before ++ after →
      (List.range before.length).foldlM (markTurn token) (List.replicate token.length false) =
        .ok (flags (setY true before) ++ List.replicate after.length false) := by
    intro before
    induction before using List.reverseRecOn with
    | nil =>
        intro after split
        rw [split]
        rfl
    | append_singleton before letter inductionHypothesis =>
        intro after split
        rw [List.append_assoc, List.singleton_append] at split
        rw [List.length_append, List.length_singleton, List.range_succ, List.foldlM_append,
          inductionHypothesis split]
        show markTurn token _ before.length >>= pure = _
        rw [List.length_cons, markTurn_eq split noCapital]
        rfl
  have whole := @upTo token [] (List.append_nil token).symm
  rw [List.length_nil, List.replicate_zero, List.append_nil] at whole
  exact whole

/-- A front of a word in which `Y` is set. -/
theorem setY_front {token word : Word} (noCapital : 'Y' ∉ token) (isFront : word <+: setY true token) :
    'Y' ∉ lower word ∧ setY true (lower word) = word := by
  have shape := List.prefix_iff_eq_take.mp isFront
  rw [setY_take] at shape
  have frontNone : 'Y' ∉ token.take word.length := fun member => noCapital (List.mem_of_mem_take member)
  have lowered : lower word = token.take word.length := by
    rw [shape, lower_setY frontNone, setY_length, List.length_take]
    have least := isFront.length_le
    rw [setY_length] at least
    rw [Nat.min_eq_left least]
  rw [lowered]
  exact ⟨frontNone, shape.symm⟩

/-! ## Regions -/

theorem regionStart_le (word : Word) : regionStart word ≤ word.length := by
  fun_induction regionStart word with
  | case1 => exact Nat.le_refl 0
  | case2 => exact Nat.le_refl 1
  | case3 first second rest pair =>
      simp only [List.length_cons]
      omega
  | case4 first second rest notPair inductionHypothesis =>
      simp only [List.length_cons] at inductionHypothesis ⊢
      omega

theorem regionStart_pos {word : Word} (nonempty : word ≠ []) : 0 < regionStart word := by
  fun_cases regionStart word with
  | case1 => exact absurd rfl nonempty
  | case2 => exact Nat.one_pos
  | case3 => exact Nat.two_pos
  | case4 => exact Nat.succ_pos _

/-- The loop finds where the region starts. -/
theorem regionLoop_eq {marks : List Bool} {word : Word} (marked : Marked marks word) (start : Nat)
    (inside : start ≤ word.length) :
    regionLoop (lower word) marks
        (List.range' (start + 1) ((lower word).length - (start + 1))) =
      .ok (start + regionStart (word.drop start)) := by
  rw [lower_length]
  generalize rest : word.drop start = tail
  have lengths := congrArg List.length rest
  rw [List.length_drop] at lengths
  induction tail generalizing start with
  | nil =>
      rw [List.length_nil] at lengths
      have none : word.length - (start + 1) = 0 := by omega
      rw [none]
      show (Except.ok (lower word).length : Checked Nat) = _
      rw [lower_length, regionStart]
      congr 1
      omega
  | cons first tail inductionHypothesis =>
      rw [List.length_cons] at lengths
      have next : word.drop (start + 1) = tail := by
        rw [← List.drop_drop, rest]
        rfl
      have goesOn := inductionHypothesis (start + 1) (by omega) next (by omega)
      have firstHere : word[start]? = some first := by
        rw [← Nat.add_zero start, ← List.getElem?_drop, rest]
        rfl
      cases tail with
      | nil =>
          rw [List.length_nil] at lengths
          have none : word.length - (start + 1) = 0 := by omega
          rw [none]
          show (Except.ok (lower word).length : Checked Nat) = _
          rw [lower_length, regionStart]
          congr 1
          omega
      | cons second tail =>
          rw [List.length_cons] at lengths
          have secondHere : word[start + 1]? = some second := by
            rw [← Nat.add_zero (start + 1), ← List.getElem?_drop, next]
            rfl
          have more : word.length - (start + 1) = (word.length - (start + 1 + 1)) + 1 := by omega
          rw [more, List.range'_succ, regionLoop, subUsize_eq (Nat.le_add_left 1 start), ok_bind,
            Nat.add_sub_cancel, isVowelAt_eq marked firstHere, ok_bind, regionStart]
          cases firstVowel : isVowel first with
          | false =>
              rw [if_neg (by decide), goesOn]
              simp [Nat.add_assoc, Nat.add_comm 1]
          | true =>
              rw [if_pos rfl, isVowelAt_eq marked secondHere, ok_bind]
              cases secondVowel : isVowel second with
              | true =>
                  rw [if_pos rfl, goesOn]
                  simp [Nat.add_assoc, Nat.add_comm 1]
              | false => simp; rfl

/-- A prefix without `y` of the word is one of the word with `Y`. -/
theorem isPrefixOf_lower {text : Word} (plain : Plain text) (word : Word) :
    text.isPrefixOf (lower word) = text.isPrefixOf word := by
  induction text generalizing word with
  | nil => rfl
  | cons letter rest inductionHypothesis =>
      cases word with
      | nil => rfl
      | cons first word =>
          have restPlain : Plain rest := plain_iff.mpr fun other member =>
            plain_iff.mp plain other (List.mem_cons_of_mem _ member)
          obtain ⟨notY, notCapital⟩ := plain_iff.mp plain letter List.mem_cons_self
          have same : (letter == lowerLetter first) = (letter == first) := by
            by_cases capital : first = 'Y'
            · rw [capital, beq_eq_false_iff_ne.mpr notCapital]
              exact beq_eq_false_iff_ne.mpr notY
            · rw [lowerLetter_of_ne capital]
          rw [lower, List.map_cons, List.isPrefixOf, List.isPrefixOf, same]
          exact congrArg _ (inductionHypothesis restPlain word)

theorem isPrefixOf_length {text word : Word} (isPrefix : text.isPrefixOf word = true) :
    text.length ≤ word.length := (List.isPrefixOf_iff_prefix.mp isPrefix).length_le

section Regions

variable {marks : List Bool} {word : Word}

theorem region1_eq (marked : Marked marks word) :
    regionAfterVowelConsonant (lower word) marks 0 (specialR1 (lower word)) =
      .ok (region1 word) := by
  rw [specialR1, region1, isPrefixOf_lower (by decide), isPrefixOf_lower (by decide),
    isPrefixOf_lower (by decide), regionAfterVowelConsonant, lower_length]
  split
  · rename_i isPrefix
    have long : 5 ≤ word.length := isPrefixOf_length isPrefix
    rw [if_pos (by decide), Nat.min_eq_left long]
  · split
    · rename_i isPrefix
      have long : 6 ≤ word.length := isPrefixOf_length isPrefix
      rw [if_pos (by decide), Nat.min_eq_left long]
    · split
      · rename_i isPrefix
        have long : 5 ≤ word.length := isPrefixOf_length isPrefix
        rw [if_pos (by decide), Nat.min_eq_left long]
      · have found := regionLoop_eq marked 0 (Nat.zero_le _)
        rw [lower_length, List.drop_zero, Nat.zero_add, Nat.zero_add] at found
        rw [if_neg (Nat.lt_irrefl 0), Nat.zero_add]
        exact found

theorem region1_le (word : Word) : region1 word ≤ word.length := by
  unfold region1
  split
  · rename_i isPrefix
    exact isPrefixOf_length isPrefix
  · split
    · rename_i isPrefix
      exact isPrefixOf_length isPrefix
    · split
      · rename_i isPrefix
        exact isPrefixOf_length isPrefix
      · exact regionStart_le word

theorem region1_pos (nonempty : word ≠ []) : 0 < region1 word := by
  have start := regionStart_pos nonempty
  unfold region1
  split_ifs <;> omega

theorem region2_eq (marked : Marked marks word) :
    regionAfterVowelConsonant (lower word) marks (region1 word) 0 = .ok (region2 word) :=
  regionLoop_eq marked (region1 word) (region1_le word)

theorem region1_le_region2 (word : Word) : region1 word ≤ region2 word := Nat.le_add_right _ _

end Regions

/-! ## Suffixes -/

theorem endsWith_iff {word : Word} {suffix : String} :
    endsWith word suffix = true ↔ suffix.toList <:+ word := List.isSuffixOf_iff_suffix

theorem endsWith_lower {suffix : String} (plain : Plain suffix.toList) (word : Word) :
    endsWith (lower word) suffix = endsWith word suffix := by
  have reversed : Plain suffix.toList.reverse := plain_iff.mpr fun letter member =>
    plain_iff.mp plain letter (List.mem_reverse.mp member)
  have back : (lower word).reverse = lower word.reverse := List.map_reverse.symm
  rw [endsWith, endsWith, List.isSuffixOf, List.isSuffixOf, back, isPrefixOf_lower reversed]

/-- The word ends in the suffix, and the suffix is in the region. -/
def inRegion (word : Word) (suffix : String) (region : Nat) : Bool :=
  endsWith word suffix && decide (region ≤ (front word suffix).length)

theorem front_length (word : Word) (suffix : String) :
    (front word suffix).length = word.length - suffix.toList.length := by
  rw [front, List.length_take]
  omega

theorem front_append {word : Word} {suffix : String} (ends : endsWith word suffix = true) :
    front word suffix ++ suffix.toList = word := by
  obtain ⟨before, rfl⟩ := endsWith_iff.mp ends
  rw [front, List.length_append, Nat.add_sub_cancel, List.take_left]

theorem front_of_append (before : Word) (suffix : String) :
    front (before ++ suffix.toList) suffix = before := by
  rw [front, List.length_append, Nat.add_sub_cancel, List.take_left]

theorem length_of_ends {word : Word} {suffix : String} (ends : endsWith word suffix = true) :
    suffix.toList.length ≤ word.length := (endsWith_iff.mp ends).length_le

theorem suffixInRegion_eq {suffix : String} (plain : Plain suffix.toList) (word : Word)
    (region : Nat) : suffixInRegion (lower word) suffix region = .ok (inRegion word suffix region) := by
  rw [suffixInRegion, endsWith_lower plain, inRegion, lower_length, front_length]
  cases ends : endsWith word suffix with
  | false => rfl
  | true =>
      rw [if_pos rfl, subUsize_eq (length_of_ends ends)]
      rfl

theorem replaceSuffix_eq {word suffix : Word} {replacement : String}
    (fits : suffix.length ≤ word.length) (plain : Plain replacement.toList) :
    replaceSuffix (lower word) suffix replacement =
      .ok (lower (word.take (word.length - suffix.length) ++ replacement.toList)) := by
  rw [replaceSuffix, lower_length, subUsize_eq fits, lower_append, lower_plain plain, lower_take]
  rfl

/-- A suffix that the word ends in is replaced. -/
theorem replaceSuffix_front {word : Word} {suffix replacement : String}
    (ends : endsWith word suffix = true) (plain : Plain replacement.toList) :
    replaceSuffix (lower word) suffix.toList replacement =
      .ok (lower (front word suffix ++ replacement.toList)) :=
  replaceSuffix_eq (length_of_ends ends) plain

/-- The first rule whose suffix is in the region. -/
def firstInRegion (rules : List (String × String)) (region : Nat) (word : Word) :
    Option (String × String) := rules.find? fun rule => inRegion word rule.1 region

theorem inRegion_ends {word : Word} {suffix : String} {region : Nat}
    (inside : inRegion word suffix region = true) :
    endsWith word suffix = true ∧ region ≤ (front word suffix).length := by
  rw [inRegion, Bool.and_eq_true, decide_eq_true_eq] at inside
  exact inside

theorem applyRules_eq {rule : Word → String × String → Checked Word}
    {value : String × String → Word} {region : Nat} {word : Word}
    {rules : List (String × String)} (plain : ∀ entry ∈ rules, Plain entry.1.toList)
    (each : ∀ entry ∈ rules, inRegion word entry.1 region = true →
      rule (lower word) entry = .ok (lower (value entry))) :
    applyRules rule region (lower word) rules =
      .ok ((firstInRegion rules region word).map fun entry => lower (value entry)) := by
  induction rules with
  | nil => rfl
  | cons entry rest inductionHypothesis =>
      rw [applyRules, suffixInRegion_eq (plain entry List.mem_cons_self), ok_bind, firstInRegion,
        List.find?_cons]
      cases inside : inRegion word entry.1 region with
      | true =>
          rw [if_pos rfl, each entry List.mem_cons_self inside]
          rfl
      | false =>
          rw [if_neg (by decide)]
          exact inductionHypothesis
            (fun other member => plain other (List.mem_cons_of_mem _ member))
            (fun other member => each other (List.mem_cons_of_mem _ member))

/-! ## Vowels and syllables -/

theorem anyM_eq {test : Nat → Checked Bool} {value : Nat → Bool} {items : List Nat}
    (each : ∀ item ∈ items, test item = .ok (value item)) :
    items.anyM test = .ok (items.any value) := by
  induction items with
  | nil => rfl
  | cons item rest inductionHypothesis =>
      rw [List.anyM, each item List.mem_cons_self, ok_bind, List.any_cons]
      cases value item with
      | true => rfl
      | false => exact inductionHypothesis fun other member => each other (List.mem_cons_of_mem _ member)

theorem any_range (word : Word) (stop : Nat) :
    ((List.range stop).any fun index => word[index]?.any isVowel) =
      (word.take stop).any isVowel := by
  induction stop with
  | zero => simp
  | succ stop inductionHypothesis =>
      rw [List.range_succ, List.any_append, inductionHypothesis, List.take_add_one, List.any_append]
      congr 1
      rw [List.any_cons, List.any_nil, Bool.or_false]
      cases word[stop]? with
      | none => rfl
      | some letter => exact (Bool.or_false _).symm

theorem containsVowel_eq {marks : List Bool} {word : Word} (marked : Marked marks word) {stop : Nat}
    (inside : stop ≤ word.length) :
    containsVowel (lower word) stop marks = .ok ((word.take stop).any isVowel) := by
  rw [← any_range]
  refine anyM_eq fun index member => ?_
  have before : index < word.length := Nat.lt_of_lt_of_le (List.mem_range.mp member) inside
  have here := List.getElem?_eq_getElem before
  rw [isVowelAt_eq marked here, here]
  rfl

theorem isShortSyllable_eq {marks : List Bool} {word : Word} (marked : Marked marks word) :
    isShortSyllable (lower word) marks = .ok (endsShortSyllable word) := by
  obtain ⟨back, rfl⟩ : ∃ back : Word, word = back.reverse := ⟨word.reverse, by simp⟩
  rw [isShortSyllable, endsShortSyllable, List.reverse_reverse, lower_length]
  rcases back with _ | ⟨last, _ | ⟨vowel, _ | ⟨first, rest⟩⟩⟩
  · rfl
  · rfl
  · have firstHere : [last, vowel].reverse[0]? = some vowel := rfl
    have lastHere : [last, vowel].reverse[1]? = some last := rfl
    have size : [last, vowel].reverse.length = 2 := rfl
    rw [if_pos size, isVowelAt_eq marked firstHere, ok_bind, isVowelAt_eq marked lastHere]
    dsimp only
    cases isVowel vowel with
    | false => rfl
    | true => rfl
  · have shape : (last :: vowel :: first :: rest).reverse =
        rest.reverse ++ [first, vowel, last] := by simp
    have size : (last :: vowel :: first :: rest).reverse.length = rest.length + 3 := by simp
    have firstHere : (last :: vowel :: first :: rest).reverse[rest.length]? = some first := by
      simp [shape]
    have vowelHere : (last :: vowel :: first :: rest).reverse[rest.length + 1]? = some vowel := by
      rw [shape, List.getElem?_append_right (by simp)]
      simp
    have lastHere : (last :: vowel :: first :: rest).reverse[rest.length + 2]? = some last := by
      rw [shape, List.getElem?_append_right (by simp)]
      simp
    rw [size, if_neg (by omega), if_neg (by omega), subUsize_eq (by omega), ok_bind,
      subUsize_eq (by omega), ok_bind]
    have positions : rest.length + 3 - 1 - 2 = rest.length ∧
        rest.length + 3 - 1 - 1 = rest.length + 1 ∧ rest.length + 3 - 1 = rest.length + 2 := by
      omega
    rw [positions.1, isVowelAt_eq marked firstHere, ok_bind]
    dsimp only
    cases isVowel first with
    | true => rfl
    | false =>
        rw [if_neg (by decide), subUsize_eq (by omega), ok_bind, positions.2.1,
          isVowelAt_eq marked vowelHere, ok_bind]
        cases isVowel vowel with
        | false => simp; rfl
        | true =>
            rw [if_pos rfl, positions.2.2, isVowelAt_eq marked lastHere, ok_bind]
            cases back : isVowel last with
            | true => simp; rfl
            | false =>
                rw [if_neg (by decide), letterAt_lower lastHere, ok_bind]
                have same : (lowerLetter last == 'y') = (last == 'Y') := by
                  by_cases capital : last = 'Y'
                  · rw [capital]
                    decide
                  · rw [lowerLetter_of_ne capital, beq_eq_false_iff_ne.mpr capital]
                    refine beq_eq_false_iff_ne.mpr ?_
                    rintro rfl
                    exact absurd back (by decide)
                have others : (lowerLetter last == 'w') = (last == 'w') ∧
                    (lowerLetter last == 'x') = (last == 'x') := by
                  by_cases capital : last = 'Y'
                  · rw [capital]
                    decide
                  · rw [lowerLetter_of_ne capital]
                    exact ⟨rfl, rfl⟩
                rw [same, others.1, others.2]
                simp
                rfl

end MoonShot.Tokenizer
