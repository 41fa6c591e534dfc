import MoonShot.Lib.Checked

/-!
The English stemmer of the tokenizer (`porter2_stem` of `SmartTokenizer.rs`).

Owns the stemmer with every index, slice and difference of lengths it forms. A word is
its letters; it is ASCII, so that a letter is a byte and every position is a boundary of
characters.

Does not own what the stemmer is to compute.
-/

namespace MoonShot.Tokenizer

open MoonShot.Lib

abbrev Word := List Char

/-! ## Letters -/

/-- `word[index]` -/
def letterAt (word : Word) (index : Nat) : Checked Char :=
  match word[index]? with
  | some letter => .ok letter
  | none => .error .outOfBounds

def endsWith (word : Word) (suffix : String) : Bool := suffix.toList.isSuffixOf word

/-- `is_vowel` -/
def isVowel (letter : Char) : Bool :=
  letter == 'a' || letter == 'e' || letter == 'i' || letter == 'o' || letter == 'u' ||
    letter == 'y'

/-- `is_vowel_at` -/
def isVowelAt (word : Word) (index : Nat) (markedY : List Bool) : Checked Bool := do
  let letter ← letterAt word index
  pure (isVowel letter && !(letter == 'y' && markedY.getD index false))

/-- The test in the loop of `mark_consonant_y`. -/
def isConsonantY (word : Word) (marked : List Bool) (index : Nat) : Checked Bool := do
  let letter ← letterAt word index
  if letter ≠ 'y' then pure false
  else if index = 0 then pure true
  else do
    let before ← subUsize index 1
    isVowelAt word before marked

/-- One turn of the loop of `mark_consonant_y`. -/
def markTurn (word : Word) (marked : List Bool) (index : Nat) : Checked (List Bool) := do
  let consonant ← isConsonantY word marked index
  if consonant = false then pure marked
  else if index < marked.length then pure (marked.set index true)
  else .error .outOfBounds

/-- `mark_consonant_y` -/
def markConsonantY (word : Word) : Checked (List Bool) :=
  (List.range word.length).foldlM (markTurn word) (List.replicate word.length false)

/-! ## Regions -/

/-- `special_r1` -/
def specialR1 (word : Word) : Nat :=
  if "gener".toList.isPrefixOf word then 5
  else if "commun".toList.isPrefixOf word then 6
  else if "arsen".toList.isPrefixOf word then 5
  else 0

/-- The loop of `region_after_vowel_consonant`. -/
def regionLoop (word : Word) (markedY : List Bool) : List Nat → Checked Nat
  | [] => .ok word.length
  | index :: rest => do
      let before ← subUsize index 1
      let vowel ← isVowelAt word before markedY
      if vowel then do
        let another ← isVowelAt word index markedY
        if another then regionLoop word markedY rest else pure (index + 1)
      else regionLoop word markedY rest

/-- `region_after_vowel_consonant` -/
def regionAfterVowelConsonant (word : Word) (markedY : List Bool) (start minimum : Nat) :
    Checked Nat :=
  if minimum > 0 then .ok (min minimum word.length)
  else regionLoop word markedY (List.range' (start + 1) (word.length - (start + 1)))

/-! ## Suffixes -/

/-- `replace_suffix` -/
def replaceSuffix (word suffix : Word) (replacement : String) : Checked Word := do
  let length ← subUsize word.length suffix.length
  pure (word.take length ++ replacement.toList)

/-- `word[start..]` -/
def tailFrom (word : Word) (start : Nat) : Checked Word :=
  if start ≤ word.length then .ok (word.drop start) else .error .outOfBounds

/-- `suffix_in_region` -/
def suffixInRegion (word : Word) (suffix : String) (region : Nat) : Checked Bool :=
  if endsWith word suffix then do
    let start ← subUsize word.length suffix.toList.length
    pure (decide (start ≥ region))
  else pure false

/-- `contains_vowel` -/
def containsVowel (word : Word) (stop : Nat) (markedY : List Bool) : Checked Bool :=
  (List.range stop).anyM fun index => isVowelAt word index markedY

/-! ## Steps -/

/-- `step_1a` -/
def step1a (word : Word) (markedY : List Bool) : Checked Word :=
  if endsWith word "sses" then replaceSuffix word "sses".toList "ss"
  else if endsWith word "ied" || endsWith word "ies" then do
    let start ← subUsize word.length 3
    let suffix ← tailFrom word start
    replaceSuffix word suffix (if word.length > 4 then "i" else "ie")
  else if endsWith word "us" || endsWith word "ss" then pure word
  else if endsWith word "s" && decide (word.length > 2) then do
    let stop ← subUsize word.length 2
    let vowel ← containsVowel word stop markedY
    if vowel then pure word.dropLast else pure word
  else pure word

/-- `is_short_syllable` -/
def isShortSyllable (word : Word) (markedY : List Bool) : Checked Bool :=
  if word.length = 2 then do
    let first ← isVowelAt word 0 markedY
    if first then do
      let second ← isVowelAt word 1 markedY
      pure !second
    else pure false
  else if word.length < 3 then pure false
  else do
    let last ← subUsize word.length 1
    let second ← subUsize last 2
    let front ← isVowelAt word second markedY
    if front then pure false
    else do
      let middlePosition ← subUsize last 1
      let middle ← isVowelAt word middlePosition markedY
      if middle then do
        let back ← isVowelAt word last markedY
        if back then pure false
        else do
          let letter ← letterAt word last
          pure !(letter == 'w' || letter == 'x' || letter == 'y')
      else pure false

def doubles : List String := ["bb", "dd", "ff", "gg", "mm", "nn", "pp", "rr", "tt"]

/-- The end of `step_1b`, on the word without its suffix. -/
def finishStem (word : Word) (r1 : Nat) : Checked Word :=
  if endsWith word "at" || endsWith word "bl" || endsWith word "iz" then pure (word ++ ['e'])
  else if doubles.any (endsWith word) then pure word.dropLast
  else do
    let markedY ← markConsonantY word
    if r1 ≥ word.length then do
      let short ← isShortSyllable word markedY
      if short then pure (word ++ ['e']) else pure word
    else pure word

/-- `step_1b` -/
def step1b (word : Word) (r1 : Nat) (originalMarkedY : List Bool) : Checked Word := do
  let eedly ← suffixInRegion word "eedly" r1
  if eedly then replaceSuffix word "eedly".toList "ee"
  else do
    let eed ← suffixInRegion word "eed" r1
    if eed then replaceSuffix word "eed".toList "ee"
    else
      match ["ingly", "edly", "ing", "ed"].find? (endsWith word) with
      | none => pure word
      | some suffix => do
          let stemLength ← subUsize word.length suffix.toList.length
          let vowel ← containsVowel word stemLength originalMarkedY
          if vowel then finishStem (word.take stemLength) r1 else pure word

/-- `step_1c` -/
def step1c (word : Word) (markedY : List Bool) : Checked Word :=
  if word.length ≤ 2 then pure word
  else do
    let lastPosition ← subUsize word.length 1
    let last ← letterAt word lastPosition
    if last = 'y' ∨ last = 'Y' then do
      let before ← subUsize word.length 2
      let vowel ← isVowelAt word before markedY
      if vowel then pure word else pure (word.dropLast ++ ['i'])
    else pure word

/-- `RULES` of `step_2` -/
def step2Rules : List (String × String) :=
  [("ization", "ize"), ("ational", "ate"), ("fulness", "ful"), ("ousness", "ous"),
    ("iveness", "ive"), ("tional", "tion"), ("biliti", "ble"), ("lessli", "less"),
    ("entli", "ent"), ("ation", "ate"), ("alism", "al"), ("aliti", "al"), ("ousli", "ous"),
    ("iviti", "ive"), ("fulli", "ful"), ("enci", "ence"), ("anci", "ance"), ("abli", "able"),
    ("izer", "ize"), ("ator", "ate"), ("alli", "al"), ("bli", "ble"), ("ogi", "og")]

/-- The loop over rules: the word that a rule returns, or none when no rule matches. -/
def applyRules (rule : Word → String × String → Checked Word) (region : Nat) (word : Word) :
    List (String × String) → Checked (Option Word)
  | [] => pure none
  | first :: rest => do
      let inside ← suffixInRegion word first.1 region
      if inside then do
        let replaced ← rule word first
        pure (some replaced)
      else applyRules rule region word rest

/-- A rule of `step_2`: `ogi` is only replaced behind an `l`. -/
def step2Rule (word : Word) (rule : String × String) : Checked Word :=
  if rule.1 ≠ "ogi" then replaceSuffix word rule.1.toList rule.2
  else do
    let start ← subUsize word.length rule.1.toList.length
    let before ← subUsize start 1
    if word[before]? = some 'l' then replaceSuffix word rule.1.toList rule.2 else pure word

def validLiEnding (letter : Char) : Bool :=
  letter == 'c' || letter == 'd' || letter == 'e' || letter == 'g' || letter == 'h' ||
    letter == 'k' || letter == 'm' || letter == 'n' || letter == 'r' || letter == 't'

/-- `step_2` -/
def step2 (word : Word) (r1 : Nat) : Checked Word := do
  let replaced ← applyRules step2Rule r1 word step2Rules
  match replaced with
  | some replaced => pure replaced
  | none => do
      let inside ← suffixInRegion word "li" r1
      if inside then do
        let position ← subUsize word.length 3
        let preceding ← letterAt word position
        if validLiEnding preceding then replaceSuffix word "li".toList "" else pure word
      else pure word

/-- `RULES` of `step_3` -/
def step3Rules : List (String × String) :=
  [("ational", "ate"), ("tional", "tion"), ("alize", "al"), ("icate", "ic"), ("iciti", "ic"),
    ("ical", "ic"), ("ful", ""), ("ness", "")]

/-- A rule without a condition of its own. -/
def plainRule (word : Word) (rule : String × String) : Checked Word :=
  replaceSuffix word rule.1.toList rule.2

/-- `step_3` -/
def step3 (word : Word) (r1 r2 : Nat) : Checked Word := do
  let replaced ← applyRules plainRule r1 word step3Rules
  match replaced with
  | some replaced => pure replaced
  | none => do
      let inside ← suffixInRegion word "ative" r2
      if inside then replaceSuffix word "ative".toList "" else pure word

/-- `SUFFIXES` of `step_4` -/
def step4Suffixes : List String :=
  ["ement", "ance", "ence", "able", "ible", "ment", "ant", "ent", "ism", "ate", "iti", "ous",
    "ive", "ize", "al", "er", "ic"]

/-- `step_4` -/
def step4 (word : Word) (r2 : Nat) : Checked Word := do
  let replaced ← applyRules plainRule r2 word (step4Suffixes.map fun suffix => (suffix, ""))
  match replaced with
  | some replaced => pure replaced
  | none => do
      let ion ← suffixInRegion word "ion" r2
      if ion then do
        let position ← subUsize word.length 4
        let preceding ← letterAt word position
        if preceding = 's' ∨ preceding = 't' then
          replaceSuffix word "ion".toList ""
        else pure word
      else do
        let ou ← suffixInRegion word "ou" r2
        if ou then replaceSuffix word "ou".toList "" else pure word

/-- `step_5` -/
def step5 (word : Word) (r1 r2 : Nat) (originalMarkedY : List Bool) : Checked Word :=
  if endsWith word "e" then do
    let ePosition ← subUsize word.length 1
    if ePosition ≥ r2 then pure word.dropLast
    else if ePosition ≥ r1 then do
      if ePosition ≤ word.length then do
        let stem := word.take ePosition
        let marked := originalMarkedY.take (min originalMarkedY.length stem.length)
        let short ← isShortSyllable stem marked
        if short then pure word else pure word.dropLast
      else .error .outOfBounds
    else pure word
  else if endsWith word "ll" && decide (word.length > r2) then pure word.dropLast
  else pure word

/-! ## The stemmer -/

/-- The words with a stem of their own. -/
def exceptional (token : Word) : Option Word :=
  ([("skis", "ski"), ("skies", "sky"), ("dying", "die"), ("lying", "lie"), ("tying", "tie"),
    ("idly", "idl"), ("gently", "gentl"), ("ugly", "ugli"), ("early", "earli"), ("only", "onli"),
    ("singly", "singl"), ("sky", "sky"), ("news", "news"), ("howe", "howe"), ("atlas", "atlas"),
    ("cosmos", "cosmos"), ("bias", "bias"), ("andes", "andes")].find? fun entry =>
      token == entry.1.toList).map fun entry => entry.2.toList

/-- The words that stay as `step_1a` leaves them. -/
def keptAfterStep1a (word : Word) : Bool :=
  ["inning", "outing", "canning", "herring", "earring", "proceed", "exceed", "succeed"].any
    fun kept => word == kept.toList

/-- `porter2_stem` -/
def porter2Stem (token : Word) : Checked Word :=
  match exceptional token with
  | some stem => pure stem
  | none => do
      let markedY ← markConsonantY token
      let r1 ← regionAfterVowelConsonant token markedY 0 (specialR1 token)
      let r2 ← regionAfterVowelConsonant token markedY r1 0
      let word ← step1a token markedY
      if keptAfterStep1a word then pure word
      else do
        let word ← step1b word r1 markedY
        let word ← step1c word markedY
        let word ← step2 word r1
        let word ← step3 word r1 r2
        let word ← step4 word r2
        step5 word r1 r2 markedY

/-- The one test of the source. -/
example : porter2Stem "suggesting".toList = .ok "suggest".toList := by decide

end MoonShot.Tokenizer
