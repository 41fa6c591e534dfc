import MoonShot.Tokenizer.Stemmer

/-!
The Porter2 (Snowball English) stemming algorithm as it is published.

Owns the algorithm for words of lowercase letters: each step is a table of suffixes with
what is done to the part in front of the suffix, and the longest suffix of the table that
ends the word is looked for before its region is tested. A `y` that is a consonant is
written `Y` until the end.

Does not own the apostrophes of the algorithm (initial ones and its step 0).
-/

namespace MoonShot.Tokenizer.Porter2

/-! ## Letters and regions -/

/-- An initial `y`, or a `y` behind a vowel, is set to `Y`. -/
def setY : (initialOrBehindVowel : Bool) → Word → Word
  | _, [] => []
  | consonant, letter :: rest =>
      if letter = 'y' ∧ consonant then 'Y' :: setY false rest
      else letter :: setY (isVowel letter) rest

/-- The letters up to the first non-vowel that follows a vowel, with it; all if there is
none. -/
def regionStart : Word → Nat
  | [] => 0
  | [_] => 1
  | first :: second :: rest =>
      if isVowel first && !isVowel second then 2 else regionStart (second :: rest) + 1

/-- Where R1 starts. -/
def region1 (word : Word) : Nat :=
  if "gener".toList.isPrefixOf word then 5
  else if "commun".toList.isPrefixOf word then 6
  else if "arsen".toList.isPrefixOf word then 5
  else regionStart word

/-- Where R2 starts. -/
def region2 (word : Word) : Nat := region1 word + regionStart (word.drop (region1 word))

/-- A vowel between non-vowels, the last one not `w`, `x` or `Y`, or a vowel at the beginning
of the word and a non-vowel. -/
def endsShortSyllable (word : Word) : Bool :=
  match word.reverse with
  | [last, vowel] => isVowel vowel && !isVowel last
  | last :: vowel :: front :: _ =>
      !isVowel front && isVowel vowel && !isVowel last &&
        !(last == 'w' || last == 'x' || last == 'Y')
  | _ => false

/-- The word ends in a short syllable and R1 is null. -/
def isShort (word : Word) (r1 : Nat) : Bool := endsShortSyllable word && decide (word.length ≤ r1)

def endsDouble (word : Word) : Bool :=
  ["bb", "dd", "ff", "gg", "mm", "nn", "pp", "rr", "tt"].any (endsWith word)

/-! ## Suffix tables -/

/-- A suffix and the word that replaces the part in front of it with the suffix. -/
structure Rule where
  suffix : String
  action : Word → Word

/-- The rule with the longest suffix that ends the word. -/
def longestRule (word : Word) : List Rule → Option Rule
  | [] => none
  | rule :: rest =>
      if endsWith word rule.suffix then
        match longestRule word rest with
        | some other =>
            if rule.suffix.toList.length < other.suffix.toList.length then some other else some rule
        | none => some rule
      else longestRule word rest

/-- The part in front of a suffix. -/
def front (word : Word) (suffix : String) : Word :=
  word.take (word.length - suffix.toList.length)

/-- The longest suffix of the table is looked for and, if found and in the region, its action
is performed. -/
def applyLongest (rules : List Rule) (region : Nat) (word : Word) : Word :=
  match longestRule word rules with
  | none => word
  | some rule =>
      if region ≤ (front word rule.suffix).length then rule.action (front word rule.suffix)
      else word

/-- The suffix is replaced. -/
def replaceBy (suffix replacement : String) : Rule :=
  ⟨suffix, fun before => before ++ replacement.toList⟩

/-- The suffix is deleted when the part in front of it is suitable. -/
def deleteIf (suffix : String) (suitable : Word → Bool) : Rule :=
  ⟨suffix, fun before => if suitable before then before else before ++ suffix.toList⟩

/-! ## Steps -/

def iedAction (suffix : String) : Rule :=
  ⟨suffix, fun before => before ++ if 1 < before.length then ['i'] else ['i', 'e']⟩

def step1aRules : List Rule :=
  [replaceBy "sses" "ss", iedAction "ied", iedAction "ies", replaceBy "us" "us",
    replaceBy "ss" "ss", deleteIf "s" fun before => before.dropLast.any isVowel]

def step1a (word : Word) : Word := applyLongest step1aRules 0 word

/-- What is done after the deletion of step 1b. -/
def afterDeletion (r1 : Nat) (word : Word) : Word :=
  if endsWith word "at" || endsWith word "bl" || endsWith word "iz" then word ++ ['e']
  else if endsDouble word then word.dropLast
  else if isShort word r1 then word ++ ['e']
  else word

def eedAction (r1 : Nat) (suffix : String) : Rule :=
  ⟨suffix, fun before =>
    if r1 ≤ before.length then before ++ ['e', 'e'] else before ++ suffix.toList⟩

def deletion (r1 : Nat) (suffix : String) : Rule :=
  ⟨suffix, fun before =>
    if before.any isVowel then afterDeletion r1 before else before ++ suffix.toList⟩

def step1bRules (r1 : Nat) : List Rule :=
  [eedAction r1 "eedly", deletion r1 "ingly", deletion r1 "edly", eedAction r1 "eed",
    deletion r1 "ing", deletion r1 "ed"]

def step1b (r1 : Nat) (word : Word) : Word := applyLongest (step1bRules r1) 0 word

/-- A final `y` or `Y` behind a non-vowel that is not the first letter becomes `i`. -/
def step1c (word : Word) : Word :=
  match word.reverse with
  | last :: before :: _ :: _ =>
      if (last = 'y' ∨ last = 'Y') ∧ isVowel before = false then word.dropLast ++ ['i'] else word
  | _ => word

def step2Rules : List Rule :=
  [replaceBy "ization" "ize", replaceBy "ational" "ate", replaceBy "fulness" "ful",
    replaceBy "ousness" "ous", replaceBy "iveness" "ive", replaceBy "tional" "tion",
    replaceBy "biliti" "ble", replaceBy "lessli" "less", replaceBy "entli" "ent",
    replaceBy "ation" "ate", replaceBy "alism" "al", replaceBy "aliti" "al",
    replaceBy "ousli" "ous", replaceBy "iviti" "ive", replaceBy "fulli" "ful",
    replaceBy "enci" "ence", replaceBy "anci" "ance", replaceBy "abli" "able",
    replaceBy "izer" "ize", replaceBy "ator" "ate", replaceBy "alli" "al", replaceBy "bli" "ble",
    ⟨"ogi", fun before => before ++ if before.getLast? = some 'l' then ['o', 'g']
      else ['o', 'g', 'i']⟩,
    deleteIf "li" fun before => before.getLast?.any validLiEnding]

def step2 (r1 : Nat) (word : Word) : Word := applyLongest step2Rules r1 word

def step3Rules (r2 : Nat) : List Rule :=
  [replaceBy "ational" "ate", replaceBy "tional" "tion", replaceBy "alize" "al",
    replaceBy "icate" "ic", replaceBy "iciti" "ic",
    deleteIf "ative" fun before => decide (r2 ≤ before.length), replaceBy "ical" "ic",
    replaceBy "ness" "", replaceBy "ful" ""]

def step3 (r1 r2 : Nat) (word : Word) : Word := applyLongest (step3Rules r2) r1 word

def step4Rules : List Rule :=
  [replaceBy "ement" "", replaceBy "ance" "", replaceBy "ence" "", replaceBy "able" "",
    replaceBy "ible" "", replaceBy "ment" "", replaceBy "ant" "", replaceBy "ent" "",
    replaceBy "ism" "", replaceBy "ate" "", replaceBy "iti" "", replaceBy "ous" "",
    replaceBy "ive" "", replaceBy "ize" "",
    deleteIf "ion" fun before => before.getLast?.any fun letter => letter == 's' || letter == 't',
    replaceBy "al" "", replaceBy "er" "", replaceBy "ic" ""]

def step4 (r2 : Nat) (word : Word) : Word := applyLongest step4Rules r2 word

/-- A final `e` is deleted in R2, or in R1 when it is not preceded by a short syllable; a
final `l` is deleted in R2 when it is preceded by `l`. -/
def step5 (r1 r2 : Nat) (word : Word) : Word :=
  let before := word.dropLast
  if word.getLast? = some 'e' then
    if r2 ≤ before.length ∨ r1 ≤ before.length ∧ endsShortSyllable before = false then before
    else word
  else if word.getLast? = some 'l' then
    if r2 ≤ before.length ∧ before.getLast? = some 'l' then before else word
  else word

/-! ## The algorithm -/

/-- The exceptional forms, and the words that are left as they are. -/
def exceptions : List (String × String) :=
  [("skis", "ski"), ("skies", "sky"), ("dying", "die"), ("lying", "lie"), ("tying", "tie"),
    ("idly", "idl"), ("gently", "gentl"), ("ugly", "ugli"), ("early", "earli"), ("only", "onli"),
    ("singly", "singl"), ("sky", "sky"), ("news", "news"), ("howe", "howe"), ("atlas", "atlas"),
    ("cosmos", "cosmos"), ("bias", "bias"), ("andes", "andes")]

/-- The words that are left as they are after step 1a. -/
def invariants : List String :=
  ["inning", "outing", "canning", "herring", "earring", "proceed", "exceed", "succeed"]

def lowerLetter (letter : Char) : Char := if letter = 'Y' then 'y' else letter

/-- Every `Y` is turned back. -/
def lower (word : Word) : Word := word.map lowerLetter

/-- The steps behind step 1a, on a word with `Y` and its regions. -/
def laterSteps (r1 r2 : Nat) (word : Word) : Word :=
  step5 r1 r2 (step4 r2 (step3 r1 r2 (step2 r1 (step1c (step1b r1 word)))))

/-- The stem of a word of lowercase letters. -/
def stem (word : Word) : Word :=
  if word.length ≤ 2 then word
  else
    match exceptions.find? fun entry => word == entry.1.toList with
    | some entry => entry.2.toList
    | none =>
        let marked := setY true word
        if invariants.any fun kept => step1a marked == kept.toList then lower (step1a marked)
        else lower (laterSteps (region1 marked) (region2 marked) (step1a marked))

end MoonShot.Tokenizer.Porter2
