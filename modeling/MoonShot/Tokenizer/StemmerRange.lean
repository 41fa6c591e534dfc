import MoonShot.Tokenizer.StemmerSteps

/-!
The stemmer in range: no index, slice or difference of lengths leaves its range, and the stem
is a word no longer than the given one.

Owns what every step leaves of its word, and the run of the steps.

Does not own the comparison with the published algorithm.
-/

namespace MoonShot.Tokenizer

open MoonShot.Lib
open Porter2

/-! ## What a step leaves -/

/-- Letters that a step writes. -/
def Written (text : Word) : Prop :=
  (text.all fun letter => letter != 'y' && letter.isLower) = true

instance (text : Word) : Decidable (Written text) := inferInstanceAs (Decidable (_ = true))

theorem Written.plain {text : Word} (written : Written text) : Plain text := by
  refine plain_iff.mpr fun letter member => ?_
  have both := List.all_eq_true.mp written letter member
  rw [Bool.and_eq_true, bne_iff_ne] at both
  refine ⟨both.1, ?_⟩
  rintro rfl
  exact absurd both.2 (by decide)

/-- The letters of the word are lowercase once every `Y` is turned back. -/
def Lowercase (word : Word) : Prop := ∀ letter ∈ word, (lowerLetter letter).isLower = true

theorem Written.lowercase {text : Word} (written : Written text) : Lowercase text := by
  intro letter member
  have both := List.all_eq_true.mp written letter member
  rw [Bool.and_eq_true, bne_iff_ne] at both
  rw [lowerLetter_of_ne (plain_iff.mp written.plain letter member).2]
  exact both.2

/-- A step keeps a front of the word and writes letters behind it; the word gets no longer
and does not become empty. -/
structure Rewritten (word result : Word) : Prop where
  shape : ∃ count text, result = word.take count ++ text ∧ Written text
  shorter : result.length ≤ word.length
  nonempty : word ≠ [] → result ≠ []

theorem Rewritten.unchanged (word : Word) : Rewritten word word :=
  ⟨⟨word.length, [], by rw [List.take_length, List.append_nil], rfl⟩, Nat.le_refl _, id⟩

/-- A suffix is replaced by one that is not longer. -/
theorem Rewritten.replaced {word text : Word} {suffix : String} (ends : endsWith word suffix = true)
    (written : Written text) (fits : text.length ≤ suffix.toList.length)
    (remains : 0 < (front word suffix).length ∨ text ≠ []) :
    Rewritten word (front word suffix ++ text) := by
  have least := length_of_ends ends
  refine ⟨⟨_, text, rfl, written⟩, ?_, fun _ empty => ?_⟩
  · rw [List.length_append, front_length]
    omega
  · obtain ⟨frontEmpty, textEmpty⟩ := List.append_eq_nil_iff.mp empty
    rcases remains with positive | some
    · rw [frontEmpty] at positive
      exact Nat.lt_irrefl 0 positive
    · exact some textEmpty

theorem Rewritten.deleted {word : Word} {suffix : String} (ends : endsWith word suffix = true)
    (remains : 0 < (front word suffix).length) : Rewritten word (front word suffix) := by
  have rewritten := @Rewritten.replaced word [] suffix ends rfl (Nat.zero_le _) (Or.inl remains)
  rwa [List.append_nil] at rewritten

theorem Rewritten.shortened {word : Word} (remains : 0 < word.dropLast.length) :
    Rewritten word word.dropLast := by
  refine ⟨⟨word.length - 1, [], ?_, rfl⟩, ?_, fun _ empty => ?_⟩
  · rw [List.append_nil, List.dropLast_eq_take]
  · rw [List.length_dropLast]
    exact Nat.sub_le _ _
  · rw [empty] at remains
    exact Nat.lt_irrefl 0 remains

/-- What holds of the word before every step. -/
structure Held (marks : List Bool) (limit : Nat) (word : Word) : Prop where
  marked : Marked marks word
  nonempty : word ≠ []
  size : word.length ≤ limit
  lowercase : Lowercase word

theorem Held.step {marks : List Bool} {limit : Nat} {word result : Word}
    (held : Held marks limit word) (rewritten : Rewritten word result) : Held marks limit result := by
  obtain ⟨⟨count, text, rfl, written⟩, shorter, nonempty⟩ := rewritten
  refine ⟨(held.marked.take count).append written.plain, nonempty held.nonempty,
    Nat.le_trans shorter held.size, fun letter member => ?_⟩
  rcases List.mem_append.mp member with kept | new
  · exact held.lowercase letter (List.mem_of_mem_take kept)
  · exact written.lowercase letter new

/-! ## The steps -/

/-- A suffix is cut to a front of it. -/
theorem front_isFront {word text : Word} {suffix : String} (ends : endsWith word suffix = true)
    (isFront : text <+: suffix.toList) : front word suffix ++ text <+: word := by
  obtain ⟨rest, shape⟩ := isFront
  refine ⟨rest, ?_⟩
  rw [List.append_assoc, shape, front_append ends]

/-- Step 1a only cuts. -/
theorem step1a_isFront (word : Word) : Porter2.step1a word <+: word := by
  rw [porter2_step1a]
  by_cases sses : endsWith word "sses" = true
  · rw [if_pos sses]
    exact front_isFront sses ⟨['e', 's'], rfl⟩
  rw [if_neg sses]
  by_cases ied : (endsWith word "ied" || endsWith word "ies") = true
  · rw [if_pos ied]
    have same : front word "ied" = front word "ies" := rfl
    rcases Bool.or_eq_true_iff.mp ied with ends | ends
    · split
      · exact front_isFront ends ⟨['e', 'd'], rfl⟩
      · exact front_isFront ends ⟨['d'], rfl⟩
    · rw [same]
      split
      · exact front_isFront ends ⟨['e', 's'], rfl⟩
      · exact front_isFront ends ⟨['s'], rfl⟩
  rw [if_neg ied]
  split
  · exact List.prefix_rfl
  split
  · split
    · exact List.take_prefix _ word
    · exact List.prefix_rfl
  · exact List.prefix_rfl

theorem rewritten_step1a (word : Word) : Rewritten word (Porter2.step1a word) := by
  rw [porter2_step1a]
  by_cases sses : endsWith word "sses" = true
  · rw [if_pos sses]
    exact Rewritten.replaced sses (by decide) (by decide) (Or.inr (by decide))
  rw [if_neg sses]
  by_cases ied : (endsWith word "ied" || endsWith word "ies") = true
  · rw [if_pos ied]
    have same : front word "ied" = front word "ies" := rfl
    rcases Bool.or_eq_true_iff.mp ied with ends | ends
    · split
      · exact Rewritten.replaced ends (by decide) (by decide) (Or.inr (by decide))
      · exact Rewritten.replaced ends (by decide) (by decide) (Or.inr (by decide))
    · rw [same]
      split
      · exact Rewritten.replaced ends (by decide) (by decide) (Or.inr (by decide))
      · exact Rewritten.replaced ends (by decide) (by decide) (Or.inr (by decide))
  rw [if_neg ied]
  split
  · exact Rewritten.unchanged word
  split
  · rename_i ends
    split
    · rename_i vowel
      refine Rewritten.deleted ends (List.length_pos_iff.mpr ?_)
      intro empty
      rw [empty] at vowel
      cases vowel
    · exact Rewritten.unchanged word
  · exact Rewritten.unchanged word

theorem rewritten_afterDeletion {word : Word} {suffix : String} (r1 : Nat)
    (ends : endsWith word suffix = true) (long : 2 ≤ suffix.toList.length)
    (vowel : (front word suffix).any isVowel = true) :
    Rewritten word (afterDeletion r1 (front word suffix)) := by
  have remains : 0 < (front word suffix).length := by
    refine List.length_pos_iff.mpr fun empty => ?_
    rw [empty] at vowel
    cases vowel
  have withE : Rewritten word (front word suffix ++ ['e']) :=
    Rewritten.replaced ends (by decide) (Nat.le_of_succ_le long) (Or.inr (by decide))
  unfold afterDeletion
  split
  · exact withE
  split
  · rename_i double
    obtain ⟨twice, member, endsTwice⟩ := List.any_eq_true.mp double
    have size : twice.toList.length = 2 := by
      have all : ∀ suffix ∈ ["bb", "dd", "ff", "gg", "mm", "nn", "pp", "rr", "tt"],
          suffix.toList.length = 2 := by decide
      exact all twice member
    have least := length_of_ends endsTwice
    have frontSize := front_length word suffix
    have shape : (front word suffix).dropLast = word.take (word.length - suffix.toList.length - 1) := by
      rw [List.dropLast_eq_take, frontSize, front, List.take_take, Nat.min_eq_left (Nat.sub_le _ _)]
    refine ⟨⟨_, [], (by rw [List.append_nil, shape]), rfl⟩, ?_, fun _ empty => ?_⟩
    · rw [List.length_dropLast]
      omega
    · have none := congrArg List.length empty
      rw [List.length_dropLast, List.length_nil] at none
      omega
  split
  · exact withE
  · exact Rewritten.deleted ends remains

theorem rewritten_step1b (r1 : Nat) (word : Word) : Rewritten word (step1bValue r1 word) := by
  unfold step1bValue
  split
  · rename_i inside
    exact Rewritten.replaced (inRegion_ends inside).1 (by decide) (by decide) (Or.inr (by decide))
  split
  · rename_i inside
    exact Rewritten.replaced (inRegion_ends inside).1 (by decide) (by decide) (Or.inr (by decide))
  split
  · exact Rewritten.unchanged word
  · rename_i suffix found
    split
    · rename_i vowel
      have all : ∀ suffix ∈ ["ingly", "edly", "ing", "ed"], 2 ≤ suffix.toList.length := by decide
      exact rewritten_afterDeletion r1 (List.find?_some found)
        (all suffix (List.mem_of_find?_eq_some found)) vowel
    · exact Rewritten.unchanged word

theorem rewritten_step1c (word : Word) : Rewritten word (Porter2.step1c word) := by
  unfold Porter2.step1c
  split
  · rename_i last before first rest shape
    split
    · have size := congrArg List.length shape
      rw [List.length_reverse] at size
      simp only [List.length_cons] at size
      refine ⟨⟨word.length - 1, ['i'], by rw [List.dropLast_eq_take], by decide⟩, ?_, by simp⟩
      rw [List.length_append, List.length_dropLast, List.length_singleton]
      omega
    · exact Rewritten.unchanged word
  · exact Rewritten.unchanged word

theorem firstInRegion_some {rules : List (String × String)} {region : Nat} {word : Word}
    {rule : String × String} (found : firstInRegion rules region word = some rule) :
    rule ∈ rules ∧ inRegion word rule.1 region = true := by
  have inside := List.find?_some found
  exact ⟨List.mem_of_find?_eq_some found, inside⟩

section Region

variable {region : Nat} (positive : 0 < region) {word : Word}

include positive

theorem Rewritten.deletedInRegion {suffix : String} (inside : inRegion word suffix region = true) :
    Rewritten word (front word suffix) :=
  Rewritten.deleted (inRegion_ends inside).1 (Nat.lt_of_lt_of_le positive (inRegion_ends inside).2)

/-- A rule of a table whose replacements are written letters, not longer than the suffixes. -/
theorem Rewritten.byRule {rules : List (String × String)}
    (sound : ∀ rule ∈ rules, Written rule.2.toList ∧ rule.2.toList.length ≤ rule.1.toList.length)
    {rule : String × String} (found : firstInRegion rules region word = some rule) :
    Rewritten word (front word rule.1 ++ rule.2.toList) := by
  obtain ⟨member, inside⟩ := firstInRegion_some found
  obtain ⟨ends, least⟩ := inRegion_ends inside
  exact Rewritten.replaced ends (sound rule member).1 (sound rule member).2
    (Or.inl (Nat.lt_of_lt_of_le positive least))

theorem rewritten_step2 : Rewritten word (step2Value region word) := by
  unfold step2Value
  split
  · rename_i rule found
    unfold step2RuleValue
    split
    · exact Rewritten.byRule positive (by decide) found
    · exact Rewritten.unchanged word
  · split
    · rename_i inside
      exact Rewritten.deletedInRegion positive (Bool.and_eq_true_iff.mp inside).1
    · exact Rewritten.unchanged word

theorem rewritten_step3 {r2 : Nat} (ordered : region ≤ r2) :
    Rewritten word (step3Value region r2 word) := by
  unfold step3Value
  split
  · rename_i rule found
    exact Rewritten.byRule positive (by decide) found
  · split
    · rename_i inside
      exact Rewritten.deletedInRegion (Nat.lt_of_lt_of_le positive ordered) inside
    · exact Rewritten.unchanged word

theorem rewritten_step4 : Rewritten word (step4Value region word) := by
  unfold step4Value
  split
  · rename_i rule found
    exact Rewritten.deletedInRegion positive (firstInRegion_some found).2
  · split
    · rename_i inside
      split
      · exact Rewritten.deletedInRegion positive inside
      · exact Rewritten.unchanged word
    · split
      · rename_i inside
        exact Rewritten.deletedInRegion positive inside
      · exact Rewritten.unchanged word

theorem rewritten_step5 {r2 : Nat} (ordered : region ≤ r2) :
    Rewritten word (Porter2.step5 region r2 word) := by
  unfold Porter2.step5
  dsimp only
  split
  · split
    · rename_i inside
      refine Rewritten.shortened ?_
      rcases inside with inR2 | ⟨inR1, -⟩
      · omega
      · omega
    · exact Rewritten.unchanged word
  · split
    · split
      · rename_i inside
        exact Rewritten.shortened (by omega)
      · exact Rewritten.unchanged word
    · exact Rewritten.unchanged word

end Region

/-! ## The stemmer -/

/-- The steps behind `step_1a`, on the word with `Y`. -/
def laterValue (r1 r2 : Nat) (word : Word) : Word :=
  Porter2.step5 r1 r2
    (step4Value r2 (step3Value r1 r2 (step2Value r1 (Porter2.step1c (step1bValue r1 word)))))

/-- The word that the stemmer returns, with `Y`, when the token is not in its table. -/
def stemValue (word : Word) : Word :=
  if keptAfterStep1a (lower (Porter2.step1a word)) then Porter2.step1a word
  else laterValue (region1 word) (region2 word) (Porter2.step1a word)

/-- The run of the steps returns its value, and the value is a word no longer than the token. -/
theorem porter2Stem_run {token : Word} (nonempty : token ≠ [])
    (lowercase : ∀ letter ∈ token, letter.isLower = true) (ordinary : exceptional token = none) :
    porter2Stem token = .ok (lower (stemValue (setY true token))) ∧
      Held (flags (setY true token)) token.length (stemValue (setY true token)) := by
  have noCapital : 'Y' ∉ token := fun member => absurd (lowercase 'Y' member) (by decide)
  have marks := markConsonantY_eq noCapital
  have lowered := lower_setY noCapital true
  have start : Held (flags (setY true token)) token.length (setY true token) := by
    refine ⟨marked_own _, ?_, Nat.le_of_eq (setY_length true token), fun letter member => ?_⟩
    · intro empty
      exact nonempty (by rw [← lowered, empty]; rfl)
    · have there : lowerLetter letter ∈ token := by
        rw [← lowered]
        exact List.mem_map_of_mem member
      exact lowercase _ there
  revert marks start
  generalize spelled : setY true token = word
  intro marks start
  rw [spelled] at lowered
  have positive := region1_pos start.nonempty
  have ordered := region1_le_region2 word
  have positive2 : 0 < region2 word := Nat.lt_of_lt_of_le positive ordered
  have isFront : Porter2.step1a word <+: setY true token := by
    rw [spelled]
    exact step1a_isFront word
  have first := start.step (rewritten_step1a word)
  have second := first.step (rewritten_step1b (region1 word) _)
  have third := second.step (rewritten_step1c _)
  have fourth := third.step (rewritten_step2 positive)
  have fifth := fourth.step (rewritten_step3 positive ordered)
  have sixth := fifth.step (rewritten_step4 positive2)
  have last := sixth.step (rewritten_step5 positive ordered)
  have region1Run := region1_eq start.marked
  have region2Run := region2_eq start.marked
  have step1aRun := step1a_eq start.marked
  rw [lowered] at region1Run region2Run step1aRun
  rw [porter2Stem, ordinary, marks]
  dsimp only
  rw [ok_bind, region1Run, ok_bind, region2Run, ok_bind, step1aRun, ok_bind, stemValue]
  split
  · exact ⟨rfl, first⟩
  · rw [step1b_eq noCapital first.marked isFront, ok_bind, step1c_eq second.marked, ok_bind,
      step2_eq positive, ok_bind, step3_eq, ok_bind, step4_eq positive2, ok_bind,
      step5_eq sixth.marked]
    exact ⟨rfl, last⟩

/-- The stemmer goes through without a fault on every word of lowercase letters, and its stem
is such a word, no longer than the given one. -/
theorem porter2Stem_in_range (token : Word) (nonempty : token ≠ [])
    (lowercase : ∀ letter ∈ token, letter.isLower = true) :
    ∃ stem, porter2Stem token = .ok stem ∧ stem ≠ [] ∧
      (∀ letter ∈ stem, letter.isLower = true) ∧ stem.length ≤ token.length := by
  cases found : exceptional token with
  | some stem =>
      obtain ⟨entry, member, same, rfl⟩ : ∃ entry ∈ exceptions,
          token = entry.1.toList ∧ entry.2.toList = stem := by
        obtain ⟨entry, first, rfl⟩ := Option.map_eq_some_iff.mp found
        have same := List.find?_some first
        exact ⟨entry, List.mem_of_find?_eq_some first, eq_of_beq same, rfl⟩
      have entries : ∀ entry ∈ exceptions, entry.2.toList ≠ [] ∧
          (entry.2.toList.all fun letter => letter.isLower) = true ∧
          entry.2.toList.length ≤ entry.1.toList.length := by decide
      obtain ⟨some, letters, shorter⟩ := entries entry member
      refine ⟨entry.2.toList, ?_, some, List.all_eq_true.mp letters, ?_⟩
      · rw [porter2Stem, found]
        rfl
      · rw [same]
        exact shorter
  | none =>
      obtain ⟨run, held⟩ := porter2Stem_run nonempty lowercase found
      refine ⟨_, run, ?_, ?_, ?_⟩
      · intro empty
        exact held.nonempty (List.map_eq_nil_iff.mp empty)
      · intro letter member
        obtain ⟨other, there, rfl⟩ := List.mem_map.mp member
        exact held.lowercase other there
      · rw [lower_length]
        exact held.size

theorem porter2Stem_in_range_suggesting : ∃ stem, porter2Stem "suggesting".toList = .ok stem ∧
    stem ≠ [] ∧ (∀ letter ∈ stem, letter.isLower = true) ∧
    stem.length ≤ "suggesting".toList.length :=
  porter2Stem_in_range "suggesting".toList (by decide)
    (List.all_eq_true.mp (by decide : ("suggesting".toList.all fun letter => letter.isLower) = true))

end MoonShot.Tokenizer
