import MoonShot.Tokenizer.StemmerRange

/-!
Tables of suffixes.

Owns which suffixes of a table can end one word together, the longest one that ends the word,
and the first one that is in the region.

Does not own the tables of the steps.
-/

namespace MoonShot.Tokenizer

open Porter2

/-! ## Suffixes of one word -/

/-- One text ends in the other, so that both can end one word. -/
def meets (first second : String) : Bool :=
  first.toList.isSuffixOf second.toList || second.toList.isSuffixOf first.toList

theorem meets_of_ends {word : Word} {first second : String} (firstEnds : endsWith word first = true)
    (secondEnds : endsWith word second = true) : meets first second = true := by
  rw [meets, Bool.or_eq_true, List.isSuffixOf_iff_suffix, List.isSuffixOf_iff_suffix]
  exact List.suffix_or_suffix_of_suffix (endsWith_iff.mp firstEnds) (endsWith_iff.mp secondEnds)

theorem not_ends_of_apart {word : Word} {first second : String}
    (firstEnds : endsWith word first = true) (apart : meets first second = false) :
    endsWith word second = false := by
  cases secondEnds : endsWith word second with
  | false => rfl
  | true => exact absurd (meets_of_ends firstEnds secondEnds) (by rw [apart]; decide)

/-- Of two suffixes of a word the one that is not longer ends the other. -/
theorem ends_of_shorter {word : Word} {first second : String}
    (firstEnds : endsWith word first = true) (secondEnds : endsWith word second = true)
    (shorter : first.toList.length ≤ second.toList.length) : first.toList <:+ second.toList :=
  List.suffix_of_suffix_length_le (endsWith_iff.mp firstEnds) (endsWith_iff.mp secondEnds) shorter

theorem same_of_length {word : Word} {first second : String} (firstEnds : endsWith word first = true)
    (secondEnds : endsWith word second = true)
    (same : first.toList.length = second.toList.length) : first = second :=
  String.toList_inj.mp
    ((ends_of_shorter firstEnds secondEnds (Nat.le_of_eq same)).eq_of_length same)

theorem inRegion_iff {word : Word} {suffix : String} {region : Nat} :
    inRegion word suffix region = true ↔
      endsWith word suffix = true ∧ region ≤ (front word suffix).length := by
  rw [inRegion, Bool.and_eq_true, decide_eq_true_eq]

theorem inRegion_false {word : Word} {suffix : String} (region : Nat)
    (notEnds : endsWith word suffix = false) : inRegion word suffix region = false := by
  rw [inRegion, notEnds, Bool.false_and]

theorem inRegion_outside {word : Word} {suffix : String} {region : Nat}
    (outside : (front word suffix).length < region) : inRegion word suffix region = false := by
  rw [inRegion, decide_eq_false (Nat.not_le.mpr outside), Bool.and_false]

/-! ## The longest suffix -/

theorem longestRule_none {rules : List Rule} {word : Word} (none : longestRule word rules = none) :
    ∀ rule ∈ rules, endsWith word rule.suffix = false := by
  induction rules with
  | nil => exact fun rule member => absurd member List.not_mem_nil
  | cons first rest inductionHypothesis =>
      rw [longestRule] at none
      split at none
      · split at none
        · split at none <;> cases none
        · cases none
      · rename_i notEnds
        intro rule member
        rcases List.mem_cons.mp member with rfl | later
        · exact Bool.eq_false_iff.mpr notEnds
        · exact inductionHypothesis none rule later

theorem longestRule_some {rules : List Rule} {word : Word} {rule : Rule}
    (found : longestRule word rules = some rule) :
    rule ∈ rules ∧ endsWith word rule.suffix = true ∧ ∀ other ∈ rules,
      endsWith word other.suffix = true → other.suffix.toList.length ≤ rule.suffix.toList.length := by
  induction rules generalizing rule with
  | nil => cases found
  | cons first rest inductionHypothesis =>
      rw [longestRule] at found
      split at found
      · rename_i ends
        split at found
        · rename_i other rest
          obtain ⟨member, otherEnds, longest⟩ := inductionHypothesis rest
          split at found
          · rename_i longer
            obtain rfl := Option.some_inj.mp found
            refine ⟨List.mem_cons_of_mem _ member, otherEnds, fun third there thirdEnds => ?_⟩
            rcases List.mem_cons.mp there with rfl | later
            · exact Nat.le_of_lt longer
            · exact longest third later thirdEnds
          · rename_i notLonger
            obtain rfl := Option.some_inj.mp found
            refine ⟨List.mem_cons_self, ends, fun third there thirdEnds => ?_⟩
            rcases List.mem_cons.mp there with rfl | later
            · exact Nat.le_refl _
            · exact Nat.le_trans (longest third later thirdEnds) (Nat.not_lt.mp notLonger)
        · rename_i none
          obtain rfl := Option.some_inj.mp found
          refine ⟨List.mem_cons_self, ends, fun third there thirdEnds => ?_⟩
          rcases List.mem_cons.mp there with rfl | later
          · exact Nat.le_refl _
          · rw [longestRule_none none third later] at thirdEnds
            cases thirdEnds
      · rename_i notEnds
        obtain ⟨member, ends, longest⟩ := inductionHypothesis found
        refine ⟨List.mem_cons_of_mem _ member, ends, fun third there thirdEnds => ?_⟩
        rcases List.mem_cons.mp there with rfl | later
        · exact absurd thirdEnds notEnds
        · exact longest third later thirdEnds

/-- The rule of the table that ends the word with the longest suffix. -/
structure IsLongest (rules : List Rule) (word : Word) (rule : Rule) : Prop where
  member : rule ∈ rules
  ends : endsWith word rule.suffix = true
  longest : ∀ other ∈ rules, endsWith word other.suffix = true →
    other.suffix.toList.length ≤ rule.suffix.toList.length

section Table

variable {rules : List Rule} {word : Word} {region : Nat}

theorem applyLongest_none (none : ∀ rule ∈ rules, endsWith word rule.suffix = false) :
    applyLongest rules region word = word := by
  rw [applyLongest]
  split
  · rfl
  · rename_i rule found
    obtain ⟨member, ends, -⟩ := longestRule_some found
    rw [none rule member] at ends
    cases ends

/-- The rule with the longest suffix is applied, if no two rules share their suffix. -/
theorem applyLongest_of_longest (distinct : (rules.map Rule.suffix).Nodup) {rule : Rule}
    (isLongest : IsLongest rules word rule) :
    applyLongest rules region word =
      if region ≤ (front word rule.suffix).length then rule.action (front word rule.suffix)
      else word := by
  rw [applyLongest]
  split
  · rename_i none
    have notEnds := longestRule_none none rule isLongest.member
    rw [isLongest.ends] at notEnds
    cases notEnds
  · rename_i other found
    obtain ⟨member, ends, longest⟩ := longestRule_some found
    have same : other.suffix = rule.suffix := by
      refine same_of_length ends isLongest.ends (Nat.le_antisymm ?_ ?_)
      · exact isLongest.longest other member ends
      · exact longest rule isLongest.member isLongest.ends
    rw [List.inj_on_of_nodup_map distinct member isLongest.member same]

theorem applyLongest_cases (rules : List Rule) (word : Word) :
    (∀ rule ∈ rules, endsWith word rule.suffix = false) ∨ ∃ rule, IsLongest rules word rule := by
  cases found : longestRule word rules with
  | none => exact Or.inl (longestRule_none found)
  | some rule =>
      obtain ⟨member, ends, longest⟩ := longestRule_some found
      exact Or.inr ⟨rule, member, ends, longest⟩

end Table

/-! ## The first suffix in the region -/

theorem firstInRegion_none {table : List (String × String)} {region : Nat} {word : Word}
    (none : firstInRegion table region word = none) :
    ∀ entry ∈ table, inRegion word entry.1 region = false := by
  intro entry member
  have outside := List.find?_eq_none.mp none entry member
  exact Bool.eq_false_iff.mpr outside

/-- In a table in which no suffix ends a later one, the first suffix in the region is the longest
one in the region. -/
theorem firstInRegion_longest {table : List (String × String)} {region : Nat} {word : Word}
    (ordered : table.Pairwise fun first second =>
      first.1.toList.isSuffixOf second.1.toList = false)
    {entry : String × String} (found : firstInRegion table region word = some entry)
    {other : String × String} (member : other ∈ table)
    (inside : inRegion word other.1 region = true) :
    other.1.toList.length ≤ entry.1.toList.length := by
  induction table with
  | nil => cases member
  | cons first rest inductionHypothesis =>
      rw [List.pairwise_cons] at ordered
      rw [firstInRegion, List.find?_cons] at found
      cases firstInside : inRegion word first.1 region with
      | true =>
          rw [firstInside] at found
          obtain rfl := Option.some_inj.mp found
          rcases List.mem_cons.mp member with rfl | later
          · exact Nat.le_refl _
          · refine Nat.le_of_not_le fun shorter => ?_
            have isSuffix := List.isSuffixOf_iff_suffix.mpr
              (ends_of_shorter (inRegion_ends firstInside).1 (inRegion_ends inside).1 shorter)
            rw [ordered.1 other later] at isSuffix
            cases isSuffix
      | false =>
          rw [firstInside] at found
          rcases List.mem_cons.mp member with rfl | later
          · rw [firstInside] at inside
            cases inside
          · exact inductionHypothesis ordered.2 found later

/-! ## One table looked through in both ways -/

/-- The rules of a table, and one rule more. -/
structure Extends (table : List (String × String)) (action : String × String → Word → Word)
    (extra : Rule) (rules : List Rule) : Prop where
  covers : ∀ rule, rule ∈ rules ↔ (∃ entry ∈ table, rule = ⟨entry.1, action entry⟩) ∨ rule = extra
  distinct : (rules.map Rule.suffix).Nodup
  keys : (table.map Prod.fst).Nodup
  ordered : table.Pairwise fun first second => first.1.toList.isSuffixOf second.1.toList = false
  extraShorter : ∀ entry ∈ table, meets entry.1 extra.suffix = true →
    extra.suffix.toList.length < entry.1.toList.length

/-- What the longest suffix gives, beside the first suffix in the region. -/
inductive Outcome (table : List (String × String)) (action : String × String → Word → Word)
    (extra : Rule) (region : Nat) (word result : Word) : Prop
  | none (outside : firstInRegion table region word = none)
      (notExtra : endsWith word extra.suffix = false) (same : result = word)
  | applied (entry : String × String) (found : firstInRegion table region word = some entry)
      (ends : endsWith word entry.1 = true)
      (same : result = action entry (front word entry.1))
  | outside (entry : String × String) (member : entry ∈ table)
      (ends : endsWith word entry.1 = true) (outside : (front word entry.1).length < region)
      (same : result = word)
  | extra (outside : firstInRegion table region word = none)
      (ends : endsWith word extra.suffix = true)
      (same : result = if region ≤ (front word extra.suffix).length then
        extra.action (front word extra.suffix) else word)

theorem Extends.outcome {table : List (String × String)} {action : String × String → Word → Word}
    {extra : Rule} {rules : List Rule} (extended : Extends table action extra rules) (region : Nat)
    (word : Word) : Outcome table action extra region word (applyLongest rules region word) := by
  have noneOf : (∀ entry ∈ table, endsWith word entry.1 = false) →
      firstInRegion table region word = none := by
    intro notEnds
    refine List.find?_eq_none.mpr fun entry member => ?_
    rw [inRegion_false region (notEnds entry member)]
    decide
  have isRule : ∀ entry ∈ table, (⟨entry.1, action entry⟩ : Rule) ∈ rules := fun entry member =>
    (extended.covers _).mpr (Or.inl ⟨entry, member, rfl⟩)
  rcases applyLongest_cases rules word with notEnds | ⟨rule, isLongest⟩
  · refine Outcome.none (noneOf fun entry member => notEnds _ (isRule entry member)) ?_
      (applyLongest_none notEnds)
    exact notEnds extra ((extended.covers extra).mpr (Or.inr rfl))
  · have value := @applyLongest_of_longest rules word region extended.distinct rule isLongest
    rcases (extended.covers rule).mp isLongest.member with ⟨entry, member, rfl⟩ | rfl
    · by_cases inside : region ≤ (front word entry.1).length
      · have entryInside : inRegion word entry.1 region = true :=
          inRegion_iff.mpr ⟨isLongest.ends, inside⟩
        cases found : firstInRegion table region word with
        | none =>
            have outside := firstInRegion_none found entry member
            rw [entryInside] at outside
            cases outside
        | some other =>
            obtain ⟨otherMember, otherInside⟩ := firstInRegion_some found
            have otherEnds := (inRegion_ends otherInside).1
            have same : other.1 = entry.1 := by
              refine same_of_length otherEnds isLongest.ends (Nat.le_antisymm ?_ ?_)
              · exact isLongest.longest _ (isRule other otherMember) otherEnds
              · exact firstInRegion_longest extended.ordered found member entryInside
            obtain rfl := List.inj_on_of_nodup_map extended.keys otherMember member same
            exact Outcome.applied other found otherEnds (value.trans (if_pos inside))
      · exact Outcome.outside entry member isLongest.ends (Nat.not_le.mp inside)
          (value.trans (if_neg inside))
    · refine Outcome.extra (noneOf fun entry member => ?_) isLongest.ends value
      cases ends : endsWith word entry.1 with
      | false => rfl
      | true =>
          have longer := extended.extraShorter entry member (meets_of_ends ends isLongest.ends)
          have least := isLongest.longest _ (isRule entry member) ends
          exact absurd longer (Nat.not_lt.mpr least)

end MoonShot.Tokenizer
