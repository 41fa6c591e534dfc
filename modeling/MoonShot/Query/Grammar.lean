import MoonShot.Lib.Clauses
import MoonShot.Query.Negation
import MoonShot.Query.Union

/-!
The documented grammar of boolean queries against the flat scan of the compiler.

Owns the expressions of the documentation, their spellings and their meaning,
and the theorem that says for which of them the default mode compiles that
meaning.

The compiler drops parentheses as separators and takes `AND` for a word of the
query. What it reads are the parts between the `OR` words, so an expression is
compiled right exactly when these parts and its multiplied-out clauses absorb
each other.
-/

namespace MoonShot.Query

open MoonShot.Lib
open MoonShot.Postings
open MoonShot.Postings.PostingStore
open MoonShot.Format
open MoonShot.Index
open MoonShot.Table
open MoonShot.Serializer
open MoonShot.Reader

/-! ## Expressions -/

mutual

/-- Conjunctions joined by `OR`. -/
inductive Disjunction where
  | single (part : Conjunction)
  | or (part : Conjunction) (rest : Disjunction)

/-- Primaries side by side, with or without an `AND` between two of them. -/
inductive Conjunction where
  | single (primary : Primary)
  | and (keyword : Bool) (primary : Primary) (rest : Conjunction)

/-- A word, or an expression in parentheses. -/
inductive Primary where
  | term (word : Str)
  | group (inner : Disjunction)

end

/-- The keyword of the documentation. -/
def andWord : Str := ⟨[0x41, 0x4E, 0x44], rfl⟩

mutual

/-- The words of the expression, keywords included, in order. -/
def Disjunction.words : Disjunction → List Str
  | .single part => part.words
  | .or part rest => part.words ++ orWord :: rest.words

def Conjunction.words : Conjunction → List Str
  | .single primary => primary.words
  | .and keyword primary rest =>
      primary.words ++ ((if keyword then [andWord] else []) ++ rest.words)

def Primary.words : Primary → List Str
  | .term word => [word]
  | .group inner => inner.words

end

mutual

/-- The terms of the expression. -/
def Disjunction.terms : Disjunction → List Str
  | .single part => part.terms
  | .or part rest => part.terms ++ rest.terms

def Conjunction.terms : Conjunction → List Str
  | .single primary => primary.terms
  | .and _ primary rest => primary.terms ++ rest.terms

def Primary.terms : Primary → List Str
  | .term word => [word]
  | .group inner => inner.terms

end

/-! ## Spelling -/

/-- A word or a parenthesis. -/
inductive Lexeme where
  | word (bytes : Bytes)
  | opening
  | closing
deriving DecidableEq

/-- The word that ends at a blank, a parenthesis or the end. -/
def endedWord (current : Bytes) : List Lexeme := if current = [] then [] else [.word current]

/-- The lexemes of a text; blanks only separate words. -/
def lexemes (current : Bytes) : Bytes → List Lexeme
  | [] => endedWord current
  | byte :: rest =>
      if byte = 0x28 then endedWord current ++ .opening :: lexemes [] rest
      else if byte = 0x29 then endedWord current ++ .closing :: lexemes [] rest
      else if isSeparator byte then endedWord current ++ lexemes [] rest
      else lexemes (current ++ [byte]) rest

mutual

def Disjunction.lexemes : Disjunction → List Lexeme
  | .single part => part.lexemes
  | .or part rest => part.lexemes ++ .word orWord.bytes :: rest.lexemes

def Conjunction.lexemes : Conjunction → List Lexeme
  | .single primary => primary.lexemes
  | .and keyword primary rest =>
      primary.lexemes ++ ((if keyword then [.word andWord.bytes] else []) ++ rest.lexemes)

def Primary.lexemes : Primary → List Lexeme
  | .term word => [.word word.bytes]
  | .group inner => .opening :: inner.lexemes ++ [.closing]

end

/-- The query spells the expression, with any blanks between its lexemes. -/
def Disjunction.Spells (expression : Disjunction) (query : Str) : Prop :=
  MoonShot.Query.lexemes [] query.bytes = expression.lexemes

instance (expression : Disjunction) (query : Str) : Decidable (expression.Spells query) :=
  inferInstanceAs (Decidable (_ = _))

def Lexeme.text : Lexeme → Option Bytes
  | .word bytes => some bytes
  | .opening | .closing => none

theorem filterMap_lexemes (current data : Bytes) :
    (lexemes current data).filterMap Lexeme.text = pieces isSeparator current data := by
  have ended : ∀ current : Bytes,
      (endedWord current).filterMap Lexeme.text = if current = [] then [] else [current] := by
    intro current
    unfold endedWord
    split <;> rfl
  have join : ∀ (current : Bytes) (later : List Bytes),
      (if current = [] then [] else [current]) ++ later =
        if current = [] then later else current :: later := by
    intro current later
    split <;> rfl
  induction data generalizing current with
  | nil => exact ended current
  | cons byte rest inductionHypothesis =>
      unfold lexemes pieces
      by_cases opening : byte = 0x28
      · rw [if_pos opening, if_pos (by rw [opening]; decide), List.filterMap_append, ended,
          List.filterMap_cons_none rfl, inductionHypothesis, join]
      · rw [if_neg opening]
        by_cases closing : byte = 0x29
        · rw [if_pos closing, if_pos (by rw [closing]; decide), List.filterMap_append, ended,
            List.filterMap_cons_none rfl, inductionHypothesis, join]
        · rw [if_neg closing]
          split
          · rw [List.filterMap_append, ended, inductionHypothesis, join]
          · exact inductionHypothesis _

mutual

theorem Disjunction.lexemes_words : (expression : Disjunction) →
    expression.lexemes.filterMap Lexeme.text = expression.words.map Str.bytes
  | .single part => by
      rw [Disjunction.lexemes, Disjunction.words, part.lexemes_words]
  | .or part rest => by
      have keyword : Lexeme.text (.word orWord.bytes) = some orWord.bytes := rfl
      rw [Disjunction.lexemes, Disjunction.words, List.filterMap_append, part.lexemes_words,
        List.filterMap_cons_some keyword, rest.lexemes_words, List.map_append, List.map_cons]

theorem Conjunction.lexemes_words : (part : Conjunction) →
    part.lexemes.filterMap Lexeme.text = part.words.map Str.bytes
  | .single primary => by
      rw [Conjunction.lexemes, Conjunction.words, primary.lexemes_words]
  | .and keyword primary rest => by
      rw [Conjunction.lexemes, Conjunction.words, List.filterMap_append, List.filterMap_append,
        primary.lexemes_words, rest.lexemes_words, List.map_append, List.map_append]
      cases keyword <;> rfl

theorem Primary.lexemes_words : (primary : Primary) →
    primary.lexemes.filterMap Lexeme.text = primary.words.map Str.bytes
  | .term word => rfl
  | .group inner => by
      rw [Primary.lexemes, Primary.words, List.cons_append, List.filterMap_cons_none rfl,
        List.filterMap_append, inner.lexemes_words]
      exact List.append_nil _

end

theorem splitRawItems_of_spells {expression : Disjunction} {query : Str}
    (spells : expression.Spells query) : splitRawItems query = expression.words := by
  apply splitRawItems_eq
  rw [← filterMap_lexemes, spells, expression.lexemes_words]

/-! ## Meaning -/

section Meaning

variable (tokenize : Str → List Str) (truth : Str → Prop)

mutual

/-- The meaning of an expression, where a term holds when its token is true. -/
def Disjunction.Holds : Disjunction → Prop
  | .single part => part.Holds
  | .or part rest => part.Holds ∨ rest.Holds

def Conjunction.Holds : Conjunction → Prop
  | .single primary => primary.Holds
  | .and _ primary rest => primary.Holds ∧ rest.Holds

def Primary.Holds : Primary → Prop
  | .term word => ∀ token ∈ tokenize word, truth token
  | .group inner => inner.Holds

end

mutual

/-- The expression multiplied out. -/
def Disjunction.clauses : Disjunction → List (List Str)
  | .single part => part.clauses
  | .or part rest => part.clauses ++ rest.clauses

def Conjunction.clauses : Conjunction → List (List Str)
  | .single primary => primary.clauses
  | .and _ primary rest => product primary.clauses rest.clauses

def Primary.clauses : Primary → List (List Str)
  | .term word => [tokenize word]
  | .group inner => inner.clauses

end

mutual

theorem Disjunction.satisfies_clauses : (expression : Disjunction) →
    (Satisfies truth (expression.clauses tokenize) ↔ expression.Holds tokenize truth)
  | .single part => part.satisfies_clauses
  | .or part rest =>
      satisfies_append.trans (or_congr part.satisfies_clauses rest.satisfies_clauses)

theorem Conjunction.satisfies_clauses : (part : Conjunction) →
    (Satisfies truth (part.clauses tokenize) ↔ part.Holds tokenize truth)
  | .single primary => primary.satisfies_clauses
  | .and _ primary rest =>
      satisfies_product.trans (and_congr primary.satisfies_clauses rest.satisfies_clauses)

theorem Primary.satisfies_clauses : (primary : Primary) →
    (Satisfies truth (primary.clauses tokenize) ↔ primary.Holds tokenize truth)
  | .term _ => satisfies_singleton
  | .group inner => inner.satisfies_clauses

end

end Meaning

/-! ## What the compiler reads -/

/-- A plain word: no operator, no minus and no field. -/
structure PlainWord (word : Str) : Prop where
  notOr : isOrToken word = false
  notNot : isNotToken word = false
  noMinus : withoutMinus word = none
  noColon : 0x3A ∉ word.bytes

/-- A plain term: not the `AND` keyword, and one token. -/
structure PlainTerm (tokenize : Str → List Str) (word : Str) : Prop extends PlainWord word where
  notAnd : word ≠ andWord
  oneToken : ∃ token, tokenize word = [token]

theorem plainWord_and : PlainWord andWord := ⟨by decide, by decide, by decide, by decide⟩

/-- The tokens of the parts between `OR` words. A part without tokens is dropped. -/
def flatClauses (tokenize : Str → List Str) (words : List Str) : List (List Str) :=
  ((words.splitOnP isOrToken).map fun part => part.flatMap tokenize).filter (· ≠ [])

/-- The parts between the `OR` words and the multiplied-out clauses absorb each
other, clauses with a token that is never indexed left aside. -/
def ReadsFlat (tokenize : Str → List Str) (expression : Disjunction) : Prop :=
  Absorbs Writable (expression.clauses tokenize) (flatClauses tokenize expression.words) ∧
    Absorbs Writable (flatClauses tokenize expression.words) (expression.clauses tokenize)

instance (term : Str) : Decidable (Writable term) := inferInstanceAs (Decidable (_ ∧ _))

instance (tokenize : Str → List Str) (expression : Disjunction) :
    Decidable (ReadsFlat tokenize expression) :=
  inferInstanceAs (Decidable (_ ∧ _))

/-- A part holds items that separate nothing. -/
theorem mem_splitOnP {α : Type} {test : α → Bool} {items part : List α}
    (member : part ∈ items.splitOnP test) {item : α} (inside : item ∈ part) :
    item ∈ items ∧ test item = false := by
  induction items generalizing part with
  | nil =>
      rw [List.splitOnP_nil, List.mem_singleton] at member
      rw [member] at inside
      cases inside
  | cons first rest inductionHypothesis =>
      rw [List.splitOnP_cons_eq_if_modifyHead] at member
      cases separates : test first with
      | true =>
          rw [if_pos separates] at member
          rcases List.mem_cons.mp member with rfl | later
          · cases inside
          · have found := inductionHypothesis later inside
            exact ⟨List.mem_cons_of_mem _ found.1, found.2⟩
      | false =>
          rw [if_neg (by simp [separates])] at member
          cases parts : rest.splitOnP test with
          | nil => rw [parts] at member; cases member
          | cons head tail =>
              rw [parts, List.modifyHead_cons] at member
              rcases List.mem_cons.mp member with rfl | later
              · rcases List.mem_cons.mp inside with rfl | inHead
                · exact ⟨List.mem_cons_self, separates⟩
                · have found := inductionHypothesis (parts ▸ List.mem_cons_self) inHead
                  exact ⟨List.mem_cons_of_mem _ found.1, found.2⟩
              · have found := inductionHypothesis (parts ▸ List.mem_cons_of_mem _ later) inside
                exact ⟨List.mem_cons_of_mem _ found.1, found.2⟩

def plainItem (word : Str) : QueryItem := ⟨word, false⟩

theorem groupItems_plain {words : List Str}
    (plain : ∀ word ∈ words, isOrToken word = false → PlainWord word) (group : List QueryItem) :
    groupItems false group words =
      ((words.splitOnP isOrToken).map fun part => part.map plainItem).modifyHead (group ++ ·) := by
  induction words generalizing group with
  | nil => simp [groupItems]
  | cons word rest inductionHypothesis =>
      have restPlain := fun word member => plain word (List.mem_cons_of_mem _ member)
      rw [groupItems, List.splitOnP_cons_eq_if_modifyHead]
      cases isOr : isOrToken word with
      | true =>
          rw [if_pos rfl, if_pos rfl, inductionHypothesis restPlain]
          cases rest.splitOnP isOrToken <;> simp
      | false =>
          have here := plain word List.mem_cons_self isOr
          have item : itemOf word false = plainItem word := by
            unfold itemOf plainItem
            rw [here.noMinus]
            rfl
          rw [if_neg (by simp), if_neg (by simp [here.notNot]), if_neg (by simp),
            inductionHypothesis restPlain, item]
          cases rest.splitOnP isOrToken <;> simp

theorem fieldOf_plain (streams : List Stream) {word : Str} (noColon : 0x3A ∉ word.bytes) :
    fieldOf streams word = (word, streams) := by
  have none_ : word.cutFirst (fun byte => byte = 0x3A) isColon_ascii = none := by
    unfold Str.cutFirst
    have all : word.bytes.dropWhile (fun byte => !decide (byte = 0x3A)) = [] := by
      rw [List.dropWhile_eq_nil_iff]
      intro byte member
      simpa using fun colon : byte = 0x3A => noColon (colon ▸ member)
    split
    · rfl
    · rename_i rest
      rw [all] at rest
      cases rest
  unfold fieldOf
  rw [none_]

theorem termsWhere_plain (tokenize : Str → List Str) (streams : List Stream) {part : List Str}
    (plain : ∀ word ∈ part, 0x3A ∉ word.bytes) :
    termsWhere tokenize streams false (part.map plainItem) =
        (part.flatMap tokenize).map (fun token => ⟨token, streams⟩) ∧
      termsWhere tokenize streams true (part.map plainItem) = [] := by
  induction part with
  | nil => exact ⟨rfl, rfl⟩
  | cons word rest inductionHypothesis =>
      obtain ⟨positive, negative⟩ :=
        inductionHypothesis fun word member => plain word (List.mem_cons_of_mem _ member)
      have here := fieldOf_plain streams (plain word List.mem_cons_self)
      rw [List.map_cons, ← List.singleton_append, termsWhere_append, termsWhere_append, positive,
        negative]
      simp [termsWhere, plainItem, termsOf, here]

/-! ## Lists of a written index -/

/-- The document has the token in one of the streams. -/
def HasToken (meaning : Meaning) (streams : List Stream) (doc : UInt64) (token : Str) : Prop :=
  ∃ stream ∈ streams, doc ∈ meaning.lists (streamKey token stream)

section Written

variable {float : FloatOps} {calls : List WriteCall} {build : WeakAndBuildMode}
  {streams : List Stream} {doc : UInt64}

theorem hasToken_iff {token : Str} (clean : Clean token) :
    HasToken (indexMeaning float calls build) streams doc token ↔
      token.len + 1 ≤ headTermKeyMax ∧ ∃ stream ∈ streams, Contains calls doc token stream := by
  unfold HasToken
  show (∃ stream ∈ streams,
    doc ∈ builtLists float (written calls) (streamKey token stream)) ↔ _
  simp only [mem_builtLists (nulFree_streamKey clean.nulFree _), posted_streamKey clean,
    streamKey_len]
  constructor
  · rintro ⟨stream, member, short, contains⟩
    exact ⟨short, stream, member, contains⟩
  · rintro ⟨short, stream, member, contains⟩
    exact ⟨stream, member, short, contains⟩

theorem HasToken.writable {token : Str} (clean : Clean token)
    (has : HasToken (indexMeaning float calls build) streams doc token) : Writable token := by
  obtain ⟨short, _, _, _, _, _, _, _, nonempty⟩ := (hasToken_iff clean).mp has
  exact ⟨nonempty, short⟩

/-- Of two or more tokens each stands in a pair of neighbours. -/
theorem exists_neighbour {α : Type} {items : List α} (several : 2 ≤ items.length) {item : α}
    (member : item ∈ items) : ∃ pair ∈ items.zip items.tail, item = pair.1 ∨ item = pair.2 := by
  induction items with
  | nil => cases member
  | cons first rest inductionHypothesis =>
      cases rest with
      | nil => exact absurd several (by simp)
      | cons second later =>
          rcases List.mem_cons.mp member with rfl | inRest
          · exact ⟨(item, second), List.mem_cons_self, Or.inl rfl⟩
          · rcases List.mem_cons.mp inRest with rfl | inLater
            · exact ⟨(first, item), List.mem_cons_self, Or.inr rfl⟩
            · have more : 2 ≤ (second :: later).length := by
                have := List.length_pos_of_mem inLater
                rw [List.length_cons]
                omega
              obtain ⟨pair, pairMember, named⟩ := inductionHypothesis more inRest
              exact ⟨pair, List.mem_cons_of_mem _ pairMember, named⟩

/-- Tokens of the same streams: a document with all bigrams has all tokens. -/
theorem hasTokens_of_hasPairs (cleanWords : CleanWords calls) {tokens : List Str}
    (clean : ∀ token ∈ tokens, Clean token)
    (some_ : samePairs (tokens.map fun token => ⟨token, streams⟩) ≠ [])
    (pairs : HasPairs (indexMeaning float calls build) doc
      (tokens.map fun token => ⟨token, streams⟩)) :
    ∀ token ∈ tokens, HasToken (indexMeaning float calls build) streams doc token := by
  intro token member
  have several : 2 ≤ (tokens.map fun token => QueryTerm.mk token streams).length := by
    by_contra short
    exact some_ (samePairs_eq_nil (by omega))
  obtain ⟨pair, zipped, named⟩ := exists_neighbour several
    (List.mem_map_of_mem (f := fun token => QueryTerm.mk token streams) member)
  obtain ⟨⟨left, leftMember, leftEq⟩, right, rightMember, rightEq⟩ :
      (∃ left ∈ tokens, QueryTerm.mk left streams = pair.1) ∧
        ∃ right ∈ tokens, QueryTerm.mk right streams = pair.2 := by
    have both := List.of_mem_zip zipped
    exact ⟨List.mem_map.mp both.1, List.mem_map.mp (List.mem_of_mem_tail both.2)⟩
  have same : pair ∈ samePairs (tokens.map fun token => QueryTerm.mk token streams) := by
    refine List.mem_filter.mpr ⟨zipped, ?_⟩
    rw [← leftEq, ← rightEq]
    exact decide_eq_true rfl
  obtain ⟨stream, streamMember, listed⟩ := pairs pair same
  rw [← leftEq, ← rightEq] at listed
  rw [← leftEq] at streamMember
  obtain ⟨short, posted⟩ :=
    (mem_lists_bigram (clean _ leftMember) (clean _ rightMember) stream doc).mp listed
  have contains := posted_bigram cleanWords (clean _ leftMember) posted
  rw [hasToken_iff (clean token member)]
  rcases named with isLeft | isRight
  · obtain rfl : token = left := congrArg QueryTerm.term (isLeft.trans leftEq.symm)
    exact ⟨by omega, stream, streamMember, contains.1⟩
  · obtain rfl : token = right := congrArg QueryTerm.term (isRight.trans rightEq.symm)
    exact ⟨by omega, stream, streamMember, contains.2⟩

/-- A part without negation matches the documents that hold all its tokens. -/
theorem mem_plainPart (cleanWords : CleanWords calls) {tokenize : Str → List Str}
    {part : List Str} (noColon : ∀ word ∈ part, 0x3A ∉ word.bytes)
    (clean : ∀ token ∈ part.flatMap tokenize, Clean token) :
    doc ∈ docsOfTree (indexMeaning float calls build)
        (disjunctNode tokenize streams .default (part.map plainItem)) ↔
      part.flatMap tokenize ≠ [] ∧ ∀ token ∈ part.flatMap tokenize,
        HasToken (indexMeaning float calls build) streams doc token := by
  obtain ⟨positive, negative⟩ := termsWhere_plain tokenize streams noColon
  rw [disjunctNode, positive, negative, buildMinusExpression, if_pos rfl]
  generalize part.flatMap tokenize = tokens at clean ⊢
  by_cases empty : tokens = []
  · subst empty
    rw [List.map_nil, buildImplicitExpression_nil]
    simp [docsOfTree]
  · rw [mem_default (by simpa using empty)]
    have all : HasTokens (indexMeaning float calls build) doc
        (tokens.map fun token => ⟨token, streams⟩) ↔
        ∀ token ∈ tokens, HasToken (indexMeaning float calls build) streams doc token := by
      simp [HasTokens, HasToken]
    rw [all]
    constructor
    · rintro (⟨some_, pairs⟩ | holds)
      · exact ⟨empty, hasTokens_of_hasPairs cleanWords clean some_ pairs⟩
      · exact ⟨empty, holds⟩
    · exact fun holds => Or.inr holds.2

/-- The default mode matches what the parts between the `OR` words ask for. -/
theorem mem_flatClauses (cleanWords : CleanWords calls) {tokenize : Str → List Str}
    {query streamSet : Str} (hasStream : parseStreamSet streamSet ≠ [])
    (plain : ∀ word ∈ splitRawItems query, isOrToken word = false → PlainWord word)
    (clean : ∀ word ∈ splitRawItems query, ∀ token ∈ tokenize word, Clean token) :
    doc ∈ docsOfTree (indexMeaning float calls build)
        (compileWithMode tokenize query streamSet .default).root ↔
      Satisfies (HasToken (indexMeaning float calls build) (parseStreamSet streamSet) doc)
        (flatClauses tokenize (splitRawItems query)) := by
  have parts : disjunctsOf query =
      ((splitRawItems query).splitOnP isOrToken).map fun part => part.map plainItem := by
    rw [disjunctsOf, groupItems_plain plain]
    cases (splitRawItems query).splitOnP isOrToken <;> simp
  have each : ∀ part ∈ (splitRawItems query).splitOnP isOrToken,
      (doc ∈ docsOfTree (indexMeaning float calls build)
          (disjunctNode tokenize (parseStreamSet streamSet) .default (part.map plainItem)) ↔
        part.flatMap tokenize ≠ [] ∧ ∀ token ∈ part.flatMap tokenize,
          HasToken (indexMeaning float calls build) (parseStreamSet streamSet) doc token) := by
    intro part member
    apply mem_plainPart cleanWords
    · intro word wordMember
      obtain ⟨written, notOr⟩ := mem_splitOnP member wordMember
      exact (plain word written notOr).noColon
    · intro token tokenMember
      obtain ⟨word, wordMember, tokenized⟩ := List.mem_flatMap.mp tokenMember
      exact clean word (mem_splitOnP member wordMember).1 token tokenized
  rw [mem_compiled hasStream, parts, flatClauses, Satisfies]
  simp only [List.mem_filter, List.mem_map, decide_eq_true_eq]
  constructor
  · rintro ⟨_, ⟨part, member, rfl⟩, matched⟩
    obtain ⟨nonempty, holds⟩ := (each part member).mp matched
    exact ⟨_, ⟨⟨part, member, rfl⟩, nonempty⟩, holds⟩
  · rintro ⟨_, ⟨⟨part, member, rfl⟩, nonempty⟩, holds⟩
    exact ⟨_, ⟨part, member, rfl⟩, (each part member).mpr ⟨nonempty, holds⟩⟩

end Written

/-! ## One document for each clause -/

/-- The calls that write each token of a clause, alone, into document 1. -/
def clauseCalls (stream : Stream) (clause : List Str) : List WriteCall :=
  clause.map fun token => ⟨[token], 1, stream.letter⟩

theorem clauseCalls_clean {stream : Stream} {clause : List Str}
    (clean : ∀ token ∈ clause, Clean token) : CleanWords (clauseCalls stream clause) := by
  intro call member word wordMember
  obtain ⟨token, tokenMember, rfl⟩ := List.mem_map.mp member
  rw [List.mem_singleton.mp wordMember]
  exact clean token tokenMember

/-- The document has exactly the tokens of the clause. -/
theorem hasToken_clauseCalls {float : FloatOps} {build : WeakAndBuildMode} {streams : List Stream}
    {stream : Stream} (searched : stream ∈ streams) {clause : List Str}
    (writable : ∀ token ∈ clause, Writable token) {token : Str} (clean : Clean token) :
    HasToken (indexMeaning float (clauseCalls stream clause) build) streams 1 token ↔
      token ∈ clause := by
  rw [hasToken_iff clean]
  constructor
  · rintro ⟨_, _, _, call, member, _, _, word, _⟩
    obtain ⟨other, otherMember, rfl⟩ := List.mem_map.mp member
    rw [List.mem_singleton.mp word]
    exact otherMember
  · intro member
    obtain ⟨nonempty, short⟩ := writable token member
    exact ⟨short, stream, searched, _, List.mem_map_of_mem member, rfl, streamAbbrev_letter stream,
      List.mem_singleton_self token, nonempty⟩

/-- Over every written index the same documents satisfy two lists of clauses
exactly when the lists absorb each other. -/
theorem satisfies_everywhere_iff {streams : List Stream} (hasStream : streams ≠ [])
    {left right : List (List Str)} (leftClean : ∀ clause ∈ left, ∀ token ∈ clause, Clean token)
    (rightClean : ∀ clause ∈ right, ∀ token ∈ clause, Clean token) :
    (∀ (float : FloatOps) (calls : List WriteCall) (build : WeakAndBuildMode), CleanWords calls →
      ∀ doc, Satisfies (HasToken (indexMeaning float calls build) streams doc) right →
        Satisfies (HasToken (indexMeaning float calls build) streams doc) left) ↔
      Absorbs Writable left right := by
  constructor
  · intro implied clause member writable
    obtain ⟨stream, searched⟩ := List.exists_mem_of_ne_nil streams hasStream
    have same : ∀ {clauses : List (List Str)},
        (∀ clause ∈ clauses, ∀ token ∈ clause, Clean token) →
        (Satisfies (HasToken (indexMeaning default (clauseCalls stream clause) .flatPruned)
          streams 1) clauses ↔ Satisfies (· ∈ clause) clauses) :=
      fun clean => satisfies_congr fun other otherMember token tokenMember =>
        hasToken_clauseCalls searched writable (clean other otherMember token tokenMember)
    rw [← same leftClean]
    apply implied default _ .flatPruned (clauseCalls_clean (rightClean clause member))
    rw [same rightClean]
    exact satisfies_self member
  · intro absorbs float calls build cleanWords doc satisfied
    exact absorbs.satisfies
      (fun clause member token tokenMember has =>
        has.writable (rightClean clause member token tokenMember)) satisfied

/-! ## The documented meaning -/

mutual

theorem Disjunction.mem_words : (expression : Disjunction) → ∀ word ∈ expression.words,
    word = orWord ∨ word = andWord ∨ word ∈ expression.terms
  | .single part, word, member => part.mem_words word member
  | .or part rest, word, member => by
      rw [Disjunction.words, List.mem_append, List.mem_cons] at member
      rw [Disjunction.terms, List.mem_append]
      rcases member with inPart | isOr | inRest
      · have := part.mem_words word inPart
        tauto
      · exact Or.inl isOr
      · have := rest.mem_words word inRest
        tauto

theorem Conjunction.mem_words : (part : Conjunction) → ∀ word ∈ part.words,
    word = orWord ∨ word = andWord ∨ word ∈ part.terms
  | .single primary, word, member => primary.mem_words word member
  | .and keyword primary rest, word, member => by
      rw [Conjunction.words, List.mem_append, List.mem_append] at member
      rw [Conjunction.terms, List.mem_append]
      rcases member with inPrimary | isAnd | inRest
      · have := primary.mem_words word inPrimary
        tauto
      · cases keyword with
        | false => cases isAnd
        | true => exact Or.inr (Or.inl (List.mem_singleton.mp isAnd))
      · have := rest.mem_words word inRest
        tauto

theorem Primary.mem_words : (primary : Primary) → ∀ word ∈ primary.words,
    word = orWord ∨ word = andWord ∨ word ∈ primary.terms
  | .term _, _, member => Or.inr (Or.inr member)
  | .group inner, word, member => inner.mem_words word member

end

section Clauses

variable {tokenize : Str → List Str}

/-- The clauses of a conjunction join clauses of both sides. -/
theorem mem_product {left right : List (List Str)} {clause : List Str}
    (member : clause ∈ product left right) :
    ∃ first ∈ left, ∃ second ∈ right, clause = first ++ second := by
  obtain ⟨first, firstMember, inner⟩ := List.mem_flatMap.mp member
  obtain ⟨second, secondMember, rfl⟩ := List.mem_map.mp inner
  exact ⟨first, firstMember, second, secondMember, rfl⟩

mutual

/-- A clause only has tokens of the words, and has some when every term has. -/
theorem Disjunction.mem_clauses : (expression : Disjunction) →
    ∀ clause ∈ expression.clauses tokenize,
      (∀ token ∈ clause, ∃ word ∈ expression.words, token ∈ tokenize word) ∧
        ((∀ word ∈ expression.terms, tokenize word ≠ []) → clause ≠ [])
  | .single part, clause, member => part.mem_clauses clause member
  | .or part rest, clause, member => by
      rw [Disjunction.clauses, List.mem_append] at member
      simp only [Disjunction.words, Disjunction.terms, List.mem_append, List.mem_cons]
      rcases member with inPart | inRest
      · obtain ⟨tokens, some_⟩ := part.mem_clauses clause inPart
        refine ⟨fun token inside => ?_, fun each => some_ fun word inTerms =>
          each word (Or.inl inTerms)⟩
        obtain ⟨word, wordMember, tokenized⟩ := tokens token inside
        exact ⟨word, Or.inl wordMember, tokenized⟩
      · obtain ⟨tokens, some_⟩ := rest.mem_clauses clause inRest
        refine ⟨fun token inside => ?_, fun each => some_ fun word inTerms =>
          each word (Or.inr inTerms)⟩
        obtain ⟨word, wordMember, tokenized⟩ := tokens token inside
        exact ⟨word, Or.inr (Or.inr wordMember), tokenized⟩

theorem Conjunction.mem_clauses : (part : Conjunction) →
    ∀ clause ∈ part.clauses tokenize,
      (∀ token ∈ clause, ∃ word ∈ part.words, token ∈ tokenize word) ∧
        ((∀ word ∈ part.terms, tokenize word ≠ []) → clause ≠ [])
  | .single primary, clause, member => primary.mem_clauses clause member
  | .and keyword primary rest, clause, member => by
      obtain ⟨first, firstMember, second, secondMember, rfl⟩ := mem_product member
      obtain ⟨firstTokens, firstSome⟩ := primary.mem_clauses first firstMember
      obtain ⟨secondTokens, _⟩ := rest.mem_clauses second secondMember
      simp only [Conjunction.words, Conjunction.terms, List.mem_append]
      refine ⟨fun token inside => ?_, fun each => ?_⟩
      · rcases inside with inFirst | inSecond
        · obtain ⟨word, wordMember, tokenized⟩ := firstTokens token inFirst
          exact ⟨word, Or.inl wordMember, tokenized⟩
        · obtain ⟨word, wordMember, tokenized⟩ := secondTokens token inSecond
          exact ⟨word, Or.inr (Or.inr wordMember), tokenized⟩
      · have firstNonempty := firstSome fun word inTerms => each word (Or.inl inTerms)
        exact fun none_ => firstNonempty (List.append_eq_nil_iff.mp none_).1

theorem Primary.mem_clauses : (primary : Primary) →
    ∀ clause ∈ primary.clauses tokenize,
      (∀ token ∈ clause, ∃ word ∈ primary.words, token ∈ tokenize word) ∧
        ((∀ word ∈ primary.terms, tokenize word ≠ []) → clause ≠ [])
  | .term word, clause, member => by
      rw [Primary.clauses, List.mem_singleton] at member
      rw [member]
      exact ⟨fun token inside => ⟨word, List.mem_singleton_self word, inside⟩,
        fun each => each word (List.mem_singleton_self word)⟩
  | .group inner, clause, member => inner.mem_clauses clause member

end

end Clauses

/-- Compiled in the default mode, a spelling of an expression matches, over
every written index, the documents of the expression's set semantics exactly
when no text stream is searched or the flat reading is the expression's. -/
theorem documented_grammar_iff (tokenize : Str → List Str) (streamSet : Str)
    (expression : Disjunction) (query : Str) (spells : expression.Spells query)
    (plain : ∀ word ∈ expression.terms, PlainTerm tokenize word)
    (clean : ∀ word ∈ expression.words, ∀ token ∈ tokenize word, Clean token) :
    (∀ (float : FloatOps) (calls : List WriteCall) (build : WeakAndBuildMode), CleanWords calls →
      ∀ doc,
        doc ∈ docsOfTree (indexMeaning float calls build)
            (compileWithMode tokenize query streamSet .default).root ↔
          expression.Holds tokenize
            (HasToken (indexMeaning float calls build) (parseStreamSet streamSet) doc)) ↔
      parseStreamSet streamSet = [] ∨ ReadsFlat tokenize expression := by
  have words := splitRawItems_of_spells spells
  have plainWords : ∀ word ∈ splitRawItems query, isOrToken word = false → PlainWord word := by
    intro word member notOr
    rw [words] at member
    rcases expression.mem_words word member with rfl | rfl | inTerms
    · exact absurd notOr (by decide)
    · exact plainWord_and
    · exact (plain word inTerms).toPlainWord
  have expandedClean : ∀ clause ∈ expression.clauses tokenize, ∀ token ∈ clause, Clean token := by
    intro clause member token inside
    obtain ⟨word, wordMember, tokenized⟩ := (expression.mem_clauses clause member).1 token inside
    exact clean word wordMember token tokenized
  have flatClean : ∀ clause ∈ flatClauses tokenize expression.words, ∀ token ∈ clause,
      Clean token := by
    intro clause member token inside
    obtain ⟨part, partMember, rfl⟩ := List.mem_map.mp (List.mem_filter.mp member).1
    obtain ⟨word, wordMember, tokenized⟩ := List.mem_flatMap.mp inside
    exact clean word (mem_splitOnP partMember wordMember).1 token tokenized
  by_cases none_ : parseStreamSet streamSet = []
  · -- Nothing is searched: no tree, and no token has a list.
    refine iff_of_true ?_ (Or.inl none_)
    intro float calls build _ doc
    rw [compileWithMode_noStream tokenize query .default none_, none_,
      ← expression.satisfies_clauses]
    refine iff_of_false (Finset.notMem_empty doc) ?_
    rintro ⟨clause, member, holds⟩
    have nonempty := (expression.mem_clauses clause member).2 fun word inTerms => by
      obtain ⟨token, single⟩ := (plain word inTerms).oneToken
      rw [single]
      exact List.cons_ne_nil _ _
    obtain ⟨token, inside⟩ := List.exists_mem_of_ne_nil clause nonempty
    obtain ⟨stream, streamMember, _⟩ := holds token inside
    cases streamMember
  · have flat : ∀ {float : FloatOps} {calls : List WriteCall} {build : WeakAndBuildMode}
        {doc : UInt64}, CleanWords calls →
        (doc ∈ docsOfTree (indexMeaning float calls build)
            (compileWithMode tokenize query streamSet .default).root ↔
          Satisfies (HasToken (indexMeaning float calls build) (parseStreamSet streamSet) doc)
            (flatClauses tokenize expression.words)) := by
      intro float calls build doc cleanWords
      rw [← words]
      exact mem_flatClauses cleanWords none_ plainWords (words.symm ▸ clean)
    have forward := satisfies_everywhere_iff none_ expandedClean flatClean
    have backward := satisfies_everywhere_iff none_ flatClean expandedClean
    rw [or_iff_right none_, ReadsFlat, ← forward, ← backward]
    simp only [Disjunction.satisfies_clauses]
    constructor
    · intro same
      exact ⟨fun float calls build cleanWords doc satisfied =>
          (same float calls build cleanWords doc).mp ((flat cleanWords).mpr satisfied),
        fun float calls build cleanWords doc holds =>
          (flat cleanWords).mp ((same float calls build cleanWords doc).mpr holds)⟩
    · rintro ⟨toExpression, toFlat⟩ float calls build cleanWords doc
      rw [flat cleanWords]
      exact ⟨toExpression float calls build cleanWords doc,
        toFlat float calls build cleanWords doc⟩

/-- `a b OR c` in the body. -/
theorem documented_grammar_iff_twoClauses :
    let expression : Disjunction :=
      .or (.and false (.term ⟨[0x61], rfl⟩) (.single (.term ⟨[0x62], rfl⟩)))
        (.single (.single (.term ⟨[0x63], rfl⟩)))
    ReadsFlat (fun text => [text]) expression ∧
      ∀ (float : FloatOps) (calls : List WriteCall) (build : WeakAndBuildMode),
        CleanWords calls → ∀ doc,
          doc ∈ docsOfTree (indexMeaning float calls build)
              (compileWithMode (fun text => [text])
                ⟨[0x61, 0x20, 0x62, 0x20, 0x4F, 0x52, 0x20, 0x63], rfl⟩ ⟨[0x42], rfl⟩
                .default).root ↔
            expression.Holds (fun text => [text])
              (HasToken (indexMeaning float calls build) (parseStreamSet ⟨[0x42], rfl⟩) doc) := by
  intro expression
  have flat : ReadsFlat (fun text => [text]) expression := by decide +kernel
  refine ⟨flat, ?_⟩
  exact (documented_grammar_iff (fun text => [text]) ⟨[0x42], rfl⟩ _
    ⟨[0x61, 0x20, 0x62, 0x20, 0x4F, 0x52, 0x20, 0x63], rfl⟩ (by decide +kernel)
    (by
      intro word member
      simp only [expression, Disjunction.terms, Conjunction.terms, Primary.terms,
        List.mem_append, List.mem_singleton] at member
      rcases member with (rfl | rfl) | rfl <;>
        exact ⟨⟨by decide, by decide, by decide, by decide⟩, by decide, _, rfl⟩)
    (by decide +kernel)).mpr (.inr flat)

/-- `a AND b` asks for a third word. -/
example : ¬ ReadsFlat (fun text => [text])
    (.single (.and true (.term ⟨[0x61], rfl⟩) (.single (.term ⟨[0x62], rfl⟩)))) := by
  decide +kernel

/-- The query `(rust OR go) safety`. -/
def groupedQuery : Str :=
  ⟨[0x28, 0x72, 0x75, 0x73, 0x74, 0x20, 0x4F, 0x52, 0x20, 0x67, 0x6F, 0x29, 0x20, 0x73, 0x61,
    0x66, 0x65, 0x74, 0x79], rfl⟩

def groupedExpression : Disjunction :=
  .single (.and false
    (.group (.or (.single (.term ⟨[0x72, 0x75, 0x73, 0x74], rfl⟩))
      (.single (.single (.term ⟨[0x67, 0x6F], rfl⟩)))))
    (.single (.term ⟨[0x73, 0x61, 0x66, 0x65, 0x74, 0x79], rfl⟩)))

/-- Document 1 has the one word `rust`. -/
def rustOnly : List WriteCall := [⟨[⟨[0x72, 0x75, 0x73, 0x74], rfl⟩], 1, ⟨[0x42], validUtf8_B⟩⟩]

def rustOnlyContext : QueryContext :=
  ⟨(buildBlocks default (written rustOnly)).table, 1, 1, .flatPruned⟩

/-- The parentheses are dropped: document 1 matches `(rust OR go) safety`, and the
reader of the tree stands on it, but it has no `safety`. -/
theorem grouped_query_matches_without_safety :
    groupedExpression.Spells groupedQuery ∧
    (∀ word ∈ groupedExpression.terms, PlainTerm (fun text => [text]) word) ∧
    CleanWords rustOnly ∧
    1 ∈ docsOfTree (indexMeaning default rustOnly .flatPruned)
      (compileWithMode (fun text => [text]) groupedQuery ⟨[0x42], rfl⟩ .default).root ∧
    ((compileWithMode (fun text => [text]) groupedQuery ⟨[0x42], rfl⟩ .default).root.bind
      (rustOnlyContext.buildIndexReader 20)).map IndexReader.docId = some 1 ∧
    ¬ groupedExpression.Holds (fun text => [text])
      (HasToken (indexMeaning default rustOnly .flatPruned) (parseStreamSet ⟨[0x42], rfl⟩) 1) := by
  refine ⟨by decide +kernel, ?_, by decide +kernel, by decide +kernel, by decide +kernel, ?_⟩
  · intro word member
    simp only [groupedExpression, Disjunction.terms, Conjunction.terms, Primary.terms,
      List.mem_append, List.mem_singleton] at member
    rcases member with (rfl | rfl) | rfl <;>
      exact ⟨⟨by decide, by decide, by decide, by decide⟩, by decide, _, rfl⟩
  · intro holds
    simp only [groupedExpression, Disjunction.Holds, Conjunction.Holds, Primary.Holds] at holds
    have clean : Clean ⟨[0x73, 0x61, 0x66, 0x65, 0x74, 0x79], rfl⟩ := by decide +kernel
    have safety := holds.2 _ (List.mem_singleton_self _)
    have contains := ((hasToken_iff clean).mp safety).2
    exact absurd contains (by decide +kernel)

end MoonShot.Query
