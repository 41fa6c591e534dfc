import MoonShot.Serializer.TermMphf

/-!
The slots of the minimal perfect hash.

Owns the invariant of the two placement loops: the terms of the buckets placed so far
have slots of their own, and the displacement of each bucket gives them back. From it
follow that the slots are a permutation and that the construction does not fault.
-/

namespace MoonShot.Serializer

open MoonShot.Lib
open MoonShot.Postings
open MoonShot.Format
open MoonShot.Table

/-! ## Buckets -/

section Buckets

variable {terms : List TermMphfBuildTerm} {bucketSeed slotSeed : UInt64}
  {bucketCount slotCount : Nat}

theorem nextPowerOfTwo_pos {value power : UInt32} (ran : nextPowerOfTwo value = .ok power) :
    0 < power.toNat := by
  unfold nextPowerOfTwo at ran
  split at ran
  · rw [← Except.ok.inj ran]
    decide
  · dsimp only at ran
    unfold addU32 at ran
    split at ran
    · rename_i fits
      rw [← Except.ok.inj ran, UInt32.toNat_add, Nat.mod_eq_of_lt fits]
      exact Nat.lt_add_left _ (by decide)
    · cases ran

/-- The terms of a bucket. -/
def bucketAt (terms : List TermMphfBuildTerm) (bucketSeed : UInt64) (bucketCount bucket : Nat) :
    List (Fin terms.length) :=
  (List.finRange terms.length).filter fun index =>
    bucketOf bucketSeed bucketCount (terms.get index).term = bucket

theorem mem_bucketAt {bucket : Nat} {index : Fin terms.length} :
    index ∈ bucketAt terms bucketSeed bucketCount bucket ↔
      bucketOf bucketSeed bucketCount (terms.get index).term = bucket := by
  rw [bucketAt, List.mem_filter, decide_eq_true_eq]
  exact and_iff_right (List.mem_finRange index)

theorem bucketAt_nodup (bucket : Nat) : (bucketAt terms bucketSeed bucketCount bucket).Nodup :=
  (List.nodup_finRange terms.length).filter _

theorem bucketOf_lt (positive : 0 < bucketCount) (term : Str) :
    bucketOf bucketSeed bucketCount term < bucketCount := Nat.mod_lt _ positive

theorem fillBuckets_length :
    (fillBuckets terms bucketSeed bucketCount).length = bucketCount := by
  have kept : ∀ (items : List (Fin terms.length)) (buckets : List (List (Fin terms.length))),
      (items.foldl (fun buckets index => buckets.modify
        (bucketOf bucketSeed bucketCount (terms.get index).term) (· ++ [index])) buckets).length =
        buckets.length := by
    intro items
    induction items with
    | nil => exact fun _ => rfl
    | cons item rest inductionHypothesis =>
        intro buckets
        rw [List.foldl_cons, inductionHypothesis, List.length_modify]
  rw [fillBuckets, kept, List.length_replicate]

theorem fillBuckets_getElem? {bucket : Nat} (below : bucket < bucketCount) :
    (fillBuckets terms bucketSeed bucketCount)[bucket]? =
      some (bucketAt terms bucketSeed bucketCount bucket) := by
  rw [fillBuckets, foldl_modify_getElem?, List.getElem?_replicate_of_lt below, Option.map_some,
    List.nil_append, bucketAt]

end Buckets

/-! ## Slots of one bucket -/

section Candidates

variable {terms : List TermMphfBuildTerm} {slotSeed : UInt64} {slotCount : Nat}

theorem candidateSlots_some {used : List Bool} {displacement : Nat} {taken slots : List Nat}
    {bucketTerms : List (Fin terms.length)}
    (found : candidateSlots terms slotSeed slotCount used displacement taken bucketTerms =
      some slots) (apart : taken.Nodup) :
    slots = taken ++ bucketTerms.map (fun index =>
        mphfSlotFor (terms.get index).term slotCount slotSeed displacement) ∧
      slots.Nodup ∧
      ∀ index ∈ bucketTerms,
        used.getD (mphfSlotFor (terms.get index).term slotCount slotSeed displacement) true = false := by
  induction bucketTerms generalizing taken with
  | nil =>
      obtain rfl := Option.some.inj found
      exact ⟨(List.append_nil _).symm, apart, by simp⟩
  | cons index rest inductionHypothesis =>
      rw [candidateSlots] at found
      split at found
      · cases found
      · rename_i fits
        rw [not_or] at fits
        have longer : (taken ++ [mphfSlotFor (terms.get index).term slotCount slotSeed
            displacement]).Nodup := by
          rw [List.nodup_append]
          refine ⟨apart, List.nodup_singleton _, ?_⟩
          intro old oldMember new newMember same
          rw [List.mem_singleton] at newMember
          rw [same, newMember] at oldMember
          exact fits.2 oldMember
        obtain ⟨slotsEq, nodup, free⟩ := inductionHypothesis found longer
        refine ⟨?_, nodup, ?_⟩
        · rw [slotsEq, List.map_cons, List.append_assoc]
          rfl
        · intro other member
          rcases List.mem_cons.mp member with rfl | inside
          · exact Bool.eq_false_of_not_eq_true fits.1
          · exact free other inside

theorem searchDisplacement_some {used : List Bool} {bucketTerms : List (Fin terms.length)}
    {turns start displacement : Nat} {slots : List Nat}
    (found : searchDisplacement terms slotSeed slotCount used bucketTerms turns start =
      some (displacement, slots)) :
    displacement < start + turns ∧
      candidateSlots terms slotSeed slotCount used displacement [] bucketTerms = some slots := by
  induction turns generalizing start with
  | zero => cases found
  | succ turns inductionHypothesis =>
      rw [searchDisplacement] at found
      split at found
      · rename_i fitting
        obtain ⟨rfl, rfl⟩ := Prod.mk.inj (Option.some.inj found)
        exact ⟨Nat.lt_add_of_pos_right (Nat.succ_pos _), fitting⟩
      · have later := inductionHypothesis found
        exact ⟨by omega, later.2⟩

end Candidates

/-! ## Slots of all terms -/

section Place

variable (terms : List TermMphfBuildTerm) (bucketSeed slotSeed : UInt64)
  (bucketCount slotCount : Nat)

/-- The slot a displacement gives a term. -/
def slotUnder (term : Str) (displacement : Int) : Nat :=
  if displacement < 0 then (-displacement - 1).toNat
  else mphfSlotFor term slotCount slotSeed displacement.toNat

/-- The indices of the terms of some buckets. -/
def termsOf (buckets : Set Nat) : Set Nat :=
  {key | ∃ index : Fin terms.length, index.val = key ∧
    bucketOf bucketSeed bucketCount (terms.get index).term ∈ buckets}

/-- The terms of these buckets have slots of their own, which the displacements of the
buckets give back. -/
structure Placed (state : TermMphfState) (buckets : Set Nat) : Prop where
  apart : state.toSlotTable.Apart (termsOf terms bucketSeed bucketCount buckets)
  slotRoom : state.slots.length = slotCount
  usedRoom : state.used.length = slotCount
  bucketRoom : state.displacements.length = bucketCount
  reads : ∀ index : Fin terms.length,
    bucketOf bucketSeed bucketCount (terms.get index).term ∈ buckets →
    ∃ displacement,
      state.displacements[bucketOf bucketSeed bucketCount (terms.get index).term]? =
        some displacement ∧
      state.slots[index.val]? = some (slotUnder slotSeed slotCount (terms.get index).term displacement)

variable {terms bucketSeed slotSeed bucketCount slotCount}
variable {state : TermMphfState} {buckets : Set Nat}

/-- The assignments that give the terms of a bucket their slots. -/
def bucketSlots (terms : List TermMphfBuildTerm) (bucketSeed slotSeed : UInt64)
    (bucketCount slotCount bucket : Nat) (displacement : Int) : List (Nat × Nat) :=
  (bucketAt terms bucketSeed bucketCount bucket).map fun index =>
    (index.val, slotUnder slotSeed slotCount (terms.get index).term displacement)

/-- A bucket whose terms get free slots of their own, by a displacement that is kept, is
placed. -/
theorem Placed.fill (placed : Placed terms bucketSeed slotSeed bucketCount slotCount state buckets)
    {bucket : Nat} (fresh : bucket ∉ buckets) (below : bucket < bucketCount) {displacement : Int}
    (nodup : ((bucketSlots terms bucketSeed slotSeed bucketCount slotCount bucket
      displacement).map Prod.snd).Nodup)
    (free : ∀ pair ∈ bucketSlots terms bucketSeed slotSeed bucketCount slotCount bucket
      displacement, state.toSlotTable.Free pair.2) {table : SlotTable}
    (assigned : state.toSlotTable.assignAll (bucketSlots terms bucketSeed slotSeed bucketCount
      slotCount bucket displacement) = .ok table) :
    Placed terms bucketSeed slotSeed bucketCount slotCount
      ⟨table, state.displacements.set bucket displacement⟩ (insert bucket buckets) := by
  have keys : (bucketSlots terms bucketSeed slotSeed bucketCount slotCount bucket
      displacement).map Prod.fst =
        (bucketAt terms bucketSeed bucketCount bucket).map Fin.val := by
    rw [bucketSlots, List.map_map]
    rfl
  have member : ∀ index : Fin terms.length,
      index.val ∈ (bucketAt terms bucketSeed bucketCount bucket).map Fin.val ↔
        bucketOf bucketSeed bucketCount (terms.get index).term = bucket := by
    intro index
    rw [List.mem_map, ← mem_bucketAt]
    constructor
    · rintro ⟨other, inside, same⟩
      rw [← Fin.ext same]
      exact inside
    · exact fun inside => ⟨index, inside, rfl⟩
  have others : ∀ pair ∈ bucketSlots terms bucketSeed slotSeed bucketCount slotCount bucket
      displacement, pair.1 ∉ termsOf terms bucketSeed bucketCount buckets := by
    rintro pair inside ⟨index, same, bucketInside⟩
    have key := List.mem_map_of_mem (f := Prod.fst) inside
    rw [keys, ← same, member] at key
    rw [key] at bucketInside
    exact fresh bucketInside
  obtain ⟨apart, here, kept, sizes⟩ := SlotTable.Apart.assignAll placed.apart
    (by rw [keys]; exact (bucketAt_nodup bucket).map Fin.val_injective) others nodup free assigned
  rw [keys] at apart kept
  refine ⟨?_, sizes.1.trans placed.slotRoom, sizes.2.trans placed.usedRoom, ?_, ?_⟩
  · convert apart using 1
    ext key
    constructor
    · rintro ⟨index, rfl, inside⟩
      rcases inside with same | old
      · exact Or.inl ((member index).mpr same)
      · exact Or.inr ⟨index, rfl, old⟩
    · rintro (inside | ⟨index, rfl, old⟩)
      · obtain ⟨index, indexInside, rfl⟩ := List.mem_map.mp inside
        exact ⟨index, rfl, Or.inl (mem_bucketAt.mp indexInside)⟩
      · exact ⟨index, rfl, Or.inr old⟩
  · rw [List.length_set]
    exact placed.bucketRoom
  · intro index inside
    by_cases same : bucketOf bucketSeed bucketCount (terms.get index).term = bucket
    · refine ⟨displacement, ?_, ?_⟩
      · rw [same]
        exact List.getElem?_set_self (by rw [placed.bucketRoom]; exact below)
      · exact here _ (List.mem_map_of_mem (mem_bucketAt.mpr same))
    · obtain ⟨old, read, slot⟩ := placed.reads index (inside.resolve_left same)
      refine ⟨old, ?_, ?_⟩
      · rw [List.getElem?_set_ne (Ne.symm same)]
        exact read
      · rw [← slot]
        exact kept index.val (fun key => same ((member index).mp key))

/-- An empty bucket needs no slots. -/
theorem Placed.empty (placed : Placed terms bucketSeed slotSeed bucketCount slotCount state buckets)
    {bucket : Nat} (fresh : bucket ∉ buckets) (below : bucket < bucketCount)
    (none_ : bucketAt terms bucketSeed bucketCount bucket = []) (displacement : Int) :
    Placed terms bucketSeed slotSeed bucketCount slotCount
      { state with displacements := state.displacements.set bucket displacement }
      (insert bucket buckets) := by
  refine Placed.fill placed fresh below ?_ ?_ ?_
  · rw [bucketSlots, none_]
    exact List.nodup_nil
  · rw [bucketSlots, none_]
    simp
  · rw [bucketSlots, none_]
    rfl

theorem placeBucket_placed {maxDisplacement : Nat} {after : TermMphfState}
    (placed : Placed terms bucketSeed slotSeed bucketCount slotCount state buckets)
    {bucket : Nat} (fresh : bucket ∉ buckets) (below : bucket < bucketCount)
    (ran : placeBucket terms slotSeed slotCount maxDisplacement state bucket
      (bucketAt terms bucketSeed bucketCount bucket) = .ok (some after)) :
    Placed terms bucketSeed slotSeed bucketCount slotCount after
      (if (bucketAt terms bucketSeed bucketCount bucket).length = 1 then buckets
        else insert bucket buckets) := by
  unfold placeBucket at ran
  split at ran
  · rename_i none_
    obtain rfl := Option.some.inj (Except.ok.inj ran)
    rw [none_, if_neg (by simp)]
    exact placed.empty fresh below none_ 0
  · split at ran
    · rename_i single
      obtain rfl := Option.some.inj (Except.ok.inj ran)
      rw [if_pos single]
      exact placed
    · rename_i several
      rw [if_neg several]
      split at ran
      · cases ran
      · rename_i displacement slots found
        obtain ⟨_, fitting⟩ := searchDisplacement_some found
        obtain ⟨slotsEq, nodup, free⟩ := candidateSlots_some fitting List.nodup_nil
        rw [List.nil_append] at slotsEq
        have under : ∀ term : Str, slotUnder slotSeed slotCount term (displacement : Int) =
            mphfSlotFor term slotCount slotSeed displacement := by
          intro term
          rw [slotUnder, if_neg (by omega), Int.toNat_natCast]
        have pairs : ((bucketAt terms bucketSeed bucketCount bucket).map Fin.val).zip slots =
            bucketSlots terms bucketSeed slotSeed bucketCount slotCount bucket displacement := by
          rw [slotsEq, List.zip_map', bucketSlots]
          simp only [under]
        rw [pairs] at ran
        cases assigned : state.toSlotTable.assignAll (bucketSlots terms bucketSeed slotSeed
            bucketCount slotCount bucket displacement) with
        | error fault =>
            rw [assigned] at ran
            cases ran
        | ok table =>
            rw [assigned] at ran
            obtain rfl := Option.some.inj (Except.ok.inj ran)
            refine Placed.fill placed fresh below ?_ ?_ assigned
            · rw [← pairs, List.map_snd_zip (by rw [slotsEq, List.length_map, List.length_map])]
              exact nodup
            · intro pair member
              obtain ⟨index, inside, rfl⟩ := List.mem_map.mp member
              have unused := free index inside
              rw [← under] at unused
              exact SlotTable.free_of_getD unused

theorem placeBuckets_placed {maxDisplacement : Nat} {order : List Nat} {after : TermMphfState}
    (placed : Placed terms bucketSeed slotSeed bucketCount slotCount state buckets)
    (distinct : order.Nodup) (fresh : ∀ bucket ∈ order, bucket ∉ buckets)
    (below : ∀ bucket ∈ order, bucket < bucketCount)
    (ran : placeBuckets terms slotSeed slotCount maxDisplacement
      (fillBuckets terms bucketSeed bucketCount) order state = .ok (some after)) :
    Placed terms bucketSeed slotSeed bucketCount slotCount after
      (buckets ∪ {bucket | bucket ∈ order ∧
        (bucketAt terms bucketSeed bucketCount bucket).length ≠ 1}) := by
  induction order generalizing state buckets with
  | nil =>
      obtain rfl := Option.some.inj (Except.ok.inj ran)
      simpa using placed
  | cons bucket rest inductionHypothesis =>
      rw [List.nodup_cons] at distinct
      have inside := below bucket List.mem_cons_self
      rw [placeBuckets, List.getD_eq_getElem?_getD, fillBuckets_getElem? inside,
        Option.getD_some] at ran
      cases step : placeBucket terms slotSeed slotCount maxDisplacement state bucket
          (bucketAt terms bucketSeed bucketCount bucket) with
      | error fault =>
          rw [step] at ran
          cases ran
      | ok outcome =>
          rw [step] at ran
          cases outcome with
          | none => cases ran
          | some next =>
              have nextPlaced :=
                placeBucket_placed placed (fresh bucket List.mem_cons_self) inside step
              have restBelow : ∀ other ∈ rest, other < bucketCount :=
                fun other member => below other (List.mem_cons_of_mem _ member)
              have restFresh : ∀ other ∈ rest, other ∉
                  (if (bucketAt terms bucketSeed bucketCount bucket).length = 1 then buckets
                    else insert bucket buckets) := by
                intro other member
                have old := fresh other (List.mem_cons_of_mem _ member)
                split
                · exact old
                · rintro (rfl | inBuckets)
                  · exact distinct.1 member
                  · exact old inBuckets
              have all := inductionHypothesis nextPlaced distinct.2 restFresh restBelow ran
              convert all using 1
              ext other
              by_cases single : (bucketAt terms bucketSeed bucketCount bucket).length = 1
              · rw [if_pos single]
                simp only [Set.mem_union, Set.mem_ofPred_eq, List.mem_cons]
                constructor
                · rintro (old | ⟨rfl | member, several⟩)
                  · exact Or.inl old
                  · exact absurd single several
                  · exact Or.inr ⟨member, several⟩
                · rintro (old | ⟨member, several⟩)
                  · exact Or.inl old
                  · exact Or.inr ⟨Or.inr member, several⟩
              · rw [if_neg single]
                simp only [Set.mem_union, Set.mem_ofPred_eq, Set.mem_insert_iff, List.mem_cons]
                constructor
                · rintro (old | ⟨rfl | member, several⟩)
                  · exact Or.inl (Or.inr old)
                  · exact Or.inl (Or.inl rfl)
                  · exact Or.inr ⟨member, several⟩
                · rintro ((rfl | old) | ⟨member, several⟩)
                  · exact Or.inr ⟨Or.inl rfl, single⟩
                  · exact Or.inl old
                  · exact Or.inr ⟨Or.inr member, several⟩

/-- Buckets with their numbers. -/
def Numbered (terms : List TermMphfBuildTerm) (bucketSeed : UInt64) (bucketCount : Nat)
    (pairs : List (List (Fin terms.length) × Nat)) : Prop :=
  (pairs.map Prod.snd).Nodup ∧ ∀ pair ∈ pairs,
    pair.1 = bucketAt terms bucketSeed bucketCount pair.2 ∧ pair.2 < bucketCount

theorem placeSingles_placed {pairs : List (List (Fin terms.length) × Nat)} {free : List Nat}
    {after : TermMphfState} (numbered : Numbered terms bucketSeed bucketCount pairs)
    (placed : Placed terms bucketSeed slotSeed bucketCount slotCount state buckets)
    (fresh : ∀ pair ∈ pairs, pair.1.length = 1 → pair.2 ∉ buckets) (distinct : free.Nodup)
    (unused : ∀ slot ∈ free, state.toSlotTable.Free slot)
    (ran : placeSingles terms pairs free state = .ok (some after)) :
    Placed terms bucketSeed slotSeed bucketCount slotCount after
      (buckets ∪ {bucket | bucket ∈ pairs.map Prod.snd ∧
        (bucketAt terms bucketSeed bucketCount bucket).length = 1}) := by
  induction pairs generalizing state buckets free with
  | nil =>
      obtain rfl := Option.some.inj (Except.ok.inj ran)
      simpa using placed
  | cons pair rest inductionHypothesis =>
      obtain ⟨bucketTerms, bucket⟩ := pair
      have restNumbered : Numbered terms bucketSeed bucketCount rest :=
        ⟨(List.nodup_cons.mp numbered.1).2,
          fun pair member => numbered.2 pair (List.mem_cons_of_mem _ member)⟩
      have apart : bucket ∉ rest.map Prod.snd := (List.nodup_cons.mp numbered.1).1
      obtain ⟨termsEq, below⟩ := numbered.2 (bucketTerms, bucket) List.mem_cons_self
      dsimp only at termsEq below
      have restFresh : ∀ pair ∈ rest, pair.1.length = 1 → pair.2 ∉ buckets :=
        fun pair member => fresh pair (List.mem_cons_of_mem _ member)
      by_cases single : bucketTerms.length = 1
      · obtain ⟨index, rfl⟩ := List.length_eq_one_iff.mp single
        cases free with
        | nil => cases ran
        | cons slot free =>
            rw [placeSingles] at ran
            split at ran
            · cases ran
            · cases assigned : state.toSlotTable.assign index slot with
              | error fault =>
                  rw [assigned] at ran
                  cases ran
              | ok table =>
                  rw [assigned] at ran
                  rw [List.nodup_cons] at distinct
                  have under : slotUnder slotSeed slotCount (terms.get index).term (-(slot : Int) - 1) =
                      slot := by
                    rw [slotUnder, if_pos (by omega)]
                    omega
                  have pairs : bucketSlots terms bucketSeed slotSeed bucketCount slotCount bucket
                      (-(slot : Int) - 1) = [(index.val, slot)] := by
                    rw [bucketSlots, ← termsEq, List.map_singleton, under]
                  have next := Placed.fill placed
                    (fresh ([index], bucket) List.mem_cons_self single) below
                    (by rw [pairs]; exact List.nodup_singleton _)
                    (by
                      rw [pairs]
                      intro pair member
                      rw [List.mem_singleton.mp member]
                      exact unused slot List.mem_cons_self)
                    (by
                      rw [pairs, SlotTable.assignAll, assigned]
                      rfl)
                  have nextFresh : ∀ pair ∈ rest, pair.1.length = 1 →
                      pair.2 ∉ insert bucket buckets := by
                    rintro pair member one (same | old)
                    · exact apart (same ▸ List.mem_map.mpr ⟨pair, member, rfl⟩)
                    · exact restFresh pair member one old
                  have nextUnused : ∀ other ∈ free, SlotTable.Free table other := by
                    intro other member
                    refine SlotTable.Free.assign (unused other (List.mem_cons_of_mem _ member)) ?_
                      assigned
                    rintro rfl
                    exact distinct.1 member
                  have all := inductionHypothesis restNumbered next nextFresh distinct.2 nextUnused
                    ran
                  convert all using 1
                  ext other
                  simp only [Set.mem_union, Set.mem_ofPred_eq, Set.mem_insert_iff, List.map_cons,
                    List.mem_cons]
                  rw [termsEq] at single
                  constructor
                  · rintro (old | ⟨rfl | member, one⟩)
                    · exact Or.inl (Or.inr old)
                    · exact Or.inl (Or.inl rfl)
                    · exact Or.inr ⟨member, one⟩
                  · rintro ((rfl | old) | ⟨member, one⟩)
                    · exact Or.inr ⟨Or.inl rfl, single⟩
                    · exact Or.inl old
                    · exact Or.inr ⟨Or.inr member, one⟩
      · have skipped : placeSingles terms rest free state = .ok (some after) := by
          rw [placeSingles] at ran
          · exact ran
          · rintro index rfl
            exact single rfl
        have all := inductionHypothesis restNumbered placed restFresh distinct unused skipped
        convert all using 1
        ext other
        simp only [Set.mem_union, Set.mem_ofPred_eq, List.map_cons, List.mem_cons]
        rw [termsEq] at single
        constructor
        · rintro (old | ⟨rfl | member, one⟩)
          · exact Or.inl old
          · exact absurd one single
          · exact Or.inr ⟨member, one⟩
        · rintro (old | ⟨member, one⟩)
          · exact Or.inl old
          · exact Or.inr ⟨Or.inr member, one⟩

theorem placed_none : Placed terms bucketSeed slotSeed bucketCount slotCount
    ⟨⟨List.replicate slotCount (2 ^ 32 - 1), List.replicate slotCount false⟩,
      List.replicate bucketCount (-1)⟩ ∅ := by
  have nothing : termsOf terms bucketSeed bucketCount ∅ = ∅ := by
    ext key
    constructor
    · rintro ⟨_, _, inside⟩
      exact absurd inside (Set.notMem_empty _)
    · exact fun inside => absurd inside (Set.notMem_empty _)
  refine ⟨?_, List.length_replicate, List.length_replicate, List.length_replicate,
    fun _ inside => absurd inside (Set.notMem_empty _)⟩
  rw [nothing]
  exact ⟨fun _ member => absurd member (Set.notMem_empty _),
    fun _ member => absurd member (Set.notMem_empty _)⟩

theorem mem_bucketOrder {bucket : Nat} :
    bucket ∈ bucketOrder terms (fillBuckets terms bucketSeed bucketCount) ↔
      bucket < bucketCount := by
  rw [bucketOrder, (List.perm_insertionSort _ _).mem_iff, List.mem_range, fillBuckets_length]

theorem numbered_fillBuckets :
    Numbered terms bucketSeed bucketCount (fillBuckets terms bucketSeed bucketCount).zipIdx := by
  constructor
  · rw [List.zipIdx_map_snd]
    exact List.nodup_range'
  · rintro ⟨bucketTerms, bucket⟩ member
    have found := List.mem_zipIdx_iff_getElem?.mp member
    have below := (List.getElem?_eq_some_iff.mp found).1
    rw [fillBuckets_length] at below
    rw [fillBuckets_getElem? below] at found
    exact ⟨(Option.some.inj found).symm, below⟩

/-- Every term has a slot that the displacement of its bucket gives back. -/
theorem placeTerms_placed
    (ran : placeTerms terms bucketSeed slotSeed bucketCount slotCount = .ok (some state)) :
    Placed terms bucketSeed slotSeed bucketCount slotCount state
      {bucket | bucket < bucketCount} := by
  unfold placeTerms at ran
  dsimp only at ran
  cases several : placeBuckets terms slotSeed slotCount
      (min (max (max 1 (slotCount / 8)) 65536) (2 ^ 20))
      (fillBuckets terms bucketSeed bucketCount)
      (bucketOrder terms (fillBuckets terms bucketSeed bucketCount))
      ⟨⟨List.replicate slotCount (2 ^ 32 - 1), List.replicate slotCount false⟩,
        List.replicate bucketCount (-1)⟩ with
  | error fault =>
      rw [several] at ran
      cases ran
  | ok outcome =>
      rw [several] at ran
      cases outcome with
      | none => cases ran
      | some middle =>
          have distinct : (bucketOrder terms (fillBuckets terms bucketSeed bucketCount)).Nodup :=
            (List.perm_insertionSort _ _).nodup_iff.mpr List.nodup_range
          have placed := placeBuckets_placed placed_none distinct (fun _ _ inside => inside.elim)
            (fun bucket member => mem_bucketOrder.mp member) several
          rw [Set.empty_union] at placed
          have fresh : ∀ pair ∈ (fillBuckets terms bucketSeed bucketCount).zipIdx,
              pair.1.length = 1 → pair.2 ∉ {bucket |
                bucket ∈ bucketOrder terms (fillBuckets terms bucketSeed bucketCount) ∧
                  (bucketAt terms bucketSeed bucketCount bucket).length ≠ 1} := by
            intro pair member single inside
            rw [(numbered_fillBuckets.2 pair member).1] at single
            exact inside.2 single
          have unused : ∀ slot ∈ freeSlots slotCount middle.used,
              middle.toSlotTable.Free slot := by
            intro slot member
            exact SlotTable.free_of_getD (of_decide_eq_true (List.mem_filter.mp member).2)
          have all := placeSingles_placed numbered_fillBuckets placed fresh
            (List.nodup_range.filter _) unused ran
          convert all using 1
          ext bucket
          rw [List.zipIdx_map_snd]
          simp only [Set.mem_union, Set.mem_ofPred_eq, mem_bucketOrder, List.mem_range',
            fillBuckets_length]
          constructor
          · intro below
            by_cases single : (bucketAt terms bucketSeed bucketCount bucket).length = 1
            · exact Or.inr ⟨⟨bucket, below, by omega⟩, single⟩
            · exact Or.inl ⟨below, single⟩
          · rintro (⟨below, _⟩ | ⟨⟨number, below, rfl⟩, _⟩)
            · exact below
            · omega

/-- Then the slots are a permutation of as many numbers as there are terms. -/
theorem Placed.perm (positive : 0 < bucketCount)
    (placed : Placed terms bucketSeed slotSeed bucketCount slotCount state
      {bucket | bucket < bucketCount}) (few : slotCount ≤ terms.length) :
    slotCount = terms.length ∧ state.slots.Perm (List.range terms.length) := by
  have all : ∀ key < terms.length,
      key ∈ termsOf terms bucketSeed bucketCount {bucket | bucket < bucketCount} :=
    fun key below => ⟨⟨key, below⟩, rfl, bucketOf_lt positive _⟩
  have count : slotCount = terms.length := by
    by_contra differs
    have short : slotCount < terms.length := Nat.lt_of_le_of_ne few differs
    obtain ⟨slot, found, _⟩ := placed.apart.marked slotCount (all slotCount short)
    have inside := (List.getElem?_eq_some_iff.mp found).1
    rw [placed.slotRoom] at inside
    exact Nat.lt_irrefl _ inside
  refine ⟨count, ?_⟩
  have perm := placed.apart.perm (fun key below => all key (by
    rw [placed.slotRoom, count] at below
    exact below)) (placed.usedRoom.trans placed.slotRoom.symm)
  rw [placed.slotRoom, count] at perm
  exact perm

/-! ### The construction does not fault -/

theorem placeBucket_returns {maxDisplacement : Nat} {bucket : Nat}
    {bucketTerms : List (Fin terms.length)} (keys : state.slots.length = terms.length) :
    ∃ outcome, placeBucket terms slotSeed slotCount maxDisplacement state bucket bucketTerms =
      .ok outcome ∧ ∀ after ∈ outcome, SlotTable.SameSize state.toSlotTable after.toSlotTable := by
  unfold placeBucket
  split
  · refine ⟨_, rfl, ?_⟩
    intro after same
    obtain rfl := Option.some.inj same
    exact ⟨rfl, rfl⟩
  · split
    · refine ⟨_, rfl, ?_⟩
      intro after same
      obtain rfl := Option.some.inj same
      exact ⟨rfl, rfl⟩
    · split
      · exact ⟨none, rfl, by simp⟩
      · rename_i displacement slots found
        obtain ⟨_, fitting⟩ := searchDisplacement_some found
        obtain ⟨slotsEq, _, free⟩ := candidateSlots_some fitting List.nodup_nil
        rw [List.nil_append] at slotsEq
        have inside : ∀ pair ∈ (bucketTerms.map Fin.val).zip slots,
            pair.1 < state.slots.length ∧ pair.2 < state.used.length := by
          rintro ⟨key, slot⟩ member
          obtain ⟨keyMember, slotMember⟩ := List.of_mem_zip member
          obtain ⟨index, _, rfl⟩ := List.mem_map.mp keyMember
          rw [slotsEq] at slotMember
          obtain ⟨other, otherMember, rfl⟩ := List.mem_map.mp slotMember
          have unused := SlotTable.free_of_getD (free other otherMember)
          rw [keys]
          exact ⟨index.isLt, (List.getElem?_eq_some_iff.mp unused).1⟩
        obtain ⟨table, assigned, sizes⟩ := SlotTable.assignAll_returns inside
        refine ⟨some ⟨table, state.displacements.set bucket displacement⟩, ?_, ?_⟩
        · rw [assigned]
          rfl
        · intro after same
          obtain rfl := Option.some.inj same
          exact sizes

theorem placeBuckets_returns {maxDisplacement : Nat}
    {buckets : List (List (Fin terms.length))} {order : List Nat}
    (keys : state.slots.length = terms.length) :
    ∃ outcome, placeBuckets terms slotSeed slotCount maxDisplacement buckets order state =
      .ok outcome ∧ ∀ after ∈ outcome, SlotTable.SameSize state.toSlotTable after.toSlotTable := by
  induction order generalizing state with
  | nil =>
      refine ⟨_, rfl, ?_⟩
      intro after same
      obtain rfl := Option.some.inj same
      exact ⟨rfl, rfl⟩
  | cons bucket rest inductionHypothesis =>
      obtain ⟨outcome, step, sizes⟩ :=
        @placeBucket_returns terms slotSeed slotCount state maxDisplacement bucket
          (buckets.getD bucket []) keys
      rw [placeBuckets, step, ok_bind]
      cases outcome with
      | none => exact ⟨none, rfl, by simp⟩
      | some next =>
          have same := sizes next rfl
          obtain ⟨last, ran, lastSizes⟩ := inductionHypothesis (same.1.trans keys)
          refine ⟨last, ran, ?_⟩
          intro after member
          have further := lastSizes after member
          exact ⟨further.1.trans same.1, further.2.trans same.2⟩

theorem placeSingles_returns {pairs : List (List (Fin terms.length) × Nat)} {free : List Nat}
    (keys : state.slots.length = terms.length) (inside : ∀ slot ∈ free, slot < state.used.length) :
    ∃ outcome, placeSingles terms pairs free state = .ok outcome := by
  induction pairs generalizing state free with
  | nil => exact ⟨_, rfl⟩
  | cons pair rest inductionHypothesis =>
      obtain ⟨bucketTerms, bucket⟩ := pair
      by_cases single : bucketTerms.length = 1
      · obtain ⟨index, rfl⟩ := List.length_eq_one_iff.mp single
        cases free with
        | nil => exact ⟨none, rfl⟩
        | cons slot free =>
            rw [placeSingles]
            split
            · exact ⟨none, rfl⟩
            · have keyInside : index.val < state.slots.length := by
                rw [keys]
                exact index.isLt
              have assigned :=
                SlotTable.assign_eq (inside slot List.mem_cons_self) keyInside
              have sizes := SlotTable.assign_sameSize assigned
              rw [assigned, ok_bind]
              apply inductionHypothesis (sizes.1.trans keys)
              intro other member
              show other < (state.used.set slot true).length
              rw [List.length_set]
              exact inside other (List.mem_cons_of_mem _ member)
      · obtain ⟨outcome, ran⟩ := inductionHypothesis keys inside
        refine ⟨outcome, ?_⟩
        rw [placeSingles]
        · exact ran
        · rintro index rfl
          exact single rfl

/-- With a slot for each term nothing is out of bounds. -/
theorem placeTerms_returns :
    ∃ outcome, placeTerms terms bucketSeed slotSeed bucketCount terms.length = .ok outcome := by
  unfold placeTerms
  dsimp only
  let unplaced : TermMphfState :=
    ⟨⟨List.replicate terms.length (2 ^ 32 - 1), List.replicate terms.length false⟩,
      List.replicate bucketCount (-1)⟩
  have keys : unplaced.slots.length = terms.length := List.length_replicate
  have used : unplaced.used.length = terms.length := List.length_replicate
  obtain ⟨outcome, several, sizes⟩ := @placeBuckets_returns terms slotSeed terms.length unplaced
    (min (max (max 1 (terms.length / 8)) 65536) (2 ^ 20))
    (fillBuckets terms bucketSeed bucketCount)
    (bucketOrder terms (fillBuckets terms bucketSeed bucketCount)) keys
  rw [several, ok_bind]
  cases outcome with
  | none => exact ⟨none, rfl⟩
  | some middle =>
      have same := sizes middle rfl
      apply placeSingles_returns (same.1.trans keys)
      intro slot member
      rw [same.2, used]
      exact List.mem_range.mp (List.mem_filter.mp member).1

theorem nextPowerOfTwo_returns {value : UInt32} (small : value.toNat ≤ 2 ^ 31) :
    ∃ power, nextPowerOfTwo value = .ok power := by
  have smear : ∀ (value : UInt32) (bits : UInt32), value.toNat < 2 ^ 31 →
      (value ||| value >>> bits).toNat < 2 ^ 31 := by
    intro value bits below
    rw [UInt32.toNat_or, UInt32.toNat_shiftRight]
    refine Nat.or_lt_two_pow below (Nat.lt_of_le_of_lt ?_ below)
    rw [Nat.shiftRight_eq_div_pow]
    exact Nat.div_le_self _ _
  unfold nextPowerOfTwo
  split
  · exact ⟨1, rfl⟩
  · rename_i large
    have start : (value - 1).toNat < 2 ^ 31 := by
      have least : 1 < value := UInt32.not_le.mp large
      rw [UInt32.toNat_sub_of_le _ _ (UInt32.le_of_lt least)]
      rw [UInt32.lt_iff_toNat_lt] at least
      show value.toNat - 1 < 2 ^ 31
      change 1 < value.toNat at least
      omega
    have bound := smear _ 16 (smear _ 8 (smear _ 4 (smear _ 2 (smear _ 1 start))))
    refine ⟨_, addU32_eq ?_⟩
    show _ + 1 < 2 ^ 32
    omega

end Place

end MoonShot.Serializer
