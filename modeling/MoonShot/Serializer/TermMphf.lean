import MoonShot.Lib.Slots
import MoonShot.Serializer.IndexFile

/-!
The minimal perfect hash over the terms of an index (`TryBuildTermMphf`,
`BuildTermMphf`).

Terms are spread over buckets. A bucket of several terms gets the first displacement
that hashes its terms to free slots, the large buckets first; then a bucket of one
term gets one of the slots left over, kept as a negative displacement. Owns the
construction.

Does not own which terms an index has.
-/

namespace MoonShot.Serializer

open MoonShot.Lib
open MoonShot.Postings
open MoonShot.Format
open MoonShot.Table

structure TermMphfBuildTerm where
  term : Str
  docFreq : UInt32
  indexBlockId : UInt32
  indexOffset : UInt32
  indexLength : UInt32
  continuationBlockCount : UInt32
  flags : UInt32

def TermMphfBuildTerm.location (source : TermMphfBuildTerm) : IndexLocation where
  docFreq := source.docFreq
  indexBlockId := source.indexBlockId
  indexOffset := source.indexOffset.toNat
  indexLength := source.indexLength.toNat
  continuationBlockCount := source.continuationBlockCount

/-- `next_power_of_two` -/
def nextPowerOfTwo (value : UInt32) : Checked UInt32 :=
  if value ≤ 1 then .ok 1
  else
    let value := value - 1
    let value := value ||| value >>> 1
    let value := value ||| value >>> 2
    let value := value ||| value >>> 4
    let value := value ||| value >>> 8
    let value := value ||| value >>> 16
    addU32 value 1

def mphfSlotFor (term : Str) (slotCount : Nat) (slotSeed : UInt64) (displacement : Nat) : Nat :=
  (termMphfHash term.bytes (termMphfSlotSeed slotSeed (UInt32.ofNat displacement))).toNat %
    slotCount

/-- The vectors of the construction. -/
structure TermMphfState extends SlotTable where
  displacements : List Int

section Build

variable (terms : List TermMphfBuildTerm) (bucketSeed slotSeed fingerprintSeed : UInt64)
  (bucketCount slotCount : Nat)

/-- The indices of the terms, sorted by term. -/
def sortedIds : List (Fin terms.length) :=
  (List.finRange terms.length).insertionSort fun left right =>
    (terms.get left).term ≤ (terms.get right).term

/-- Two neighbours in the order of the terms are the same. -/
def hasRepeatedTerm : Bool :=
  ((sortedIds terms).zip (sortedIds terms).tail).any fun pair =>
    (terms.get pair.1).term = (terms.get pair.2).term

def bucketOf (term : Str) : Nat := (termMphfHash term.bytes bucketSeed).toNat % bucketCount

def fillBuckets : List (List (Fin terms.length)) :=
  (List.finRange terms.length).foldl
    (fun buckets index =>
      buckets.modify (bucketOf bucketSeed bucketCount (terms.get index).term) (· ++ [index]))
    (List.replicate bucketCount [])

/-- The large buckets first. -/
def bucketOrder (buckets : List (List (Fin terms.length))) : List Nat :=
  (List.range buckets.length).insertionSort fun left right =>
    (buckets.getD right []).length ≤ (buckets.getD left []).length

/-- The slots of the terms at a displacement, when they are free and no two the same. -/
def candidateSlots (used : List Bool) (displacement : Nat) :
    (taken : List Nat) → List (Fin terms.length) → Option (List Nat)
  | taken, [] => some taken
  | taken, index :: rest =>
      let slot := mphfSlotFor (terms.get index).term slotCount slotSeed displacement
      if used.getD slot true = true ∨ slot ∈ taken then none
      else candidateSlots used displacement (taken ++ [slot]) rest

/-- The first displacement that fits the bucket, and its slots. -/
def searchDisplacement (used : List Bool) (bucketTerms : List (Fin terms.length)) :
    (turns displacement : Nat) → Option (Nat × List Nat)
  | 0, _ => none
  | turns + 1, displacement =>
      match candidateSlots terms slotSeed slotCount used displacement [] bucketTerms with
      | some slots => some (displacement, slots)
      | none => searchDisplacement used bucketTerms turns (displacement + 1)

def placeBucket (maxDisplacement : Nat) (state : TermMphfState) (bucket : Nat)
    (bucketTerms : List (Fin terms.length)) : Checked (Option TermMphfState) :=
  if bucketTerms = [] then
    .ok (some { state with displacements := state.displacements.set bucket 0 })
  else if bucketTerms.length = 1 then .ok (some state)
  else
    match searchDisplacement terms slotSeed slotCount state.used bucketTerms maxDisplacement 0 with
    | none => .ok none
    | some (displacement, slots) => do
        let table ← state.toSlotTable.assignAll ((bucketTerms.map Fin.val).zip slots)
        return some ⟨table, state.displacements.set bucket displacement⟩

def placeBuckets (maxDisplacement : Nat) (buckets : List (List (Fin terms.length))) :
    List Nat → TermMphfState → Checked (Option TermMphfState)
  | [], state => .ok (some state)
  | bucket :: rest, state => do
      match ← placeBucket terms slotSeed slotCount maxDisplacement state bucket
          (buckets.getD bucket []) with
      | none => return none
      | some state => placeBuckets maxDisplacement buckets rest state

def freeSlots (used : List Bool) : List Nat :=
  (List.range slotCount).filter fun slot => used.getD slot true = false

/-- A bucket of one term takes the next free slot. -/
def placeSingles :
    List (List (Fin terms.length) × Nat) → (free : List Nat) → TermMphfState →
      Checked (Option TermMphfState)
  | [], _, state => .ok (some state)
  | (bucketTerms, bucket) :: rest, free, state =>
      match bucketTerms with
      | [index] =>
          match free with
          | [] => .ok none
          | slot :: free =>
              let directDisplacement : Int := -(slot : Int) - 1
              if directDisplacement < -2 ^ 31 then .ok none
              else do
                let table ← state.toSlotTable.assign index slot
                placeSingles rest free
                  ⟨table, state.displacements.set bucket directDisplacement⟩
      | _ => placeSingles rest free state

/-- The part of `TryBuildTermMphf` that gives every term a slot. -/
def placeTerms : Checked (Option TermMphfState) := do
  let maxDisplacement := min (max (max 1 (slotCount / 8)) 65536) (2 ^ 20)
  let buckets := fillBuckets terms bucketSeed bucketCount
  let unplaced : TermMphfState :=
    ⟨⟨List.replicate slotCount (2 ^ 32 - 1), List.replicate slotCount false⟩,
      List.replicate bucketCount (-1)⟩
  match ← placeBuckets terms slotSeed slotCount maxDisplacement buckets
      (bucketOrder terms buckets) unplaced with
  | none => return none
  | some state => placeSingles terms buckets.zipIdx (freeSlots slotCount state.used) state

/-- The fingerprint of a term is never 0. -/
def termFingerprint (term : Str) : UInt64 :=
  let fingerprint := termMphfHash term.bytes fingerprintSeed
  if fingerprint = 0 then 1 else fingerprint

def mphfEntryFields (source : TermMphfBuildTerm) : List Bytes :=
  [u32Bytes source.docFreq, u32Bytes source.indexBlockId, u32Bytes source.indexOffset,
    u32Bytes source.indexLength, u32Bytes source.continuationBlockCount, u32Bytes source.flags,
    u64Bytes (termFingerprint fingerprintSeed source.term)]

def writeMphfEntry (pages : List Page) (slot : Nat) (entry : Bytes) : Checked (List Page) :=
  let byteOffset := slot * termMphfEntrySize
  match pages[byteOffset / pageSize]? with
  | none => .error .outOfBounds
  | some page =>
      .ok (pages.set (byteOffset / pageSize) (page.write (byteOffset % pageSize) entry))

def writeMphfEntries (slots : List Nat) :
    List (TermMphfBuildTerm × Nat) → List Page → Checked (Option (List Page))
  | [], pages => .ok (some pages)
  | (source, index) :: rest, pages =>
      match slots[index]? with
      | none => .error .outOfBounds
      | some slot =>
          if slot = 2 ^ 32 - 1 then .ok none
          else do
            let pages ← writeMphfEntry pages slot (mphfEntryFields fingerprintSeed source).flatten
            writeMphfEntries slots rest pages

end Build

/-- `TryBuildTermMphf` -/
def tryBuildTermMphf (terms : List TermMphfBuildTerm)
    (bucketSeed slotSeed fingerprintSeed : UInt64) :
    Checked (Option (TermMphfHeader × List Int × List Page)) := do
  let termCount := UInt32.ofNat terms.length
  if termCount = 0 then return none
  else
    let bucketCount ← nextPowerOfTwo (max 1 (termCount / 2))
    let slotCount := termCount.toNat
    if hasRepeatedTerm terms then return none
    else
      match ← placeTerms terms bucketSeed slotSeed bucketCount.toNat slotCount with
      | none => return none
      | some state =>
          let pageCount := (slotCount + pageSize / termMphfEntrySize - 1) /
            (pageSize / termMphfEntrySize)
          match ← writeMphfEntries fingerprintSeed state.slots terms.zipIdx
              (List.replicate pageCount Page.zero) with
          | none => return none
          | some pages =>
              let header : TermMphfHeader :=
                { magic := termMphfMagic
                  termCount := termCount.toUInt64
                  bucketCount := bucketCount
                  slotCount := termCount
                  bucketSeed := bucketSeed
                  slotSeed := slotSeed
                  fingerprintSeed := fingerprintSeed }
              return some (header, state.displacements, pages)

/-- The attempts of `BuildTermMphf`, each with seeds of its own. -/
def buildTermMphfFrom (terms : List TermMphfBuildTerm) :
    (turns : Nat) → (attempt : UInt64) → Checked (TermMphfHeader × List Int × List Page)
  | 0, _ => .ok (.default, [], [])
  | turns + 1, attempt => do
      let bucketSeed := 0x9ae16a3b2f90404f + 0x9e3779b97f4a7c15 * attempt
      let slotSeed := 0xc3a5c85c97cb3127 ^^^ (0x9e3779b97f4a7c15 * (attempt + 1))
      let fingerprintSeed := 0xb492b66fbe98f273 + 0x9e3779b97f4a7c15 * (attempt + 3)
      match ← tryBuildTermMphf terms bucketSeed slotSeed fingerprintSeed with
      | some result => return result
      | none => buildTermMphfFrom terms turns (attempt + 1)

/-- `BuildTermMphf` -/
def buildTermMphf (terms : List TermMphfBuildTerm) :
    Checked (TermMphfHeader × List Int × List Page) :=
  if terms = [] then .ok (.default, [], []) else buildTermMphfFrom terms 32 0

def buildTermOf (entry : LeafTermEntry) : TermMphfBuildTerm where
  term := entry.term
  docFreq := entry.docFreq
  indexBlockId := entry.indexBlockId
  indexOffset := entry.indexOffset.toUInt32
  indexLength := entry.indexLength.toUInt32
  continuationBlockCount := entry.continuationBlockCount.toUInt32
  flags := entry.flags.toUInt32

/-- `BuildTermMphfFromLeafBlocks` -/
def buildTermMphfFromLeafBlocks (leafBlocks : List Page) :
    Checked (TermMphfHeader × List Int × List Page) :=
  buildTermMphf (leafBlocks.flatMap fun block => (leafEntries block).map buildTermOf)

end MoonShot.Serializer
