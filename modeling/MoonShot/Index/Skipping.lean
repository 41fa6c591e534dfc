import MoonShot.Index.ReadFailures
import MoonShot.Reader.Skipping

/-!
Skipping against scanning on a built index.

Owns the result for every list that an index holds, however far it has been read, and
the list on which the document of a reader at its end tells the two apart.
-/

namespace MoonShot.Index

open MoonShot.Lib
open MoonShot.Postings
open MoonShot.Format
open MoonShot.Table
open MoonShot.Serializer
open MoonShot.Reader
open MoonShot.Reader.AdvancedIndexReader

/-- Opening any key of a built index stands the reader on a list in document order,
also when the entry does not count all continuation pages of it. -/
theorem openReader_counted {float : FloatOps} {store : PostingStore}
    (addressable : Addressable float store) (key : Str) {numDocuments : UInt64}
    (documents : numDocuments ≠ 0) :
    ∃ reader postings, openReader (buildBlocks float store).table key numDocuments true =
        some reader ∧
      ReaderAt (buildBlocks float store).table.indexBlocks reader postings ∧
      AscendingIds postings := by
  have search := findTermDataHeadLeaf_emitted addressable.leafBlocks key.beforeNul
  cases found : (buildBlocks float store).table.findTermDataHeadLeaf key.beforeNul with
  | none =>
      obtain ⟨reader, opened, stands⟩ :=
        openReader_absent (by rw [findTermData_built, found]) numDocuments true
      exact ⟨reader, [], opened, stands, List.Pairwise.nil⟩
  | some location =>
      rw [found] at search
      obtain ⟨item, rfl, _, _, _, placed⟩ := search
      obtain ⟨first, chunks, postings, _, _, stored⟩ :=
        Emitted.listStored_counted placed addressable.indexBlocks
      obtain ⟨reader, opened, stands⟩ :=
        openReader_stored (by rw [findTermData_built, found]) stored documents
      refine ⟨reader, _, opened, stands, ?_⟩
      have ascending := item.list.postings_ascending float
      rw [postings] at ascending
      exact ascending.sublist ((List.take_sublist _ _).flatten.append_left first)

/-- From every position of every list of an index, `GoUntil` leaves a reader that shows
the same as the scan by `GoNext`, now and after the same later calls. -/
theorem goUntil_scans (float : FloatOps) (store : PostingStore)
    (addressable : Addressable float store) (key : Str) {numDocuments : UInt64}
    (documents : numDocuments ≠ 0) :
    ∃ reader, openReader (buildBlocks float store).table key numDocuments true = some reader ∧
      ∀ (moves : List Move) (target : UInt64),
        let blocks := (buildBlocks float store).table.indexBlocks
        let position := runMoves blocks moves reader
        ∃ turns, ¬ Below target (scanUntil blocks target turns position) ∧
          ∀ later, (runMoves blocks later (goUntil blocks position target)).shown =
            (runMoves blocks later (scanUntil blocks target turns position)).shown := by
  obtain ⟨reader, postings, opened, stands, ascending⟩ :=
    openReader_counted addressable key documents
  refine ⟨reader, opened, ?_⟩
  intro moves target blocks position
  obtain ⟨here, order⟩ := stands.runMoves ascending moves
  obtain ⟨scanned, stopped⟩ := scanUntil_spec here (Nat.le_refl _)
  refine ⟨_, stopped, ?_⟩
  intro later
  exact (goUntil_spec here order target).same_shown scanned
    (ascending_pass order (.goUntil target)) later

/-- A list of 4096 documents, which takes more than one block. -/
theorem goUntil_scans_twoBlocks :
    ∃ reader, openReader (buildBlocks default (oneList 4096 (by decide))).table shortTerm 1 true =
        some reader ∧
      ∀ (moves : List Move) (target : UInt64),
        let blocks := (buildBlocks default (oneList 4096 (by decide))).table.indexBlocks
        let position := runMoves blocks moves reader
        ∃ turns, ¬ Below target (scanUntil blocks target turns position) ∧
          ∀ later, (runMoves blocks later (goUntil blocks position target)).shown =
            (runMoves blocks later (scanUntil blocks target turns position)).shown :=
  goUntil_scans default (oneList 4096 (by decide)) (oneList_addressable (by decide)) shortTerm
    (by decide)

section OneList

variable {float : FloatOps} {count : Nat} {fits : count ≤ 2 ^ 64}

/-- On a list of more than a page a reader that skips to its end and one that scans to
its end return different documents. -/
theorem oneList_end_differs (small : count < 2 ^ 16) (long : pageSize ≤ count) :
    ∃ reader, openReader (buildBlocks float (oneList count fits)).table shortTerm 1 true =
        some reader ∧
      ∃ turns, ¬ Below (UInt64.ofNat count) (scanUntil
          (buildBlocks float (oneList count fits)).table.indexBlocks (UInt64.ofNat count) turns
          reader) ∧
        (goUntil (buildBlocks float (oneList count fits)).table.indexBlocks reader
          (UInt64.ofNat count)).getDocumentId ≠
        (scanUntil (buildBlocks float (oneList count fits)).table.indexBlocks
          (UInt64.ofNat count) turns reader).getDocumentId := by
  have sizes : pageSize = 4096 := rfl
  rw [sizes] at long
  have short : shortTerm.len ≤ headTermKeyMax := by decide
  have nulFree : shortTerm.beforeNul = shortTerm := by decide
  have counted : ContinuationsFit float (oneList count fits) shortTerm.beforeNul := by
    rw [nulFree]
    exact oneList_continuations small (by omega)
  obtain ⟨reader, opened, stands⟩ :=
    @openReader_built float (oneList count fits) (oneList_addressable small) shortTerm counted 1
      (by decide)
  have list : keptPostings float (oneList count fits) shortTerm =
      (firstDocuments count fits).postings float := by
    rw [keptPostings, if_pos short, oneList_found]
  have ascending := @keptPostings_ascending float (oneList count fits) shortTerm
  rw [nulFree] at stands
  rw [list] at stands ascending
  have beyond : ∀ posting ∈ (firstDocuments count fits).postings float,
      posting.docId < UInt64.ofNat count := by
    intro posting member
    obtain ⟨entry, inside, rfl⟩ := List.mem_map.mp member
    obtain ⟨docId, below, rfl⟩ := List.mem_map.mp inside
    have bound := List.mem_range.mp below
    rw [UInt64.lt_iff_toNat_lt]
    show (UInt64.ofNat docId).toNat < (UInt64.ofNat count).toNat
    rw [UInt64.toNat_ofNat', UInt64.toNat_ofNat', Nat.mod_eq_of_lt (by omega),
      Nat.mod_eq_of_lt (by omega)]
    exact bound
  have bytes : pageSize < (encodePostings ((firstDocuments count fits).postings
      float).tail).length := by
    have least := encodePostings_length_ge ((firstDocuments count fits).postings float).tail
    rw [List.length_tail, PostingList.postings_length, oneList_length] at least
    omega
  exact ⟨reader, opened, _, (scanUntil_spec stands (Nat.le_refl _)).2,
    skip_differs stands ascending bytes beyond⟩

end OneList

/-- On the list of the documents 0 to 4095 both calls end behind the list, with
different documents. -/
theorem end_documents_differ :
    ∃ reader, openReader (buildBlocks default (oneList 4096 (by decide))).table shortTerm 1 true =
        some reader ∧
      ∃ turns, ¬ Below 4096 (scanUntil
          (buildBlocks default (oneList 4096 (by decide))).table.indexBlocks 4096 turns reader) ∧
        (goUntil (buildBlocks default (oneList 4096 (by decide))).table.indexBlocks reader
          4096).getDocumentId ≠
        (scanUntil (buildBlocks default (oneList 4096 (by decide))).table.indexBlocks 4096 turns
          reader).getDocumentId :=
  @oneList_end_differs default 4096 (by decide) (by decide) (by decide)

end MoonShot.Index
