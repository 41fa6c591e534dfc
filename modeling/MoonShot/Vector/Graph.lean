import MoonShot.Lib.Heap
import MoonShot.Lib.Stops
import MoonShot.Context.IndexData

/-!
The vector graph (`FreshDiskAnnVectorIndex`).

Owns the graph as the source keeps it, nodes with their links in one flat array, and its
operations: insertion with its searches and its rewiring, and the search for a query.

Scores are values with the comparisons of floats; a sort is given the comparison of the
source and stops when that is no order. A loop with no turns left stops, and a read outside
the arrays gives a default; that neither happens is shown elsewhere.

Does not own how a score is computed.
-/

namespace MoonShot.Vector

open MoonShot.Lib

/-- `<` and `==` of floats. `<` is irreflexive and transitive also with NaN. -/
class FloatCompare (S : Type) where
  less : S → S → Bool
  equal : S → S → Bool
  less_irrefl : ∀ score, less score score = false
  less_trans : ∀ first second third, less first second = true → less second third = true →
    less first third = true

open FloatCompare

section Scores

variable {S : Type} [FloatCompare S]

/-- `CompareScoreThenDocId` -/
def compareScoreThenDocId (leftScore : S) (leftId : Nat) (rightScore : S) (rightId : Nat) :
    Ordering :=
  if equal leftScore rightScore = false then
    if less rightScore leftScore then .lt else .gt
  else compare leftId rightId

/-- `ScoredNode` -/
structure ScoredNode (S : Type) where
  score : S
  nodeId : Nat
deriving DecidableEq, Repr

/-- `CompareScoreThenDocId(a.0, a.1, b.0, b.1)` -/
def compareNodes (left right : ScoredNode S) : Ordering :=
  compareScoreThenDocId left.score left.nodeId right.score right.nodeId

/-- `VectorSearchResult` -/
structure VectorSearchResult (S : Type) where
  docId : UInt64
  score : S
deriving DecidableEq, Repr

/-- The comparison of `Search`. -/
def compareResults (left right : VectorSearchResult S) : Ordering :=
  compareScoreThenDocId left.score left.docId.toUInt32.toNat right.score right.docId.toUInt32.toNat

end Scores

/-- `u32::MAX`: an empty link slot, and the entry point of an empty graph. -/
def noNode : Nat := 0xFFFFFFFF

/-- `Node` -/
structure Node where
  level : Nat
  linkOffset : Nat
deriving DecidableEq, Repr

/-- The fields that the graph operations use. -/
structure FreshDiskAnnVectorIndex where
  maxNeighbors : Nat
  efConstruction : Nat
  nodes : List Node
  docIds : List UInt32
  links : List Nat
  linkCounts : List Nat
  entryPoint : Nat
  maxLevel : Nat
deriving DecidableEq, Repr

/-- The heaps of `SearchLayer`: `candidates`, and `results` under `Reverse`. -/
structure Heaps (S : Type) where
  candidates : Heap (ScoredNode S)
  results : Heap (ScoredNode S)

namespace FreshDiskAnnVectorIndex

/-- `new` -/
def new (maxNeighbors efConstruction : Nat) : FreshDiskAnnVectorIndex :=
  { maxNeighbors := max 2 (min maxNeighbors 255)
    efConstruction := max efConstruction (max 2 (min maxNeighbors 255))
    nodes := []
    docIds := []
    links := []
    linkCounts := []
    entryPoint := noNode
    maxLevel := 0 }

variable (index : FreshDiskAnnVectorIndex)

/-! ## Nodes and links -/

def nodeAt (nodeId : Nat) : Node := index.nodes.getD nodeId ⟨0, 0⟩

/-- `NodeLevel` -/
def nodeLevel (nodeId : Nat) : Nat := (index.nodeAt nodeId).level

/-- `HasLevel` -/
def hasLevel (nodeId level : Nat) : Bool := decide (level ≤ index.nodeLevel nodeId)

/-- `LinkOffset` -/
def linkOffset (nodeId level : Nat) : Nat :=
  (index.nodeAt nodeId).linkOffset + level * index.maxNeighbors

/-- `LinkCountIndex` -/
def linkCountIndex (nodeId level : Nat) : Nat :=
  (index.nodeAt nodeId).linkOffset / index.maxNeighbors + level

/-- `self.m_Links[offset..offset + count]` -/
def linksAt (offset count : Nat) : List Nat := (index.links.drop offset).take count

/-- `Neighbors` -/
def neighbors (nodeId level : Nat) : List Nat :=
  if index.hasLevel nodeId level then
    index.linksAt (index.linkOffset nodeId level)
      (index.linkCounts.getD (index.linkCountIndex nodeId level) 0)
  else []

/-- `list[offset..offset + values.len()].copy_from_slice(values)` -/
def writeAt (list : List Nat) (offset : Nat) (values : List Nat) : List Nat :=
  list.take offset ++ values ++ list.drop (offset + values.length)

/-- `SetNeighbors` -/
def setNeighbors (nodeId level : Nat) (neighbors : List Nat) : FreshDiskAnnVectorIndex :=
  if index.hasLevel nodeId level then
    let offset := index.linkOffset nodeId level
    let count := min neighbors.length index.maxNeighbors
    { index with
      links := writeAt (writeAt index.links offset (List.replicate index.maxNeighbors noNode))
        offset (neighbors.take count)
      linkCounts := index.linkCounts.set (index.linkCountIndex nodeId level) count }
  else index

/-- `AllocateLinks`: the graph with the new slots, and the offset of the node. -/
def allocateLinks (level : Nat) : Option (FreshDiskAnnVectorIndex × Node) :=
  let layerCount := level + 1
  let slotCount := layerCount * index.maxNeighbors
  if slotCount > 0xFFFFFFFF ∨ index.links.length > 0xFFFFFFFF - slotCount then none
  else
    some ({ index with
        links := index.links ++ List.replicate slotCount noNode
        linkCounts := index.linkCounts ++ List.replicate layerCount 0 },
      ⟨level, index.links.length⟩)

section Searches

variable {S : Type} [FloatCompare S] (heaps : Heaps S)

/-! ## Searches in one layer -/

/-- The loop over the neighbours in `GreedySearchLayer`, with whether the best node changed. -/
def improve (score : Nat → S) (best : Nat × Bool) (neighbor : Nat) : Nat × Bool :=
  if less (score best.1) (score neighbor) then (neighbor, true) else best

/-- The outer loop of `GreedySearchLayer`. -/
def greedyLoop (level : Nat) (score : Nat → S) : (turns : Nat) → (best : Nat) → Checked Nat
  | 0, _ => .error .unfinished
  | turns + 1, best =>
      let next := (index.neighbors best level).foldl (improve score) (best, false)
      if next.2 then greedyLoop level score turns next.1 else .ok next.1

/-- `GreedySearchLayer` -/
def greedySearchLayer (entry level : Nat) (score : Nat → S) : Checked Nat :=
  index.greedyLoop level score (index.nodes.length + 1) entry

/-- The variables of `SearchLayer`. -/
structure LayerState where
  candidates : heaps.candidates.Carrier
  results : heaps.results.Carrier
  visited : List Nat

variable {heaps}

/-- The loop over the neighbours in `SearchLayer`. -/
def offerNeighbor (ef : Nat) (score : Nat → S) (state : LayerState heaps) (neighbor : Nat) :
    LayerState heaps :=
  if neighbor ∈ state.visited then state
  else
    let visited := neighbor :: state.visited
    let scored : ScoredNode S := ⟨score neighbor, neighbor⟩
    let better : Bool :=
      match heaps.results.peek state.results with
      | some entry => less entry.score scored.score
      | none => true
    if (heaps.results.items state.results).length < ef ∨ better = true then
      let results := heaps.results.push state.results scored
      { candidates := heaps.candidates.push state.candidates scored
        results :=
          if (heaps.results.items results).length > ef then heaps.results.pop results else results
        visited := visited }
    else { state with visited := visited }

/-- The loop over the candidates in `SearchLayer`. -/
def searchLoop (ef level : Nat) (score : Nat → S) :
    (turns : Nat) → LayerState heaps → Checked (LayerState heaps)
  | 0, _ => .error .unfinished
  | turns + 1, state =>
      match heaps.candidates.peek state.candidates with
      | none => .ok state
      | some current =>
          let state : LayerState heaps :=
            { state with candidates := heaps.candidates.pop state.candidates }
          let worse : Bool :=
            match heaps.results.peek state.results with
            | some entry => less current.score entry.score
            | none => false
          if worse then .ok state
          else
            searchLoop ef level score turns
              ((index.neighbors current.nodeId level).foldl (offerNeighbor ef score) state)

/-- The state in which the loop over the candidates starts. -/
def startState (entry : Nat) (score : Nat → S) : LayerState heaps :=
  { candidates := heaps.candidates.push heaps.candidates.empty ⟨score entry, entry⟩
    results := heaps.results.push heaps.results.empty ⟨score entry, entry⟩
    visited := [entry] }

variable (heaps)

/-- `SearchLayer` -/
def searchLayer (entry ef level : Nat) (score : Nat → S) : Checked (List (ScoredNode S)) := do
  let state : LayerState heaps ←
    index.searchLoop ef level score (index.nodes.length + 1) (startState entry score)
  sortBy compareNodes (heaps.results.items state.results)

/-- `SelectNeighbors` -/
def selectNeighbors (candidates : List (ScoredNode S)) (maxNeighbors : Nat) :
    Checked (List Nat) := do
  let sorted ← sortBy compareNodes candidates
  pure ((sorted.take maxNeighbors).map ScoredNode.nodeId)

/-! ## Insertion -/

/-- `ScoreDoc`, with the cosine of two documents. -/
def scoreDoc (cosine : UInt32 → UInt32 → S) (queryNodeId nodeId : Nat) : S :=
  cosine (index.docIds.getD queryNodeId 0) (index.docIds.getD nodeId 0)

variable (cosine : UInt32 → UInt32 → S)

/-- `SortLayerByScore` -/
def sortLayerByScore (nodeId level : Nat) : Checked FreshDiskAnnVectorIndex := do
  let offset := index.linkOffset nodeId level
  let count := index.linkCounts.getD (index.linkCountIndex nodeId level) 0
  let links ← sortBy
    (fun left right => compareScoreThenDocId (index.scoreDoc cosine nodeId left) left
      (index.scoreDoc cosine nodeId right) right)
    (index.linksAt offset count)
  pure { index with links := writeAt index.links offset links }

/-- One turn of the search for the worst neighbour in `LinkBack`. -/
def worseNeighbor (nodeId offset : Nat) (worst : Nat × S) (position : Nat) : Nat × S :=
  let candidate := index.links.getD (offset + position) noNode
  let score := index.scoreDoc cosine nodeId candidate
  if less score worst.2 ∨
      (equal score worst.2 ∧ candidate > index.links.getD (offset + worst.1) noNode) then
    (position, score)
  else worst

/-- `LinkBack` -/
def linkBack (nodeId neighbor level : Nat) : Checked FreshDiskAnnVectorIndex :=
  if index.hasLevel nodeId level then
    let offset := index.linkOffset nodeId level
    let countIndex := index.linkCountIndex nodeId level
    let count := index.linkCounts.getD countIndex 0
    if neighbor ∈ index.linksAt offset count then .ok index
    else if count < index.maxNeighbors then
      .ok { index with
        links := index.links.set (offset + count) neighbor
        linkCounts := index.linkCounts.set countIndex (count + 1) }
    else
      let neighborScore := index.scoreDoc cosine nodeId neighbor
      let worst := (List.range' 1 (count - 1)).foldl (index.worseNeighbor cosine nodeId offset)
        (0, index.scoreDoc cosine nodeId (index.links.getD offset noNode))
      if less worst.2 neighborScore ∨
          (equal neighborScore worst.2 ∧
            neighbor < index.links.getD (offset + worst.1) noNode) then
        sortLayerByScore { index with links := index.links.set (offset + worst.1) neighbor } cosine
          nodeId level
      else .ok index
  else .ok index

/-- One turn of the loop over the layers in `AddNode`: the graph, and where the next search
starts. -/
def linkLayer (newNode : Nat) (state : FreshDiskAnnVectorIndex × Nat) (level : Nat) :
    Checked (FreshDiskAnnVectorIndex × Nat) := do
  let index := state.1
  let candidates ← index.searchLayer heaps state.2 index.efConstruction level
    (index.scoreDoc cosine newNode)
  let selected ← selectNeighbors candidates index.maxNeighbors
  let index ← selected.foldlM
    (fun (index : FreshDiskAnnVectorIndex) neighbor => index.linkBack cosine neighbor newNode level)
    (index.setNeighbors newNode level selected)
  pure (index, (candidates.head?.map ScoredNode.nodeId).getD state.2)

/-- The levels from `high` down to `low`. -/
def levelsDown (high low : Nat) : List Nat := (List.range' low (high + 1 - low)).reverse

/-- `AddNode` behind the allocation, for a graph that has nodes. -/
def connect (newNode : Nat) : Checked FreshDiskAnnVectorIndex := do
  let level := index.nodeLevel newNode
  let entry ← (levelsDown index.maxLevel (level + 1)).foldlM
    (fun entry level => index.greedySearchLayer entry level (index.scoreDoc cosine newNode))
    index.entryPoint
  let linked ← (levelsDown (min index.maxLevel level) 0).foldlM (linkLayer heaps cosine newNode)
    (index, entry)
  let index := linked.1
  if level > index.maxLevel then pure { index with entryPoint := newNode, maxLevel := level }
  else pure index

/-- `Add`: `AddNode`, with whether the document was added. -/
def add (docId : UInt64) : Checked (FreshDiskAnnVectorIndex × Bool) :=
  if docId.toNat > 0xFFFFFFFF ∨ index.nodes.length ≥ 0xFFFFFFFF then .ok (index, false)
  else
    match index.allocateLinks (Context.VectorIndex.randomLevel docId) with
    | none => .ok (index, false)
    | some (allocated, node) => do
        let newNode := index.nodes.length
        let grown := { allocated with
          docIds := allocated.docIds ++ [docId.toUInt32]
          nodes := allocated.nodes ++ [node] }
        if grown.entryPoint = noNode then
          pure ({ grown with entryPoint := newNode, maxLevel := grown.nodeLevel newNode }, true)
        else do
          let connected ← grown.connect heaps cosine newNode
          pure (connected, true)

/-- `Add` of one document after the other. -/
def addAll (docIds : List UInt64) : Checked FreshDiskAnnVectorIndex :=
  docIds.foldlM
    (fun (index : FreshDiskAnnVectorIndex) docId => (index.add heaps cosine docId).map Prod.fst) index

/-! ## Search -/

/-- A query: how many components it has, and its score with a document. -/
structure Query (S : Type) where
  dimension : Nat
  score : UInt32 → S

/-- `ScoreQuery` -/
def scoreQuery (query : Query S) (nodeId : Nat) : S := query.score (index.docIds.getD nodeId 0)

/-- The nodes that are not among the candidates, when all are wanted. -/
def withUnseen (query : Query S) (topK : Nat) (candidates : List (ScoredNode S)) :
    List (ScoredNode S) :=
  if topK = 0 ∧ candidates.length < index.nodes.length then
    candidates ++
      ((List.range index.nodes.length).filter fun nodeId =>
        !(candidates.map ScoredNode.nodeId).contains nodeId).map
          fun nodeId => ⟨index.scoreQuery query nodeId, nodeId⟩
  else candidates

/-- `Search` -/
def search (query : Query S) (topK efSearch : Nat) : Checked (List (VectorSearchResult S)) :=
  if query.dimension ≠ Postings.docVectorDim ∨ index.nodes = [] then .ok []
  else do
    let entry ← (levelsDown index.maxLevel 1).foldlM
      (fun entry level => index.greedySearchLayer entry level (index.scoreQuery query))
      index.entryPoint
    let wanted := if topK = 0 then index.nodes.length else topK
    let candidates ← index.searchLayer heaps entry (max efSearch wanted) 0 (index.scoreQuery query)
    let results := (index.withUnseen query topK candidates).map fun candidate =>
      (⟨(index.docIds.getD candidate.nodeId 0).toUInt64, index.scoreQuery query candidate.nodeId⟩ :
        VectorSearchResult S)
    let results ← sortBy compareResults results
    pure (if topK > 0 ∧ results.length > topK then results.take topK else results)

end Searches

end FreshDiskAnnVectorIndex

end MoonShot.Vector
