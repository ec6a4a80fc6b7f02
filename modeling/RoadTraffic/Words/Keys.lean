import RoadTraffic.Keys.Codec
import RoadTraffic.Words.Stream

/-!
# Key lists in machine words

Packing and unpacking of key lists with every count, index and difference in a word. What is told of
a list that is refused is the same as elsewhere; on top of that, the machine may stop. Only memory
is taken for granted.

* `Keys.decodeInWords`: unpacks a key list under a limit.
* `Keys.encodeInWords`: packs a key list.
-/

namespace RoadTraffic

/-! ## Unpacking -/

namespace BitCursor

/-- Reads the roads of `count` runs, as `Keys.readFeatureIds` does. That a road fits in 32 bits is
found out by `Word.resize?`. -/
def readFeatureIds (previous : Option UInt32) (done : List UInt32) :
    (count : Nat) → BitCursor → Checked (Except KeysError (List UInt32 × BitCursor))
  | 0, cursor => return .ok (done.reverse, cursor)
  | count + 1, cursor => do
    match ← cursor.readGamma with
    | (.error e, _) => return .error (.bitStream e)
    | (.ok code, cursor) =>
      let step ← Word.sub code 1
      let last := (previous.getD 0).toBitVec.setWidth 64
      match (Word.add? last step.1).bind (Word.resize? 32) with
      | none => return .error .featureIdOverflow
      | some id =>
        let featureId := UInt32.ofBitVec id
        if previous.isSome && step.1 == 0 then return .error (.repeatedFeature featureId)
        else readFeatureIds (some featureId) (featureId :: done) count cursor

/-- Reads the last point numbers of the runs of the given roads, as `Keys.readLastIndexes` does. -/
def readLastIndexes (done : List (UInt32 × UInt16)) :
    List UInt32 → BitCursor → Checked (Except KeysError (List (UInt32 × UInt16) × BitCursor))
  | [], cursor => return .ok (done.reverse, cursor)
  | featureId :: featureIds, cursor => do
    match ← cursor.readGamma with
    | (.error e, _) => return .error (.bitStream e)
    | (.ok code, cursor) =>
      let count ← Word.sub code 1
      match (Word.sub? count.1 1).bind (Word.resize? 16) with
      | none => return .error (.invalidSegmentCount featureId count.1.toNat)
      | some last => readLastIndexes ((featureId, UInt16.ofBitVec last) :: done) featureIds cursor

/-- Reads the one-way bits of the runs whose other facts are known, as `Keys.readOneWay` does. -/
def readOneWay (done : List Run) :
    List (UInt32 × UInt16) → BitCursor → Checked (Except KeysError (List Run × BitCursor))
  | [], cursor => return .ok (done.reverse, cursor)
  | (featureId, lastIndex) :: runs, cursor => do
    match ← cursor.readBit with
    | (.error e, _) => return .error (.bitStream e)
    | (.ok oneWay, cursor) => readOneWay (⟨featureId, lastIndex, oneWay⟩ :: done) runs cursor

/-- Reads `count` runs, which take up the whole of the bits ahead of the `cursor`. -/
def readRuns (count : Nat) (cursor : BitCursor) : Checked (Except KeysError (List Run)) := do
  match ← readFeatureIds none [] count cursor with
  | .error e => return .error e
  | .ok (featureIds, cursor) =>
    match ← readLastIndexes [] featureIds cursor with
    | .error e => return .error e
    | .ok (lastIndexes, cursor) =>
      match ← readOneWay [] lastIndexes cursor with
      | .error e => return .error e
      | .ok (runs, cursor) =>
        match ← cursor.finish with
        | .error e => return .error (.bitStream e)
        | .ok () => return .ok runs

end BitCursor

namespace Keys

/-- The number of directions in which a road is travelled, `Run.directionsOf` as a word. -/
def directionCount (oneWay : Bool) : Word := if oneWay then 1 else 2

/-- The number of keys of a `run`, `Run.size` as a word. -/
def sizeInWords (run : Run) : Checked Word := do
  let points ← Word.add (run.lastIndex.toBitVec.setWidth 64) 1
  let keys ← Word.mul points.1 (directionCount run.oneWay)
  return keys.1

/-- Adds the keys of runs to `sum`; what does not fit counts as the largest word. -/
def countFrom (sum : Word) : List Run → Checked Word
  | [] => return sum
  | run :: runs => do
    let keys ← sizeInWords run
    countFrom (Word.addCapped sum keys) runs

/-- The runs of a packed key list, as `Keys.decodeRuns` tells them. -/
def decodeRunsInWords : Bytes → Checked (Except KeysError (List Run))
  | [] => return .error .empty
  | found :: body =>
    if found.toNat ≠ version then return .error (.unsupportedVersion found.toNat)
    else
      match Varint.decode body with
      | .error e => return .error (.runCount e)
      | .ok (runs, rest) => do
        let count ← Word.ofNat runs
        let length ← Word.length rest
        let bits ← Word.mul length.1 8
        if bits.1.toNat < (Word.mulCapped count.1 3).toNat then
          return .error (.implausibleRunCount count.1.toNat bits.1.toNat)
        else BitCursor.readRuns count.1.toNat (.new rest)

/-- Unpacks a key list of at most `limit` keys, as `Keys.decodeWithLimit` does. -/
def decodeInWords (bytes : Bytes) (limit : Word) : Checked (Except KeysError (List SegmentId)) := do
  match ← decodeRunsInWords bytes with
  | .error e => return .error e
  | .ok runs =>
    let count ← countFrom 0 runs
    if count.toNat ≤ limit.toNat then return .ok (runs.flatMap Run.keys)
    else return .error (.tooManyKeys count.toNat limit.toNat)

end Keys

/-! ## Packing -/

/-- A run whose segments are counted in a word. -/
structure CountedRun where
  featureId : UInt32
  segmentCount : Word
  oneWay : Bool

namespace CountedRun

/-- Whether keys are those of a road from the key at `index` on, with so many `directions` to each
point. -/
def areInOrder (directions index : Word) : List SegmentId → Checked Bool
  | [] => return true
  | key :: keys => do
    let point ← Word.div index directions
    let side ← Word.mod index directions
    if key.pointIndex.toBitVec.setWidth 64 = point.1 ∧
        (key.direction = .backward ↔ side.1 = 1) then
      let next ← Word.add index 1
      areInOrder directions next.1 keys
    else return false

/-- The run that consists of the given `keys`, all of road `featureId`, as `Run.ofKeys` tells it. -/
def ofKeys (featureId : UInt32) (keys : List SegmentId) :
    Checked (Except KeysError CountedRun) := do
  let oneWay := keys.all (·.direction == .forward)
  let directions := Keys.directionCount oneWay
  let length ← Word.length keys
  let left ← Word.mod length.1 directions
  if left.1 ≠ 0 then
    return .error (.inconsistentRun featureId length.1.toNat directions.toNat)
  else
    let inOrder ← areInOrder directions 0 keys
    if inOrder then
      let segmentCount ← Word.div length.1 directions
      return .ok ⟨featureId, segmentCount.1, oneWay⟩
    else return .error (.nonCanonicalRun featureId)

/-- Collects runs block by block, as `Keys.runsFrom` does: the blocks from index `start` on, behind
the runs in `done`, last one first. -/
def collect (start : Word) (done : List CountedRun) :
    List (List SegmentId) → Checked (Except KeysError (List CountedRun))
  | [] => return .ok done.reverse
  | block :: blocks => do
    let first ← Word.item block 0
    if done.head?.any (·.featureId ≥ first.featureId) then return .error (.unsorted start.toNat)
    else
      match ← ofKeys first.featureId block with
      | .error e => return .error e
      | .ok run =>
        let length ← Word.length block
        let next ← Word.add start length.1
        collect next.1 (run :: done) blocks

end CountedRun

namespace BitBuffer

/-- Writes the steps from road to road, as `Keys.writeFeatureIds` does. -/
def writeFeatureIds (buffer : BitBuffer) (previous : UInt32) : List CountedRun → Checked BitBuffer
  | [] => return buffer
  | run :: runs => do
    let step ← Word.sub run.featureId.toBitVec previous.toBitVec
    let buffer ← buffer.writeGamma (Word.addCapped 1 (step.1.setWidth 64))
    writeFeatureIds buffer run.featureId runs

/-- Writes the segment counts, as `Keys.writeSegmentCounts` does. -/
def writeSegmentCounts (buffer : BitBuffer) : List CountedRun → Checked BitBuffer
  | [] => return buffer
  | run :: runs => do
    let buffer ← buffer.writeGamma (Word.addCapped 1 run.segmentCount)
    writeSegmentCounts buffer runs

/-- Writes the one-way bits, as `Keys.writeOneWay` does. -/
def writeOneWay (buffer : BitBuffer) : List CountedRun → Checked BitBuffer
  | [] => return buffer
  | run :: runs => do
    let buffer ← buffer.writeBit run.oneWay
    writeOneWay buffer runs

end BitBuffer

namespace Keys

/-- Packs `runs` in rising order, as `Keys.encodeRuns` does. -/
def encodeRunsInWords (runs : List CountedRun) : Checked Bytes := do
  let count ← Word.length runs
  let buffer := BitBuffer.new (UInt8.ofNat version :: Varint.encode count.1.toNat)
  let buffer ← buffer.writeFeatureIds 0 runs
  let buffer ← buffer.writeSegmentCounts runs
  let buffer ← buffer.writeOneWay runs
  return buffer.bytes.toList

/-- Packs a canonical key list, as `Keys.encode` does. -/
def encodeInWords (keys : List SegmentId) : Checked (Except KeysError Bytes) := do
  match ← CountedRun.collect 0 [] (keys.splitBy fun a b => a.featureId == b.featureId) with
  | .error e => return .error e
  | .ok runs =>
    let bytes ← encodeRunsInWords runs
    return .ok bytes

end Keys

end RoadTraffic
