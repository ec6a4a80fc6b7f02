import RoadTraffic.Bits.Gamma
import RoadTraffic.Keys.Run

/-!
# Packed key lists

A canonical key list is packed as its runs:

* a version byte and the number of runs as a variable-length number;
* the gamma codes of the steps from road to road, plus one, starting at road zero;
* the gamma codes of the segment counts, plus one;
* a bit for each run, set if the road is one-way.

The bits follow each other without gaps and only the last byte is filled up. The reader,
`Keys.decodeWithLimit`, accepts nothing but what describes a canonical list, and it looks at the
number of keys before it makes them.
-/

namespace RoadTraffic

namespace Keys

/-- The most keys that are unpacked where no other limit is given. -/
def maxKeys : Nat := 0x1000000

/-- The fewest bits of a run: two gamma codes of a bit each, and the one-way bit. -/
def minBitsPerRun : Nat := 3

/-! ## Packing -/

/-- Writes the steps from road to road, from `previous` on, each plus one. -/
def writeFeatureIds (writer : BitWriter) (previous : Nat) : List Run → Except BitError BitWriter
  | [] => .ok writer
  | run :: runs =>
    match writer.writeGamma (run.featureId.toNat - previous + 1) with
    | .error e => .error e
    | .ok writer => writeFeatureIds writer run.featureId.toNat runs

/-- Writes the segment counts, each plus one. -/
def writeSegmentCounts (writer : BitWriter) : List Run → Except BitError BitWriter
  | [] => .ok writer
  | run :: runs =>
    match writer.writeGamma (run.segmentCount + 1) with
    | .error e => .error e
    | .ok writer => writeSegmentCounts writer runs

/-- Writes a bit for each of the `runs`, which is `run.oneWay`. -/
def writeOneWay (writer : BitWriter) (runs : List Run) : BitWriter :=
  writer.append (runs.map (·.oneWay))

/-- Packs `runs` in rising order, the three facts of all of them one after the other. -/
def encodeRuns (runs : List Run) : Except BitError Bytes :=
  let writer := BitWriter.new (UInt8.ofNat version :: Varint.encode runs.length)
  match writeFeatureIds writer 0 runs with
  | .error e => .error e
  | .ok writer =>
    match writeSegmentCounts writer runs with
    | .error e => .error e
    | .ok writer => .ok (writeOneWay writer runs).toBytes

/-- Packs a canonical key list. What is none is refused by `runs`. -/
def encode (keys : List SegmentId) : Except KeysError Bytes :=
  match runs keys with
  | .error e => .error e
  | .ok runs =>
    match encodeRuns runs with
    | .error e => .error (.bitStream e)
    | .ok bytes => .ok bytes

/-! ## Unpacking -/

/-- Reads the roads of `count` runs, behind those in `done`, last one first. The road before the
first one is `none`, so that the first run may be of road zero. -/
def readFeatureIds (previous : Option UInt32) (done : List UInt32) :
    (count : Nat) → BitReader → Except KeysError (List UInt32 × BitReader)
  | 0, reader => .ok (done.reverse, reader)
  | count + 1, reader =>
    match reader.readGamma with
    | (.error e, _) => .error (.bitStream e)
    | (.ok code, reader) =>
      let step := code - 1
      let featureId := (previous.getD 0).toNat + step
      if featureId ≥ 0x100000000 then .error .featureIdOverflow
      else if previous.isSome && step == 0 then
        .error (.repeatedFeature (UInt32.ofNat featureId))
      else
        readFeatureIds (some (UInt32.ofNat featureId)) (UInt32.ofNat featureId :: done) count reader

/-- Reads the last point numbers of the runs of the given roads. What is written is one more than
the count of segments, and so two more than the last point number. -/
def readLastIndexes (done : List (UInt32 × UInt16)) :
    (featureIds : List UInt32) → BitReader → Except KeysError (List (UInt32 × UInt16) × BitReader)
  | [], reader => .ok (done.reverse, reader)
  | featureId :: featureIds, reader =>
    match reader.readGamma with
    | (.error e, _) => .error (.bitStream e)
    | (.ok code, reader) =>
      let count := code - 1
      if count = 0 ∨ count > 0x10000 then .error (.invalidSegmentCount featureId count)
      else readLastIndexes ((featureId, UInt16.ofNat (count - 1)) :: done) featureIds reader

/-- Reads the one-way bits of the `runs` whose other facts are known. -/
def readOneWay (done : List Run) :
    (runs : List (UInt32 × UInt16)) → BitReader → Except KeysError (List Run × BitReader)
  | [], reader => .ok (done.reverse, reader)
  | (featureId, lastIndex) :: runs, reader =>
    match reader.readBit with
    | (.error e, _) => .error (.bitStream e)
    | (.ok oneWay, reader) => readOneWay (⟨featureId, lastIndex, oneWay⟩ :: done) runs reader

/-- Reads `count` runs, which take up the whole of the bits ahead of the `reader`. -/
def readRuns (count : Nat) (reader : BitReader) : Except KeysError (List Run) := do
  let (featureIds, reader) ← readFeatureIds none [] count reader
  let (lastIndexes, reader) ← readLastIndexes [] featureIds reader
  let (runs, reader) ← readOneWay [] lastIndexes reader
  match reader.finish with
  | .error e => .error (.bitStream e)
  | .ok () => .ok runs

/-- The runs of a packed key list. Each takes at least `minBitsPerRun` bits, which bounds how many
can be announced. -/
def decodeRuns : Bytes → Except KeysError (List Run)
  | [] => .error .empty
  | found :: body =>
    if found.toNat ≠ version then .error (.unsupportedVersion found.toNat)
    else
      match Varint.decode body with
      | .error e => .error (.runCount e)
      | .ok (count, rest) =>
        let bits := rest.length * 8
        if count * minBitsPerRun > bits then .error (.implausibleRunCount count bits)
        else readRuns count (.new rest)

/-- The number of keys that `runs` stand for. -/
def keyCount (runs : List Run) : Nat := runs.foldr (fun run sum => run.size + sum) 0

/-- Counts the keys run by run. What does not fit in a word counts as the largest word. -/
def countKeys (runs : List Run) : Nat :=
  runs.foldl (fun sum run => min Bits.maxWord (sum + run.size)) 0

/-- Unpacks a key list of at most `limit` keys. They are counted before they are made. -/
def decodeWithLimit (bytes : Bytes) (limit : Nat) : Except KeysError (List SegmentId) :=
  match decodeRuns bytes with
  | .error e => .error e
  | .ok runs =>
    if countKeys runs ≤ limit then .ok (runs.flatMap Run.keys)
    else .error (.tooManyKeys (countKeys runs) limit)

/-- Unpacks a key list of at most `maxKeys` keys. -/
def decode (bytes : Bytes) : Except KeysError (List SegmentId) := decodeWithLimit bytes maxKeys

end Keys

end RoadTraffic
