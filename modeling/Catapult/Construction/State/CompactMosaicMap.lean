import Catapult.Construction.Types
import Catapult.Library.SortedMap

/-
This file models the map of mosaics with a single value, an array and an ordered map as its storage levels.
-/

namespace Catapult.State

abbrev Mosaic := MosaicId × Amount

def arrayCapacity : Nat := 5

/-- The array holds its used entries, and the ordered map is missing or not empty between operations. -/
structure SecondLevelStorage where
  arrayStorage : List Mosaic
  mapStorage : Option (List Mosaic)
  deriving DecidableEq

structure FirstLevelStorage where
  value : Mosaic
  nextStorage : Option SecondLevelStorage
  deriving DecidableEq

structure CompactMosaicMap where
  storage : FirstLevelStorage
  optimizedMosaicId : MosaicId
  deriving DecidableEq

/-- The mosaic id zero is reserved. -/
def FirstLevelStorage.hasValue (storage : FirstLevelStorage) : Bool := storage.value.1 ≠ 0

inductive MapError where
  | reservedMosaic (id : MosaicId)
  | alreadyInMap (id : MosaicId)
  deriving DecidableEq

inductive MosaicLocation where
  | value
  | array (index : Nat)
  | map

/-- A position of an iterator, with an index into the array or into the ordered map. -/
inductive Position where
  | value
  | array (index : Nat)
  | map (index : Nat)
  | finished
  deriving DecidableEq

namespace SecondLevelStorage

def insertIntoMap (second : SecondLevelStorage) (pair : Mosaic) : SecondLevelStorage :=
  { second with mapStorage := some (SortedMap.insert pair (second.mapStorage.getD [])) }

/-- The last value of a full array moves into the map. -/
def insertIntoArray (second : SecondLevelStorage) (index : Nat) (pair : Mosaic) : SecondLevelStorage :=
  match second.arrayStorage.getLast? with
  | some last =>
    if second.arrayStorage.length = arrayCapacity then
      { second.insertIntoMap last with arrayStorage := second.arrayStorage.dropLast.insertIdx index pair }
    else { second with arrayStorage := second.arrayStorage.insertIdx index pair }
  | none => { second with arrayStorage := second.arrayStorage.insertIdx index pair }

def eraseFromArray (second : SecondLevelStorage) (index : Nat) : SecondLevelStorage :=
  { second with arrayStorage := second.arrayStorage.eraseIdx index }

/-- The lowest values of the map move into the array as long as there is room. -/
def fillArray (array : List Mosaic) : List Mosaic → SecondLevelStorage
  | [] => ⟨array, none⟩
  | first :: rest => if array.length < arrayCapacity then fillArray (array ++ [first]) rest else ⟨array, some (first :: rest)⟩

def locate (second : SecondLevelStorage) (id : MosaicId) : Option MosaicLocation :=
  match second.arrayStorage.findIdx? fun entry => entry.1 = id with
  | some index => some (.array index)
  | none => if (SortedMap.find id (second.mapStorage.getD [])).isSome then some .map else none

end SecondLevelStorage

namespace CompactMosaicMap

def empty : CompactMosaicMap := ⟨⟨(0, 0), none⟩, 0⟩

def isEmpty (map : CompactMosaicMap) : Bool := !map.storage.hasValue

def size (map : CompactMosaicMap) : Nat :=
  if map.isEmpty then 0
  else
    match map.storage.nextStorage with
    | none => 1
    | some second => 1 + second.arrayStorage.length + (second.mapStorage.getD []).length

def locate (map : CompactMosaicMap) (id : MosaicId) : Option MosaicLocation :=
  if map.isEmpty then none
  else if id = map.storage.value.1 then some .value
  else map.storage.nextStorage.bind fun second => second.locate id

/-- The mosaic that an iterator points to. -/
def current (map : CompactMosaicMap) : Position → Option Mosaic
  | .value => some map.storage.value
  | .array index => map.storage.nextStorage.bind fun second => second.arrayStorage[index]?
  | .map index => map.storage.nextStorage.bind fun second => (second.mapStorage.getD [])[index]?
  | .finished => none

def start (map : CompactMosaicMap) : Position := if map.storage.hasValue then .value else .finished

/-- The stages of an iterator are the value, the array and the ordered map. -/
def advance (map : CompactMosaicMap) : Position → Position
  | .value => if map.storage.nextStorage.isSome then .array 0 else .finished
  | .array index =>
    match map.storage.nextStorage with
    | none => .finished
    | some second =>
      if index + 1 ≠ second.arrayStorage.length then .array (index + 1)
      else if second.mapStorage.isSome then .map 0 else .finished
  | .map index =>
    match map.storage.nextStorage with
    | none => .finished
    | some second => if index + 1 ≠ (second.mapStorage.getD []).length then .map (index + 1) else .finished
  | .finished => .finished

/-- The mosaics from a position on, for a number of steps. -/
def iterateFrom (map : CompactMosaicMap) : Nat → Position → List Mosaic
  | 0, _ => []
  | steps + 1, position => (map.current position).toList ++ map.iterateFrom steps (map.advance position)

def find (map : CompactMosaicMap) (id : MosaicId) : Option Mosaic :=
  match map.locate id with
  | none => none
  | some .value => some map.storage.value
  | some (.array index) => map.storage.nextStorage.bind fun second => second.arrayStorage[index]?
  | some .map => map.storage.nextStorage.bind fun second => SortedMap.find id (second.mapStorage.getD [])

/-- The optimized mosaic id is the lowest. -/
def isLessThan (optimizedMosaicId lhs rhs : MosaicId) : Bool :=
  if lhs = rhs then false
  else if optimizedMosaicId = lhs || optimizedMosaicId = rhs then optimizedMosaicId = lhs
  else lhs < rhs

def insert (map : CompactMosaicMap) (pair : Mosaic) : Except MapError CompactMosaicMap :=
  if pair.1 = 0 then .error (.reservedMosaic pair.1)
  else if (map.find pair.1).isSome then .error (.alreadyInMap pair.1)
  else if map.isEmpty then .ok { map with storage := { map.storage with value := pair } }
  else
    let second := map.storage.nextStorage.getD ⟨[], none⟩
    if isLessThan map.optimizedMosaicId pair.1 map.storage.value.1 then
      .ok { map with storage := ⟨pair, some (second.insertIntoArray 0 map.storage.value)⟩ }
    else
      let arrayIndex := (second.arrayStorage.takeWhile fun entry => !(pair.1 < entry.1)).length
      if arrayIndex < arrayCapacity then
        .ok { map with storage := ⟨map.storage.value, some (second.insertIntoArray arrayIndex pair)⟩ }
      else .ok { map with storage := ⟨map.storage.value, some (second.insertIntoMap pair)⟩ }

/-- Storage levels without entries are released. -/
def compact (storage : FirstLevelStorage) : FirstLevelStorage :=
  match storage.nextStorage with
  | none => storage
  | some second =>
    let filled := SecondLevelStorage.fillArray second.arrayStorage (second.mapStorage.getD [])
    { storage with nextStorage := if filled.arrayStorage.length = 0 then none else some filled }

def erase (map : CompactMosaicMap) (id : MosaicId) : CompactMosaicMap :=
  match map.locate id, map.storage.nextStorage with
  | none, _ => map
  | some .value, some second =>
    { map with storage := compact ⟨second.arrayStorage.head?.getD (0, 0), some (second.eraseFromArray 0)⟩ }
  | some .value, none => { map with storage := compact ⟨(0, 0), none⟩ }
  | some (.array index), next =>
    let erased := next.map fun second => second.eraseFromArray index
    { map with storage := compact ⟨map.storage.value, erased⟩ }
  | some .map, next =>
    let erased := next.map fun second =>
      { second with mapStorage := second.mapStorage.map (SortedMap.erase id) }
    { map with storage := compact ⟨map.storage.value, erased⟩ }

def reinsert (map : CompactMosaicMap) (id : MosaicId) : Except MapError CompactMosaicMap :=
  match map.find id with
  | none => .ok map
  | some mosaic => (map.erase mosaic.1).insert mosaic

def optimize (map : CompactMosaicMap) (id : MosaicId) : Except MapError CompactMosaicMap :=
  if id = map.optimizedMosaicId then .ok map
  else do
    let previous ← ({ map with optimizedMosaicId := id } : CompactMosaicMap).reinsert map.optimizedMosaicId
    previous.reinsert id

def setAt (entries : List Mosaic) (id : MosaicId) (amount : Amount) : List Mosaic :=
  entries.map fun entry => if entry.1 = id then (id, amount) else entry

/-- The amount of a found mosaic is changed through its iterator. -/
def update (map : CompactMosaicMap) (id : MosaicId) (amount : Amount) : CompactMosaicMap :=
  match map.locate id with
  | none => map
  | some .value => { map with storage := { map.storage with value := (map.storage.value.1, amount) } }
  | some (.array index) =>
    let changed := map.storage.nextStorage.map fun second =>
      { second with arrayStorage := second.arrayStorage.modify index fun entry => (entry.1, amount) }
    { map with storage := { map.storage with nextStorage := changed } }
  | some .map =>
    let changed := map.storage.nextStorage.map fun second =>
      { second with mapStorage := second.mapStorage.map fun entries => setAt entries id amount }
    { map with storage := { map.storage with nextStorage := changed } }

end CompactMosaicMap

end Catapult.State
