import Catapult.Library.ByteStream

/-
This file models the buffer that received bytes are appended to and the extraction of packets from it.
-/

namespace Catapult.Ionet

open ByteStream

/-- The capacity after a reallocation is chosen by the standard library. -/
structure Allocator where
  grow : Nat → Nat → Nat
  enough : ∀ capacity size, size ≤ grow capacity size

/-- A vector of bytes never holds more than its capacity. -/
structure ByteBuffer where
  bytes : List UInt8
  capacity : Nat
  within : bytes.length ≤ capacity

namespace ByteBuffer

def empty : ByteBuffer := ⟨[], 0, Nat.le_refl 0⟩

def size (buffer : ByteBuffer) : Nat := buffer.bytes.length

def reservedCapacity (allocator : Allocator) (capacity size : Nat) : Nat := if size ≤ capacity then capacity else allocator.grow capacity size

theorem le_reservedCapacity (allocator : Allocator) (capacity size : Nat) : size ≤ reservedCapacity allocator capacity size := by
  unfold reservedCapacity
  split
  · assumption
  · exact allocator.enough capacity size

def reserve (allocator : Allocator) (buffer : ByteBuffer) (size : Nat) : ByteBuffer where
  bytes := buffer.bytes
  capacity := reservedCapacity allocator buffer.capacity size
  within := by
    have within := buffer.within
    unfold reservedCapacity
    split
    · exact within
    · have enough := allocator.enough buffer.capacity size
      omega

/-- New bytes are zero. -/
def resize (allocator : Allocator) (buffer : ByteBuffer) (size : Nat) : ByteBuffer where
  bytes := buffer.bytes.take size ++ List.replicate (size - buffer.bytes.length) 0
  capacity := reservedCapacity allocator buffer.capacity size
  within := by
    have room := le_reservedCapacity allocator buffer.capacity size
    rw [List.length_append, List.length_take, List.length_replicate]
    omega

/-- The bytes at a position are overwritten in place. -/
def overwrite (buffer : ByteBuffer) (position : Nat) (bytes : List UInt8) : Option ByteBuffer :=
  if inside : position + bytes.length ≤ buffer.bytes.length then
    some ⟨buffer.bytes.take position ++ bytes ++ buffer.bytes.drop (position + bytes.length), buffer.capacity, by
      have within := buffer.within
      simp only [List.length_append, List.length_take, List.length_drop]
      omega⟩
  else none

end ByteBuffer

/-- The socket never transfers more bytes than the appended space holds. -/
inductive AppendError where
  | alreadyCommitted
  | moreThanReserved
  | outOfBounds
  deriving DecidableEq

structure AppendContext where
  appendSize : Nat
  originalSize : Nat
  isCommitted : Bool

namespace AppendContext

/-- At least half of the size can be appended. -/
def create (allocator : Allocator) (data : ByteBuffer) (size : Nat) : ByteBuffer × AppendContext :=
  let resized :=
    if data.capacity - data.size < size / 2 then data.resize allocator (data.size + size)
    else data.resize allocator (min (data.size + size) data.capacity)
  (resized, ⟨resized.size - data.size, data.size, false⟩)

/-- The transferred bytes are written into the appended space. -/
def fill (context : AppendContext) (data : ByteBuffer) (chunk : List UInt8) : Except AppendError ByteBuffer :=
  if context.isCommitted then .error .alreadyCommitted
  else if context.appendSize < chunk.length then .error .moreThanReserved
  else match data.overwrite context.originalSize chunk with
    | none => .error .outOfBounds
    | some data => .ok data

def commit (allocator : Allocator) (context : AppendContext) (data : ByteBuffer) (size : Nat) :
    Except AppendError (ByteBuffer × AppendContext) :=
  if context.isCommitted then .error .alreadyCommitted
  else if context.appendSize < size then .error .moreThanReserved
  else .ok (data.resize allocator (context.originalSize + size), { context with isCommitted := true })

/-- An append that was not committed is undone. -/
def destroy (allocator : Allocator) (context : AppendContext) (data : ByteBuffer) : ByteBuffer :=
  if context.isCommitted then data else data.resize allocator context.originalSize

end AppendContext

inductive PacketExtractResult where
  | success
  | insufficientData
  | packetError
  deriving DecidableEq

def sizeofPacketHeader : Nat := 8

def isPacketDataSizeValid (size maxPacketDataSize : Nat) : Bool :=
  sizeofPacketHeader ≤ size && size - sizeofPacketHeader ≤ maxPacketDataSize

/-- The size in the header of a payload counts the header and all buffers. -/
structure PacketPayload where
  packetType : UInt32
  buffers : List (List UInt8)
  counted : sizeofPacketHeader + buffers.flatten.length < 2 ^ 32

/-- Nothing is written if the size is invalid. -/
def PacketPayload.written (maxPacketDataSize : Nat) (payload : PacketPayload) : List UInt8 :=
  let size := sizeofPacketHeader + payload.buffers.flatten.length
  if isPacketDataSizeValid size maxPacketDataSize then
    Codec.word32.write (UInt32.ofNat size) ++ (Codec.word32.write payload.packetType ++ payload.buffers.flatten)
  else []

/-- The extractor refers to the bytes of the working buffer. -/
structure PacketExtractor where
  maxPacketDataSize : Nat
  consumedBytes : Nat

namespace PacketExtractor

/-- The size is the first field of a header. -/
def packetSize (data : List UInt8) (position : Nat) : Nat := (Codec.word32.read ((data.drop position).take 4)).toNat

/-- An extracted packet is a view of the bytes. -/
def tryExtractNextPacket (extractor : PacketExtractor) (data : List UInt8) : PacketExtractResult × List UInt8 × PacketExtractor :=
  let remainingDataSize := data.length - extractor.consumedBytes
  if remainingDataSize < sizeofPacketHeader then (.insufficientData, [], extractor)
  else
    let size := packetSize data extractor.consumedBytes
    if !isPacketDataSizeValid size extractor.maxPacketDataSize then (.packetError, [], extractor)
    else if remainingDataSize < size then (.insufficientData, [], extractor)
    else (.success, (data.drop extractor.consumedBytes).take size, { extractor with consumedBytes := extractor.consumedBytes + size })

def consume (allocator : Allocator) (extractor : PacketExtractor) (data : ByteBuffer) : ByteBuffer × PacketExtractor :=
  if extractor.consumedBytes = 0 then (data, extractor)
  else
    let remaining := data.bytes.drop extractor.consumedBytes
    let moved : ByteBuffer :=
      ⟨remaining ++ data.bytes.drop remaining.length, data.capacity, by
        have within := data.within
        simp only [remaining, List.length_append, List.length_drop]
        omega⟩
    (moved.resize allocator remaining.length, { extractor with consumedBytes := 0 })

/-- Packets are extracted until there is no success. -/
def extractAll (data : List UInt8) : Nat → PacketExtractor → Option (List (List UInt8) × PacketExtractResult × PacketExtractor)
  | 0, _ => none
  | rounds + 1, extractor =>
    match extractor.tryExtractNextPacket data with
    | (.success, packet, extractor) => do
      let rest ← extractAll data rounds extractor
      return (packet :: rest.1, rest.2)
    | (result, _, extractor) => some ([], result, extractor)

end PacketExtractor

structure PacketSocketOptions where
  workingBufferSize : Nat
  workingBufferSensitivity : Nat
  maxPacketDataSize : Nat

structure WorkingBuffer where
  options : PacketSocketOptions
  data : ByteBuffer
  numDataSizeSamples : Nat
  maxDataSize : Nat

namespace WorkingBuffer

variable (allocator : Allocator)

def create (options : PacketSocketOptions) : WorkingBuffer := ⟨options, ByteBuffer.empty.reserve allocator options.workingBufferSize, 0, 0⟩

/-- The data is copied into a buffer with less capacity. -/
def reclaim (data : ByteBuffer) (maxDataSize : Nat) : Option ByteBuffer :=
  ((ByteBuffer.empty.reserve allocator maxDataSize).resize allocator data.size).overwrite 0 data.bytes

/-- The capacity is checked after a number of samples, and a difference below zero is large. -/
def checkMemoryUsage (buffer : WorkingBuffer) : Option WorkingBuffer :=
  if buffer.options.workingBufferSensitivity = 0 then some buffer
  else
    let maxDataSize := max buffer.maxDataSize buffer.data.size
    let numDataSizeSamples := buffer.numDataSizeSamples + 1
    if numDataSizeSamples ≠ buffer.options.workingBufferSensitivity then
      some { buffer with maxDataSize := maxDataSize, numDataSizeSamples := numDataSizeSamples }
    else
      let sampled := { buffer with maxDataSize := 0, numDataSizeSamples := 0 }
      if maxDataSize ≤ buffer.data.capacity ∧ buffer.data.capacity - maxDataSize < buffer.options.workingBufferSize then some sampled
      else do
        let data ← reclaim allocator buffer.data maxDataSize
        return { sampled with data := data }

/-- The context refers to the data of the buffer. -/
def prepareAppend (buffer : WorkingBuffer) : Option (WorkingBuffer × AppendContext) := do
  let (data, context) := AppendContext.create allocator buffer.data buffer.options.workingBufferSize
  return (← checkMemoryUsage allocator { buffer with data := data }, context)

def preparePacketExtractor (buffer : WorkingBuffer) : PacketExtractor := ⟨buffer.options.maxPacketDataSize, 0⟩

end WorkingBuffer

/-- A transfer is committed as a whole, or it is abandoned. -/
inductive Transfer where
  | committed (chunk : List UInt8)
  | abandoned (chunk : List UInt8)

/-- What a transfer makes available. -/
structure Received where
  packets : List (List UInt8)
  result : PacketExtractResult

inductive ReceiveError where
  | append (error : AppendError)
  | outOfBounds
  | endless
  deriving DecidableEq

namespace WorkingBuffer

variable (allocator : Allocator)

/-- All packets are extracted and consumed after a transfer. -/
def extract (buffer : WorkingBuffer) : Except ReceiveError (WorkingBuffer × Received) :=
  match PacketExtractor.extractAll buffer.data.bytes (buffer.data.size + 1) buffer.preparePacketExtractor with
  | none => .error .endless
  | some (packets, result, extractor) => .ok ({ buffer with data := (extractor.consume allocator buffer.data).1 }, ⟨packets, result⟩)

def receive (buffer : WorkingBuffer) (transfer : Transfer) : Except ReceiveError (WorkingBuffer × Received) :=
  match buffer.prepareAppend allocator with
  | none => .error .outOfBounds
  | some (buffer, context) =>
    match transfer with
    | .committed chunk =>
      match context.fill buffer.data chunk with
      | .error error => .error (.append error)
      | .ok data =>
        match context.commit allocator data chunk.length with
        | .error error => .error (.append error)
        | .ok (data, context) => extract allocator { buffer with data := context.destroy allocator data }
    | .abandoned chunk =>
      match context.fill buffer.data chunk with
      | .error error => .error (.append error)
      | .ok data => extract allocator { buffer with data := context.destroy allocator data }

def receiveAll : WorkingBuffer → List Transfer → Except ReceiveError (WorkingBuffer × List Received)
  | buffer, [] => .ok (buffer, [])
  | buffer, transfer :: rest => do
    let (buffer, received) ← buffer.receive allocator transfer
    let (buffer, others) ← receiveAll buffer rest
    return (buffer, received :: others)

end WorkingBuffer

end Catapult.Ionet
