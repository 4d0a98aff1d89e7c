import Catapult.Construction.Ionet.WorkingBuffer

/-
This file shows that the extracted packets do not depend on how the stream is split.
-/

namespace Catapult.Ionet

open ByteStream

section Framing

def WellFormed (maxPacketDataSize : Nat) (packet : List UInt8) : Prop :=
  packet.length = PacketExtractor.packetSize packet 0 ∧ isPacketDataSizeValid packet.length maxPacketDataSize = true

/-- A complete header has an invalid size. -/
def InvalidHeader (maxPacketDataSize : Nat) (rest : List UInt8) : Prop :=
  sizeofPacketHeader ≤ rest.length ∧ isPacketDataSizeValid (PacketExtractor.packetSize rest 0) maxPacketDataSize = false

/-- The packets are the maximal front of a stream that is well formed. -/
structure Framing (maxPacketDataSize : Nat) (stream : List UInt8) (packets : List (List UInt8)) (rest : List UInt8) : Prop where
  joined : stream = packets.flatten ++ rest
  wellFormed : ∀ packet ∈ packets, WellFormed maxPacketDataSize packet
  maximal : ∀ packet more, WellFormed maxPacketDataSize packet → rest ≠ packet ++ more

variable {maxPacketDataSize : Nat} {stream rest packet : List UInt8} {packets : List (List UInt8)}

theorem valid_size {size : Nat} (valid : isPacketDataSizeValid size maxPacketDataSize = true) : sizeofPacketHeader ≤ size := by
  rw [isPacketDataSizeValid, Bool.and_eq_true, decide_eq_true_iff] at valid
  exact valid.1

/-- The size is read from the header, whatever follows. -/
theorem packetSize_append (enough : sizeofPacketHeader ≤ packet.length) (more : List UInt8) :
    PacketExtractor.packetSize (packet ++ more) 0 = PacketExtractor.packetSize packet 0 := by
  unfold sizeofPacketHeader at enough
  rw [PacketExtractor.packetSize, PacketExtractor.packetSize, List.drop_zero, List.drop_zero, List.take_append_of_le_length (by omega)]

theorem packetSize_drop (data : List UInt8) (position : Nat) :
    PacketExtractor.packetSize (data.drop position) 0 = PacketExtractor.packetSize data position := by
  rw [PacketExtractor.packetSize, List.drop_zero, PacketExtractor.packetSize]

/-- Two packets at the front of one stream are the same. -/
theorem WellFormed.unique {other more others : List UInt8} (first : WellFormed maxPacketDataSize packet)
    (second : WellFormed maxPacketDataSize other) (same : packet ++ more = other ++ others) : packet = other ∧ more = others := by
  have length : packet.length = other.length := by
    rw [first.1, second.1, ← packetSize_append (valid_size first.2) more, same, packetSize_append (valid_size second.2)]
  exact List.append_inj same length

namespace Framing

theorem empty (framing : Framing maxPacketDataSize stream packets rest) : Framing maxPacketDataSize rest [] rest :=
  ⟨rfl, nofun, framing.maximal⟩

theorem nil (maxPacketDataSize : Nat) : Framing maxPacketDataSize [] [] [] := by
  refine ⟨rfl, nofun, fun packet more wellFormed joined => ?_⟩
  have enough := valid_size wellFormed.2
  rw [(List.append_eq_nil_iff.mp joined.symm).1] at enough
  exact absurd enough (by decide)

theorem cons (wellFormed : WellFormed maxPacketDataSize packet) (framing : Framing maxPacketDataSize stream packets rest) :
    Framing maxPacketDataSize (packet ++ stream) (packet :: packets) rest where
  joined := by rw [framing.joined, List.flatten_cons, List.append_assoc]
  wellFormed := List.forall_mem_cons.mpr ⟨wellFormed, framing.wellFormed⟩
  maximal := framing.maximal

/-- What remains of a stream is framed together with what follows. -/
theorem append {chunk rest' : List UInt8} {packets' : List (List UInt8)} (framing : Framing maxPacketDataSize stream packets rest)
    (next : Framing maxPacketDataSize (rest ++ chunk) packets' rest') :
    Framing maxPacketDataSize (stream ++ chunk) (packets ++ packets') rest' where
  joined := by rw [framing.joined, List.append_assoc, next.joined, List.flatten_append, List.append_assoc]
  wellFormed := List.forall_mem_append.mpr ⟨framing.wellFormed, next.wellFormed⟩
  maximal := next.maximal

/-- A stream is framed in one way. -/
theorem unique {rest' : List UInt8} {packets' : List (List UInt8)} (first : Framing maxPacketDataSize stream packets rest)
    (second : Framing maxPacketDataSize stream packets' rest') : packets = packets' ∧ rest = rest' := by
  induction packets generalizing stream packets' with
  | nil =>
    cases packets' with
    | nil => exact ⟨rfl, first.joined.symm.trans second.joined⟩
    | cons packet others =>
      refine absurd (first.joined.symm.trans second.joined) ?_
      rw [List.flatten_cons, List.append_assoc]
      exact first.maximal packet _ (second.wellFormed packet List.mem_cons_self)
  | cons packet packets ih =>
    cases packets' with
    | nil =>
      refine absurd (second.joined.symm.trans first.joined) ?_
      rw [List.flatten_cons, List.append_assoc]
      exact second.maximal packet _ (first.wellFormed packet List.mem_cons_self)
    | cons other others =>
      have same := first.joined.symm.trans second.joined
      rw [List.flatten_cons, List.flatten_cons, List.append_assoc, List.append_assoc] at same
      obtain ⟨rfl, tails⟩ := (first.wellFormed packet List.mem_cons_self).unique (second.wellFormed other List.mem_cons_self) same
      have left : Framing maxPacketDataSize (packets.flatten ++ rest) packets rest :=
        ⟨rfl, fun each member => first.wellFormed each (List.mem_cons_of_mem _ member), first.maximal⟩
      have right : Framing maxPacketDataSize (packets.flatten ++ rest) others rest' :=
        ⟨tails, fun each member => second.wellFormed each (List.mem_cons_of_mem _ member), second.maximal⟩
      obtain ⟨rfl, rests⟩ := ih left right
      exact ⟨rfl, rests⟩

end Framing

end Framing

variable {maxPacketDataSize : Nat}

/-- The result tells why no further packet was extracted. -/
def Explains (maxPacketDataSize : Nat) (result : PacketExtractResult) (rest : List UInt8) : Prop :=
  result ≠ .success ∧ (result = .packetError ↔ InvalidHeader maxPacketDataSize rest)

theorem Explains.unique {first second : PacketExtractResult} {rest : List UInt8} (left : Explains maxPacketDataSize first rest)
    (right : Explains maxPacketDataSize second rest) : first = second := by
  have same := left.2.trans right.2.symm
  have leftFailed := left.1
  have rightFailed := right.1
  cases first <;> cases second <;> simp_all

/-- Extraction ends after all packets at the front of the remaining bytes. -/
theorem extractAll_framing (data : List UInt8) (rounds consumedBytes : Nat) (inside : consumedBytes ≤ data.length)
    (enough : data.length - consumedBytes < rounds) :
    ∃ packets result consumed, PacketExtractor.extractAll data rounds ⟨maxPacketDataSize, consumedBytes⟩ =
        some (packets, result, ⟨maxPacketDataSize, consumed⟩) ∧
      Framing maxPacketDataSize (data.drop consumedBytes) packets (data.drop consumed) ∧
      Explains maxPacketDataSize result (data.drop consumed) := by
  induction rounds generalizing consumedBytes with
  | zero => exact absurd enough (Nat.not_lt_zero _)
  | succ rounds ih =>
    have length : (data.drop consumedBytes).length = data.length - consumedBytes := List.length_drop
    obtain ⟨size, read⟩ : ∃ size, PacketExtractor.packetSize data consumedBytes = size := ⟨_, rfl⟩
    have header : PacketExtractor.packetSize (data.drop consumedBytes) 0 = size := by rw [packetSize_drop, read]
    -- a front that is a packet has a complete header with its own size
    have blocked : (data.length - consumedBytes < sizeofPacketHeader ∨ isPacketDataSizeValid size maxPacketDataSize = false ∨
        data.length - consumedBytes < size) → Framing maxPacketDataSize (data.drop consumedBytes) [] (data.drop consumedBytes) := by
      intro reason
      refine ⟨rfl, nofun, fun packet more wellFormed joined => ?_⟩
      have complete := valid_size wellFormed.2
      have own : packet.length = size := by
        rw [wellFormed.1, ← header, joined, packetSize_append complete]
      have total := congrArg List.length joined
      rw [length, List.length_append] at total
      have valid := wellFormed.2
      rw [own] at valid complete
      rcases reason with short | invalid | long
      · omega
      · rw [invalid] at valid
        cases valid
      · omega
    by_cases short : data.length - consumedBytes < sizeofPacketHeader
    · refine ⟨[], .insufficientData, consumedBytes, ?_, blocked (.inl short), nofun, nofun, fun invalid => ?_⟩
      · rw [PacketExtractor.extractAll, PacketExtractor.tryExtractNextPacket]
        simp only [if_pos short]
      · have complete := invalid.1
        omega
    cases valid : isPacketDataSizeValid size maxPacketDataSize with
    | false =>
      refine ⟨[], .packetError, consumedBytes, ?_, blocked (.inr (.inl valid)), nofun, fun _ => ⟨?_, ?_⟩, fun _ => rfl⟩
      · rw [PacketExtractor.extractAll, PacketExtractor.tryExtractNextPacket]
        simp only [if_neg short, read, valid, Bool.not_false, if_true]
      · omega
      · rw [header, valid]
    | true =>
      by_cases long : data.length - consumedBytes < size
      · refine ⟨[], .insufficientData, consumedBytes, ?_, blocked (.inr (.inr long)), nofun, nofun, fun invalid => ?_⟩
        · rw [PacketExtractor.extractAll, PacketExtractor.tryExtractNextPacket]
          simp only [if_neg short, read, valid, Bool.not_true, Bool.false_eq_true, if_false, if_pos long]
        · have contradiction := invalid.2
          rw [header, valid] at contradiction
          cases contradiction
      · have positive := valid_size valid
        unfold sizeofPacketHeader at positive
        obtain ⟨packets, result, consumed, extracted, framing, explains⟩ := ih (consumedBytes + size) (by omega) (by omega)
        have taken : ((data.drop consumedBytes).take size).length = size := List.length_take_of_le (by omega)
        have wellFormed : WellFormed maxPacketDataSize ((data.drop consumedBytes).take size) := by
          refine ⟨?_, by rw [taken, valid]⟩
          rw [taken, ← packetSize_append (by rw [taken]; exact valid_size valid) ((data.drop consumedBytes).drop size),
            List.take_append_drop, header]
        refine ⟨(data.drop consumedBytes).take size :: packets, result, consumed, ?_, ?_, explains⟩
        · rw [PacketExtractor.extractAll, PacketExtractor.tryExtractNextPacket]
          simp only [if_neg short, read, valid, Bool.not_true, Bool.false_eq_true, if_false, if_neg long, extracted]
          rfl
        · have joined := framing.cons wellFormed
          rwa [← List.drop_drop, List.take_append_drop] at joined

variable (allocator : Allocator)

theorem bytes_resize_of_le {buffer : ByteBuffer} {size : Nat} (shrinks : size ≤ buffer.bytes.length) :
    (buffer.resize allocator size).bytes = buffer.bytes.take size := by
  have none : size - buffer.bytes.length = 0 := by omega
  change buffer.bytes.take size ++ List.replicate (size - buffer.bytes.length) 0 = _
  rw [none, List.replicate_zero, List.append_nil]

theorem bytes_resize_of_ge {buffer : ByteBuffer} {size : Nat} (grows : buffer.bytes.length ≤ size) :
    (buffer.resize allocator size).bytes = buffer.bytes ++ List.replicate (size - buffer.bytes.length) 0 := by
  change buffer.bytes.take size ++ List.replicate (size - buffer.bytes.length) 0 = _
  rw [List.take_of_length_le grows]

/-- The bytes behind the front are replaced by as many bytes. -/
theorem overwrite_append {buffer : ByteBuffer} {front middle back chunk : List UInt8} (bytes : buffer.bytes = front ++ (middle ++ back))
    (size : chunk.length = middle.length) : ∃ written, buffer.overwrite front.length chunk = some written ∧ written.bytes = front ++ (chunk ++ back) := by
  have length : buffer.bytes.length = front.length + (middle.length + back.length) := by rw [bytes, List.length_append, List.length_append]
  have inside : front.length + chunk.length ≤ buffer.bytes.length := by omega
  refine ⟨_, dif_pos inside, ?_⟩
  change buffer.bytes.take front.length ++ chunk ++ buffer.bytes.drop (front.length + chunk.length) = _
  rw [bytes, List.take_left, List.drop_length_add_append, size, List.drop_left, List.append_assoc]

/-- The bytes of the buffer are followed by the space for the append. -/
theorem create_bytes (data : ByteBuffer) (size : Nat) : ∃ space, (AppendContext.create allocator data size).1.bytes =
      data.bytes ++ List.replicate space 0 ∧ (AppendContext.create allocator data size).2 = ⟨space, data.bytes.length, false⟩ ∧ size / 2 ≤ space := by
  have within := data.within
  have grown (target : Nat) (larger : data.bytes.length ≤ target) :
      (data.resize allocator target).bytes = data.bytes ++ List.replicate (target - data.bytes.length) 0 ∧
        (data.resize allocator target).size - data.size = target - data.bytes.length := by
    have bytes := bytes_resize_of_ge allocator larger
    refine ⟨bytes, ?_⟩
    rw [ByteBuffer.size, bytes, List.length_append, List.length_replicate, ByteBuffer.size]
    omega
  unfold AppendContext.create
  by_cases scarce : data.capacity - data.size < size / 2
  · obtain ⟨bytes, space⟩ := grown (data.size + size) (Nat.le_add_right _ _)
    rw [if_pos scarce]
    refine ⟨_, bytes, congrArg (fun appendSize => AppendContext.mk appendSize data.size false) space, ?_⟩
    change size / 2 ≤ data.bytes.length + size - data.bytes.length
    omega
  · change ¬ data.capacity - data.bytes.length < size / 2 at scarce
    have larger : data.bytes.length ≤ min (data.size + size) data.capacity := by
      change data.bytes.length ≤ min (data.bytes.length + size) data.capacity
      omega
    obtain ⟨bytes, space⟩ := grown (min (data.size + size) data.capacity) larger
    rw [if_neg (by exact scarce)]
    refine ⟨_, bytes, congrArg (fun appendSize => AppendContext.mk appendSize data.size false) space, ?_⟩
    change size / 2 ≤ min (data.bytes.length + size) data.capacity - data.bytes.length
    omega

theorem reclaim_bytes (data : ByteBuffer) (maxDataSize : Nat) :
    ∃ copied, WorkingBuffer.reclaim allocator data maxDataSize = some copied ∧ copied.bytes = data.bytes := by
  have zeros : ((ByteBuffer.empty.reserve allocator maxDataSize).resize allocator data.size).bytes = [] ++ (List.replicate data.bytes.length 0 ++ []) := by
    have empty : (ByteBuffer.empty.reserve allocator maxDataSize).bytes = [] := rfl
    rw [bytes_resize_of_ge allocator (by rw [empty]; exact Nat.zero_le _), empty, List.append_nil]
    rfl
  obtain ⟨copied, written, bytes⟩ := overwrite_append zeros (@List.length_replicate _ _ (0 : UInt8)).symm
  exact ⟨copied, written, by rw [bytes, List.nil_append, List.append_nil]⟩

/-- Reclaiming memory does not change the bytes. -/
theorem checkMemoryUsage_bytes (buffer : WorkingBuffer) :
    ∃ checked, buffer.checkMemoryUsage allocator = some checked ∧ checked.data.bytes = buffer.data.bytes ∧ checked.options = buffer.options := by
  unfold WorkingBuffer.checkMemoryUsage
  split
  · exact ⟨_, rfl, rfl, rfl⟩
  · dsimp only
    split
    · exact ⟨_, rfl, rfl, rfl⟩
    · split
      · exact ⟨_, rfl, rfl, rfl⟩
      · obtain ⟨copied, reclaimed, bytes⟩ := reclaim_bytes allocator buffer.data (max buffer.maxDataSize buffer.data.size)
        exact ⟨{ buffer with maxDataSize := 0, numDataSizeSamples := 0, data := copied }, by rw [reclaimed]; rfl, bytes, rfl⟩

theorem prepareAppend_bytes (buffer : WorkingBuffer) :
    ∃ prepared space, buffer.prepareAppend allocator = some (prepared, ⟨space, buffer.data.bytes.length, false⟩) ∧
      prepared.data.bytes = buffer.data.bytes ++ List.replicate space 0 ∧ prepared.options = buffer.options ∧
      buffer.options.workingBufferSize / 2 ≤ space := by
  obtain ⟨space, bytes, context, half⟩ := create_bytes allocator buffer.data buffer.options.workingBufferSize
  obtain ⟨prepared, checked, same, options⟩ :=
    checkMemoryUsage_bytes allocator { buffer with data := (AppendContext.create allocator buffer.data buffer.options.workingBufferSize).1 }
  refine ⟨prepared, space, ?_, same.trans bytes, options, half⟩
  rw [WorkingBuffer.prepareAppend, ← context]
  change (WorkingBuffer.checkMemoryUsage allocator
    { buffer with data := (AppendContext.create allocator buffer.data buffer.options.workingBufferSize).1 } >>= _) = _
  rw [checked]
  rfl

/-- The bytes of all extracted packets are removed. -/
theorem consume_bytes (data : ByteBuffer) (maxPacketDataSize consumed : Nat) :
    (PacketExtractor.consume allocator ⟨maxPacketDataSize, consumed⟩ data).1.bytes = data.bytes.drop consumed := by
  unfold PacketExtractor.consume
  split
  · next none =>
    change consumed = 0 at none
    rw [none, List.drop_zero]
  · rw [bytes_resize_of_le]
    · exact List.take_left
    · rw [List.length_append]
      omega

namespace Transfer

def chunk : Transfer → List UInt8
  | .committed chunk => chunk
  | .abandoned chunk => chunk

/-- Only committed bytes become part of the stream. -/
def streamed : Transfer → List UInt8
  | .committed chunk => chunk
  | .abandoned _ => []

end Transfer

/-- The transferred bytes take the place of the first appended bytes. -/
theorem fill_bytes {context : AppendContext} {data : ByteBuffer} {front chunk : List UInt8} {space : Nat}
    (bytes : data.bytes = front ++ List.replicate space 0) (fresh : context = ⟨space, front.length, false⟩) (fits : chunk.length ≤ space) :
    ∃ filled, context.fill data chunk = .ok filled ∧ filled.bytes = front ++ (chunk ++ List.replicate (space - chunk.length) 0) := by
  have split : data.bytes = front ++ (List.replicate chunk.length 0 ++ List.replicate (space - chunk.length) 0) := by
    rw [bytes, List.replicate_append_replicate, Nat.add_sub_cancel' fits]
  obtain ⟨filled, written, result⟩ := overwrite_append split (@List.length_replicate _ _ (0 : UInt8)).symm
  refine ⟨filled, ?_, result⟩
  rw [fresh, AppendContext.fill]
  simp only [Bool.false_eq_true, if_false, if_neg (Nat.not_lt.mpr fits), written]

/-- After a transfer the packets at the front of the buffer are removed. -/
theorem extract_framing (buffer : WorkingBuffer) :
    ∃ next received, buffer.extract allocator = .ok (next, received) ∧ next.options = buffer.options ∧
      Framing buffer.options.maxPacketDataSize buffer.data.bytes received.packets next.data.bytes ∧
      Explains buffer.options.maxPacketDataSize received.result next.data.bytes := by
  obtain ⟨packets, result, consumed, extracted, framing, explains⟩ :=
    @extractAll_framing buffer.options.maxPacketDataSize buffer.data.bytes (buffer.data.size + 1) 0 (Nat.zero_le _)
      (Nat.lt_succ_self _)
  have rest := consume_bytes allocator buffer.data buffer.options.maxPacketDataSize consumed
  refine ⟨{ buffer with data := (PacketExtractor.consume allocator ⟨buffer.options.maxPacketDataSize, consumed⟩ buffer.data).1 },
    ⟨packets, result⟩, ?_, rfl, ?_, ?_⟩
  · rw [WorkingBuffer.extract, WorkingBuffer.preparePacketExtractor, extracted]
  · rw [List.drop_zero] at framing
    rwa [← rest] at framing
  · rwa [← rest] at explains

/-- A transfer fits into the appended space, or it is rejected. -/
theorem receive_cases (buffer : WorkingBuffer) (transfer : Transfer) :
    (buffer.options.workingBufferSize / 2 < transfer.chunk.length ∧ buffer.receive allocator transfer = .error (.append .moreThanReserved)) ∨
      ∃ next received, buffer.receive allocator transfer = .ok (next, received) ∧ next.options = buffer.options ∧
        Framing buffer.options.maxPacketDataSize (buffer.data.bytes ++ transfer.streamed) received.packets next.data.bytes ∧
        Explains buffer.options.maxPacketDataSize received.result next.data.bytes := by
  obtain ⟨prepared, space, appended, bytes, options, half⟩ := prepareAppend_bytes allocator buffer
  by_cases fits : transfer.chunk.length ≤ space
  · right
    obtain ⟨filled, written, result⟩ := fill_bytes bytes rfl fits
    cases transfer with
    | committed chunk =>
      change chunk.length ≤ space at fits
      change filled.bytes = buffer.data.bytes ++ (chunk ++ List.replicate (space - chunk.length) 0) at result
      have whole : (filled.resize allocator (buffer.data.bytes.length + chunk.length)).bytes = buffer.data.bytes ++ chunk := by
        rw [bytes_resize_of_le, result, ← List.append_assoc, ← List.length_append]
        · exact List.take_left
        · rw [result, List.length_append, List.length_append]
          omega
      obtain ⟨next, received, extracted, same, framing, explains⟩ :=
        extract_framing allocator { prepared with data := filled.resize allocator (buffer.data.bytes.length + chunk.length) }
      rw [options] at framing explains same
      rw [whole] at framing
      refine ⟨next, received, ?_, same, framing, explains⟩
      have room : ¬ space < chunk.length := Nat.not_lt.mpr fits
      rw [WorkingBuffer.receive, appended]
      simp only [show AppendContext.fill _ _ chunk = _ from written, AppendContext.commit, AppendContext.destroy, Bool.false_eq_true, if_false,
        if_neg room, if_true]
      exact extracted
    | abandoned chunk =>
      have whole : (filled.resize allocator buffer.data.bytes.length).bytes = buffer.data.bytes := by
        rw [bytes_resize_of_le, result]
        · exact List.take_left
        · rw [result, List.length_append]
          omega
      obtain ⟨next, received, extracted, same, framing, explains⟩ :=
        extract_framing allocator { prepared with data := filled.resize allocator buffer.data.bytes.length }
      rw [options] at framing explains same
      rw [whole, ← List.append_nil buffer.data.bytes] at framing
      refine ⟨next, received, ?_, same, framing, explains⟩
      rw [WorkingBuffer.receive, appended]
      simp only [show AppendContext.fill _ _ chunk = _ from written, AppendContext.destroy, Bool.false_eq_true, if_false]
      exact extracted
  · left
    have long := Nat.not_le.mp fits
    refine ⟨by omega, ?_⟩
    cases transfer with
    | committed chunk =>
      rw [WorkingBuffer.receive, appended]
      simp only [AppendContext.fill, Bool.false_eq_true, if_false, if_pos (show space < chunk.length from long)]
    | abandoned chunk =>
      rw [WorkingBuffer.receive, appended]
      simp only [AppendContext.fill, Bool.false_eq_true, if_false, if_pos (show space < chunk.length from long)]

/-- All transfers together frame the stream, or one of them is rejected. -/
theorem receiveAll_cases (transfers : List Transfer) (buffer : WorkingBuffer)
    (started : Framing buffer.options.maxPacketDataSize buffer.data.bytes [] buffer.data.bytes) :
    ((∃ transfer ∈ transfers, buffer.options.workingBufferSize / 2 < transfer.chunk.length) ∧
        buffer.receiveAll allocator transfers = .error (.append .moreThanReserved)) ∨
      ∃ next received, buffer.receiveAll allocator transfers = .ok (next, received) ∧ (received = [] → next = buffer) ∧
        Framing buffer.options.maxPacketDataSize (buffer.data.bytes ++ transfers.flatMap Transfer.streamed) (received.flatMap Received.packets)
          next.data.bytes ∧
        ∀ last ∈ received.getLast?, Explains buffer.options.maxPacketDataSize last.result next.data.bytes := by
  induction transfers generalizing buffer with
  | nil =>
    right
    refine ⟨buffer, [], rfl, fun _ => rfl, ?_, nofun⟩
    rw [List.flatMap_nil, List.append_nil]
    exact started
  | cons transfer transfers ih =>
    rcases receive_cases allocator buffer transfer with ⟨long, rejected⟩ | ⟨middle, first, received, options, framing, explains⟩
    · left
      refine ⟨⟨transfer, List.mem_cons_self, long⟩, ?_⟩
      rw [WorkingBuffer.receiveAll, rejected]
      rfl
    · have following := ih middle (by rw [options]; exact framing.empty)
      rw [options] at following
      rcases following with ⟨⟨other, member, long⟩, rejected⟩ | ⟨next, others, all, unchanged, rest, last⟩
      · left
        refine ⟨⟨other, List.mem_cons_of_mem _ member, long⟩, ?_⟩
        rw [WorkingBuffer.receiveAll, received]
        change (middle.receiveAll allocator transfers >>= _) = _
        rw [rejected]
        rfl
      · right
        refine ⟨next, first :: others, ?_, nofun, ?_, ?_⟩
        · rw [WorkingBuffer.receiveAll, received]
          change (middle.receiveAll allocator transfers >>= _) = _
          rw [all]
          rfl
        · rw [List.flatMap_cons, List.flatMap_cons, ← List.append_assoc]
          exact framing.append rest
        · cases others with
          | nil =>
            rw [unchanged rfl]
            rintro _ ⟨⟩
            exact explains
          | cons second others =>
            rw [List.getLast?_cons_cons]
            exact last

/-- The packets of a stream do not depend on how it is split and transferred. -/
theorem extraction_independent (options : PacketSocketOptions) (transfers : List Transfer) :
    ((∀ transfer ∈ transfers, transfer.chunk.length ≤ options.workingBufferSize / 2) →
      ∃ outcome, (WorkingBuffer.create allocator options).receiveAll allocator transfers = .ok outcome) ∧
    (∀ error, (WorkingBuffer.create allocator options).receiveAll allocator transfers = .error error → error = .append .moreThanReserved) ∧
    ∀ buffer received, (WorkingBuffer.create allocator options).receiveAll allocator transfers = .ok (buffer, received) →
      ∃ result extractor,
        PacketExtractor.extractAll (transfers.flatMap Transfer.streamed) ((transfers.flatMap Transfer.streamed).length + 1)
          ⟨options.maxPacketDataSize, 0⟩ = some (received.flatMap Received.packets, result, extractor) ∧
        Framing options.maxPacketDataSize (transfers.flatMap Transfer.streamed) (received.flatMap Received.packets) buffer.data.bytes ∧
        (result = .packetError ↔ InvalidHeader options.maxPacketDataSize buffer.data.bytes) ∧
        ∀ last ∈ received.getLast?, last.result = result := by
  have cases := receiveAll_cases allocator transfers (WorkingBuffer.create allocator options) (Framing.nil _)
  refine ⟨fun short => ?_, fun error failed => ?_, fun buffer received done => ?_⟩
  · rcases cases with ⟨⟨transfer, member, long⟩, -⟩ | ⟨next, received, all, -⟩
    · exact absurd (short transfer member) (Nat.not_le.mpr long)
    · exact ⟨_, all⟩
  · rcases cases with ⟨-, rejected⟩ | ⟨next, received, all, -⟩
    · rw [rejected] at failed
      exact (Except.error.inj failed).symm
    · rw [all] at failed
      cases failed
  · rcases cases with ⟨-, rejected⟩ | ⟨next, others, all, -, framing, last⟩
    · rw [rejected] at done
      cases done
    · rw [all] at done
      cases done
      change Framing options.maxPacketDataSize (transfers.flatMap Transfer.streamed) _ _ at framing
      obtain ⟨packets, result, consumed, extracted, whole, explains⟩ := @extractAll_framing options.maxPacketDataSize
        (transfers.flatMap Transfer.streamed) ((transfers.flatMap Transfer.streamed).length + 1) 0 (Nat.zero_le _) (Nat.lt_succ_self _)
      rw [List.drop_zero] at whole
      obtain ⟨rfl, rest⟩ := whole.unique framing
      rw [rest] at explains
      exact ⟨result, _, extracted, framing, explains.2, fun final member => (last final member).unique explains⟩

/-- A packet that is smaller than its header ends the stream. -/
theorem extraction_independent_invalid : ∃ buffer received,
    (WorkingBuffer.create ⟨fun _ size => size, fun _ _ => Nat.le_refl _⟩ ⟨16, 2, 3⟩).receiveAll ⟨fun _ size => size, fun _ _ => Nat.le_refl _⟩
        [.committed [8, 0, 0, 0, 1, 0, 0], .committed [0, 7], .committed [0, 0, 0, 2, 0, 0, 0]] = .ok (buffer, received) ∧
      received.flatMap Received.packets = [[8, 0, 0, 0, 1, 0, 0, 0]] ∧ InvalidHeader 3 buffer.data.bytes := by
  obtain ⟨short, _, all⟩ := extraction_independent ⟨fun _ size => size, fun _ _ => Nat.le_refl _⟩ ⟨16, 2, 3⟩
    [.committed [8, 0, 0, 0, 1, 0, 0], .committed [0, 7], .committed [0, 0, 0, 2, 0, 0, 0]]
  obtain ⟨⟨buffer, received⟩, done⟩ := short (by decide)
  obtain ⟨result, extractor, extracted, _, invalid, _⟩ := all buffer received done
  have packets : some (received.flatMap Received.packets) = some [[8, 0, 0, 0, 1, 0, 0, 0]] :=
    (congrArg (Option.map Prod.fst) extracted).symm
  have last : some result = some .packetError := (congrArg (Option.map (Prod.fst ∘ Prod.snd)) extracted).symm
  exact ⟨buffer, received, done, Option.some.inj packets, invalid.mp (Option.some.inj last)⟩

theorem written_wellFormed {sent received : Nat} (le : sent ≤ received) {payload : PacketPayload} (nonempty : payload.written sent ≠ []) :
    WellFormed received (payload.written sent) := by
  unfold PacketPayload.written at nonempty ⊢
  dsimp only at nonempty ⊢
  split_ifs at nonempty ⊢ with valid
  swap
  · exact absurd rfl nonempty
  have length : ∀ size, (Codec.word32.write size).length = 4 := Codec.word32.length_write
  have counted : (UInt32.ofNat (sizeofPacketHeader + payload.buffers.flatten.length)).toNat =
      sizeofPacketHeader + payload.buffers.flatten.length := UInt32.toNat_ofNat_of_lt' payload.counted
  have total : ∀ size, (Codec.word32.write size ++ (Codec.word32.write payload.packetType ++ payload.buffers.flatten)).length =
      sizeofPacketHeader + payload.buffers.flatten.length := fun size => by
    rw [List.length_append, List.length_append, length, length, ← Nat.add_assoc]
    rfl
  rw [WellFormed, total]
  refine ⟨?_, ?_⟩
  · rw [PacketExtractor.packetSize, List.drop_zero, List.take_left' (length _), Codec.word32.read_write, counted]
  · rw [isPacketDataSizeValid, Bool.and_eq_true, decide_eq_true_iff, decide_eq_true_iff] at valid ⊢
    exact ⟨valid.1, valid.2.trans le⟩

theorem framing_written {sent received : Nat} (le : sent ≤ received) (payloads : List PacketPayload) :
    Framing received (payloads.flatMap (PacketPayload.written sent)) ((payloads.map (PacketPayload.written sent)).filter (· ≠ [])) [] := by
  induction payloads with
  | nil => exact .nil _
  | cons payload payloads ih =>
    rw [List.flatMap_cons, List.map_cons, List.filter_cons]
    by_cases empty : payload.written sent = []
    · rw [if_neg (by simpa using empty), empty]
      exact ih
    · rw [if_pos (by simpa using empty)]
      exact ih.cons (written_wellFormed le empty)

/-- However the stream of a sender is split, exactly its written packets are received. -/
theorem written_packets_received (options : PacketSocketOptions) {sent : Nat} (le : sent ≤ options.maxPacketDataSize)
    (payloads : List PacketPayload) (transfers : List Transfer)
    (short : ∀ transfer ∈ transfers, transfer.chunk.length ≤ options.workingBufferSize / 2)
    (same : transfers.flatMap Transfer.streamed = payloads.flatMap (PacketPayload.written sent)) :
    ∃ buffer received, (WorkingBuffer.create allocator options).receiveAll allocator transfers = .ok (buffer, received) ∧
      received.flatMap Received.packets = (payloads.map (PacketPayload.written sent)).filter (· ≠ []) ∧ buffer.data.bytes = [] := by
  rcases receiveAll_cases allocator transfers (WorkingBuffer.create allocator options) (Framing.nil _) with
    ⟨⟨transfer, member, long⟩, -⟩ | ⟨buffer, received, all, -, framing, -⟩
  · exact absurd (short transfer member) (Nat.not_le.mpr long)
  · change Framing options.maxPacketDataSize (transfers.flatMap Transfer.streamed) _ _ at framing
    rw [same] at framing
    obtain ⟨packets, rest⟩ := framing.unique (framing_written le payloads)
    exact ⟨buffer, received, all, packets, rest⟩

/-- The second packet is too large and the last one is split. -/
theorem written_packets_received_split : ∃ buffer received,
    (WorkingBuffer.create ⟨fun _ size => size, fun _ _ => Nat.le_refl _⟩ ⟨16, 2, 3⟩).receiveAll ⟨fun _ size => size, fun _ _ => Nat.le_refl _⟩
        [.committed [8, 0, 0, 0, 1, 0, 0], .committed [0, 9], .committed [0, 0, 0, 2, 0, 0, 0, 7]] = .ok (buffer, received) ∧
      received.flatMap Received.packets = [[8, 0, 0, 0, 1, 0, 0, 0], [9, 0, 0, 0, 2, 0, 0, 0, 7]] ∧ buffer.data.bytes = [] :=
  written_packets_received _ ⟨16, 2, 3⟩ (by decide : 2 ≤ 3) [⟨1, [], by decide⟩, ⟨1, [[1], [2, 3]], by decide⟩, ⟨2, [[7]], by decide⟩]
    [.committed [8, 0, 0, 0, 1, 0, 0], .committed [0, 9], .committed [0, 0, 0, 2, 0, 0, 0, 7]] (by decide) (by decide)

end Catapult.Ionet
