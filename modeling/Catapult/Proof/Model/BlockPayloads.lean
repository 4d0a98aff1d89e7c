import Catapult.Construction.Model.BlockUtils
import Catapult.Proof.Model.EntityIteration

/-
This file shows that a block gives back the transactions it was built from.
-/

namespace Catapult.Model

open ByteStream
open State (Key)

namespace Transaction

def padding (transaction : Transaction) : Nat := getPaddingSize transaction.size.toNat 8

def padded (transaction : Transaction) : Nat := transaction.size.toNat + transaction.padding

end Transaction

/-- All transactions but the last one are followed by zeros. -/
def payloadOf : List Transaction → List UInt8
  | [] => []
  | [last] => last.bytes
  | transaction :: next :: rest => transaction.bytes ++ List.replicate transaction.padding 0 ++ payloadOf (next :: rest)

def paddedTotal (transactions : List Transaction) : Nat := (transactions.map Transaction.padded).sum

def lastPadding (transactions : List Transaction) : Nat := (transactions.getLast?.map Transaction.padding).getD 0

theorem length_payloadOf (transactions : List Transaction) : (payloadOf transactions).length + lastPadding transactions = paddedTotal transactions := by
  induction transactions using payloadOf.induct with
  | case1 => rfl
  | case2 last =>
    rw [payloadOf, last.complete]
    exact (Nat.add_zero _).symm
  | case3 transaction next rest ih =>
    have total : paddedTotal (transaction :: next :: rest) = transaction.padded + paddedTotal (next :: rest) := List.sum_cons
    have last : lastPadding (transaction :: next :: rest) = lastPadding (next :: rest) := by
      rw [lastPadding, List.getLast?_cons_cons]
      rfl
    rw [payloadOf, List.length_append, List.length_append, List.length_replicate, transaction.complete, total, last, ← ih, Transaction.padded]
    omega

theorem payload_pos {transactions : List Transaction} (some : transactions ≠ []) : 0 < (payloadOf transactions).length := by
  cases transactions with
  | nil => exact absurd rfl some
  | cons transaction rest =>
    have wide := transaction.wide
    have bytes : transaction.bytes.length ≤ (payloadOf (transaction :: rest)).length := by
      cases rest with
      | nil => exact Nat.le_refl _
      | cons next rest =>
        rw [payloadOf, List.length_append, List.length_append]
        omega
    rw [transaction.complete] at bytes
    unfold sizeofTransaction at wide
    omega

/-- Every transaction takes some bytes. -/
theorem length_le_paddedTotal (transactions : List Transaction) : transactions.length ≤ paddedTotal transactions := by
  induction transactions with
  | nil => exact Nat.zero_le _
  | cons transaction rest ih =>
    have wide := transaction.wide
    have total : paddedTotal (transaction :: rest) = transaction.padded + paddedTotal rest := List.sum_cons
    rw [List.length_cons, total, Transaction.padded]
    unfold sizeofTransaction at wide
    omega

/-- Equal bytes are padded in the same way. -/
theorem payloadOf_congr {first second : List Transaction} (same : first.map Transaction.bytes = second.map Transaction.bytes) :
    payloadOf first = payloadOf second := by
  induction first using payloadOf.induct generalizing second with
  | case1 =>
    rw [List.map_nil] at same
    rw [List.map_eq_nil_iff.mp same.symm]
  | case2 last =>
    cases second with
    | nil => cases same
    | cons other others =>
      obtain ⟨bytes, tail⟩ := List.cons.inj same
      rw [List.map_eq_nil_iff.mp tail.symm]
      exact bytes
  | case3 transaction next rest ih =>
    cases second with
    | nil => cases same
    | cons other others =>
      obtain ⟨bytes, tail⟩ := List.cons.inj same
      have sizes : transaction.padding = other.padding := by
        rw [Transaction.padding, Transaction.padding, ← transaction.complete, ← other.complete, bytes]
      cases others with
      | nil => cases tail
      | cons another others => rw [payloadOf, payloadOf, bytes, sizes, ih tail]

theorem foldl_addSize (transactions : List Transaction) (sizes : UInt32 × UInt32) : transactions.foldl addSize sizes =
      (sizes.1 + UInt32.ofNat (paddedTotal transactions),
        if transactions = [] then sizes.2 else UInt32.ofNat (lastPadding transactions)) := by
  induction transactions generalizing sizes with
  | nil =>
    rw [if_pos rfl]
    exact Prod.ext (UInt32.add_zero _).symm rfl
  | cons transaction rest ih =>
    have total : paddedTotal (transaction :: rest) = transaction.padded + paddedTotal rest := List.sum_cons
    rw [List.foldl_cons, ih, if_neg (List.cons_ne_nil _ _)]
    refine Prod.ext ?_ ?_
    · change sizes.1 + (transaction.size + UInt32.ofNat transaction.padding) + UInt32.ofNat (paddedTotal rest) = _
      rw [total, Transaction.padded, UInt32.ofNat_add, UInt32.ofNat_add, UInt32.ofNat_toNat, UInt32.add_assoc]
    · cases rest with
      | nil => rfl
      | cons next rest =>
        rw [if_neg (List.cons_ne_nil _ _), lastPadding, lastPadding, List.getLast?_cons_cons]

theorem calculateTotalSize_toNat {transactions : List Transaction} (fits : paddedTotal transactions < 2 ^ 32) :
    (calculateTotalSize transactions).toNat = (payloadOf transactions).length := by
  have length := length_payloadOf transactions
  rw [calculateTotalSize, foldl_addSize]
  cases transactions with
  | nil => rfl
  | cons transaction rest =>
    rw [if_neg (List.cons_ne_nil _ _)]
    change (0 + UInt32.ofNat (paddedTotal (transaction :: rest)) - UInt32.ofNat (lastPadding (transaction :: rest))).toNat = _
    have total : (UInt32.ofNat (paddedTotal (transaction :: rest))).toNat = paddedTotal (transaction :: rest) :=
      UInt32.toNat_ofNat_of_lt' fits
    have last : (UInt32.ofNat (lastPadding (transaction :: rest))).toNat = lastPadding (transaction :: rest) :=
      UInt32.toNat_ofNat_of_lt' (show _ < 2 ^ 32 by omega)
    rw [UInt32.zero_add, UInt32.toNat_sub_of_le _ _ (UInt32.le_iff_toNat_le.mpr (by rw [total, last]; omega)), total, last]
    omega

/-- The written bytes are followed by memory that is not initialized. -/
theorem writeMemory_next (written bytes : List UInt8) {rest : Nat} (room : bytes.length ≤ rest) :
    writeMemory (written.map some ++ List.replicate rest none) (some written.length) bytes =
      .ok ((written ++ bytes).map some ++ List.replicate (rest - bytes.length) none) := by
  have start : (written.map (some : UInt8 → Option UInt8)).length = written.length := List.length_map _
  have inside : written.length + bytes.length ≤ (written.map some ++ List.replicate rest (none : Option UInt8)).length := by
    rw [List.length_append, start, List.length_replicate]
    omega
  have after : (written.map some ++ List.replicate rest none).drop (written.length + bytes.length) =
      List.replicate (rest - bytes.length) (none : Option UInt8) := by
    rw [← start, List.drop_length_add_append, List.drop_replicate]
  rw [writeMemory]
  change (if _ then _ else _) = _
  rw [if_pos inside, after, List.take_left' start, List.map_append]

/-- The rounds have copied the transactions up to the position. -/
def Copied (transactions : List Transaction) (position : Nat) (state : Memory × Option Nat) : Prop :=
  position ≤ transactions.length ∧ ∃ written, written ++ payloadOf (transactions.drop position) = payloadOf transactions ∧
    state = (written.map some ++ List.replicate (payloadOf (transactions.drop position)).length none, some written.length)

theorem copyRound_last {transactions : List Transaction} {index : UInt32} {transaction : Transaction}
    (found : transactions[index.toNat]? = some transaction) (final : ¬ index.toNat < transactions.length - 1) (written : List UInt8) {rest : Nat}
    (room : transaction.bytes.length ≤ rest) :
    copyRound transactions index (written.map some ++ List.replicate rest none, some written.length) =
      .ok ((written ++ transaction.bytes).map some ++ List.replicate (rest - transaction.bytes.length) none,
        some (written ++ transaction.bytes).length) := by
  rw [copyRound, found]
  change (writeMemory (written.map some ++ List.replicate rest none) (some written.length) transaction.bytes >>= _) = _
  rw [writeMemory_next written transaction.bytes room]
  change (if index.toNat < transactions.length - 1 then _ else _) = _
  rw [if_neg final, List.length_append, transaction.complete]
  rfl

theorem copyRound_padded {transactions : List Transaction} {index : UInt32} {transaction : Transaction}
    (found : transactions[index.toNat]? = some transaction) (more : index.toNat < transactions.length - 1) (written : List UInt8) {rest : Nat}
    (room : transaction.bytes.length + transaction.padding ≤ rest) :
    copyRound transactions index (written.map some ++ List.replicate rest none, some written.length) =
      .ok ((written ++ (transaction.bytes ++ List.replicate transaction.padding 0)).map some ++
          List.replicate (rest - transaction.bytes.length - transaction.padding) none,
        some (written ++ (transaction.bytes ++ List.replicate transaction.padding 0)).length) := by
  have zeros : (List.replicate transaction.padding (0 : UInt8)).length = transaction.padding := List.length_replicate
  have padded := writeMemory_next (written ++ transaction.bytes) (List.replicate transaction.padding 0)
    (show (List.replicate transaction.padding (0 : UInt8)).length ≤ rest - transaction.bytes.length by omega)
  rw [copyRound, found]
  change (writeMemory (written.map some ++ List.replicate rest none) (some written.length) transaction.bytes >>= _) = _
  rw [writeMemory_next written transaction.bytes (by omega)]
  change (if index.toNat < transactions.length - 1 then _ else _) = _
  have start : (written ++ transaction.bytes).length = written.length + transaction.size.toNat := by rw [List.length_append, transaction.complete]
  rw [if_pos more]
  rw [start, zeros] at padded
  change (writeMemory _ (some (written.length + transaction.size.toNat)) (List.replicate transaction.padding 0) >>= _) = _
  rw [padded, ← List.append_assoc written, @List.length_append _ (written ++ transaction.bytes), start, zeros]
  rfl

theorem Copied.round {transactions : List Transaction} {index : UInt32} {state : Memory × Option Nat}
    (copied : Copied transactions index.toNat state) (below : index.toNat < transactions.length) :
    ∃ next, copyRound transactions index state = .ok next ∧ Copied transactions (index.toNat + 1) next := by
  obtain ⟨-, written, joined, rfl⟩ := copied
  have split := List.drop_eq_getElem_cons below
  have found := List.getElem?_eq_getElem below
  generalize transactions[index.toNat] = transaction at split found
  have length : (transactions.drop (index.toNat + 1)).length = transactions.length - (index.toNat + 1) := List.length_drop
  rw [split] at joined ⊢
  cases later : transactions.drop (index.toNat + 1) with
  | nil =>
    rw [later, List.length_nil] at length
    rw [later, payloadOf] at joined
    rw [payloadOf]
    refine ⟨_, copyRound_last found (by omega) written (Nat.le_refl _), by omega, written ++ transaction.bytes, ?_, ?_⟩
    · rw [later, payloadOf, List.append_nil, joined]
    · rw [later, payloadOf, Nat.sub_self]
      rfl
  | cons next rest =>
    rw [later, List.length_cons] at length
    rw [later, payloadOf] at joined
    have zeros : (List.replicate transaction.padding (0 : UInt8)).length = transaction.padding := List.length_replicate
    rw [payloadOf, List.length_append, List.length_append, zeros]
    refine ⟨_, copyRound_padded found (by omega) written (by omega), by omega,
      written ++ (transaction.bytes ++ List.replicate transaction.padding 0), ?_, ?_⟩
    · rw [later, List.append_assoc, joined]
    · rw [later]
      congr 4
      omega

/-- The payload of a block is written as a whole. -/
theorem copyTransactions_eq {transactions : List Transaction} (countable : transactions.length < 2 ^ 32) (destination : Option Nat)
    (start : transactions ≠ [] → destination = some 0) :
    copyTransactions (List.replicate (payloadOf transactions).length none) destination transactions = .ok ((payloadOf transactions).map some) := by
  by_cases empty : transactions = []
  · subst empty
    rfl
  · obtain ⟨final, position, ran, outside, -, written, joined, rfl⟩ :=
      @CountedLoop.run_invariant _ _ .endless transactions.length 1 (copyRound transactions) (Copied transactions) (by decide)
        (fun index state below copied => by
          obtain ⟨next, stepped, following⟩ := copied.round below
          exact ⟨by change index.toNat + 1 < _; omega, next, stepped, following⟩)
        0 (List.replicate (payloadOf transactions).length none, some 0)
        ⟨Nat.zero_le _, [], rfl, rfl⟩
    have all : transactions.drop position = [] := List.drop_eq_nil_of_le outside
    rw [all, payloadOf, List.append_nil] at joined
    rw [copyTransactions, start empty, ran, all, payloadOf, joined]
    exact congrArg Except.ok (List.append_nil _)

/-- Every transaction starts behind the padding of the one before it. -/
def offsetsFrom (start : Nat) : List Transaction → List Nat
  | [] => []
  | transaction :: rest => start :: offsetsFrom (start + transaction.padded) rest

/-- The bytes of an entity are as many as its size says. -/
def entityAt (buffer : List UInt8) (offset : Nat) : Except IterationError (List UInt8) := do
  let size ← readSize buffer offset
  return (buffer.drop offset).take size

/-- The size of a transaction is read from its bytes wherever they lie. -/
theorem readSize_transaction (front rest : List UInt8) (transaction : Transaction) :
    readSize (front ++ (transaction.bytes ++ rest)) front.length = .ok transaction.size.toNat := by
  have wide := transaction.wide
  have complete := transaction.complete
  unfold sizeofTransaction at wide
  have inside : front.length + 4 ≤ (front ++ (transaction.bytes ++ rest)).length := by
    rw [List.length_append, List.length_append]
    omega
  rw [readSize, if_pos inside, List.drop_left, List.take_append_of_le_length (by omega), transaction.sized, Codec.read_write]

theorem entityAt_transaction (front rest : List UInt8) (transaction : Transaction) :
    entityAt (front ++ (transaction.bytes ++ rest)) front.length = .ok transaction.bytes := by
  rw [entityAt, readSize_transaction, List.drop_left]
  exact congrArg Except.ok (List.take_left' transaction.complete)

theorem entity_transaction (front rest : List UInt8) (transaction : Transaction) :
    EntityAt sizeofTransaction (front ++ (transaction.bytes ++ rest)) front.length transaction.size.toNat := by
  have wide := transaction.wide
  have complete := transaction.complete
  have length : (front ++ (transaction.bytes ++ rest)).length = front.length + (transaction.bytes.length + rest.length) := by
    rw [List.length_append, List.length_append]
  refine ⟨?_, readSize_transaction front rest transaction, wide, by omega⟩
  unfold sizeofTransaction at wide
  omega

/-- The payload is tiled by the transactions it was written from. -/
theorem tiles_payload (transactions : List Transaction) (front : List UInt8) :
    Tiles sizeofTransaction (front ++ payloadOf transactions) front.length (offsetsFrom front.length transactions) ∧
      (offsetsFrom front.length transactions).map (entityAt (front ++ payloadOf transactions)) =
        transactions.map fun transaction => .ok transaction.bytes := by
  induction transactions using payloadOf.induct generalizing front with
  | case1 =>
    rw [payloadOf, List.append_nil]
    exact ⟨.finish, rfl⟩
  | case2 last =>
    have entity := entity_transaction front [] last
    have read := entityAt_transaction front [] last
    rw [List.append_nil] at entity read
    rw [payloadOf]
    refine ⟨.last entity ?_, ?_⟩
    · rw [List.length_append, last.complete]
    · rw [offsetsFrom, offsetsFrom, List.map_singleton, List.map_singleton, read]
  | case3 transaction next rest ih =>
    have entity := entity_transaction front (List.replicate transaction.padding 0 ++ payloadOf (next :: rest)) transaction
    have read := entityAt_transaction front (List.replicate transaction.padding 0 ++ payloadOf (next :: rest)) transaction
    obtain ⟨tiles, entities⟩ := ih (front ++ (transaction.bytes ++ List.replicate transaction.padding 0))
    have joined : front ++ (transaction.bytes ++ List.replicate transaction.padding 0) ++ payloadOf (next :: rest) =
        front ++ payloadOf (transaction :: next :: rest) := by rw [payloadOf, List.append_assoc]
    have length : (front ++ (transaction.bytes ++ List.replicate transaction.padding 0)).length = front.length + transaction.padded := by
      rw [List.length_append, List.length_append, List.length_replicate, transaction.complete, Transaction.padded]
    rw [joined, length] at tiles entities
    rw [← List.append_assoc transaction.bytes] at entity read
    have start : offsetsFrom front.length (transaction :: next :: rest) =
        front.length :: offsetsFrom (front.length + transaction.padded) (next :: rest) := rfl
    rw [start]
    refine ⟨.next entity ?_, ?_⟩
    · rwa [Nat.add_assoc]
    · rw [List.map_cons, List.map_cons, entities]
      exact congrArg (· :: _) read

theorem mapM_written (bytes : List UInt8) : ((bytes.map some).mapM id : Option (List UInt8)) = some bytes := by
  induction bytes with
  | nil => rfl
  | cons byte rest ih =>
    rw [List.map_cons, List.mapM_cons, ih]
    rfl

/-- A block reports no error and yields the given transactions. -/
def GivesBack (block : Block) (headerSize : UInt32) (transactions : List Transaction) : Prop :=
  block.payload = (payloadOf transactions).map some ∧ block.header.size.toNat = headerSize.toNat + block.payload.length ∧
    ∀ errorPolicy, ∃ container offsets final, block.transactions errorPolicy = some container ∧
      container.iterate sizeofTransaction = .ok (offsets, final) ∧ final.hasError = false ∧
      offsets.map (entityAt container.buffer) = transactions.map fun transaction => .ok transaction.bytes

theorem headerSize_le (type : EntityType) : sizeofBlockHeader ≤ getBlockHeaderSize type ∧ (getBlockHeaderSize type).toNat ≤ 4060 := by
  unfold getBlockHeaderSize
  cases isImportanceBlock type <;> decide

theorem transactions_of_payload {block : Block} {transactions : List Transaction} (payload : block.payload = (payloadOf transactions).map some)
    (rest : getTransactionPayloadSize block.header = (payloadOf transactions).length)
    (start : transactions ≠ [] → transactionsPtr block.header = some 0) (errorPolicy : EntityContainerErrorPolicy) :
    block.transactions errorPolicy = some ⟨payloadOf transactions, errorPolicy⟩ := by
  by_cases empty : transactions = []
  · subst empty
    have null : transactionsPtr block.header = none := if_pos (.inr rest)
    rw [Block.transactions, null]
    rfl
  · have whole : block.payload.length ≤ getTransactionPayloadSize block.header := by rw [payload, List.length_map, rest]
    rw [Block.transactions, start empty]
    change (List.mapM id (List.take (getTransactionPayloadSize block.header) (block.payload.drop 0)) >>= _) = _
    rw [List.drop_zero, List.take_of_length_le whole, payload, mapM_written]
    rfl

theorem fillBlock_givesBack {header : BlockHeader} {transactions : List Transaction}
    (fits : (getBlockHeaderSize header.type).toNat + paddedTotal transactions < 2 ^ 32)
    (size : header.size = getBlockHeaderSize header.type + calculateTotalSize transactions) :
    ∃ block, fillBlock header (getBlockHeaderSize header.type) transactions = .ok block ∧ block.header = header ∧
      GivesBack block (getBlockHeaderSize header.type) transactions := by
  have payload := @calculateTotalSize_toNat transactions (by omega)
  have length := length_payloadOf transactions
  have total : header.size.toNat = (getBlockHeaderSize header.type).toNat + (payloadOf transactions).length := by
    rw [size, UInt32.toNat_add, payload]
    exact Nat.mod_eq_of_lt (by omega)
  have wide := UInt32.le_iff_toNat_le.mp (headerSize_le header.type).1
  have rest : getTransactionPayloadSize header = (payloadOf transactions).length := by
    rw [getTransactionPayloadSize, UInt32.toNat_sub_of_le _ _ (UInt32.le_iff_toNat_le.mpr (by omega))]
    omega
  have start : transactions ≠ [] → transactionsPtr header = some 0 := by
    intro nonempty
    have positive := payload_pos nonempty
    rw [transactionsPtr, rest, if_neg]
    rw [not_or, UInt32.le_iff_toNat_le]
    omega
  have countable := length_le_paddedTotal transactions
  have large : ¬ header.size < sizeofBlockHeader := by
    rw [UInt32.lt_iff_toNat_lt]
    omega
  have larger : ¬ header.size < getBlockHeaderSize header.type := by
    rw [UInt32.lt_iff_toNat_lt]
    omega
  have copied := copyTransactions_eq (show transactions.length < 2 ^ 32 by omega) (transactionsPtr header) start
  refine ⟨⟨header, List.replicate (getBlockHeaderSize header.type - sizeofBlockHeader).toNat 0, (payloadOf transactions).map some⟩, ?_, rfl, rfl, ?_, ?_⟩
  · rw [fillBlock, if_neg large, if_neg larger, total, Nat.add_sub_cancel_left]
    change (copyTransactions _ _ _ >>= _) = _
    rw [copied]
    rfl
  · rw [total, List.length_map]
  · intro errorPolicy
    have positive : 0 < sizeofTransaction := by decide
    obtain ⟨tiles, entities⟩ := tiles_payload transactions []
    obtain ⟨outcome, runs, -, visited⟩ := allOf_tiles positive tiles fun _ => true
    rw [List.nil_append] at tiles entities runs visited
    refine ⟨⟨payloadOf transactions, errorPolicy⟩, offsetsFrom 0 transactions, ⟨(payloadOf transactions).length, false⟩,
      @transactions_of_payload ⟨header, _, (payloadOf transactions).map some⟩ transactions rfl rest start errorPolicy, ?_, rfl, entities⟩
    rw [ContiguousEntityContainer.iterate, runs errorPolicy, visited fun _ => rfl]
    rfl

/-- Created and stitched blocks of every type give back their transactions, and equal transactions have equal payloads. -/
theorem blocks_giveBack (publicKeyToAddress : Key → UInt8 → Address) :
    (∀ (blockType : EntityType) (context : PreviousBlockContext) (networkIdentifier : UInt8) (signerPublicKey : Key)
        (transactions : List Transaction), (getBlockHeaderSize blockType).toNat + paddedTotal transactions < 2 ^ 32 →
      ∃ block, createBlock publicKeyToAddress blockType context networkIdentifier signerPublicKey transactions = .ok block ∧
        block.header.type = blockType ∧ GivesBack block (getBlockHeaderSize blockType) transactions) ∧
      (∀ (blockHeader : BlockHeader) (transactions : List Transaction), (getBlockHeaderSize blockHeader.type).toNat + paddedTotal transactions < 2 ^ 32 →
        ∃ block, stitchBlock blockHeader transactions = .ok block ∧
          block.header.type = blockHeader.type ∧ GivesBack block (getBlockHeaderSize blockHeader.type) transactions) ∧
      ∀ first second headerSize headerSize' transactions transactions', GivesBack first headerSize transactions →
        GivesBack second headerSize' transactions' → transactions.map Transaction.bytes = transactions'.map Transaction.bytes →
        first.payload = second.payload := by
  refine ⟨fun blockType context networkIdentifier signerPublicKey transactions fits => ?_, fun blockHeader transactions fits => ?_, ?_⟩
  · obtain ⟨block, filled, same, givesBack⟩ := @fillBlock_givesBack
      { BlockHeader.zero with
        size := getBlockHeaderSize blockType + calculateTotalSize transactions
        signerPublicKey := signerPublicKey
        version := 1
        network := networkIdentifier
        type := blockType
        height := context.blockHeight + 1
        difficulty := defaultDifficulty
        previousBlockHash := context.blockHash
        beneficiaryAddress := publicKeyToAddress signerPublicKey networkIdentifier } transactions fits rfl
    exact ⟨block, filled, by rw [same], givesBack⟩
  · obtain ⟨block, filled, same, givesBack⟩ := @fillBlock_givesBack
      { blockHeader with size := getBlockHeaderSize blockHeader.type + calculateTotalSize transactions } transactions fits rfl
    exact ⟨block, filled, by rw [same], givesBack⟩
  · intro first second headerSize headerSize' transactions transactions' left right same
    rw [left.1, right.1, payloadOf_congr same]

theorem length_headerTransaction : (Codec.word32.write 3764 ++ List.replicate 3760 0).length = (3764 : UInt32).toNat := by
  rw [List.length_append, List.length_replicate, Codec.word32.length_write]
  rfl

theorem take_headerTransaction : (Codec.word32.write 3764 ++ List.replicate 3760 0).take 4 = Codec.word32.write 3764 :=
  List.take_left' (Codec.word32.length_write 3764)

/-- A transaction that consists of its header. -/
def headerTransaction : Transaction := ⟨3764, _, length_headerTransaction, take_headerTransaction, Nat.le_refl 3764⟩

/-- The padded transactions of a nemesis block follow its larger header. -/
theorem blocks_giveBack_nemesis : ∃ block,
    createBlock (fun _ _ => Vector.replicate 24 0) entityTypeBlockNemesis ⟨Vector.replicate 32 1, Vector.replicate 32 2, 0, 0⟩ 104
        (Vector.replicate 1312 3) [headerTransaction, headerTransaction] = .ok block ∧
      GivesBack block (getBlockHeaderSize entityTypeBlockNemesis) [headerTransaction, headerTransaction] ∧ block.payload.length = 7532 := by
  obtain ⟨block, created, _, givesBack⟩ := (blocks_giveBack fun _ _ => Vector.replicate 24 0).1 entityTypeBlockNemesis
    ⟨Vector.replicate 32 1, Vector.replicate 32 2, 0, 0⟩ 104 (Vector.replicate 1312 3) [headerTransaction, headerTransaction] (by decide)
  have total := length_payloadOf [headerTransaction, headerTransaction]
  rw [show lastPadding [headerTransaction, headerTransaction] = 4 from rfl] at total
  exact ⟨block, created, givesBack, by rw [givesBack.1, List.length_map]; exact Nat.add_right_cancel (total.trans rfl)⟩

end Catapult.Model
