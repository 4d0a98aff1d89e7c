import Catapult.Construction.Io.BlockSerializers
import Mathlib.Data.List.Chain
import Mathlib.Data.List.TakeWhile

/-
This file shows that block elements and block statements are read back as they were written.
-/

namespace Catapult.Io

open ByteStream

theorem readEntity_reads {headerSize : Nat} (large : 4 ≤ headerSize) (entity : SizePrefixedEntity headerSize) :
    Reads (readEntity headerSize) entity.bytes entity := by
  intro rest
  have complete := entity.complete
  have size : ofLittleEndian ((entity.bytes ++ rest).take 4) = entity.bytes.length := by
    rw [List.take_append_of_le_length (by omega), entity.sized]
  have available : headerSize ≤ ofLittleEndian ((entity.bytes ++ rest).take 4) ∧ 4 ≤ ofLittleEndian ((entity.bytes ++ rest).take 4) ∧
      ofLittleEndian ((entity.bytes ++ rest).take 4) ≤ (entity.bytes ++ rest).length := by
    rw [size, List.length_append]
    omega
  unfold readEntity
  dsimp only
  rw [dif_pos available]
  have front : (entity.bytes ++ rest).take (ofLittleEndian ((entity.bytes ++ rest).take 4)) = entity.bytes := by rw [size, List.take_left]
  have back : (entity.bytes ++ rest).drop (ofLittleEndian ((entity.bytes ++ rest).take 4)) = rest := by rw [size, List.drop_left]
  cases entity
  simp only [front, back]

theorem readHashes_reads {α : Type} (codec : Codec α) (values : List α) :
    Reads (readHashes codec values.length) (values.flatMap codec.write) values := by
  induction values with
  | nil => exact .pure []
  | cons value values ih =>
    have rest : Reads (do return value :: (← readHashes codec values.length)) (values.flatMap codec.write ++ []) (value :: values) :=
      ih.bind (.pure _)
    rw [List.append_nil] at rest
    exact (codec.reads _ value).bind rest

theorem count_toNat {count : Nat} (small : count < 2 ^ 32) : (UInt32.ofNat count).toNat = count :=
  UInt32.toNat_ofNat_of_lt' small

theorem readTransactionHashes_reads {format : BlockFormat} {element : BlockElement} (wellFormed : element.WellFormed format) :
    Reads (readTransactionHashes format element.block) (writeTransactionHashes element.transactions) element.transactions := by
  have small := wellFormed.numTransactions
  refine ((Codec.word32).reads _ _).bind ?_
  rw [count_toNat (by omega), ← List.append_nil (List.flatMap _ _)]
  refine (readHashes_reads _ _).bind ?_
  rw [← wellFormed.transactions, List.take_length]
  exact .pure _

theorem readSubCacheMerkleRoots_reads {roots : List Hash256} (small : roots.length < 2 ^ 32) :
    Reads readSubCacheMerkleRoots (writeSubCacheMerkleRoots roots) roots := by
  refine ((Codec.word32).reads _ _).bind ?_
  rw [count_toNat small]
  exact readHashes_reads _ _

/-- An element is read back without its statement. -/
theorem readBlockElement_reads {format : BlockFormat} {element : BlockElement} (wellFormed : element.WellFormed format) :
    Reads (readBlockElement format) (writeBlockElement element) { element with optionalStatement := none } := by
  unfold writeBlockElement
  rw [← List.append_nil (writeSubCacheMerkleRoots _)]
  simp only [List.append_assoc]
  refine (readEntity_reads (Nat.le_refl 4) element.block).bind ?_
  refine ((Codec.array 32).reads _ element.entityHash).bind ?_
  refine ((Codec.array 32).reads _ element.generationHash).bind ?_
  refine (readTransactionHashes_reads wellFormed).bind ?_
  exact (readSubCacheMerkleRoots_reads wellFormed.numRoots).bind (.pure _)

section Filling

variable {E : Type} {add : List E → E → Except FileError (List E)}

/-- Items that keep a property when they are added are added again in the same order. -/
structure Refills (add : List E → E → Except FileError (List E)) (good : List E → Prop) : Prop where
  nil : good []
  keep : ∀ items item next, good items → add items item = .ok next → good next
  front : ∀ items item, good (items ++ [item]) → good items
  again : ∀ items item, good (items ++ [item]) → add items item = .ok (items ++ [item])

theorem Refills.good_of_filled {good : List E → Prop} (refills : Refills add good) {inputs items : List E}
    (filled : inputs.foldlM add [] = .ok items) : good items := by
  have general : ∀ (inputs start items : List E), good start → inputs.foldlM add start = .ok items → good items := by
    intro inputs
    induction inputs with
    | nil =>
      intro start items initially ran
      cases ran
      exact initially
    | cons input inputs ih =>
      intro start items initially ran
      rw [List.foldlM_cons] at ran
      cases added : add start input with
      | error failure =>
        rw [added] at ran
        cases ran
      | ok next =>
        rw [added] at ran
        exact ih next items (refills.keep start input next initially added) ran
  exact general inputs [] items refills.nil filled

theorem Refills.refill {good : List E → Prop} (refills : Refills add good) {items : List E} (isGood : good items) :
    items.foldlM add [] = .ok items := by
  induction items using List.reverseRecOn with
  | nil => rfl
  | append_singleton items item ih =>
    rw [List.foldlM_append, ih (refills.front items item isGood)]
    change ([item].foldlM add items) = _
    rw [List.foldlM_cons, refills.again items item isGood]
    rfl

theorem receipts_refill : Refills addReceipt fun receipts => receipts.Pairwise fun first second => first.type ≤ second.type where
  nil := .nil
  keep receipts receipt next sorted added := by
    cases added
    have split : receipts.takeWhile (fun other => decide (other.type ≤ receipt.type)) ++
        receipts.dropWhile (fun other => decide (other.type ≤ receipt.type)) = receipts := List.takeWhile_append_dropWhile
    have parts : (receipts.takeWhile (fun other => decide (other.type ≤ receipt.type)) ++
        receipts.dropWhile (fun other => decide (other.type ≤ receipt.type))).Pairwise fun first second => first.type ≤ second.type := by
      rw [split]
      exact sorted
    obtain ⟨front, back, across⟩ := List.pairwise_append.mp parts
    have low : ∀ other ∈ receipts.takeWhile (fun other => decide (other.type ≤ receipt.type)), other.type ≤ receipt.type :=
      fun other member => by simpa using List.mem_takeWhile_imp member
    refine List.pairwise_append.mpr ⟨front, List.pairwise_cons.mpr ⟨fun other member => ?_, back⟩, fun first member second other => ?_⟩
    · cases rest : receipts.dropWhile (fun other => decide (other.type ≤ receipt.type)) with
      | nil =>
        rw [rest] at member
        cases member
      | cons first others =>
        have above : ¬ first.type ≤ receipt.type := by
          have head := List.head_dropWhile_not (fun other : Receipt => decide (other.type ≤ receipt.type))
            (by rw [rest]; exact List.cons_ne_nil _ _)
          simpa [rest] using head
        rw [rest] at member back
        rcases List.mem_cons.mp member with rfl | later
        · omega
        · have order := (List.pairwise_cons.mp back).1 other later
          omega
    · rcases List.mem_cons.mp other with rfl | later
      · exact low first member
      · exact across first member second later
  front receipts receipt sorted := (List.pairwise_append.mp sorted).1
  again receipts receipt sorted := by
    have low : ∀ other ∈ receipts, decide (other.type ≤ receipt.type) = true := fun other member =>
      decide_eq_true ((List.pairwise_append.mp sorted).2.2 other member receipt List.mem_cons_self)
    rw [addReceipt, List.takeWhile_eq_self_iff.mpr low, List.dropWhile_eq_nil_iff.mpr low]

theorem resolutions_refill {V : Type} [DecidableEq V] : Refills (@addResolution V _) fun entries =>
    entries.IsChain fun first second => ¬ second.source < first.source ∧ second.resolvedValue ≠ first.resolvedValue where
  nil := .nil
  keep entries entry next chain added := by
    unfold addResolution at added
    cases last : entries.getLast? with
    | none =>
      rw [last] at added
      cases added
      exact .singleton _
    | some previous =>
      rw [last] at added
      dsimp only at added
      split at added
      · cases added
      · next ordered =>
        split at added
        · cases added
          exact chain
        · next different =>
          cases added
          refine List.isChain_append.mpr ⟨chain, .singleton _, fun first isLast second isHead => ?_⟩
          rw [last] at isLast
          cases isLast
          cases isHead
          exact ⟨ordered, different⟩
  front entries entry chain := (List.isChain_append.mp chain).1
  again entries entry chain := by
    have across := (List.isChain_append.mp chain).2.2
    unfold addResolution
    cases last : entries.getLast? with
    | none => rw [List.getLast?_eq_none_iff.mp last, List.nil_append]
    | some previous =>
      obtain ⟨ordered, different⟩ := across previous last entry rfl
      dsimp only
      rw [if_neg ordered, if_neg different]

end Filling

variable {K E : Type} [LinearOrder K] {kind : StatementKind K E}

omit [LinearOrder K] in
theorem readItems_reads (itemReads : ∀ item, Reads kind.readItem (kind.writeItem item) item) {items front filled : List E}
    (fills : items.foldlM kind.addItem front = .ok filled) :
    Reads (kind.readItems items.length front) (items.flatMap kind.writeItem) filled := by
  induction items generalizing front with
  | nil =>
    cases fills
    exact .pure _
  | cons item items ih =>
    rw [List.foldlM_cons] at fills
    cases added : kind.addItem front item with
    | error failure =>
      rw [added] at fills
      cases fills
    | ok next =>
      rw [added] at fills
      exact (itemReads item).bind (.lift added (ih fills))

theorem readStatement_reads (itemReads : ∀ item, Reads kind.readItem (kind.writeItem item) item) {statement : K × List E}
    (small : statement.2.length < 2 ^ 32) (fills : statement.2.foldlM kind.addItem [] = .ok statement.2) (front : List (K × List E)) :
    Reads (kind.readStatement front) (kind.writeStatement statement) (SortedMap.insert statement front) := by
  unfold StatementKind.writeStatement
  rw [List.append_assoc, ← List.append_nil (List.flatMap _ _)]
  refine (kind.key.reads _ statement.1).bind ((Codec.word32.reads _ _).bind ?_)
  rw [count_toNat small]
  exact (readItems_reads itemReads fills).bind (.pure _)

theorem insert_above {front : List (K × List E)} {statement : K × List E} (above : ∀ other ∈ front, other.1 < statement.1) :
    SortedMap.insert statement front = front ++ [statement] := by
  have absent : ¬ (front.any fun other => decide (other.1 = statement.1)) = true := by
    rw [List.any_eq_true]
    rintro ⟨other, member, same⟩
    exact ne_of_lt (above other member) (of_decide_eq_true same)
  rw [SortedMap.insert, if_neg absent]
  have placed := @SortedMap.place_append _ _ _ statement front [] above
  rwa [List.append_nil] at placed

theorem readStatements_reads (itemReads : ∀ item, Reads kind.readItem (kind.writeItem item) item) {good : List E → Prop}
    (refills : Refills kind.addItem good) {statements : List (K × List E)} (wellFormed : kind.WellFormed statements) :
    Reads kind.readStatements (kind.writeStatements statements) statements := by
  have general : ∀ front back, front ++ back = statements →
      Reads (kind.readAll back.length front) (back.flatMap kind.writeStatement) statements := by
    intro front back split
    induction back generalizing front with
    | nil =>
      rw [← split, List.append_nil]
      exact .pure _
    | cons statement back ih =>
      have member : statement ∈ statements := by rw [← split]; exact List.mem_append_right _ List.mem_cons_self
      have above : ∀ other ∈ front, other.1 < statement.1 := by
        have ascending := wellFormed.ascending
        rw [← split] at ascending
        exact fun other inFront => (List.pairwise_append.mp ascending).2.2 other inFront statement List.mem_cons_self
      obtain ⟨inputs, filled⟩ := wellFormed.filled statement member
      have fills := refills.refill (refills.good_of_filled filled)
      have first := readStatement_reads itemReads (wellFormed.numItems statement member) fills front
      rw [insert_above above] at first
      exact first.bind (ih (front ++ [statement]) (by rw [List.append_assoc]; exact split))
  unfold StatementKind.writeStatements
  refine (Codec.word32.reads _ _).bind ?_
  rw [count_toNat wellFormed.numStatements]
  exact general [] statements rfl

theorem readBlockStatement_reads {statement : BlockStatement} (wellFormed : statement.WellFormed) :
    Reads readBlockStatement (writeBlockStatement statement) statement := by
  unfold writeBlockStatement
  rw [List.append_assoc, ← List.append_nil (StatementKind.mosaicResolution.writeStatements _)]
  refine (readStatements_reads (readEntity_reads (by decide)) receipts_refill wellFormed.transactionStatements).bind ?_
  refine (readStatements_reads ((ResolutionEntry.codec _).reads _) resolutions_refill wellFormed.addressResolutionStatements).bind ?_
  exact (readStatements_reads ((ResolutionEntry.codec _).reads _) resolutions_refill wellFormed.mosaicResolutionStatements).bind (.pure _)

end Catapult.Io
