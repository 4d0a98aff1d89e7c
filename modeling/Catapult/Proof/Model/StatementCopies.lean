import Catapult.Construction.Model.BlockStatementBuilder
import Catapult.Proof.Io.BlockSerialization

/-
This file shows what additions to statements change and which statements a copy keeps.
-/

namespace Catapult.Model

open ByteStream Io

section Additions

variable {K E : Type} [LinearOrder K] {kind : StatementKind K E} {good : List E → Prop} {statements next : List (K × List E)} {key : K} {item : E}

/-- The items of a key without a statement are empty. -/
def itemsOf (statements : List (K × List E)) (key : K) : List E := (SortedMap.find key statements).elim [] Prod.snd

/-- An addition keeps the other items, and good statements are filled again by their items. -/
structure Fills (kind : StatementKind K E) (good : List E → Prop) : Prop where
  refills : Refills kind.addItem good
  mem : ∀ items item next, kind.addItem items item = .ok next → ∀ other ∈ next, other = item ∨ other ∈ items
  nonempty : ∀ items item next, kind.addItem items item = .ok next → next ≠ []

/-- The keys are ascending, and every statement is good and has items. -/
structure Filled (good : List E → Prop) (statements : List (K × List E)) : Prop where
  ascending : SortedMap.Ascending statements
  good : ∀ statement ∈ statements, good statement.2
  nonempty : ∀ statement ∈ statements, statement.2 ≠ []

theorem Filled.nil : Filled good ([] : List (K × List E)) := ⟨.nil, nofun, nofun⟩

omit [LinearOrder K] in
theorem addItem_ok {items filled : List E} : addItem kind items item = .ok filled ↔ kind.addItem items item = .ok filled := by
  unfold addItem
  cases kind.addItem items item with
  | error failure => exact ⟨fun failed => (nomatch failed), fun failed => (nomatch failed)⟩
  | ok value => exact ⟨fun same => by cases same; rfl, fun same => by cases same; rfl⟩

theorem itemsOf_of_mem (ascending : SortedMap.Ascending statements) {statement : K × List E} (member : statement ∈ statements) :
    itemsOf statements statement.1 = statement.2 := by
  rw [itemsOf, ascending.find_of_mem member]
  rfl

theorem mem_of_mem_itemsOf (member : item ∈ itemsOf statements key) : ∃ statement ∈ statements, statement.1 = key ∧ item ∈ statement.2 := by
  unfold itemsOf at member
  cases found : SortedMap.find key statements with
  | none =>
    rw [found] at member
    cases member
  | some statement =>
    rw [found] at member
    obtain ⟨inside, same⟩ := SortedMap.mem_of_find found
    exact ⟨statement, inside, same, member⟩

theorem Filled.good_itemsOf (fills : Fills kind good) (filled : Filled good statements) (key : K) : good (itemsOf statements key) := by
  unfold itemsOf
  cases found : SortedMap.find key statements with
  | none => exact fills.refills.nil
  | some statement => exact filled.good statement (SortedMap.mem_of_find found).1

/-- An addition places a new statement or replaces the statement of its key. -/
theorem addTo_ok (added : addTo kind statements key item = .ok next) :
    ∃ items, kind.addItem (itemsOf statements key) item = .ok items ∧
      (SortedMap.find key statements = none ∧ next = SortedMap.place (key, items) statements ∨
        ∃ present, SortedMap.find key statements = some present ∧ next = SortedMap.replace (key, items) statements) := by
  unfold addTo at added
  unfold itemsOf
  cases found : SortedMap.find key statements with
  | none =>
    rw [found] at added
    dsimp only at added
    cases result : addItem kind [] item with
    | error failure =>
      rw [result] at added
      cases added
    | ok items =>
      rw [result] at added
      cases added
      exact ⟨items, addItem_ok.mp result, .inl ⟨rfl, SortedMap.insert_of_absent (SortedMap.find_eq_none.mp found)⟩⟩
  | some present =>
    rw [found] at added
    dsimp only at added
    cases result : addItem kind present.2 item with
    | error failure =>
      rw [result] at added
      cases added
    | ok items =>
      rw [result] at added
      cases added
      exact ⟨items, addItem_ok.mp result, .inr ⟨present, rfl, rfl⟩⟩

theorem addTo_succeeds {items : List E} (accepted : kind.addItem (itemsOf statements key) item = .ok items) :
    ∃ next, addTo kind statements key item = .ok next := by
  unfold addTo
  unfold itemsOf at accepted
  cases found : SortedMap.find key statements with
  | none =>
    rw [found, Option.elim_none] at accepted
    dsimp only
    rw [addItem_ok.mpr accepted]
    exact ⟨_, rfl⟩
  | some present =>
    rw [found, Option.elim_some] at accepted
    dsimp only
    rw [addItem_ok.mpr accepted]
    exact ⟨_, rfl⟩

theorem itemsOf_addTo_self {items : List E} (accepted : kind.addItem (itemsOf statements key) item = .ok items)
    (added : addTo kind statements key item = .ok next) : itemsOf next key = items := by
  obtain ⟨others, result, ⟨absent, rfl⟩ | ⟨present, found, rfl⟩⟩ := addTo_ok added
  · cases accepted.symm.trans result
    rw [itemsOf, @SortedMap.find_place_self _ _ _ (key, items) _ absent]
    rfl
  · cases accepted.symm.trans result
    rw [itemsOf, @SortedMap.find_replace_self _ _ _ (key, items) _ _ found]
    rfl

theorem itemsOf_addTo_other (added : addTo kind statements key item = .ok next) {other : K} (different : key ≠ other) :
    itemsOf next other = itemsOf statements other := by
  obtain ⟨items, -, ⟨-, rfl⟩ | ⟨present, -, rfl⟩⟩ := addTo_ok added
  · rw [itemsOf, @SortedMap.find_place_other _ _ _ (key, items) _ _ different, itemsOf]
  · rw [itemsOf, @SortedMap.find_replace_other _ _ _ (key, items) _ _ different, itemsOf]

theorem mem_addTo (added : addTo kind statements key item = .ok next) {statement : K × List E} (member : statement ∈ next) :
    statement ∈ statements ∨ statement.1 = key ∧ kind.addItem (itemsOf statements key) item = .ok statement.2 := by
  obtain ⟨items, accepted, ⟨-, rfl⟩ | ⟨present, -, rfl⟩⟩ := addTo_ok added
  · rcases SortedMap.mem_place.mp member with rfl | old
    · exact .inr ⟨rfl, accepted⟩
    · exact .inl old
  · rcases SortedMap.mem_replace member with rfl | old
    · exact .inr ⟨rfl, accepted⟩
    · exact .inl old

/-- A property of all items under their keys is kept if the new item has it. -/
theorem forall_addTo (fills : Fills kind good) (property : K → E → Prop)
    (before : ∀ statement ∈ statements, ∀ other ∈ statement.2, property statement.1 other)
    (fresh : property key item) (added : addTo kind statements key item = .ok next) :
    ∀ statement ∈ next, ∀ other ∈ statement.2, property statement.1 other := by
  intro statement member other inside
  rcases mem_addTo added member with old | ⟨rfl, accepted⟩
  · exact before statement old other inside
  · rcases fills.mem _ _ _ accepted other inside with rfl | earlier
    · exact fresh
    · obtain ⟨old, oldMember, same, oldInside⟩ := mem_of_mem_itemsOf earlier
      exact same ▸ before old oldMember other oldInside

theorem Filled.addTo (fills : Fills kind good) (filled : Filled good statements) (added : addTo kind statements key item = .ok next) :
    Filled good next where
  ascending := by
    obtain ⟨items, -, ⟨absent, rfl⟩ | ⟨present, -, rfl⟩⟩ := addTo_ok added
    · exact filled.ascending.place (SortedMap.find_eq_none.mp absent)
    · exact filled.ascending.replace _
  good statement member := by
    rcases mem_addTo added member with old | ⟨-, accepted⟩
    · exact filled.good statement old
    · exact fills.refills.keep _ _ _ (filled.good_itemsOf fills key) accepted
  nonempty statement member := by
    rcases mem_addTo added member with old | ⟨-, accepted⟩
    · exact filled.nonempty statement old
    · exact fills.nonempty _ _ _ accepted

omit [LinearOrder K] in
/-- A copy that counts its items without a limit. -/
def keepItems (kind : StatementKind K E) (skip : E → Bool) (items : List E) : Except BuilderError (List E) :=
  items.foldlM (fun copy item => if skip item then .ok copy else addItem kind copy item) []

omit [LinearOrder K] in
theorem copyItems_eq {skip : E → Bool} {items : List E} (small : items.length < 2 ^ 32) : copyItems kind skip items = keepItems kind skip items :=
  CountedLoop.run_items small BuilderError.outOfRange (fun copy item => if skip item then .ok copy else addItem kind copy item) []

omit [LinearOrder K] in
theorem keepItems_append {skip : E → Bool} {items : List E} (skipped : skip item = true) : keepItems kind skip (items ++ [item]) =
    keepItems kind skip items := by
  unfold keepItems
  rw [List.foldlM_append]
  refine (bind_congr fun copy => ?_).trans (bind_pure _)
  rw [List.foldlM_cons, if_pos skipped]
  rfl

omit [LinearOrder K] in
theorem keepItems_skip {skip : E → Bool} {items : List E} (skipped : ∀ item ∈ items, skip item = true) : keepItems kind skip items = .ok [] := by
  induction items using List.reverseRecOn with
  | nil => rfl
  | append_singleton items item ih =>
    rw [keepItems_append (skipped item (List.mem_append_right _ List.mem_cons_self))]
    exact ih fun other member => skipped other (List.mem_append_left _ member)

omit [LinearOrder K] in
theorem keepItems_self (refills : Refills kind.addItem good) {skip : E → Bool} {items : List E} (isGood : good items)
    (kept : ∀ item ∈ items, skip item = false) : keepItems kind skip items = .ok items := by
  induction items using List.reverseRecOn with
  | nil => rfl
  | append_singleton items item ih =>
    have front := ih (refills.front items item isGood) fun other member => kept other (List.mem_append_left _ member)
    unfold keepItems at front ⊢
    rw [List.foldlM_append, front]
    have last := kept item (List.mem_append_right _ List.mem_cons_self)
    change [item].foldlM (fun copy item => if skip item then .ok copy else addItem kind copy item) items = _
    rw [List.foldlM_cons, last, if_neg Bool.false_ne_true, addItem_ok.mpr (refills.again items item isGood)]
    rfl

def keepStep (kind : StatementKind K E) (skip : K → E → Bool) (destination : List (K × List E)) (pair : K × List E) :
    Except BuilderError (List (K × List E)) := do
  let items ← keepItems kind (skip pair.1) pair.2
  if items.isEmpty then return destination else return SortedMap.insert (pair.1, items) destination

/-- The skipped items are left out, and so are the statements without other items. -/
def keepStatements (kind : StatementKind K E) (skip : K → E → Bool) (statements : List (K × List E)) : Except BuilderError (List (K × List E)) :=
  statements.foldlM (keepStep kind skip) []

theorem keepStatements_self (fills : Fills kind good) (filled : Filled good statements) {skip : K → E → Bool}
    (kept : ∀ statement ∈ statements, ∀ item ∈ statement.2, skip statement.1 item = false) :
    keepStatements kind skip statements = .ok statements := by
  have general : ∀ back front, front ++ back = statements → back.foldlM (keepStep kind skip) front = .ok statements := by
    intro back
    induction back with
    | nil =>
      intro front split
      rw [← split, List.append_nil]
      rfl
    | cons statement back ih =>
      intro front split
      have member : statement ∈ statements := by rw [← split]; exact List.mem_append_right _ List.mem_cons_self
      have above : ∀ other ∈ front, other.1 < statement.1 := by
        have ascending := filled.ascending
        rw [← split] at ascending
        exact fun other inFront => (List.pairwise_append.mp ascending).2.2 other inFront statement List.mem_cons_self
      have copied : keepStep kind skip front statement = .ok (front ++ [statement]) := by
        rw [keepStep, keepItems_self fills.refills (filled.good statement member) (kept statement member), ← insert_above above]
        exact if_neg (by simpa using filled.nonempty statement member)
      rw [List.foldlM_cons, copied]
      exact ih (front ++ [statement]) (by rw [List.append_assoc]; exact split)
  exact general statements [] rfl

/-- A copy does not change by an addition that it skips. -/
theorem keepStatements_addTo (ascending : SortedMap.Ascending statements) {skip : K → E → Bool}
    (skipped : ∀ items next, kind.addItem items item = .ok next → keepItems kind (skip key) next = keepItems kind (skip key) items)
    (added : addTo kind statements key item = .ok next) : keepStatements kind skip next = keepStatements kind skip statements := by
  obtain ⟨items, accepted, ⟨absent, rfl⟩ | ⟨present, found, rfl⟩⟩ := addTo_ok added
  · refine SortedMap.foldlM_place (fun destination => ?_) statements []
    have none : itemsOf statements key = [] := by
      rw [itemsOf, absent]
      rfl
    rw [keepStep, skipped _ _ accepted, none]
    rfl
  · refine SortedMap.foldlM_replace (fun destination other member same => ?_) []
    dsimp only at same
    rw [keepStep, keepStep, skipped _ _ accepted, ← same, itemsOf_of_mem ascending member]

/-- The copy of the transaction statements counts the receipts that it keeps. -/
theorem copyTransactionStatements_eq {good : List Receipt → Prop} (fills : Fills .transaction good)
    {statements : List (ReceiptSource × List Receipt)} (filled : Filled good statements) {maxSourcePrimaryId : UInt32}
    (small : ∀ statement ∈ statements, statement.1.primaryId ≤ maxSourcePrimaryId → statement.2.length < 2 ^ 32) :
    copyTransactionStatements maxSourcePrimaryId statements =
      keepStatements .transaction (fun source _ => maxSourcePrimaryId < source.primaryId) statements := by
  refine SortedMap.foldlM_congr (fun destination statement member => ?_) []
  unfold keepStep
  by_cases later : maxSourcePrimaryId < statement.1.primaryId
  · rw [if_pos later, keepItems_skip fun _ _ => decide_eq_true later]
    rfl
  · have isGood := filled.good statement member
    rw [if_neg later, copyItems_eq (small statement member (UInt32.not_lt.mp later)), keepItems_self fills.refills isGood fun _ _ => rfl,
      keepItems_self fills.refills isGood fun _ _ => decide_eq_false later]
    exact (if_neg (by simpa using filled.nonempty statement member)).symm

theorem copyResolutionStatements_eq {V : Type} {kind : StatementKind K (ResolutionEntry V)} {statements : List (K × List (ResolutionEntry V))}
    {maxSourcePrimaryId : UInt32} (small : ∀ statement ∈ statements, statement.2.length < 2 ^ 32) :
    copyResolutionStatements kind maxSourcePrimaryId statements =
      keepStatements kind (fun _ entry => maxSourcePrimaryId < entry.source.primaryId) statements := by
  refine SortedMap.foldlM_congr (fun destination statement member => ?_) []
  rw [copyItems_eq (small statement member)]
  rfl

end Additions

variable {K V : Type} [LinearOrder K] [DecidableEq V] {kind : StatementKind K (ResolutionEntry V)}

/-- Receipts are sorted by their types. -/
def SortedReceipts (receipts : List Receipt) : Prop := receipts.Pairwise fun first second => first.type ≤ second.type

/-- Sources do not descend, and consecutive values differ. -/
def Collapsed (entries : List (ResolutionEntry V)) : Prop :=
  entries.IsChain fun first second => ¬ second.source < first.source ∧ second.resolvedValue ≠ first.resolvedValue

theorem transaction_fills : Fills .transaction SortedReceipts where
  refills := receipts_refill
  mem receipts receipt next added other member := by
    cases added
    rcases List.mem_append.mp member with front | back
    · exact .inr ((List.takeWhile_sublist _).subset front)
    · rcases List.mem_cons.mp back with rfl | rest
      · exact .inl rfl
      · exact .inr ((List.dropWhile_sublist _).subset rest)
  nonempty receipts receipt next added := by
    cases added
    exact List.append_ne_nil_of_right_ne_nil _ (List.cons_ne_nil _ _)

omit [LinearOrder K] in
/-- A resolution is appended, or its value is the last one. -/
theorem addResolution_ok {entries next : List (ResolutionEntry V)} {entry : ResolutionEntry V} (added : addResolution entries entry = .ok next) :
    next = entries ++ [entry] ∨ next = entries ∧ ∃ last, entries.getLast? = some last ∧ last.resolvedValue = entry.resolvedValue := by
  unfold addResolution at added
  cases last : entries.getLast? with
  | none =>
    rw [last] at added
    cases added
    rw [List.getLast?_eq_none_iff.mp last]
    exact .inl rfl
  | some previous =>
    rw [last] at added
    dsimp only at added
    split at added
    · cases added
    · split at added
      · next same =>
        cases added
        exact .inr ⟨rfl, previous, rfl, same.symm⟩
      · cases added
        exact .inl rfl

/-- A resolution whose source is not early is accepted. -/
theorem addResolution_succeeds {entries : List (ResolutionEntry V)} {entry : ResolutionEntry V}
    (late : ∀ other ∈ entries, other.source ≤ entry.source) : ∃ next, addResolution entries entry = .ok next := by
  unfold addResolution
  cases last : entries.getLast? with
  | none => exact ⟨_, rfl⟩
  | some previous =>
    dsimp only
    rw [if_neg (not_lt.mpr (late previous (List.mem_of_getLast? last)))]
    split
    · exact ⟨_, rfl⟩
    · exact ⟨_, rfl⟩

omit [LinearOrder K] in
theorem resolution_fills {key : Codec K} {value : Codec V} : Fills (.resolution key value) (Collapsed (V := V)) where
  refills := resolutions_refill
  mem entries entry next added other member := by
    rcases addResolution_ok added with rfl | ⟨rfl, -⟩
    · rcases List.mem_append.mp member with old | new
      · exact .inr old
      · exact .inl (List.mem_singleton.mp new)
    · exact .inr member
  nonempty entries entry next added := by
    rcases addResolution_ok added with rfl | ⟨rfl, last, isLast, -⟩
    · exact List.append_ne_nil_of_right_ne_nil _ (List.cons_ne_nil _ _)
    · exact List.ne_nil_of_mem (List.mem_of_getLast? isLast)

/-- A copy up to an earlier source does not change by a receipt. -/
theorem keepTransactions_addTo {statements next : List (ReceiptSource × List Receipt)} {source : ReceiptSource} {receipt : Receipt}
    {maxSourcePrimaryId : UInt32} (ascending : SortedMap.Ascending statements) (later : maxSourcePrimaryId < source.primaryId)
      (added : addTo .transaction statements source receipt = .ok next) :
    keepStatements .transaction (fun source _ => maxSourcePrimaryId < source.primaryId) next =
      keepStatements .transaction (fun source _ => maxSourcePrimaryId < source.primaryId) statements := by
  refine keepStatements_addTo ascending (fun receipts following _ => ?_) added
  rw [keepItems_skip fun _ _ => decide_eq_true later, keepItems_skip fun _ _ => decide_eq_true later]

/-- A copy up to an earlier source does not change by a resolution. -/
theorem keepResolutions_addTo {key : Codec K} {value : Codec V} {statements next : List (K × List (ResolutionEntry V))} {unresolved : K}
    {entry : ResolutionEntry V} {maxSourcePrimaryId : UInt32} (ascending : SortedMap.Ascending statements)
    (later : maxSourcePrimaryId < entry.source.primaryId) (added : addTo (.resolution key value) statements unresolved entry = .ok next) :
    keepStatements (.resolution key value) (fun _ entry => maxSourcePrimaryId < entry.source.primaryId) next =
      keepStatements (.resolution key value) (fun _ entry => maxSourcePrimaryId < entry.source.primaryId) statements := by
  refine keepStatements_addTo ascending (fun entries following accepted => ?_) added
  rcases addResolution_ok accepted with rfl | ⟨rfl, -⟩
  · exact keepItems_append (decide_eq_true later)
  · rfl

end Catapult.Model
