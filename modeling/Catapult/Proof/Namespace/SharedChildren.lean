import Catapult.Construction.Namespace.SharedHistory
import Catapult.Proof.Namespace.Accounting

/-
This file proves that a copied history shares children as the original does and that neither affects the other.
-/

namespace Catapult.Namespaces

open RootNamespaceHistory

/-- Every run of a history lies under a pointer of its own. -/
inductive Represents (heap : Heap Children) : List Nat → List RootRun → List SharedRoot → Prop where
  | nil : Represents heap [] [] []
  | run {pointer : Nat} {pointers : List Nat} {run : RootRun} {runs : List RootRun} {shared roots : List SharedRoot}
      (read : heap.read pointer = some run.children) (own : pointer ∉ pointers)
      (rest : Represents heap pointers runs shared)
      (listed : roots = (run.roots.map fun root => ⟨root, pointer⟩) ++ shared) :
      Represents heap (pointer :: pointers) (run :: runs) roots

/-- A change leaves the cells of other pointers alone and all its pointers are old or fresh. -/
structure Extends (heap later : Heap Children) (before after : List Nat) : Prop where
  kept : ∀ pointer, pointer ∉ before → (heap.read pointer).isSome → later.read pointer = heap.read pointer
  fresh : ∀ pointer ∈ after, pointer ∈ before ∨ heap.read pointer = none

section Represents

variable {heap later : Heap Children} {pointers : List Nat} {runs : List RootRun} {shared : List SharedRoot}

theorem Represents.live (represents : Represents heap pointers runs shared) :
    ∀ pointer ∈ pointers, (heap.read pointer).isSome := by
  induction represents with
  | nil => simp
  | @run pointer pointers run runs shared roots read own rest listed ih =>
    intro other member
    obtain rfl | before := List.mem_cons.mp member
    · rw [read]
      rfl
    · exact ih other before

/-- The pointers lead to the same children as long as their cells are kept. -/
theorem Represents.keep (represents : Represents heap pointers runs shared)
    (kept : ∀ pointer ∈ pointers, later.read pointer = heap.read pointer) : Represents later pointers runs shared := by
  induction represents with
  | nil => exact .nil
  | @run pointer pointers run runs shared roots read own rest listed ih =>
    refine .run ?_ own (ih fun other member => kept other (List.mem_cons_of_mem _ member)) listed
    rw [kept pointer List.mem_cons_self, read]

theorem Represents.allocate (represents : Represents heap pointers runs shared) (children : Children) :
    Represents (heap.allocate children) pointers runs shared :=
  represents.keep fun pointer member => Heap.read_allocate_of_live (represents.live pointer member) children

theorem Represents.next_not_mem (represents : Represents heap pointers runs shared) : heap.next ∉ pointers := by
  intro member
  have live := represents.live heap.next member
  rw [heap.read_next] at live
  cases live

/-- Every root is seen with its children. -/
def observeRoots (heap : Heap Children) (shared : List SharedRoot) : List (RootNamespace × Option Children) :=
  shared.map fun root => (root.root, heap.read root.children)

theorem Represents.observeRoots_eq (represents : Represents heap pointers runs shared) :
    observeRoots heap shared = (entries runs).map fun entry => (entry.1, some entry.2) := by
  induction represents with
  | nil => rfl
  | @run pointer pointers run runs shared roots read own rest listed ih =>
    rw [listed, entries_cons, List.map_append, ← ih]
    simp [observeRoots, read]

theorem Represents.roots_eq (represents : Represents heap pointers runs shared) (id : NamespaceId) :
    shared.map SharedRoot.root = RootNamespaceHistory.roots ⟨id, runs⟩ := by
  induction represents with
  | nil => rfl
  | @run pointer pointers run runs shared roots read own rest listed ih =>
    rw [listed, roots_cons, List.map_append, ih, List.map_map]
    simp [Function.comp_def, RootRun.roots]

/-- The pointers of the roots are the pointers of their runs. -/
theorem Represents.mem_pointers (represents : Represents heap pointers runs shared) :
    ∀ root ∈ shared, root.children ∈ pointers := by
  induction represents with
  | nil => simp
  | @run pointer pointers run runs shared roots read own rest listed ih =>
    intro root member
    rw [listed] at member
    obtain own | before := List.mem_append.mp member
    · obtain ⟨_, _, rfl⟩ := List.mem_map.mp own
      exact List.mem_cons_self
    · exact List.mem_cons_of_mem _ (ih root before)

/-- Two representations of the same runs share the children of the same roots. -/
theorem Represents.same_sharing {other : Heap Children} {otherPointers : List Nat} {otherShared : List SharedRoot}
    (represents : Represents heap pointers runs shared) (represented : Represents other otherPointers runs otherShared)
    {first second : Nat} {root next otherRoot otherNext : SharedRoot} (rootAt : shared[first]? = some root)
    (nextAt : shared[second]? = some next) (otherRootAt : otherShared[first]? = some otherRoot)
    (otherNextAt : otherShared[second]? = some otherNext) :
    root.children = next.children ↔ otherRoot.children = otherNext.children := by
  induction represents generalizing otherPointers otherShared first second with
  | nil => cases rootAt
  | @run pointer pointers run runs shared roots read own rest listed ih =>
    cases represented with
    | @run otherPointer otherPointers _ _ otherShared _ otherRead otherOwn otherRest otherListed =>
      subst listed otherListed
      -- the first run takes the same places on both sides
      have inside : ∀ (pointer : Nat) (rest : List SharedRoot) (index : Nat) (found : SharedRoot), index < run.roots.length →
          ((run.roots.map fun root => (⟨root, pointer⟩ : SharedRoot)) ++ rest)[index]? = some found →
          found.children = pointer := by
        intro pointer rest index found bound foundAt
        rw [List.getElem?_append_left (by simpa using bound), List.getElem?_map] at foundAt
        obtain ⟨_, _, rfl⟩ := Option.map_eq_some_iff.mp foundAt
        rfl
      have outside : ∀ (pointer : Nat) (rest : List SharedRoot) (index : Nat) (found : SharedRoot), ¬ index < run.roots.length →
          ((run.roots.map fun root => (⟨root, pointer⟩ : SharedRoot)) ++ rest)[index]? = some found →
          rest[index - run.roots.length]? = some found := by
        intro pointer rest index found bound foundAt
        rw [List.getElem?_append_right (by simpa using bound), List.length_map] at foundAt
        exact foundAt
      by_cases firstInside : first < run.roots.length
      · have one := inside pointer shared first root firstInside rootAt
        have otherOne := inside otherPointer otherShared first otherRoot firstInside otherRootAt
        by_cases secondInside : second < run.roots.length
        · have two := inside pointer shared second next secondInside nextAt
          have otherTwo := inside otherPointer otherShared second otherNext secondInside otherNextAt
          exact iff_of_true (one.trans two.symm) (otherOne.trans otherTwo.symm)
        · have two := rest.mem_pointers next (List.mem_of_getElem? (outside _ _ _ _ secondInside nextAt))
          have otherTwo := otherRest.mem_pointers otherNext
            (List.mem_of_getElem? (outside _ _ _ _ secondInside otherNextAt))
          refine iff_of_false ?_ ?_
          · intro same
            exact own (one ▸ same ▸ two)
          · intro same
            exact otherOwn (otherOne ▸ same ▸ otherTwo)
      · have one := outside pointer shared first root firstInside rootAt
        have otherOne := outside otherPointer otherShared first otherRoot firstInside otherRootAt
        by_cases secondInside : second < run.roots.length
        · have two := inside pointer shared second next secondInside nextAt
          have otherTwo := inside otherPointer otherShared second otherNext secondInside otherNextAt
          refine iff_of_false ?_ ?_
          · intro same
            exact own (two ▸ same ▸ rest.mem_pointers root (List.mem_of_getElem? one))
          · intro same
            exact otherOwn (otherTwo ▸ same ▸ otherRest.mem_pointers otherRoot (List.mem_of_getElem? otherOne))
        · exact ih otherRest one (outside _ _ _ _ secondInside nextAt) otherOne
            (outside _ _ _ _ secondInside otherNextAt)

end Represents

/-- A method does not read the older roots of its run. -/
def Local (method : RootRun → Except NamespaceError RootRun) : Prop :=
  ∀ run, method run = (method { run with older := [] }).map fun changed => { changed with older := run.older }

theorem local_add (rootId : NamespaceId) (ns : Namespace) : Local fun run => run.add rootId ns := by
  rintro ⟨children, newest, older⟩
  dsimp only [RootRun.add]
  have same : RootRun.checkParent ⟨children, newest, older⟩ rootId ns = RootRun.checkParent ⟨children, newest, []⟩ rootId ns :=
    rfl
  rw [same]
  split
  · rfl
  · split
    · rfl
    · split <;> rfl

theorem local_remove (id : NamespaceId) : Local fun run => run.remove id := by
  rintro ⟨children, newest, older⟩
  dsimp only [RootRun.remove]
  split
  · rfl
  · split <;> rfl

theorem local_setAlias (rootId id : NamespaceId) (namespaceAlias : NamespaceAlias) :
    Local fun run => run.setAlias rootId id namespaceAlias := by
  rintro ⟨children, newest, older⟩
  dsimp only [RootRun.setAlias]
  split
  · rfl
  · split <;> rfl

/-- A history with pointers has the roots and the children of a history of runs. -/
structure Holds (heap : Heap Children) (pointers : List Nat) (history : RootNamespaceHistory) (shared : SharedHistory) :
    Prop where
  identified : shared.id = history.id
  represents : Represents heap pointers history.runs shared.roots

namespace Holds

variable {heap : Heap Children} {pointers : List Nat} {history : RootNamespaceHistory} {shared : SharedHistory}

theorem pushBack (holds : Holds heap pointers history shared) (ownerAddress : Address) (lifetime : NamespaceLifetime) :
    ∃ after, Holds (shared.pushBack heap ownerAddress lifetime).1 after (history.pushBack ownerAddress lifetime)
        (shared.pushBack heap ownerAddress lifetime).2 ∧
      Extends heap (shared.pushBack heap ownerAddress lifetime).1 pointers after := by
  obtain ⟨id, runs⟩ := history
  obtain ⟨sharedId, roots⟩ := shared
  obtain ⟨rfl, represents⟩ := holds
  have unseen := represents.next_not_mem
  have kept := represents.allocate []
  have untouched : ∀ pointer, pointer ∉ pointers → (heap.read pointer).isSome →
      (heap.allocate []).read pointer = heap.read pointer := fun pointer _ live => Heap.read_allocate_of_live live []
  have fresh : ∀ pointer ∈ heap.next :: pointers, pointer ∈ pointers ∨ heap.read pointer = none := by
    intro pointer member
    obtain rfl | before := List.mem_cons.mp member
    · exact .inr heap.read_next
    · exact .inl before
  have started : Represents (heap.allocate []) (heap.next :: pointers) (⟨[], ⟨ownerAddress, lifetime, .none⟩, []⟩ :: runs)
      (⟨⟨ownerAddress, lifetime, .none⟩, heap.next⟩ :: roots) := .run (Heap.read_allocate_next heap []) unseen kept rfl
  cases represents with
  | nil => exact ⟨[heap.next], ⟨rfl, started⟩, untouched, fresh⟩
  | @run pointer pointers run runs shared _ read own rest listed =>
    subst listed
    have readKept : (heap.allocate []).read pointer = some run.children := by
      rw [Heap.read_allocate_of_live (by rw [read]; rfl), read]
    by_cases extended : RootNamespace.canExtend ⟨ownerAddress, lifetime, .none⟩ run.newest = true
    · have renewed : Represents (heap.allocate []) (pointer :: pointers)
          (⟨run.children, ⟨run.newest.ownerAddress, lifetime, run.newest.namespaceAlias⟩, run.roots⟩ :: runs)
          (⟨⟨run.newest.ownerAddress, lifetime, run.newest.namespaceAlias⟩, pointer⟩ ::
            ((run.roots.map fun root => ⟨root, pointer⟩) ++ shared)) := .run readKept own (rest.allocate []) rfl
      have pushed : SharedHistory.pushBack heap ⟨sharedId, (run.roots.map fun root => ⟨root, pointer⟩) ++ shared⟩
          ownerAddress lifetime = (heap.allocate [],
            ⟨sharedId, ⟨⟨run.newest.ownerAddress, lifetime, run.newest.namespaceAlias⟩, pointer⟩ ::
              ((run.roots.map fun root => ⟨root, pointer⟩) ++ shared)⟩) := if_pos extended
      have history : RootNamespaceHistory.pushBack ⟨sharedId, run :: runs⟩ ownerAddress lifetime = ⟨sharedId,
          ⟨run.children, ⟨run.newest.ownerAddress, lifetime, run.newest.namespaceAlias⟩, run.roots⟩ :: runs⟩ :=
        if_pos extended
      rw [pushed, history]
      exact ⟨pointer :: pointers, ⟨rfl, renewed⟩, untouched, fun _ member => .inl member⟩
    · have pushed : SharedHistory.pushBack heap ⟨sharedId, (run.roots.map fun root => ⟨root, pointer⟩) ++ shared⟩
          ownerAddress lifetime = (heap.allocate [], ⟨sharedId, ⟨⟨ownerAddress, lifetime, .none⟩, heap.next⟩ ::
            ((run.roots.map fun root => ⟨root, pointer⟩) ++ shared)⟩) := if_neg extended
      have history : RootNamespaceHistory.pushBack ⟨sharedId, run :: runs⟩ ownerAddress lifetime =
          ⟨sharedId, ⟨[], ⟨ownerAddress, lifetime, .none⟩, []⟩ :: run :: runs⟩ := if_neg extended
      rw [pushed, history]
      exact ⟨heap.next :: pointer :: pointers, ⟨rfl, started⟩, untouched, fresh⟩

/-- The last root of a run takes its pointer along. -/
theorem popBack (holds : Holds heap pointers history shared) : (history.runs = [] ∧ shared.popBack = .error .undefined) ∨
      ∃ popped after, history.runs ≠ [] ∧ shared.popBack = .ok popped ∧ Holds heap after history.popBack popped ∧
        ∀ pointer ∈ after, pointer ∈ pointers := by
  obtain ⟨id, runs⟩ := history
  obtain ⟨sharedId, roots⟩ := shared
  obtain ⟨rfl, represents⟩ := holds
  cases represents with
  | nil => exact .inl ⟨rfl, rfl⟩
  | @run pointer pointers run runs shared _ read own rest listed =>
    subst listed
    obtain ⟨children, newest, older⟩ := run
    refine .inr ?_
    cases older with
    | nil =>
      exact ⟨⟨sharedId, shared⟩, pointers, List.cons_ne_nil _ _, rfl, ⟨rfl, rest⟩,
        fun _ member => List.mem_cons_of_mem _ member⟩
    | cons next older =>
      have remaining : Represents heap (pointer :: pointers) (⟨children, next, older⟩ :: runs)
          (((next :: older).map fun root => ⟨root, pointer⟩) ++ shared) := .run read own rest rfl
      exact ⟨⟨sharedId, ((next :: older).map fun root => (⟨root, pointer⟩ : SharedRoot)) ++ shared⟩, pointer :: pointers,
        List.cons_ne_nil _ _, rfl, ⟨rfl, remaining⟩, fun _ member => member⟩

theorem changeBack (holds : Holds heap pointers history shared) {method : RootRun → Except NamespaceError RootRun}
    (localMethod : Local method) :
    (∃ error, history.changeBack method = .error error ∧ shared.changeBack heap method = .error error) ∨
      ∃ changed later next, history.changeBack method = .ok changed ∧ shared.changeBack heap method = .ok (later, next) ∧
        Holds later pointers changed next ∧ Extends heap later pointers pointers := by
  obtain ⟨id, runs⟩ := history
  obtain ⟨sharedId, roots⟩ := shared
  obtain ⟨rfl, represents⟩ := holds
  cases represents with
  | nil => exact .inl ⟨_, rfl, rfl⟩
  | @run pointer pointers run runs shared _ read own rest listed =>
    subst listed
    obtain ⟨children, newest, older⟩ := run
    have whole := localMethod ⟨children, newest, older⟩
    have live : (heap.read pointer).isSome := by
      rw [read]
      rfl
    cases ran : method ⟨children, newest, []⟩ with
    | error error =>
      rw [ran] at whole
      refine .inl ⟨error, ?_, ?_⟩
      · simp only [RootNamespaceHistory.changeBack, whole]
        rfl
      · simp only [SharedHistory.changeBack, RootRun.roots, List.map_cons, List.cons_append, read, ran]
        rfl
    | ok changed =>
      rw [ran] at whole
      have represented : Represents (heap.write pointer changed.children) (pointer :: pointers)
          (⟨changed.children, changed.newest, older⟩ :: runs)
          (((changed.newest :: older).map fun root => ⟨root, pointer⟩) ++ shared) := by
        refine .run (Heap.read_write_self live _) own (rest.keep ?_) rfl
        intro other member
        refine Heap.read_write_of_ne ?_ _
        rintro rfl
        exact own member
      refine .inr ⟨⟨sharedId, ⟨changed.children, changed.newest, older⟩ :: runs⟩, _,
        ⟨sharedId, ((changed.newest :: older).map fun root => ⟨root, pointer⟩) ++ shared⟩, ?_, ?_, ⟨rfl, represented⟩, ?_⟩
      · simp only [RootNamespaceHistory.changeBack, whole]
        rfl
      · simp only [SharedHistory.changeBack, RootRun.roots, List.map_cons, List.cons_append, read, ran]
        rfl
      · refine ⟨?_, fun _ member => .inl member⟩
        intro other outside _
        refine Heap.read_write_of_ne ?_ _
        rintro rfl
        exact outside List.mem_cons_self

theorem prune (holds : Holds heap pointers history shared) (height : Height) :
    ∃ after, Holds heap after (history.prune height).2 (shared.prune height) ∧ ∀ pointer ∈ after, pointer ∈ pointers := by
  obtain ⟨id, runs⟩ := history
  obtain ⟨sharedId, roots⟩ := shared
  obtain ⟨rfl, represents⟩ := holds
  suffices pruned : ∃ after, Represents heap after (runs.filterMap (RootRun.prune height))
      (roots.filter fun root => height < root.root.lifetime.endHeight) ∧ ∀ pointer ∈ after, pointer ∈ pointers by
    obtain ⟨after, represented, fewer⟩ := pruned
    exact ⟨after, ⟨rfl, represented⟩, fewer⟩
  dsimp only at represents
  induction represents with
  | nil => exact ⟨[], .nil, by simp⟩
  | @run pointer pointers run runs shared roots read own rest listed ih =>
    obtain ⟨after, represented, fewer⟩ := ih
    have split : (roots.filter fun root => height < root.root.lifetime.endHeight) =
        ((run.roots.filter fun root => height < root.lifetime.endHeight).map fun root => ⟨root, pointer⟩) ++
          shared.filter fun root => height < root.root.lifetime.endHeight := by
      rw [listed, List.filter_append, List.filter_map]
      rfl
    rw [split]
    cases kept : run.roots.filter fun root => height < root.lifetime.endHeight with
    | nil =>
      have gone : RootRun.prune height run = none := by simp [RootRun.prune, kept]
      rw [List.filterMap_cons_none gone]
      exact ⟨after, represented, fun other member => List.mem_cons_of_mem _ (fewer other member)⟩
    | cons newest older =>
      have stays : RootRun.prune height run = some ⟨run.children, newest, older⟩ := by simp [RootRun.prune, kept]
      rw [List.filterMap_cons_some stays]
      refine ⟨pointer :: after, .run read (fun member => own (fewer pointer member)) represented rfl, ?_⟩
      intro other member
      obtain rfl | before := List.mem_cons.mp member
      · exact List.mem_cons_self
      · exact List.mem_cons_of_mem _ (fewer other before)

theorem extends_of_subset {after : List Nat} (fewer : ∀ pointer ∈ after, pointer ∈ pointers) :
    Extends heap heap pointers after := ⟨fun _ _ _ => rfl, fun pointer member => .inl (fewer pointer member)⟩

/-- An operation on the pointers is the operation on the runs. -/
theorem perform (holds : Holds heap pointers history shared) (operation : HistoryOperation) :
    (∃ error, history.perform operation = .error error ∧ shared.perform heap operation = .error error) ∨
      ∃ after changed later next, history.perform operation = .ok changed ∧
        shared.perform heap operation = .ok (later, next) ∧ Holds later after changed next ∧
        Extends heap later pointers after := by
  have changes : ∀ method, Local method →
      (∃ error, history.changeBack method = .error error ∧ shared.changeBack heap method = .error error) ∨
        ∃ after changed later next, history.changeBack method = .ok changed ∧
          shared.changeBack heap method = .ok (later, next) ∧ Holds later after changed next ∧
          Extends heap later pointers after := by
    intro method localMethod
    obtain failed | ⟨changed, later, next, result⟩ := holds.changeBack localMethod
    · exact .inl failed
    · exact .inr ⟨pointers, changed, later, next, result⟩
  cases operation with
  | pushBack ownerAddress lifetime =>
    obtain ⟨after, held, extended⟩ := holds.pushBack ownerAddress lifetime
    exact .inr ⟨after, _, _, _, rfl, rfl, held, extended⟩
  | popBack =>
    obtain ⟨empty, failed⟩ | ⟨popped, after, nonempty, succeeded, held, fewer⟩ := holds.popBack
    · refine .inl ⟨.undefined, if_pos empty, ?_⟩
      rw [SharedHistory.perform, failed]
      rfl
    · refine .inr ⟨after, _, heap, popped, if_neg nonempty, ?_, held, extends_of_subset fewer⟩
      rw [SharedHistory.perform, succeeded]
      rfl
  | add ns =>
    rw [SharedHistory.perform, holds.identified]
    exact changes _ (local_add history.id ns)
  | remove id => exact changes _ (local_remove id)
  | setAlias id namespaceAlias =>
    rw [SharedHistory.perform, holds.identified]
    exact changes _ (local_setAlias history.id id namespaceAlias)
  | prune height =>
    obtain ⟨after, held, fewer⟩ := holds.prune height
    exact .inr ⟨after, _, _, _, rfl, rfl, held, extends_of_subset fewer⟩

theorem step (holds : Holds heap pointers history shared) (operation : HistoryOperation) :
    ∃ after, Holds (SharedHistory.step (heap, shared) operation).1 after (history.step operation)
        (SharedHistory.step (heap, shared) operation).2 ∧
      Extends heap (SharedHistory.step (heap, shared) operation).1 pointers after := by
  unfold SharedHistory.step RootNamespaceHistory.step
  obtain ⟨error, failed, failedShared⟩ | ⟨after, changed, later, next, succeeded, succeededShared, held, extended⟩ :=
    holds.perform operation
  · rw [failed, failedShared]
    exact ⟨pointers, holds, extends_of_subset fun _ member => member⟩
  · rw [succeeded, succeededShared]
    exact ⟨after, held, extended⟩

theorem keep {later : Heap Children} (holds : Holds heap pointers history shared)
    (kept : ∀ pointer ∈ pointers, later.read pointer = heap.read pointer) : Holds later pointers history shared :=
  ⟨holds.identified, holds.represents.keep kept⟩

theorem run (holds : Holds heap pointers history shared) (operations : List HistoryOperation) :
    ∃ after, Holds (operations.foldl SharedHistory.step (heap, shared)).1 after
      (operations.foldl RootNamespaceHistory.step history) (operations.foldl SharedHistory.step (heap, shared)).2 := by
  induction operations generalizing heap pointers history shared with
  | nil => exact ⟨pointers, holds⟩
  | cons operation operations ih =>
    obtain ⟨after, held, _⟩ := holds.step operation
    exact ih held

end Holds

variable {heap : Heap Children} {pointers : List Nat} {runs : List RootRun} {roots : List SharedRoot}

/-- The newest root belongs to the newest run. -/
theorem Represents.newest (represents : Represents heap pointers runs roots) :
    ∀ previous ∈ roots.head?, ∃ run ∈ runs.head?, previous.root = run.newest := by
  cases represents with
  | nil => simp
  | @run pointer pointers run runs shared _ read own rest listed =>
    subst listed
    intro previous first
    obtain rfl := Option.mem_some_iff.mp first
    exact ⟨run, rfl, rfl⟩

/-- The children of a root that extends nothing are copied. -/
theorem copyRoots_fresh (heap : Heap Children) {shared : SharedRoot} {older : List SharedRoot}
    (fresh : ∀ previous ∈ older.head?, shared.root.canExtend previous.root = false) :
    SharedHistory.copyRoots heap (shared :: older) = ((SharedHistory.copyRoots heap older).1.allocate
          (((SharedHistory.copyRoots heap older).1.read shared.children).getD []),
        ⟨shared.root, (SharedHistory.copyRoots heap older).1.next⟩ :: (SharedHistory.copyRoots heap older).2) := by
  rw [SharedHistory.copyRoots]
  split
  · rfl
  · next previous previousCopy first =>
    have member : previous ∈ older.head? := by
      cases older with
      | nil => cases first
      | cons next rest =>
        cases copied : (SharedHistory.copyRoots heap (next :: rest)).2 with
        | nil =>
          rw [copied] at first
          cases first
        | cons other others =>
          rw [copied] at first
          cases first
          rfl
    rw [fresh previous member]
    rfl

theorem copyRoots_extend (heap : Heap Children) {shared previous copied : SharedRoot} {older rest : List SharedRoot}
    (extended : shared.root.canExtend previous.root = true)
    (before : (SharedHistory.copyRoots heap (previous :: older)).2 = copied :: rest) :
    SharedHistory.copyRoots heap (shared :: previous :: older) =
      ((SharedHistory.copyRoots heap (previous :: older)).1, ⟨shared.root, copied.children⟩ :: copied :: rest) := by
  rw [SharedHistory.copyRoots, before]
  exact if_pos extended

/-- A copy represents the same runs under fresh pointers. -/
theorem Represents.copyRoots (represents : Represents heap pointers runs roots) (shared : Shared runs) :
    (∀ pointer, (heap.read pointer).isSome → (SharedHistory.copyRoots heap roots).1.read pointer = heap.read pointer) ∧
    ∃ after, Represents (SharedHistory.copyRoots heap roots).1 after runs (SharedHistory.copyRoots heap roots).2 ∧
      ∀ pointer ∈ after, heap.read pointer = none := by
  induction shared generalizing pointers roots with
  | nil =>
    cases represents
    exact ⟨fun _ _ => rfl, [], .nil, by simp⟩
  | @start children root older before fresh ih =>
    cases represents with
    | @run pointer pointers _ _ sharedOlder _ read own rest listed =>
      obtain rfl : roots = ⟨root, pointer⟩ :: sharedOlder := listed
      obtain ⟨kept, after, represented, unused⟩ := ih rest
      have first : ∀ previous ∈ sharedOlder.head?, root.canExtend previous.root = false := by
        intro previous member
        obtain ⟨run, listed, same⟩ := rest.newest previous member
        rw [same]
        exact fresh run listed
      rw [copyRoots_fresh heap first, kept pointer (by rw [read]; rfl), read, Option.getD_some]
      refine ⟨?_, (SharedHistory.copyRoots heap sharedOlder).1.next :: after, ?_, ?_⟩
      · intro other live
        rw [Heap.read_allocate_of_live (by rw [kept other live]; exact live), kept other live]
      · exact .run (Heap.read_allocate_next _ _) represented.next_not_mem (represented.allocate _) rfl
      · intro other member
        obtain rfl | old := List.mem_cons.mp member
        · by_contra used
          have live := Option.isSome_iff_ne_none.mpr used
          have seen := kept _ live
          rw [Heap.read_next] at seen
          exact used seen.symm
        · exact unused other old
  | @extend children root newest rest older before extended ih =>
    cases represents with
    | @run pointer pointers _ _ sharedOlder _ read own restRepresents listed =>
      have tail : Represents heap (pointer :: pointers) (⟨children, newest, rest⟩ :: older)
          (⟨newest, pointer⟩ :: ((rest.map fun root => ⟨root, pointer⟩) ++ sharedOlder)) :=
        .run read own restRepresents rfl
      obtain rfl : roots = ⟨root, pointer⟩ :: ⟨newest, pointer⟩ ::
        ((rest.map fun root => (⟨root, pointer⟩ : SharedRoot)) ++ sharedOlder) := listed
      obtain ⟨kept, after, represented, unused⟩ := ih tail
      generalize copies : SharedHistory.copyRoots heap
        (⟨newest, pointer⟩ :: ((rest.map fun root => ⟨root, pointer⟩) ++ sharedOlder)) = copied at *
      cases represented with
      | @run target targets _ _ copiedOlder _ readCopy ownCopy restCopy listedCopy =>
        have first : copied.2 = ⟨newest, target⟩ :: ((rest.map fun root => ⟨root, target⟩) ++ copiedOlder) :=
          listedCopy
        rw [copyRoots_extend heap extended (by rw [copies, first]), copies]
        exact ⟨kept, target :: targets, .run readCopy ownCopy restCopy rfl, unused⟩

/-- Two histories show the same roots with the same children and share them in the same way. -/
structure SameView (heap : Heap Children) (history : SharedHistory) (otherHeap : Heap Children) (other : SharedHistory) :
    Prop where
  identified : history.id = other.id
  roots : observeRoots heap history.roots = observeRoots otherHeap other.roots
  sharing : ∀ (first second : Nat) (root next otherRoot otherNext : SharedRoot), history.roots[first]? = some root →
    history.roots[second]? = some next → other.roots[first]? = some otherRoot → other.roots[second]? = some otherNext →
    (root.children = next.children ↔ otherRoot.children = otherNext.children)

theorem Holds.sameView {heap other : Heap Children} {pointers otherPointers : List Nat} {history : RootNamespaceHistory}
    {shared otherShared : SharedHistory} (holds : Holds heap pointers history shared)
    (held : Holds other otherPointers history otherShared) : SameView heap shared other otherShared := by
  refine ⟨holds.identified.trans held.identified.symm, ?_, ?_⟩
  · rw [holds.represents.observeRoots_eq, held.represents.observeRoots_eq]
  · intro first second root next otherRoot otherNext rootAt nextAt otherRootAt otherNextAt
    exact holds.represents.same_sharing held.represents rootAt nextAt otherRootAt otherNextAt

/-- The operations on one side of a pair. -/
def ownOperations (side : HistorySide) (actions : List (HistorySide × HistoryOperation)) : List HistoryOperation :=
  actions.filterMap fun action => if action.1 = side then some action.2 else none

/-- After any operations each history looks as if the other one had not been touched. -/
def Isolated (pair : HistoryPair) : Prop :=
  ∀ (actions : List (HistorySide × HistoryOperation)) (side : HistorySide),
    let final := actions.foldl HistoryPair.step pair
    let alone := (ownOperations side actions).foldl SharedHistory.step (pair.heap, pair.history side)
    SameView final.heap (final.history side) alone.1 alone.2

/-- The histories of a pair have no pointer in common. -/
structure Apart (pair : HistoryPair) (original copied : RootNamespaceHistory) : Prop where
  pointers : ∃ first second, Holds pair.heap first original pair.original ∧ Holds pair.heap second copied pair.copied ∧
    ∀ pointer ∈ first, pointer ∉ second

/-- The pointers of a changed history stay away from those of an untouched one. -/
theorem Holds.beside {heap later : Heap Children} {before after pointers : List Nat} {history : RootNamespaceHistory}
    {shared : SharedHistory} (holds : Holds heap pointers history shared) (extended : Extends heap later before after)
    (apart : ∀ pointer ∈ before, pointer ∉ pointers) :
    Holds later pointers history shared ∧ ∀ pointer ∈ after, pointer ∉ pointers := by
  constructor
  · refine holds.keep fun pointer member => extended.kept pointer ?_ (holds.represents.live pointer member)
    exact fun old => apart pointer old member
  · intro pointer changed member
    obtain old | unused := extended.fresh pointer changed
    · exact apart pointer old member
    · have live := holds.represents.live pointer member
      rw [unused] at live
      cases live

theorem Apart.step {pair : HistoryPair} {original copied : RootNamespaceHistory} (apart : Apart pair original copied)
    (action : HistorySide × HistoryOperation) :
    Apart (pair.step action) (if action.1 = .original then original.step action.2 else original)
      (if action.1 = .copied then copied.step action.2 else copied) := by
  obtain ⟨side, operation⟩ := action
  obtain ⟨first, second, holds, held, different⟩ := apart.pointers
  cases side with
  | original =>
    obtain ⟨after, changed, extended⟩ := holds.step operation
    obtain ⟨kept, away⟩ := held.beside extended different
    exact ⟨after, second, changed, kept, away⟩
  | copied =>
    obtain ⟨after, changed, extended⟩ := held.step operation
    obtain ⟨kept, away⟩ := holds.beside extended fun pointer member other => different pointer other member
    exact ⟨first, after, kept, changed, fun pointer member other => away pointer other member⟩

theorem Apart.run {pair : HistoryPair} {original copied : RootNamespaceHistory} (apart : Apart pair original copied)
    (actions : List (HistorySide × HistoryOperation)) : Apart (actions.foldl HistoryPair.step pair)
      ((ownOperations .original actions).foldl RootNamespaceHistory.step original)
      ((ownOperations .copied actions).foldl RootNamespaceHistory.step copied) := by
  induction actions generalizing pair original copied with
  | nil => exact apart
  | cons action actions ih =>
    have later := ih (apart.step action)
    obtain ⟨side, operation⟩ := action
    cases side with
    | original => exact later
    | copied => exact later

theorem Apart.isolated {pair : HistoryPair} {original copied : RootNamespaceHistory} (apart : Apart pair original copied) :
    Isolated pair := by
  intro actions side
  obtain ⟨first, second, holds, held, _⟩ := apart.pointers
  obtain ⟨_, _, final, finalCopied, _⟩ := (apart.run actions).pointers
  cases side with
  | original =>
    obtain ⟨_, alone⟩ := holds.run (ownOperations .original actions)
    exact final.sameView alone
  | copied =>
    obtain ⟨_, alone⟩ := held.run (ownOperations .copied actions)
    exact finalCopied.sameView alone

/-- The roots of a history that is pruned end in the order in which they were added. -/
def Orderly (state : Heap Children × SharedHistory) : HistoryOperation → Prop
  | .prune _ => (state.2.roots.map SharedRoot.root).Pairwise fun newer root =>
    root.lifetime.endHeight < newer.lifetime.endHeight
  | _ => True

instance (state : Heap Children × SharedHistory) : (operation : HistoryOperation) → Decidable (Orderly state operation)
  | .prune _ => inferInstanceAs (Decidable (List.Pairwise _ _))
  | .pushBack _ _ => inferInstanceAs (Decidable True)
  | .popBack => inferInstanceAs (Decidable True)
  | .add _ => inferInstanceAs (Decidable True)
  | .remove _ => inferInstanceAs (Decidable True)
  | .setAlias _ _ => inferInstanceAs (Decidable True)

theorem Shared.changeBack {history changed : RootNamespaceHistory} {method : RootRun → Except NamespaceError RootRun}
    (shared : Shared history.runs)
    (keeps : ∀ run older next, Shared (run :: older) → method run = .ok next → Shared (next :: older))
    (ran : history.changeBack method = .ok changed) : Shared changed.runs := by
  unfold RootNamespaceHistory.changeBack at ran
  split at ran
  · cases ran
  · next run older listed =>
    obtain ⟨next, succeeded, done⟩ := Runs.bind_eq_ok.mp ran
    cases done
    rw [listed] at shared
    exact keeps run older next shared succeeded

/-- The roots of every history share their children exactly if each can extend the one before it. -/
theorem Shared.perform {history next : RootNamespaceHistory} (shared : Shared history.runs) {operation : HistoryOperation}
    (ends : ∀ height, operation = .prune height → history.roots.Pairwise fun newer root =>
      root.lifetime.endHeight < newer.lifetime.endHeight)
    (performed : history.perform operation = .ok next) : Shared next.runs := by
  cases operation with
  | pushBack ownerAddress lifetime =>
    cases performed
    exact Shared.pushBack shared ownerAddress lifetime
  | popBack =>
    simp only [RootNamespaceHistory.perform] at performed
    split at performed
    · cases performed
    · cases performed
      exact Shared.popBack shared
  | add ns =>
    refine shared.changeBack ?_ performed
    intro run older next before added
    obtain ⟨_, _, _, rfl⟩ := RootRun.add_eq_ok added
    exact before.replace
  | remove id =>
    refine shared.changeBack ?_ performed
    intro run older next before removed
    obtain ⟨_, _, _, rfl⟩ := RootRun.remove_eq_ok removed
    exact before.replace
  | setAlias id namespaceAlias =>
    refine shared.changeBack ?_ performed
    intro run older next before linked
    obtain ⟨_, rfl⟩ | ⟨_, _, rfl⟩ := RootRun.setAlias_eq_ok linked
    · exact before.relabel namespaceAlias
    · exact before.replace
  | prune height =>
    cases performed
    exact Shared.prune height shared (ends height rfl)

theorem Shared.step {history : RootNamespaceHistory} (shared : Shared history.runs) {operation : HistoryOperation}
    (ends : ∀ height, operation = .prune height → history.roots.Pairwise fun newer root =>
      root.lifetime.endHeight < newer.lifetime.endHeight) : Shared (history.step operation).runs := by
  unfold RootNamespaceHistory.step
  split
  · next next performed => exact shared.perform ends performed
  · exact shared

/-- A history that was built by operations shares its children as its runs do. -/
def BuiltShared (state : Heap Children × SharedHistory) : Prop :=
  ∃ pointers history, Holds state.1 pointers history state.2 ∧ Shared history.runs

theorem BuiltShared.step {state : Heap Children × SharedHistory} {operation : HistoryOperation} (built : BuiltShared state)
    (orderly : Orderly state operation) : BuiltShared (SharedHistory.step state operation) := by
  obtain ⟨pointers, history, holds, shared⟩ := built
  obtain ⟨after, held, _⟩ := holds.step operation
  refine ⟨after, history.step operation, held, shared.step ?_⟩
  rintro height rfl
  have roots := holds.represents.roots_eq history.id
  rw [← show history.roots = RootNamespaceHistory.roots ⟨history.id, history.runs⟩ from rfl] at roots
  rw [← roots]
  exact orderly

/-- The copy of a history looks like it, shares its children in the same way and is isolated from it. -/
theorem copy_faithful_isolated (heap : Heap Children) (id : NamespaceId) (operations : List HistoryOperation)
    (orderly : Runs.Along SharedHistory.step Orderly (heap, ⟨id, []⟩) operations) :
    let built := operations.foldl SharedHistory.step (heap, ⟨id, []⟩)
    let copied := built.2.copy built.1
    SameView built.1 built.2 copied.1 built.2 ∧ SameView copied.1 built.2 copied.1 copied.2 ∧
      Isolated ⟨copied.1, built.2, copied.2⟩ := by
  intro built copied
  have initially : BuiltShared (heap, ⟨id, []⟩) := ⟨[], ⟨id, []⟩, ⟨rfl, .nil⟩, .nil⟩
  obtain ⟨pointers, history, holds, shared⟩ := orderly.invariant BuiltShared (fun _ _ built => built.step) initially
  obtain ⟨kept, after, represented, unused⟩ := holds.represents.copyRoots shared
  have original : Holds copied.1 pointers history built.2 :=
    holds.keep fun pointer member => kept pointer (holds.represents.live pointer member)
  have copy : Holds copied.1 after history copied.2 := ⟨holds.identified, represented⟩
  refine ⟨holds.sameView original, original.sameView copy, Apart.isolated ⟨pointers, after, original, copy, ?_⟩⟩
  intro pointer member fresh
  have live := holds.represents.live pointer member
  rw [unused pointer fresh] at live
  cases live

namespace Samples

def firstOwner : Address := Vector.replicate 24 1

def secondOwner : Address := Vector.replicate 24 2

/-- The root is renewed with its child, taken over after it expired, and its first lifetime is pruned. -/
def renewals : List HistoryOperation :=
  [.pushBack firstOwner firstLifetime, .add child, .pushBack firstOwner renewedLifetime,
    .pushBack firstOwner ⟨1, 30, by decide⟩, .setAlias 2 (.mosaic 7), .pushBack secondOwner ⟨30, 50, by decide⟩,
    .add ⟨[1, 3], by decide⟩, .prune 10]

/-- Renewed roots are copied with the children that they share. -/
theorem renewals_copied : Runs.Along SharedHistory.step Orderly (Heap.empty, ⟨1, []⟩) renewals ∧
      ((renewals.foldl SharedHistory.step (Heap.empty, ⟨1, []⟩)).2.roots.map SharedRoot.children) = [3, 0, 0] ∧
      let built := renewals.foldl SharedHistory.step (Heap.empty, ⟨1, []⟩)
      Isolated ⟨(built.2.copy built.1).1, built.2, (built.2.copy built.1).2⟩ := by
  have orderly : Runs.Along SharedHistory.step Orderly (Heap.empty, ⟨1, []⟩) renewals := by decide
  exact ⟨orderly, by decide, (copy_faithful_isolated Heap.empty 1 renewals orderly).2.2⟩

end Samples

end Catapult.Namespaces
