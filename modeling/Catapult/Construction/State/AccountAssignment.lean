import Catapult.Construction.State.AccountState
import Catapult.Library.Heap

/-
This file models how account states are assigned to each other and which memory they own.
-/

namespace Catapult.State

/-- The array is allocated when the first value is pushed. -/
structure ArrayStack (T : Type) (size : Nat) where
  array : Option (Vector T size)
  count : UInt64
  deriving DecidableEq

namespace ArrayStack

variable {T : Type} {size : Nat} [Inhabited T]

def empty : ArrayStack T size := ⟨none, 0⟩

/-- An iteration returns default values if there is no array. -/
def toList (stack : ArrayStack T size) : List T := (stack.array.getD (Vector.replicate size default)).toList

def shiftRight (array : Vector T size) (value : T) : Vector T size :=
  Vector.ofFn fun index => if index.val = 0 then value else array.toList.getD (index.val - 1) default

def shiftLeft (array : Vector T size) : Vector T size :=
  Vector.ofFn fun index => array.toList.getD (index.val + 1) default

def modifyFront (array : Vector T size) (change : T → T) : Vector T size :=
  Vector.ofFn fun index => if index.val = 0 then change (array.get index) else array.get index

def push (stack : ArrayStack T size) (value : T) : ArrayStack T size :=
  ⟨some (shiftRight (stack.array.getD (Vector.replicate size default)) value),
    if stack.count < UInt64.ofNat size then stack.count + 1 else stack.count⟩

/-- The array is released with the last value. -/
def pop (stack : ArrayStack T size) : Except AccountError (ArrayStack T size) :=
  match stack.array with
  | none => .error .emptyStack
  | some array => .ok ⟨if stack.count - 1 = 0 then none else some (shiftLeft array), stack.count - 1⟩

/-- The top value is changed in place. -/
def modifyTop (stack : ArrayStack T size) (change : T → T) : Except AccountError (ArrayStack T size) :=
  if stack.count = 0 then .error .emptyStack
  else
    match stack.array with
    | none => .error .emptyStack
    | some array => .ok { stack with array := some (modifyFront array change) }

/-- An array is copied only if the source has one. -/
def assign (target source : ArrayStack T size) : ArrayStack T size :=
  ⟨match source.array with
    | none => target.array
    | some array => some array, source.count⟩

end ArrayStack

/-- A stack points to the array that it owns. -/
structure StackReference (T : Type) (size : Nat) where
  pointer : Option Nat
  count : UInt64
  deriving DecidableEq

namespace StackReference

variable {T : Type} {size : Nat} [Inhabited T]

def empty : StackReference T size := ⟨none, 0⟩

def view (heap : Heap (Vector T size)) (stack : StackReference T size) : ArrayStack T size :=
  ⟨stack.pointer.bind heap.read, stack.count⟩

def push (heap : Heap (Vector T size)) (stack : StackReference T size) (value : T) :
    Heap (Vector T size) × StackReference T size :=
  let count := if stack.count < UInt64.ofNat size then stack.count + 1 else stack.count
  match stack.pointer with
  | none => (heap.allocate (ArrayStack.shiftRight (Vector.replicate size default) value), ⟨some heap.next, count⟩)
  | some pointer =>
    let array := (heap.read pointer).getD (Vector.replicate size default)
    (heap.write pointer (ArrayStack.shiftRight array value), ⟨some pointer, count⟩)

def pop (heap : Heap (Vector T size)) (stack : StackReference T size) :
    Except AccountError (Heap (Vector T size) × StackReference T size) :=
  match stack.pointer with
  | none => .error .emptyStack
  | some pointer =>
    let array := (heap.read pointer).getD (Vector.replicate size default)
    if stack.count - 1 = 0 then .ok (heap.release pointer, ⟨none, stack.count - 1⟩)
    else .ok (heap.write pointer (ArrayStack.shiftLeft array), ⟨some pointer, stack.count - 1⟩)

def modifyTop (heap : Heap (Vector T size)) (stack : StackReference T size) (change : T → T) :
    Except AccountError (Heap (Vector T size) × StackReference T size) :=
  if stack.count = 0 then .error .emptyStack
  else
    match stack.pointer with
    | none => .error .emptyStack
    | some pointer =>
      let array := (heap.read pointer).getD (Vector.replicate size default)
      .ok (heap.write pointer (ArrayStack.modifyFront array change), stack)

/-- The array of the target is replaced by a new one that holds the values of the source. -/
def assign (heap : Heap (Vector T size)) (target source : StackReference T size) : Heap (Vector T size) × StackReference T size :=
  match source.pointer with
  | none => (heap, ⟨target.pointer, source.count⟩)
  | some pointer =>
    let array := (heap.read pointer).getD (Vector.replicate size default)
    match target.pointer with
    | none => (heap.allocate array, ⟨some heap.next, source.count⟩)
    | some old => ((heap.allocate array).release old, ⟨some heap.next, source.count⟩)

end StackReference

/-- The stacks hold their values or point to them. -/
structure StoredAccountState (Stack : Type → Nat → Type) where
  address : Address
  addressHeight : Height
  publicKey : Key
  publicKeyHeight : Height
  accountType : AccountType
  supplementalPublicKeys : AccountPublicKeys
  importanceSnapshots : Stack ImportanceSnapshot importanceHistorySize
  activityBuckets : Stack ActivityBucket activityBucketHistorySize
  balances : AccountBalances

/-- These changes are made to the data of an account. -/
inductive AccountChange where
  | credit (id : MosaicId) (amount : Amount)
  | debit (id : MosaicId) (amount : Amount)
  | optimize (id : MosaicId)
  | pushSnapshot (snapshot : ImportanceSnapshot)
  | popSnapshot
  | pushBucket (bucket : ActivityBucket)
  | changeBucket (change : ActivityBucket → ActivityBucket)
  | popBucket

namespace StoredAccountState

/-- The members are assigned one after the other. -/
def assign (target source : StoredAccountState ArrayStack) : Except AccountError (StoredAccountState ArrayStack) := do
  let balances ← target.balances.assign source.balances
  return { source with
    importanceSnapshots := target.importanceSnapshots.assign source.importanceSnapshots
    activityBuckets := target.activityBuckets.assign source.activityBuckets
    balances := balances }

def change (state : StoredAccountState ArrayStack) : AccountChange → Except AccountError (StoredAccountState ArrayStack)
  | .credit id amount => do return { state with balances := ← state.balances.credit id amount }
  | .debit id amount => do return { state with balances := ← state.balances.debit id amount }
  | .optimize id => do return { state with balances := ← state.balances.optimize id }
  | .pushSnapshot snapshot => .ok { state with importanceSnapshots := state.importanceSnapshots.push snapshot }
  | .popSnapshot => do return { state with importanceSnapshots := ← state.importanceSnapshots.pop }
  | .pushBucket bucket => .ok { state with activityBuckets := state.activityBuckets.push bucket }
  | .changeBucket change => do return { state with activityBuckets := ← state.activityBuckets.modifyTop change }
  | .popBucket => do return { state with activityBuckets := ← state.activityBuckets.pop }

end StoredAccountState

/-- The arrays of all accounts lie in two heaps. -/
structure AccountStore where
  snapshots : Heap (Vector ImportanceSnapshot importanceHistorySize)
  buckets : Heap (Vector ActivityBucket activityBucketHistorySize)
  accounts : List (StoredAccountState StackReference)

inductive AccountStep where
  | create (address : Address) (addressHeight : Height)
  | change (index : Nat) (change : AccountChange)
  | assign (target source : Nat)

namespace AccountStore

def empty : AccountStore := ⟨.empty, .empty, []⟩

/-- The account as its owner sees it. -/
def view (store : AccountStore) (account : StoredAccountState StackReference) : StoredAccountState ArrayStack :=
  { account with
    importanceSnapshots := account.importanceSnapshots.view store.snapshots
    activityBuckets := account.activityBuckets.view store.buckets }

def shows (store : AccountStore) (index : Nat) : Option (StoredAccountState ArrayStack) :=
  store.accounts[index]?.map store.view

def replace (store : AccountStore) (index : Nat) (account : StoredAccountState StackReference) : AccountStore :=
  { store with accounts := store.accounts.set index account }

def create (store : AccountStore) (address : Address) (addressHeight : Height) : AccountStore :=
  let account : StoredAccountState StackReference :=
    ⟨address, addressHeight, Vector.replicate 1312 0, 0, .unlinked, .empty, .empty, .empty, .empty⟩
  { store with accounts := store.accounts ++ [account] }

def changeAccount (store : AccountStore) (index : Nat) (account : StoredAccountState StackReference) :
    AccountChange → Except AccountError AccountStore
  | .credit id amount => do return store.replace index { account with balances := ← account.balances.credit id amount }
  | .debit id amount => do return store.replace index { account with balances := ← account.balances.debit id amount }
  | .optimize id => do return store.replace index { account with balances := ← account.balances.optimize id }
  | .pushSnapshot snapshot =>
    let (snapshots, importanceSnapshots) := account.importanceSnapshots.push store.snapshots snapshot
    .ok { store.replace index { account with importanceSnapshots } with snapshots }
  | .popSnapshot => do
    let (snapshots, importanceSnapshots) ← account.importanceSnapshots.pop store.snapshots
    return { store.replace index { account with importanceSnapshots } with snapshots }
  | .pushBucket bucket =>
    let (buckets, activityBuckets) := account.activityBuckets.push store.buckets bucket
    .ok { store.replace index { account with activityBuckets } with buckets }
  | .changeBucket change => do
    let (buckets, activityBuckets) ← account.activityBuckets.modifyTop store.buckets change
    return { store.replace index { account with activityBuckets } with buckets }
  | .popBucket => do
    let (buckets, activityBuckets) ← account.activityBuckets.pop store.buckets
    return { store.replace index { account with activityBuckets } with buckets }

/-- An account that does not exist is not changed. -/
def change (store : AccountStore) (index : Nat) (change : AccountChange) : Except AccountError AccountStore :=
  match store.accounts[index]? with
  | none => .ok store
  | some account => store.changeAccount index account change

def assign (store : AccountStore) (target source : Nat) : Except AccountError AccountStore :=
  match store.accounts[target]?, store.accounts[source]? with
  | some old, some new => do
    let (snapshots, importanceSnapshots) := old.importanceSnapshots.assign store.snapshots new.importanceSnapshots
    let (buckets, activityBuckets) := old.activityBuckets.assign store.buckets new.activityBuckets
    let balances ← old.balances.assign new.balances
    return ⟨snapshots, buckets, store.accounts.set target { new with importanceSnapshots, activityBuckets, balances }⟩
  | _, _ => .ok store

def step (store : AccountStore) : AccountStep → Except AccountError AccountStore
  | .create address addressHeight => .ok (store.create address addressHeight)
  | .change index change => store.change index change
  | .assign target source => store.assign target source

end AccountStore

end Catapult.State
