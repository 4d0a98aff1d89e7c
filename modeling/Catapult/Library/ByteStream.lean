import Mathlib.Algebra.Order.Ring.Nat

/-
This file develops codecs of fixed size and readers that take values from the front of a byte stream.
-/

namespace ByteStream

/-- The bytes of a number from the lowest to the highest. -/
def littleEndian : Nat → Nat → List UInt8
  | 0, _ => []
  | size + 1, value => UInt8.ofNat value :: littleEndian size (value / 256)

def ofLittleEndian : List UInt8 → Nat
  | [] => 0
  | byte :: bytes => byte.toNat + 256 * ofLittleEndian bytes

theorem length_littleEndian (size value : Nat) : (littleEndian size value).length = size := by
  induction size generalizing value with
  | zero => rfl
  | succ size ih => rw [littleEndian, List.length_cons, ih]

theorem ofLittleEndian_littleEndian {size value : Nat} (bounded : value < 256 ^ size) :
    ofLittleEndian (littleEndian size value) = value := by
  induction size generalizing value with
  | zero =>
    rw [Nat.pow_zero] at bounded
    exact (Nat.lt_one_iff.mp bounded).symm
  | succ size ih =>
    have quotient : value / 256 < 256 ^ size := Nat.div_lt_of_lt_mul (by rwa [Nat.pow_succ'] at bounded)
    rw [littleEndian, ofLittleEndian, ih quotient, UInt8.toNat_ofNat']
    exact Nat.mod_add_div value 256

/-- A codec writes values with a fixed number of bytes, and what it writes is read back. -/
structure Codec (α : Type) where
  size : Nat
  write : α → List UInt8
  read : List UInt8 → α
  length_write : ∀ value, (write value).length = size
  read_write : ∀ value, read (write value) = value

namespace Codec

def word8 : Codec UInt8 where
  size := 1
  write value := littleEndian 1 value.toNat
  read bytes := UInt8.ofNat (ofLittleEndian bytes)
  length_write value := length_littleEndian 1 _
  read_write value := by
    rw [ofLittleEndian_littleEndian value.toNat_lt, UInt8.ofNat_toNat]

def word16 : Codec UInt16 where
  size := 2
  write value := littleEndian 2 value.toNat
  read bytes := UInt16.ofNat (ofLittleEndian bytes)
  length_write value := length_littleEndian 2 _
  read_write value := by
    rw [ofLittleEndian_littleEndian value.toNat_lt, UInt16.ofNat_toNat]

def word32 : Codec UInt32 where
  size := 4
  write value := littleEndian 4 value.toNat
  read bytes := UInt32.ofNat (ofLittleEndian bytes)
  length_write value := length_littleEndian 4 _
  read_write value := by
    rw [ofLittleEndian_littleEndian value.toNat_lt, UInt32.ofNat_toNat]

def word64 : Codec UInt64 where
  size := 8
  write value := littleEndian 8 value.toNat
  read bytes := UInt64.ofNat (ofLittleEndian bytes)
  length_write value := length_littleEndian 8 _
  read_write value := by
    rw [ofLittleEndian_littleEndian value.toNat_lt, UInt64.ofNat_toNat]

def array (size : Nat) : Codec (Vector UInt8 size) where
  size := size
  write value := value.toList
  read bytes := Vector.ofFn fun index => bytes.getD index 0
  length_write value := value.length_toList
  read_write value := by
    ext index bounded
    simp [List.getD_eq_getElem?_getD]

def pair {α β : Type} (first : Codec α) (second : Codec β) : Codec (α × β) where
  size := first.size + second.size
  write value := first.write value.1 ++ second.write value.2
  read bytes := (first.read (bytes.take first.size), second.read (bytes.drop first.size))
  length_write value := by rw [List.length_append, first.length_write, second.length_write]
  read_write value := by
    rw [List.take_left' (first.length_write _), List.drop_left' (first.length_write _), first.read_write, second.read_write]

/-- The values of a type are written as those of another type. -/
def via {α β : Type} (codec : Codec α) (toOther : β → α) (ofOther : α → β) (inverse : ∀ value, ofOther (toOther value) = value) :
    Codec β where
  size := codec.size
  write value := codec.write (toOther value)
  read bytes := ofOther (codec.read bytes)
  length_write value := codec.length_write _
  read_write value := by rw [codec.read_write, inverse]

end Codec

/-- A reader takes values from the front of the remaining bytes. -/
abbrev Reader (ε α : Type) := StateT (List UInt8) (Except ε) α

variable {ε α β : Type}

/-- The end of the stream is an error. -/
def Codec.take (codec : Codec α) (endOfStream : ε) : Reader ε α := fun bytes =>
  if bytes.length < codec.size then .error endOfStream
  else .ok (codec.read (bytes.take codec.size), bytes.drop codec.size)

theorem Codec.take_write (codec : Codec α) (endOfStream : ε) (value : α) (rest : List UInt8) :
    codec.take endOfStream (codec.write value ++ rest) = .ok (value, rest) := by
  have length := codec.length_write value
  rw [Codec.take, if_neg (by rw [List.length_append]; omega), List.take_left' length, List.drop_left' length, codec.read_write]

/-- A value that was written is the next one that is read. -/
theorem Codec.take_bind (codec : Codec α) {endOfStream : ε} (next : α → Reader ε β) (value : α) (rest : List UInt8) :
    (codec.take endOfStream >>= next) (codec.write value ++ rest) = next value rest := by
  change (codec.take endOfStream (codec.write value ++ rest) >>= fun taken => next taken.1 taken.2) = _
  rw [codec.take_write]
  rfl

/-- A reader takes exactly these bytes and yields the value. -/
def Reads (reader : Reader ε α) (bytes : List UInt8) (value : α) : Prop := ∀ rest, reader (bytes ++ rest) = .ok (value, rest)

theorem Codec.reads (codec : Codec α) (endOfStream : ε) (value : α) : Reads (codec.take endOfStream) (codec.write value) value :=
  codec.take_write endOfStream value

theorem Reads.pure (value : α) : Reads (pure value : Reader ε α) [] value := fun _ => rfl

/-- The next reader goes on with the remaining bytes. -/
theorem Reads.followed {reader : Reader ε α} {bytes : List UInt8} {value : α} (reads : Reads reader bytes value)
    (next : α → Reader ε β) (rest : List UInt8) : (reader >>= next) (bytes ++ rest) = next value rest := by
  change (reader (bytes ++ rest) >>= fun taken => next taken.1 taken.2) = _
  rw [reads]
  rfl

/-- Readers in a sequence take the bytes one after the other. -/
theorem Reads.bind {reader : Reader ε α} {next : α → Reader ε β} {bytes more : List UInt8} {value : α} {result : β}
    (first : Reads reader bytes value) (second : Reads (next value) more result) : Reads (reader >>= next) (bytes ++ more) result := by
  intro rest
  rw [List.append_assoc, first.followed]
  exact second rest

/-- A function is applied to the value that was read. -/
theorem Reads.mapped {reader : Reader ε α} {bytes : List UInt8} {value : α} (reads : Reads reader bytes value) (convert : α → β) :
    Reads (reader >>= fun value => (Pure.pure (convert value) : Reader ε β)) bytes (convert value) := by
  intro rest
  rw [reads.followed]
  rfl

/-- A computation that takes no bytes is part of a sequence. -/
theorem Reads.lift {computation : Except ε α} {next : α → Reader ε β} {bytes : List UInt8} {value : α} {result : β}
    (computed : computation = .ok value) (second : Reads (next value) bytes result) :
    Reads ((liftM computation : Reader ε α) >>= next) bytes result := by
  intro rest
  rw [computed]
  exact second rest

variable {S : Type} (endOfStream : ε) (count : UInt64) (body : S → Reader ε S)

/-- The counter of the loop has 32 bits and wraps around before it reaches a greater count. -/
def loopFrom : Nat → UInt32 → S → Reader ε S
  | 0, _, _ => throw endOfStream
  | rounds + 1, index, state =>
    if index.toUInt64 < count then do loopFrom rounds (index + 1) (← body state) else return state

/-- Every round takes some bytes, so that no loop has more rounds than there are bytes. -/
def loop (state : S) : Reader ε S := fun bytes => loopFrom endOfStream count body (bytes.length + 1) 0 state bytes

/-- These bytes are taken by this number of rounds. -/
inductive Passes (initial : S) : List UInt8 → Nat → S → Prop where
  | start : Passes initial [] 0 initial
  | round {bytes more : List UInt8} {rounds : Nat} {state next : S} (before : Passes initial bytes rounds state)
      (reads : Reads (body state) more next) (taken : more ≠ []) : Passes initial (bytes ++ more) (rounds + 1) next

variable {endOfStream count body} {initial state : S} {bytes : List UInt8} {rounds : Nat}

theorem Passes.rounds_le (passes : Passes body initial bytes rounds state) : rounds ≤ bytes.length := by
  induction passes with
  | start => exact Nat.le_refl _
  | round _ _ taken ih =>
    have some := List.length_pos_iff.mpr taken
    rw [List.length_append]
    omega

theorem loopFrom_succ {fuel : Nat} {index : UInt32} (below : index.toUInt64 < count) (rest : List UInt8) :
    loopFrom endOfStream count body (fuel + 1) index state rest =
      (body state >>= loopFrom endOfStream count body fuel (index + 1)) rest := by
  rw [loopFrom, if_pos below]

/-- The rounds of a loop are followed by the rest of the loop. -/
theorem Passes.loopFrom (passes : Passes body initial bytes rounds state) (below : rounds ≤ count.toNat)
    (fits : rounds < 2 ^ 32) (fuel : Nat) (rest : List UInt8) :
    loopFrom endOfStream count body (rounds + fuel) 0 initial (bytes ++ rest) =
      loopFrom endOfStream count body fuel (UInt32.ofNat rounds) state rest := by
  induction passes generalizing fuel rest with
  | start =>
    rw [Nat.zero_add, List.nil_append]
    rfl
  | @round bytes more rounds state next before reads taken ih =>
    have index : (UInt32.ofNat rounds).toUInt64 < count := by
      rw [UInt64.lt_iff_toNat_lt, UInt32.toNat_toUInt64, UInt32.toNat_ofNat_of_lt' (show rounds < 2 ^ 32 by omega)]
      omega
    have following : UInt32.ofNat rounds + 1 = UInt32.ofNat (rounds + 1) := by
      rw [UInt32.ofNat_add]
      rfl
    have shifted : rounds + 1 + fuel = rounds + (fuel + 1) := by omega
    rw [shifted, List.append_assoc, ih (by omega) (by omega), loopFrom_succ index, following]
    change (body state (more ++ rest) >>= fun taken => _) = _
    rw [reads rest]
    rfl

/-- A loop reads its rounds if the counter can reach their number. -/
theorem Passes.reads (passes : Passes body initial bytes rounds state) (counted : count.toNat = rounds)
    (fits : rounds < 2 ^ 32) : Reads (loop endOfStream count body initial) bytes state := by
  intro rest
  have enough := passes.rounds_le
  obtain ⟨fuel, length⟩ := Nat.exists_eq_add_of_le (show rounds + 1 ≤ (bytes ++ rest).length + 1 by
    rw [List.length_append]
    omega)
  have finished : ¬ (UInt32.ofNat rounds).toUInt64 < count := by
    rw [UInt64.lt_iff_toNat_lt, UInt32.toNat_toUInt64, UInt32.toNat_ofNat_of_lt' (show rounds < 2 ^ 32 by omega)]
    omega
  rw [loop, length, Nat.add_assoc, passes.loopFrom (by omega) fits, Nat.add_comm 1, ByteStream.loopFrom, if_neg finished]
  rfl

/-- A loop whose count is never reached does not return. -/
theorem loop_endless (great : 2 ^ 32 ≤ count.toNat) (initial : S) (bytes : List UInt8) (result : S × List UInt8) :
    loop endOfStream count body initial bytes ≠ .ok result := by
  suffices endless : ∀ fuel index state bytes, loopFrom endOfStream count body fuel index state bytes ≠ .ok result from
    endless _ _ _ _
  intro fuel
  induction fuel with
  | zero => exact fun _ _ _ returned => nomatch returned
  | succ fuel ih =>
    intro index state bytes
    have below : index.toUInt64 < count := by
      rw [UInt64.lt_iff_toNat_lt, UInt32.toNat_toUInt64]
      exact Nat.lt_of_lt_of_le index.toNat_lt great
    rw [loopFrom_succ below]
    change (body state bytes >>= fun taken => _) ≠ _
    cases body state bytes with
    | error error => exact fun returned => nomatch returned
    | ok taken => exact ih (index + 1) taken.1 taken.2

/-- A loop with a round that does not return does not return either. -/
theorem Passes.loop_ne (passes : Passes body initial bytes rounds state) (below : rounds < count.toNat)
    (fits : rounds < 2 ^ 32) {rest : List UInt8} (fails : ∀ result, body state rest ≠ .ok result) (result : S × List UInt8) :
    loop endOfStream count body initial (bytes ++ rest) ≠ .ok result := by
  have enough := passes.rounds_le
  obtain ⟨fuel, length⟩ := Nat.exists_eq_add_of_le (show rounds + 1 ≤ (bytes ++ rest).length + 1 by
    rw [List.length_append]
    omega)
  have index : (UInt32.ofNat rounds).toUInt64 < count := by
    rw [UInt64.lt_iff_toNat_lt, UInt32.toNat_toUInt64, UInt32.toNat_ofNat_of_lt' (show rounds < 2 ^ 32 by omega)]
    exact below
  rw [loop, length, Nat.add_assoc, passes.loopFrom (by omega) fits, Nat.add_comm 1, loopFrom_succ index]
  change (body state rest >>= fun taken => _) ≠ _
  cases ran : body state rest with
  | error error => exact fun returned => nomatch returned
  | ok taken => exact absurd ran (fails taken)

/-- The bytes that are read are those that are written for the value. -/
structure Codec.Exact (codec : Codec α) : Prop where
  write_read : ∀ bytes, bytes.length = codec.size → codec.write (codec.read bytes) = bytes

theorem ofLittleEndian_lt (bytes : List UInt8) : ofLittleEndian bytes < 256 ^ bytes.length := by
  induction bytes with
  | nil => exact Nat.one_pos
  | cons byte bytes ih =>
    have small := byte.toNat_lt
    rw [ofLittleEndian, List.length_cons, Nat.pow_succ]
    omega

theorem littleEndian_ofLittleEndian (bytes : List UInt8) : littleEndian bytes.length (ofLittleEndian bytes) = bytes := by
  induction bytes with
  | nil => rfl
  | cons byte bytes ih =>
    have small := byte.toNat_lt
    have low : UInt8.ofNat (byte.toNat + 256 * ofLittleEndian bytes) = byte := by
      rw [← UInt8.toNat_inj, UInt8.toNat_ofNat']
      omega
    have high : (byte.toNat + 256 * ofLittleEndian bytes) / 256 = ofLittleEndian bytes := by omega
    rw [List.length_cons, littleEndian, ofLittleEndian, low, high, ih]

theorem Codec.word8_write (value : UInt8) : word8.write value = [value] := congrArg (fun byte => [byte]) UInt8.ofNat_toNat

theorem Codec.word8_exact : word8.Exact where
  write_read bytes length := by
    have small : ofLittleEndian bytes < 2 ^ 8 := by
      have bound := ofLittleEndian_lt bytes
      rwa [show bytes.length = 1 from length] at bound
    change littleEndian 1 (UInt8.ofNat (ofLittleEndian bytes)).toNat = bytes
    rw [UInt8.toNat_ofNat_of_lt' small, ← show bytes.length = 1 from length, littleEndian_ofLittleEndian]

theorem Codec.word16_exact : word16.Exact where
  write_read bytes length := by
    have small : ofLittleEndian bytes < 2 ^ 16 := by
      have bound := ofLittleEndian_lt bytes
      rwa [show bytes.length = 2 from length] at bound
    change littleEndian 2 (UInt16.ofNat (ofLittleEndian bytes)).toNat = bytes
    rw [UInt16.toNat_ofNat_of_lt' small, ← show bytes.length = 2 from length, littleEndian_ofLittleEndian]

theorem Codec.array_exact (size : Nat) : (array size).Exact where
  write_read bytes length := by
    have length : bytes.length = size := length
    apply List.ext_getElem
    · rw [(array size).length_write]
      exact length.symm
    · intro index first second
      simp [array, second]

/-- A reader takes from the front only the bytes that are written for its value. -/
def Inverts (reader : Reader ε α) (write : α → List UInt8) : Prop :=
  ∀ bytes value rest, reader bytes = .ok (value, rest) → bytes = write value ++ rest

theorem Codec.Exact.inverts {codec : Codec α} (exact : codec.Exact) (endOfStream : ε) : Inverts (codec.take endOfStream) codec.write := by
  intro bytes value rest taken
  rw [Codec.take] at taken
  split at taken
  · cases taken
  · next enough =>
    cases taken
    rw [exact.write_read _ (by rw [List.length_take]; omega), List.take_append_drop]

/-- A sequence succeeds if its first reader does and the next one does with the remaining bytes. -/
theorem bind_eq_ok {reader : Reader ε α} {next : α → Reader ε β} {bytes rest : List UInt8} {result : β}
    (read : (reader >>= next) bytes = .ok (result, rest)) :
    ∃ value middle, reader bytes = .ok (value, middle) ∧ next value middle = .ok (result, rest) := by
  change (reader bytes >>= fun taken => next taken.1 taken.2) = _ at read
  cases ran : reader bytes with
  | error error =>
    rw [ran] at read
    cases read
  | ok taken =>
    rw [ran] at read
    exact ⟨taken.1, taken.2, rfl, read⟩

end ByteStream
