import Mathlib.Algebra.Group.Nat.Defs
import Mathlib.Algebra.Ring.Int.Defs
import Mathlib.Data.List.Basic

/-!
# The wire format of protocol buffers

A message is a sequence of fields. A field is a key, its number and the wire type of its value, and
the value: a varint, eight bytes, a length and that many bytes, or four bytes. The deprecated groups
are not read.

1. `readVarint_varint`, `decode_encode`: what is encoded reads back.
2. The fields of proto3: a scalar that has its default is left out, the last occurrence of a field
   counts (`readUint`, `readText`), and a repeated message has one field for each element
   (`readMessages`).
3. `length_encode_uint_le` and the lemmas after it bound the size of a field.
-/

namespace Wire

/-! ## Varints -/

/-- A number in groups of seven bits, the lowest first, each but the last with the eighth bit set:
at most `groups + 1` of them. -/
def varint : ℕ → ℕ → List UInt8
  | 0, n => [UInt8.ofNat n]
  | groups + 1, n =>
    if n < 128 then [UInt8.ofNat n] else UInt8.ofNat (n % 128 + 128) :: varint groups (n / 128)

/-- The number at the front, of at most `groups + 1` groups, and what follows it. -/
def readVarint : ℕ → List UInt8 → Option (ℕ × List UInt8)
  | _, [] => none
  | groups, b :: bs =>
    if b.toNat < 128 then some (b.toNat, bs)
    else
      match groups with
      | 0 => none
      | groups + 1 => (readVarint groups bs).map fun r => (b.toNat - 128 + 128 * r.1, r.2)

variable {groups k n number : ℕ} {bs rest : List UInt8}

theorem readVarint_small (h : n < 128) (rest : List UInt8) :
    readVarint groups (UInt8.ofNat n :: rest) = some (n, rest) := by
  have hn : (UInt8.ofNat n).toNat = n := by rw [UInt8.toNat_ofNat']; omega
  unfold readVarint
  rw [hn, if_pos h]

theorem readVarint_varint (h : n < 128 ^ (groups + 1)) (rest : List UInt8) :
    readVarint groups (varint groups n ++ rest) = some (n, rest) := by
  induction groups generalizing n with
  | zero => exact readVarint_small (by omega) rest
  | succ groups ih =>
    unfold varint
    split_ifs with hn
    · exact readVarint_small hn rest
    · have hb : (UInt8.ofNat (n % 128 + 128)).toNat = n % 128 + 128 := by
        rw [UInt8.toNat_ofNat']; omega
      have hdiv : n / 128 < 128 ^ (groups + 1) := by
        rw [Nat.div_lt_iff_lt_mul (by omega), ← Nat.pow_succ]
        exact h
      rw [List.cons_append]
      unfold readVarint
      rw [hb, if_neg (by omega)]
      dsimp only
      rw [ih hdiv, Option.map_some]
      congr 2
      omega

theorem length_varint_le (h : n < 128 ^ (k + 1)) : (varint groups n).length ≤ k + 1 := by
  induction groups generalizing n k with
  | zero => exact Nat.le_add_left 1 k
  | succ groups ih =>
    unfold varint
    split_ifs with hn
    · exact Nat.le_add_left 1 k
    · cases k with
      | zero => exact absurd (by simpa using h) hn
      | succ k =>
        have hdiv : n / 128 < 128 ^ (k + 1) := by
          rw [Nat.div_lt_iff_lt_mul (by omega), ← Nat.pow_succ]
          exact h
        exact Nat.succ_le_succ (ih hdiv)

theorem varint_ne_nil : varint groups n ≠ [] := by
  cases groups with
  | zero => simp [varint]
  | succ groups =>
    unfold varint
    split_ifs <;> simp

theorem length_lt_of_readVarint {r : ℕ × List UInt8} (h : readVarint groups bs = some r) :
    r.2.length < bs.length := by
  induction bs generalizing groups r with
  | nil => cases groups <;> cases h
  | cons b bs ih =>
    unfold readVarint at h
    split_ifs at h
    · cases h
      simp
    · cases groups with
      | zero => cases h
      | succ groups =>
        obtain ⟨r', hr', rfl⟩ := Option.map_eq_some_iff.mp h
        have hlen := ih hr'
        exact Nat.lt_succ_of_lt hlen

/-! ## Fields -/

/-- The value of a field, by its wire type. -/
inductive Value
  | varint (n : ℕ)
  | fixed64 (bs : List UInt8)
  | bytes (bs : List UInt8)
  | fixed32 (bs : List UInt8)
  deriving DecidableEq, Repr

structure Field where
  number : ℕ
  value : Value
  deriving DecidableEq, Repr

def Value.wireType : Value → ℕ
  | .varint _ => 0
  | .fixed64 _ => 1
  | .bytes _ => 2
  | .fixed32 _ => 5

def Value.encode : Value → List UInt8
  | .varint n => Wire.varint 9 n
  | .fixed64 bs => bs
  | .bytes bs => Wire.varint 4 bs.length ++ bs
  | .fixed32 bs => bs

def Field.encode (f : Field) : List UInt8 :=
  varint 4 (8 * f.number + f.value.wireType) ++ f.value.encode

/-- The bytes of a message. -/
def encode (fs : List Field) : List UInt8 := fs.flatMap Field.encode

/-- The first `n` bytes, and what follows them. -/
def readBytes (n : ℕ) (bs : List UInt8) : Option (List UInt8 × List UInt8) :=
  if n ≤ bs.length then some (bs.take n, bs.drop n) else none

/-- The value at the front, by its wire type, and what follows it. -/
def readValue (bs : List UInt8) : ℕ → Option (Value × List UInt8)
  | 0 => (readVarint 9 bs).map fun r => (.varint (r.1 % 2 ^ 64), r.2)
  | 1 => (readBytes 8 bs).map fun r => (.fixed64 r.1, r.2)
  | 2 => (readVarint 4 bs).bind fun size =>
    if size.1 < 2 ^ 31 then (readBytes size.1 size.2).map fun r => (.bytes r.1, r.2) else none
  | 5 => (readBytes 4 bs).map fun r => (.fixed32 r.1, r.2)
  | _ => none

/-- The field at the front, and what follows it. No field has the number 0. -/
def readField (bs : List UInt8) : Option (Field × List UInt8) :=
  (readVarint 4 bs).bind fun key =>
    let number := key.1 % 2 ^ 32 / 8
    if number = 0 then none
    else (readValue key.2 (key.1 % 8)).map fun r => (⟨number, r.1⟩, r.2)

def readFields : ℕ → List UInt8 → Option (List Field)
  | _, [] => some []
  | 0, _ :: _ => none
  | fuel + 1, b :: bs =>
    (readField (b :: bs)).bind fun r => (readFields fuel r.2).map (r.1 :: ·)

/-- The fields of a message. Every field takes a byte at least (`decode_of_ne_nil`). -/
def decode (bs : List UInt8) : Option (List Field) := readFields bs.length bs

/-- The format can carry the value. -/
def Value.Valid : Value → Prop
  | .varint n => n < 2 ^ 64
  | .fixed64 bs => bs.length = 8
  | .bytes bs => bs.length < 2 ^ 31
  | .fixed32 bs => bs.length = 4

structure Field.Valid (f : Field) : Prop where
  pos : 0 < f.number
  number : f.number < 2 ^ 29
  value : f.value.Valid

theorem readBytes_append (bs rest : List UInt8) :
    readBytes bs.length (bs ++ rest) = some (bs, rest) := by
  simp [readBytes]

theorem readValue_encode {v : Value} (h : v.Valid) (rest : List UInt8) :
    readValue (v.encode ++ rest) v.wireType = some (v, rest) := by
  cases v with
  | varint n =>
    have hn : n < 2 ^ 64 := h
    have hread : readVarint 9 (varint 9 n ++ rest) = some (n, rest) :=
      readVarint_varint (by omega) rest
    simp only [readValue, Value.encode, Value.wireType, hread, Option.map_some]
    rw [Nat.mod_eq_of_lt hn]
  | bytes bs =>
    have hbs : bs.length < 2 ^ 31 := h
    have hread : readVarint 4 (varint 4 bs.length ++ (bs ++ rest)) = some (bs.length, bs ++ rest) :=
      readVarint_varint (by omega) _
    simp only [readValue, Value.encode, Value.wireType, List.append_assoc, hread, Option.bind_some]
    rw [if_pos hbs, readBytes_append, Option.map_some]
  | fixed64 bs =>
    have hread := readBytes_append bs rest
    rw [show bs.length = 8 from h] at hread
    simp only [readValue, Value.encode, Value.wireType, hread, Option.map_some]
  | fixed32 bs =>
    have hread := readBytes_append bs rest
    rw [show bs.length = 4 from h] at hread
    simp only [readValue, Value.encode, Value.wireType, hread, Option.map_some]

theorem Value.wireType_lt (v : Value) : v.wireType < 8 := by
  cases v <;> simp [Value.wireType]

theorem readField_encode {f : Field} (h : f.Valid) (rest : List UInt8) :
    readField (f.encode ++ rest) = some (f, rest) := by
  have hpos := h.pos
  have hnumber := h.number
  have htype := f.value.wireType_lt
  have hread : readVarint 4 (varint 4 (8 * f.number + f.value.wireType) ++
      (f.value.encode ++ rest)) = some (8 * f.number + f.value.wireType, f.value.encode ++ rest) :=
    readVarint_varint (by omega) _
  have hdiv : (8 * f.number + f.value.wireType) % 2 ^ 32 / 8 = f.number := by omega
  have hmod : (8 * f.number + f.value.wireType) % 8 = f.value.wireType := by omega
  unfold readField Field.encode
  rw [List.append_assoc, hread, Option.bind_some]
  dsimp only
  rw [hdiv, hmod, if_neg (by omega), readValue_encode h.value, Option.map_some]

theorem length_le_of_readBytes {r : List UInt8 × List UInt8} (h : readBytes n bs = some r) :
    r.2.length ≤ bs.length := by
  unfold readBytes at h
  split_ifs at h
  cases h
  simp

theorem length_le_of_readValue {r : Value × List UInt8} (h : readValue bs n = some r) :
    r.2.length ≤ bs.length := by
  unfold readValue at h
  split at h
  · obtain ⟨r, hr, rfl⟩ := Option.map_eq_some_iff.mp h
    exact Nat.le_of_lt (length_lt_of_readVarint hr)
  · obtain ⟨r, hr, rfl⟩ := Option.map_eq_some_iff.mp h
    exact length_le_of_readBytes hr
  · obtain ⟨size, hsize, h⟩ := Option.bind_eq_some_iff.mp h
    split_ifs at h
    obtain ⟨r, hr, rfl⟩ := Option.map_eq_some_iff.mp h
    exact Nat.le_trans (length_le_of_readBytes hr) (Nat.le_of_lt (length_lt_of_readVarint hsize))
  · obtain ⟨r, hr, rfl⟩ := Option.map_eq_some_iff.mp h
    exact length_le_of_readBytes hr
  · cases h

theorem length_lt_of_readField {r : Field × List UInt8} (h : readField bs = some r) :
    r.2.length < bs.length := by
  obtain ⟨key, hkey, h⟩ := Option.bind_eq_some_iff.mp h
  dsimp only at h
  split_ifs at h
  obtain ⟨v, hv, rfl⟩ := Option.map_eq_some_iff.mp h
  exact Nat.lt_of_le_of_lt (length_le_of_readValue hv) (length_lt_of_readVarint hkey)

/-- More fuel than bytes makes no difference. -/
theorem readFields_of_le {fuel : ℕ} (h : bs.length ≤ fuel) : readFields fuel bs = decode bs := by
  unfold decode
  induction fuel using Nat.strongRecOn generalizing bs with
  | _ fuel ih =>
    cases bs with
    | nil => unfold readFields; rfl
    | cons b bs =>
      cases fuel with
      | zero => cases h
      | succ fuel =>
        simp only [List.length_cons, readFields]
        cases hr : readField (b :: bs) with
        | none => rfl
        | some r =>
          have hlen := length_lt_of_readField hr
          simp only [List.length_cons] at h hlen
          simp only [Option.bind_some]
          rw [ih fuel (by omega) (by omega), ih bs.length (by omega) (by omega)]

/-- **The fields of a message, without fuel.** -/
theorem decode_of_ne_nil (h : bs ≠ []) :
    decode bs = (readField bs).bind fun r => (decode r.2).map (r.1 :: ·) := by
  cases bs with
  | nil => exact absurd rfl h
  | cons b bs =>
    have hstep : decode (b :: bs) =
        (readField (b :: bs)).bind fun r => (readFields bs.length r.2).map (r.1 :: ·) := rfl
    rw [hstep]
    cases hr : readField (b :: bs) with
    | none => rfl
    | some r =>
      have hlen := length_lt_of_readField hr
      rw [List.length_cons] at hlen
      rw [Option.bind_some, Option.bind_some, readFields_of_le (by omega)]

/-- **What is encoded decodes.** -/
theorem decode_encode {fs : List Field} (h : ∀ f ∈ fs, f.Valid) : decode (encode fs) = some fs := by
  induction fs with
  | nil => rfl
  | cons f fs ih =>
    have hne : f.encode ++ encode fs ≠ [] := by simp [Field.encode, varint_ne_nil]
    have hread := readField_encode (h f List.mem_cons_self) (encode fs)
    show decode (f.encode ++ encode fs) = _
    rw [decode_of_ne_nil hne, hread, Option.bind_some,
      ih fun g hg => h g (List.mem_cons_of_mem _ hg), Option.map_some]

/-! ## The fields of proto3 -/

/-- The bytes of a string. -/
def utf8 (s : String) : List UInt8 := s.toByteArray.data.toList

/-- The string of these bytes, which have to be UTF-8. -/
def readUtf8 (bs : List UInt8) : Option String := String.fromUTF8? ⟨bs.toArray⟩

/-- The number that an `int32` is written as: in 64 bits, with its sign. -/
def ofInt32 (k : ℤ) : ℕ := (k % 2 ^ 64).toNat

/-- The low 32 bits of a number, with a sign. -/
def toInt32 (n : ℕ) : ℤ := (n : ℤ).bmod (2 ^ 32)

/-- A number, unless it is the default. -/
def Field.uint (number n : ℕ) : List Field := if n = 0 then [] else [⟨number, .varint n⟩]

/-- A string, unless it is the default. -/
def Field.text (number : ℕ) (s : String) : List Field :=
  if s = "" then [] else [⟨number, .bytes (utf8 s)⟩]

/-- A message within a message. -/
def Field.message (number : ℕ) (fs : List Field) : Field := ⟨number, .bytes (Wire.encode fs)⟩

/-- The varints among the fields with this number. -/
def varints (number : ℕ) (fs : List Field) : List ℕ :=
  fs.filterMap fun
    | ⟨k, .varint n⟩ => if k = number then some n else none
    | _ => none

/-- The byte strings among the fields with this number. -/
def payloads (number : ℕ) (fs : List Field) : List (List UInt8) :=
  fs.filterMap fun
    | ⟨k, .bytes bs⟩ => if k = number then some bs else none
    | _ => none

def readUint (number : ℕ) (fs : List Field) : ℕ := (varints number fs).getLastD 0

def readText (number : ℕ) (fs : List Field) : Option String :=
  ((payloads number fs).mapM readUtf8).map (·.getLastD "")

def readMessages {α : Type*} (number : ℕ) (read : List Field → Option α) (fs : List Field) :
    Option (List α) :=
  (payloads number fs).mapM fun bs => (decode bs).bind read

theorem readUtf8_utf8 (s : String) : readUtf8 (utf8 s) = some s := by
  unfold readUtf8 utf8 String.fromUTF8?
  rw [Array.toArray_toList, dif_pos s.isValidUTF8]
  rfl

theorem length_utf8 (s : String) : (utf8 s).length = s.utf8ByteSize := rfl

theorem ofInt32_lt (k : ℤ) : ofInt32 k < 2 ^ 64 := by
  unfold ofInt32
  omega

theorem toInt32_ofInt32 {k : ℤ} (hlo : -2 ^ 31 ≤ k) (hhi : k < 2 ^ 31) :
    toInt32 (ofInt32 k) = k := by
  have hcast : ((k % 2 ^ 64).toNat : ℤ) = k % 2 ^ 64 := Int.toNat_of_nonneg (by omega)
  unfold toInt32 ofInt32
  rw [hcast, Int.bmod_def]
  omega

section

variable {fs gs : List Field} {j : ℕ} {s : String}

@[simp] theorem varints_append :
    varints number (fs ++ gs) = varints number fs ++ varints number gs :=
  List.filterMap_append ..

@[simp] theorem payloads_append :
    payloads number (fs ++ gs) = payloads number fs ++ payloads number gs :=
  List.filterMap_append ..

@[simp] theorem varints_uint :
    varints number (Field.uint j n) = if j = number ∧ n ≠ 0 then [n] else [] := by
  unfold Field.uint varints
  split_ifs <;> simp_all

@[simp] theorem payloads_uint : payloads number (Field.uint j n) = [] := by
  unfold Field.uint payloads
  split_ifs <;> simp

@[simp] theorem varints_text : varints number (Field.text j s) = [] := by
  unfold Field.text varints
  split_ifs <;> simp

@[simp] theorem payloads_text :
    payloads number (Field.text j s) = if j = number ∧ s ≠ "" then [utf8 s] else [] := by
  unfold Field.text payloads
  split_ifs <;> simp_all

@[simp] theorem varints_message {gss : List (List Field)} :
    varints number (gss.map (Field.message j)) = [] := by
  simp [varints, Field.message]

@[simp] theorem payloads_message {gss : List (List Field)} :
    payloads number (gss.map (Field.message j)) =
      if j = number then gss.map encode else [] := by
  induction gss with
  | nil => simp [payloads]
  | cons gs gss ih =>
    unfold payloads Field.message at *
    split_ifs at * <;> simp_all

theorem readUint_eq (h : varints number fs = if n ≠ 0 then [n] else []) :
    readUint number fs = n := by
  unfold readUint
  rw [h]
  split_ifs with hn
  · rfl
  · exact (not_not.mp hn).symm

theorem readText_eq (h : payloads number fs = if s ≠ "" then [utf8 s] else []) :
    readText number fs = some s := by
  unfold readText
  rw [h]
  split_ifs with hs
  · simp [readUtf8_utf8]
  · simp [not_not.mp hs]

theorem readMessages_eq {α : Type*} {read : List Field → Option α} (write : α → List Field)
    {as : List α} (h : payloads number fs = (as.map write).map encode)
    (hread : ∀ a ∈ as, (decode (encode (write a))).bind read = some a) :
    readMessages number read fs = some as := by
  unfold readMessages
  rw [h]
  clear h
  induction as with
  | nil => rfl
  | cons a as ih =>
    rw [List.map_cons, List.map_cons, List.mapM_cons, hread a List.mem_cons_self,
      ih fun b hb => hread b (List.mem_cons_of_mem _ hb)]
    rfl

theorem uint_valid (hpos : 0 < number) (hnumber : number < 2 ^ 29) (hn : n < 2 ^ 64) :
    ∀ f ∈ Field.uint number n, f.Valid := by
  unfold Field.uint
  split_ifs
  · simp
  · simpa using (⟨hpos, hnumber, hn⟩ : Field.Valid ⟨number, .varint n⟩)

end

/-! ## Sizes -/

section

variable {fs gs : List Field} {s : String}

@[simp] theorem encode_append : encode (fs ++ gs) = encode fs ++ encode gs := List.flatMap_append

theorem mem_length_encode_le {f : Field} (h : f ∈ fs) : f.encode.length ≤ (encode fs).length := by
  unfold encode
  rw [List.flatMap_def]
  exact (List.sublist_flatten_of_mem (List.mem_map_of_mem h)).length_le

/-- The key of a field with a small number is one byte. -/
theorem length_encode_singleton {v : Value} (hnumber : number < 16) :
    (encode [⟨number, v⟩]).length ≤ 1 + v.encode.length := by
  have hkey : (varint 4 (8 * number + v.wireType)).length ≤ 0 + 1 := by
    refine length_varint_le ?_
    have := v.wireType_lt
    omega
  simp only [encode, List.flatMap_singleton, Field.encode, List.length_append]
  omega

theorem length_encode_uint_le (hnumber : number < 16) (hn : n < 128 ^ (k + 1)) :
    (encode (Field.uint number n)).length ≤ k + 2 := by
  unfold Field.uint
  split_ifs
  · exact Nat.zero_le _
  · have hlen := length_encode_singleton (v := .varint n) hnumber
    have hvalue : (Value.encode (.varint n)).length ≤ k + 1 := length_varint_le hn
    omega

theorem length_encode_text_le (hnumber : number < 16) (hs : s.utf8ByteSize < 128) :
    (encode (Field.text number s)).length ≤ s.utf8ByteSize + 2 := by
  unfold Field.text
  split_ifs
  · exact Nat.zero_le _
  · have hlen := length_encode_singleton (v := .bytes (utf8 s)) hnumber
    have hsize : (varint 4 (utf8 s).length).length ≤ 0 + 1 := by
      refine length_varint_le ?_
      rw [length_utf8]
      omega
    rw [Value.encode, List.length_append, length_utf8] at hlen
    rw [length_utf8] at hsize
    omega

theorem length_encode_message_le (hnumber : number < 16) (hfs : (encode fs).length < 128 ^ 2) :
    (Field.message number fs).encode.length ≤ (encode fs).length + 3 := by
  have hlen := length_encode_singleton (v := .bytes (encode fs)) hnumber
  have hsize : (varint 4 (encode fs).length).length ≤ 1 + 1 := length_varint_le hfs
  have hone : (encode [Field.message number fs]).length =
      (Field.message number fs).encode.length := by simp [encode]
  rw [Value.encode, List.length_append] at hlen
  rw [← hone]
  unfold Field.message
  omega

theorem length_lt_of_mem {bs : List UInt8} (h : ⟨number, .bytes bs⟩ ∈ fs) :
    bs.length < (encode fs).length := by
  have hle := mem_length_encode_le h
  have hpos : 0 < (varint 4 bs.length).length := List.length_pos_of_ne_nil varint_ne_nil
  simp only [Field.encode, Value.encode, List.length_append] at hle
  omega

theorem text_valid (hpos : 0 < number) (hnumber : number < 2 ^ 29)
    (hmem : ∀ f ∈ Field.text number s, f ∈ fs) (hsize : (encode fs).length < 2 ^ 31) :
    ∀ f ∈ Field.text number s, f.Valid := by
  intro f hf
  have hfield := hmem f hf
  unfold Field.text at hf
  split_ifs at hf
  · cases hf
  · rw [List.mem_singleton.mp hf] at hfield ⊢
    exact ⟨hpos, hnumber, Nat.lt_trans (length_lt_of_mem hfield) hsize⟩

end

end Wire
