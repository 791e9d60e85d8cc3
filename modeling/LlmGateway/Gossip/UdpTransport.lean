import Mathlib.Algebra.Group.Nat.Defs
import Mathlib.Algebra.Ring.Int.Defs
import Mathlib.Data.List.Basic
import Mathlib.Data.List.TakeWhile

/-!
# Addresses of the UDP transport

`Address` and `ParseAddress` of `udp_transport`, with `std::stoi` as the C++ standard defines it:
blanks, an optional sign, then the longest run of digits; what follows the digits is ignored.
Strings are read as their lists of characters.

1. `stoi_toString`: on the whole of `int`, what `std::to_string` prints, `std::stoi` reads back.
2. `parseAddress_toString`: what `ToString` prints, `ParseAddress` reads back.
-/

namespace LlmGateway.Gossip

/-- A parsed network address. The port is the `uint16_t` of the source. -/
structure Address where
  host : String
  port : UInt16
  deriving DecidableEq, Repr

/-- `Address::ToString`. -/
def Address.toString (a : Address) : String := a.host ++ ":" ++ ToString.toString a.port.toNat

/-- The exceptions of the standard library that parsing can raise. -/
inductive StdException
  | invalidArgument
  | outOfRange
  deriving DecidableEq, Repr

/-- `std::isspace` in the C locale. -/
def isSpace (c : Char) : Bool := c = ' ' || (9 ≤ c.toNat && c.toNat ≤ 13)

/-- The value of a list of decimal digits. -/
def decimal (cs : List Char) : ℕ := cs.foldl (fun n c => 10 * n + (c.toNat - '0'.toNat)) 0

/-- The optional sign `std::strtol` reads: whether it is a minus, and what follows it. -/
def readSign : List Char → Bool × List Char
  | '-' :: cs => (true, cs)
  | '+' :: cs => (false, cs)
  | cs => (false, cs)

/-- `std::stoi` in base ten. -/
def stoi (cs : List Char) : Except StdException ℤ :=
  let (negative, body) := readSign (cs.dropWhile isSpace)
  let digits := body.takeWhile Char.isDigit
  if digits = [] then .error .invalidArgument
  else
    let n : ℤ := if negative then -decimal digits else decimal digits
    if n < -2 ^ 31 ∨ 2 ^ 31 ≤ n then .error .outOfRange else .ok n

/-- The characters before and after the last occurrence of `c` (`std::string::rfind`). -/
def rfindSplit (c : Char) : List Char → Option (List Char × List Char)
  | [] => none
  | x :: xs =>
    match rfindSplit c xs with
    | some (before, after) => some (x :: before, after)
    | none => if x = c then some ([], xs) else none

/-- `ParseAddress`: the port is cut to sixteen bits by the `static_cast`. -/
def parseAddress (s : String) : Except StdException Address :=
  match rfindSplit ':' s.toList with
  | none => .error .invalidArgument
  | some (host, port) => (stoi port).map fun n => ⟨String.ofList host, UInt16.ofInt n⟩

example : parseAddress "10.0.0.1:17001" = .ok ⟨"10.0.0.1", 17001⟩ := by decide

/-! ## The round trip of an address -/

theorem rfindSplit_append (c : Char) (before after : List Char) (h : c ∉ after) :
    rfindSplit c (before ++ c :: after) = some (before, after) := by
  have hnone : rfindSplit c after = none := by
    induction after with
    | nil => rfl
    | cons x xs ih =>
      unfold rfindSplit
      rw [ih fun hmem => h (List.mem_cons_of_mem _ hmem)]
      refine if_neg ?_
      rintro rfl
      exact h List.mem_cons_self
  induction before with
  | nil =>
    rw [List.nil_append]
    unfold rfindSplit
    rw [hnone]
    exact if_pos rfl
  | cons x xs ih =>
    rw [List.cons_append]
    unfold rfindSplit
    rw [ih]

theorem readSign_of_isDigit {c : Char} (hc : c.isDigit = true) (cs : List Char) :
    readSign ((c :: cs).dropWhile isSpace) = (false, c :: cs) := by
  obtain ⟨hlo, hhi⟩ := Char.isDigit_iff_toNat.mp hc
  have hspace : isSpace c = false := by
    have hblank : c ≠ ' ' := by rintro rfl; exact absurd hlo (by decide)
    unfold isSpace
    rw [decide_eq_false hblank, Bool.false_or, Bool.and_eq_false_iff]
    have hzero : '0'.toNat = 48 := rfl
    exact Or.inr (decide_eq_false (by omega))
  rw [List.dropWhile_cons_of_neg (by rw [hspace]; exact Bool.false_ne_true)]
  unfold readSign
  split
  · rename_i heq
    cases heq
    exact absurd hlo (by decide)
  · rename_i heq
    cases heq
    exact absurd hlo (by decide)
  · rfl

theorem stoi_of_digits {digits : List Char} (hne : digits ≠ [])
    (hdigits : ∀ c ∈ digits, c.isDigit = true) (hn : decimal digits < 2 ^ 31) :
    stoi digits = .ok (decimal digits) := by
  have hsign : readSign (digits.dropWhile isSpace) = (false, digits) := by
    obtain ⟨c, rest, rfl⟩ := List.exists_cons_of_ne_nil hne
    exact readSign_of_isDigit (hdigits c List.mem_cons_self) rest
  unfold stoi
  rw [hsign]
  dsimp only
  rw [List.takeWhile_eq_self_iff.mpr hdigits, if_neg hne]
  simp only [Bool.false_eq_true, if_false]
  rw [if_neg (by omega)]

theorem stoi_toDigits {n : ℕ} (hn : n < 2 ^ 31) : stoi (Nat.toDigits 10 n) = .ok n := by
  have hvalue : decimal (Nat.toDigits 10 n) = n := Nat.ofDigitChars_ten_toDigits
  have hstoi := stoi_of_digits Nat.toDigits_ne_nil
    (fun c hc => Nat.isDigit_of_mem_toDigits (by decide) (by decide) hc) (hvalue.symm ▸ hn)
  rwa [hvalue] at hstoi

theorem ofInt_toNat (p : UInt16) : UInt16.ofInt (p.toNat : ℤ) = p := by
  have h := p.toNat_lt
  unfold UInt16.ofInt
  rw [Int.emod_eq_of_lt (by omega) (by omega), Int.toNat_natCast, UInt16.ofNat_toNat]

theorem toList_toString (n : ℤ) : (toString n).toList =
    if n < 0 then '-' :: Nat.toDigits 10 n.natAbs else Nat.toDigits 10 n.natAbs := by
  cases n with
  | ofNat k =>
    have hk : ¬ Int.ofNat k < 0 := Int.not_lt.mpr (Int.natCast_nonneg k)
    rw [if_neg hk]
    exact Nat.toList_repr
  | negSucc k =>
    rw [if_pos (Int.negSucc_lt_zero k)]
    show ("-" ++ Nat.repr (k + 1)).toList = _
    rw [String.toList_append, Nat.toList_repr]
    rfl

theorem colon_notMem_toString (n : ℤ) : ':' ∉ (toString n).toList := by
  have hdigits : ':' ∉ Nat.toDigits 10 n.natAbs := fun hc =>
    absurd (Nat.isDigit_of_mem_toDigits (by decide) (by decide) hc) (by decide)
  rw [toList_toString]
  split_ifs
  · rintro (_ | ⟨_, hc⟩)
    exact hdigits hc
  · exact hdigits

/-- On the whole of `int`, `std::stoi` reads back what `std::to_string` prints. -/
theorem stoi_toString {n : ℤ} (hlo : -2 ^ 31 ≤ n) (hhi : n < 2 ^ 31) :
    stoi (toString n).toList = .ok n := by
  rw [toList_toString]
  split_ifs with hneg
  · have hvalue : decimal (Nat.toDigits 10 n.natAbs) = n.natAbs := Nat.ofDigitChars_ten_toDigits
    have hdigits : (Nat.toDigits 10 n.natAbs).takeWhile Char.isDigit = Nat.toDigits 10 n.natAbs :=
      List.takeWhile_eq_self_iff.mpr fun c hc =>
        Nat.isDigit_of_mem_toDigits (by decide) (by decide) hc
    have hsign : readSign (('-' :: Nat.toDigits 10 n.natAbs).dropWhile isSpace) =
        (true, Nat.toDigits 10 n.natAbs) := rfl
    unfold stoi
    rw [hsign]
    dsimp only
    rw [hdigits, if_neg Nat.toDigits_ne_nil, if_pos rfl, hvalue,
      show -(n.natAbs : ℤ) = n by omega, if_neg (by omega)]
  · rw [stoi_toDigits (by omega), Int.natAbs_of_nonneg (Int.not_lt.mp hneg)]

theorem toString_inj {m n : ℤ} (hm : -2 ^ 31 ≤ m ∧ m < 2 ^ 31) (hn : -2 ^ 31 ≤ n ∧ n < 2 ^ 31) :
    toString m = toString n ↔ m = n := by
  refine ⟨fun h => ?_, congrArg _⟩
  have hread := stoi_toString hm.1 hm.2
  rw [h, stoi_toString hn.1 hn.2] at hread
  exact (Except.ok.inj hread).symm

theorem rfindSplit_print (host : String) (n : ℤ) :
    rfindSplit ':' (host ++ ":" ++ toString n).toList = some (host.toList, (toString n).toList) := by
  rw [String.toList_append, String.toList_append, List.append_assoc]
  exact rfindSplit_append ':' _ _ (colon_notMem_toString n)

/-- `ParseAddress` of `host:n`: the number is cut to sixteen bits. -/
theorem parseAddress_print (host : String) {n : ℤ} (hlo : -2 ^ 31 ≤ n) (hhi : n < 2 ^ 31) :
    parseAddress (host ++ ":" ++ toString n) = .ok ⟨host, UInt16.ofInt n⟩ := by
  unfold parseAddress
  rw [rfindSplit_print]
  dsimp only
  rw [stoi_toString hlo hhi]
  simp only [Except.map, String.ofList_toList]

/-- **Round trip.** An address printed by `ToString` parses to itself. -/
theorem parseAddress_toString (a : Address) : parseAddress a.toString = .ok a := by
  have hport := a.port.toNat_lt
  have hprint : a.toString = a.host ++ ":" ++ toString (a.port.toNat : ℤ) := rfl
  rw [hprint, parseAddress_print _ (by omega) (by omega), ofInt_toNat]

end LlmGateway.Gossip
