import LlmGateway.Gossip.UdpTransport

/-!
# Which strings are addresses

The header promises `std::invalid_argument` for everything that is not `host:port`, a port out of
range included. `std::stoi` reads the port: it skips blanks, takes a sign, stops at the first other
character, and throws another exception where the number leaves `int`; the `static_cast` cuts the
result to sixteen bits.

1. `Spells`: the string is `host:port`, with the port in digits.
2. `stoi_eq_invalidArgument_iff`: where `std::stoi` reads no number.
3. `asDocumented_iff`: the strings that are handled as the header says.
-/

namespace LlmGateway.Gossip

/-- The string is the host of the address, a colon, and its port in decimal digits. -/
def Spells (s : String) (a : Address) : Prop :=
  ∃ digits, s.toList = a.host.toList ++ ':' :: digits ∧ digits ≠ [] ∧
    (∀ c ∈ digits, c.isDigit = true) ∧ decimal digits = a.port.toNat

/-- `ParseAddress` accepts the string exactly as the address it spells, and throws
`std::invalid_argument` if it spells none. -/
def AsDocumented (s : String) : Prop :=
  (∀ a, parseAddress s = .ok a ↔ Spells s a) ∧
    ((∀ a, ¬ Spells s a) → parseAddress s = .error .invalidArgument)

/-- A port number in decimal digits. -/
def IsPort (port : List Char) : Prop :=
  port ≠ [] ∧ (∀ c ∈ port, c.isDigit = true) ∧ decimal port ≤ 65535

/-- A digit comes after blanks and at most one sign. -/
def StartsNumber (port : List Char) : Prop :=
  ∃ blanks sign c rest, port = blanks ++ sign ++ c :: rest ∧ (∀ b ∈ blanks, isSpace b = true) ∧
    (sign = [] ∨ sign = ['-'] ∨ sign = ['+']) ∧ c.isDigit = true

variable {cs port digits : List Char} {host : List Char} {s : String} {a : Address} {c : Char}

/-! ## What `std::stoi` reads -/

theorem readSign_eq (cs : List Char) : ∃ sign, cs = sign ++ (readSign cs).2 ∧
    (sign = [] ∨ sign = ['-'] ∨ sign = ['+']) := by
  unfold readSign
  split
  · exact ⟨['-'], rfl, by simp⟩
  · exact ⟨['+'], rfl, by simp⟩
  · exact ⟨[], rfl, by simp⟩

theorem readSign_of_startsNumber (h : StartsNumber cs) :
    ∃ c rest, (readSign (cs.dropWhile isSpace)).2 = c :: rest ∧ c.isDigit = true := by
  obtain ⟨blanks, sign, c, rest, rfl, hblanks, hsign, hc⟩ := h
  refine ⟨c, rest, ?_, hc⟩
  rw [List.append_assoc, List.dropWhile_append_of_pos hblanks]
  rcases hsign with rfl | rfl | rfl
  · exact congrArg Prod.snd (readSign_of_isDigit hc rest)
  · rfl
  · rfl

theorem startsNumber_iff : StartsNumber cs ↔
    ((readSign (cs.dropWhile isSpace)).2).takeWhile Char.isDigit ≠ [] := by
  constructor
  · intro h
    obtain ⟨c, rest, hbody, hc⟩ := readSign_of_startsNumber h
    rw [hbody, List.takeWhile_cons_of_pos hc]
    exact List.cons_ne_nil _ _
  · intro h
    obtain ⟨sign, hsplit, hsign⟩ := readSign_eq (cs.dropWhile isSpace)
    cases hbody : (readSign (cs.dropWhile isSpace)).2 with
    | nil => exact absurd (by rw [hbody]; rfl) h
    | cons c rest =>
      have hc : c.isDigit = true := by
        by_contra hc
        exact h (by rw [hbody, List.takeWhile_cons_of_neg hc])
      refine ⟨cs.takeWhile isSpace, sign, c, rest, ?_, ?_, hsign, hc⟩
      · rw [List.append_assoc, ← hbody, ← hsplit, List.takeWhile_append_dropWhile]
      · exact fun b hb => List.mem_takeWhile_imp hb

/-- **No number.** `std::stoi` throws `std::invalid_argument` exactly where no number starts. -/
theorem stoi_eq_invalidArgument_iff : stoi cs = .error .invalidArgument ↔ ¬ StartsNumber cs := by
  rw [startsNumber_iff, not_not]
  unfold stoi
  dsimp only
  constructor
  · intro h
    split_ifs at h with hnone hrange
    · exact hnone
    all_goals cases h
  · exact fun h => if_pos h

/-! ## The last colon -/

theorem rfindSplit_eq_none (h : rfindSplit c cs = none) : c ∉ cs := by
  induction cs with
  | nil => exact List.not_mem_nil
  | cons x xs ih =>
    unfold rfindSplit at h
    cases hxs : rfindSplit c xs with
    | some r => rw [hxs] at h; cases h
    | none =>
      rw [hxs] at h
      dsimp only at h
      split_ifs at h with hx
      rw [List.mem_cons, not_or]
      exact ⟨fun heq => hx heq.symm, ih hxs⟩

theorem rfindSplit_eq_some (h : rfindSplit c cs = some (host, port)) :
    cs = host ++ c :: port ∧ c ∉ port := by
  induction cs generalizing host with
  | nil => cases h
  | cons x xs ih =>
    unfold rfindSplit at h
    cases hxs : rfindSplit c xs with
    | some r =>
      obtain ⟨before, after⟩ := r
      rw [hxs] at h
      cases h
      obtain ⟨heq, hmem⟩ := ih hxs
      exact ⟨by rw [heq, List.cons_append], hmem⟩
    | none =>
      rw [hxs] at h
      dsimp only at h
      split_ifs at h with hx
      cases h
      exact ⟨by rw [hx, List.nil_append], rfindSplit_eq_none hxs⟩

theorem rfindSplit_iff : rfindSplit c cs = some (host, port) ↔ cs = host ++ c :: port ∧ c ∉ port :=
  ⟨rfindSplit_eq_some, fun h => h.1 ▸ rfindSplit_append c host port h.2⟩

theorem colon_not_mem (h : ∀ c ∈ digits, c.isDigit = true) : ':' ∉ digits :=
  fun hmem => absurd (h ':' hmem) (by decide)

/-- What a string spells is read off from its last colon. -/
theorem spells_iff : Spells s a ↔ ∃ digits, rfindSplit ':' s.toList = some (a.host.toList, digits) ∧
    digits ≠ [] ∧ (∀ c ∈ digits, c.isDigit = true) ∧ decimal digits = a.port.toNat := by
  refine exists_congr fun digits => ?_
  constructor
  · rintro ⟨hs, hne, hdigits, hport⟩
    exact ⟨rfindSplit_iff.mpr ⟨hs, colon_not_mem hdigits⟩, hne, hdigits, hport⟩
  · rintro ⟨hs, hrest⟩
    exact ⟨(rfindSplit_eq_some hs).1, hrest⟩

/-! ## The strings that are handled as documented -/

theorem parseAddress_of_isPort (hs : rfindSplit ':' s.toList = some (host, port))
    (hport : IsPort port) :
    parseAddress s = .ok ⟨String.ofList host, UInt16.ofNat (decimal port)⟩ := by
  obtain ⟨hne, hdigits, hle⟩ := hport
  have hcast : UInt16.ofInt (decimal port : ℤ) = UInt16.ofNat (decimal port) := by
    unfold UInt16.ofInt
    rw [Int.emod_eq_of_lt (by omega) (by omega), Int.toNat_natCast]
  unfold parseAddress
  rw [hs]
  dsimp only
  rw [stoi_of_digits hne hdigits (by omega)]
  simp only [Except.map, hcast]

theorem asDocumented_of_isPort (hs : rfindSplit ':' s.toList = some (host, port))
    (hport : IsPort port) : AsDocumented s := by
  have hparse := parseAddress_of_isPort hs hport
  have hvalue : (UInt16.ofNat (decimal port)).toNat = decimal port := by
    rw [UInt16.toNat_ofNat', Nat.mod_eq_of_lt (by have := hport.2.2; omega)]
  have hspells : Spells s ⟨String.ofList host, UInt16.ofNat (decimal port)⟩ := by
    refine spells_iff.mpr ⟨port, ?_, hport.1, hport.2.1, hvalue.symm⟩
    rw [String.toList_ofList]
    exact hs
  refine ⟨fun a => ?_, fun hnone => absurd hspells (hnone _)⟩
  rw [hparse]
  constructor
  · rintro ⟨⟩
    exact hspells
  · intro h
    obtain ⟨digits, hs', -, -, hvalue'⟩ := spells_iff.mp h
    rw [hs] at hs'
    cases hs'
    rw [String.ofList_toList, hvalue', UInt16.ofNat_toNat]

/-- Anything else is handled as documented where `std::stoi` finds no number. -/
theorem asDocumented_iff_of_not_isPort (hs : rfindSplit ':' s.toList = some (host, port))
    (hport : ¬ IsPort port) : AsDocumented s ↔ ¬ StartsNumber port := by
  have hnone : ∀ a, ¬ Spells s a := by
    intro a h
    obtain ⟨digits, hs', hne, hdigits, hvalue⟩ := spells_iff.mp h
    rw [hs] at hs'
    cases hs'
    have hlt := a.port.toNat_lt
    exact hport ⟨hne, hdigits, by omega⟩
  have hparse : parseAddress s =
      (stoi port).map fun n => ⟨String.ofList host, UInt16.ofInt n⟩ := by
    unfold parseAddress
    rw [hs]
  rw [← stoi_eq_invalidArgument_iff]
  constructor
  · intro h
    have hthrows := h.2 hnone
    rw [hparse] at hthrows
    cases hstoi : stoi port with
    | ok n => rw [hstoi] at hthrows; cases hthrows
    | error e => rw [hstoi] at hthrows; cases hthrows; rfl
  · intro h
    rw [h] at hparse
    refine ⟨fun a => ?_, fun _ => hparse⟩
    rw [hparse]
    exact iff_of_false (by rintro ⟨⟩) (hnone a)

/-- **Which strings are handled as documented**: those without a colon, those with a port number
after the last colon, and those where `std::stoi` finds no number there. -/
theorem asDocumented_iff (s : String) : AsDocumented s ↔
    ∀ host port, s.toList = host ++ ':' :: port → ':' ∉ port →
      IsPort port ∨ ¬ StartsNumber port := by
  cases hs : rfindSplit ':' s.toList with
  | none =>
    have hcolon := rfindSplit_eq_none hs
    have hparse : parseAddress s = .error .invalidArgument := by
      unfold parseAddress
      rw [hs]
    refine iff_of_true ⟨fun a => ?_, fun _ => hparse⟩ fun host port h => ?_
    · rw [hparse]
      refine iff_of_false (by rintro ⟨⟩) fun h => ?_
      obtain ⟨digits, hs', -⟩ := spells_iff.mp h
      rw [hs] at hs'
      cases hs'
    · rw [h] at hcolon
      exact absurd (by simp) hcolon
  | some r =>
    obtain ⟨host, port⟩ := r
    have hlast : (∀ host' port', s.toList = host' ++ ':' :: port' → ':' ∉ port' →
        IsPort port' ∨ ¬ StartsNumber port') ↔ IsPort port ∨ ¬ StartsNumber port := by
      constructor
      · exact fun h => h host port (rfindSplit_eq_some hs).1 (rfindSplit_eq_some hs).2
      · intro h host' port' heq hmem
        have hs' := rfindSplit_iff.mpr ⟨heq, hmem⟩
        rw [hs] at hs'
        cases hs'
        exact h
    rw [hlast]
    by_cases hport : IsPort port
    · exact iff_of_true (asDocumented_of_isPort hs hport) (Or.inl hport)
    · rw [asDocumented_iff_of_not_isPort hs hport]
      exact ⟨Or.inr, fun h => h.resolve_left hport⟩

/-- A port out of range is cut to another one, a trailing unit is ignored, and a port outside of
`int` is another exception. -/
theorem not_asDocumented_outOfRange :
    (parseAddress "10.0.0.1:82537" = .ok ⟨"10.0.0.1", 17001⟩ ∧ ¬ AsDocumented "10.0.0.1:82537") ∧
    parseAddress "10.0.0.1:-1" = .ok ⟨"10.0.0.1", 65535⟩ ∧
    parseAddress "10.0.0.1: 80s" = .ok ⟨"10.0.0.1", 80⟩ ∧
    parseAddress "10.0.0.1:9999999999" = .error .outOfRange := by
  have hparse : parseAddress "10.0.0.1:82537" = .ok ⟨"10.0.0.1", 17001⟩ := by decide
  refine ⟨⟨hparse, fun h => ?_⟩, by decide, by decide, by decide⟩
  obtain ⟨digits, hs, -, -, hvalue⟩ := spells_iff.mp ((h.1 _).mp hparse)
  have hlast : rfindSplit ':' "10.0.0.1:82537".toList =
      some ("10.0.0.1".toList, "82537".toList) := by decide
  rw [hlast] at hs
  cases hs
  exact absurd hvalue (by decide)

end LlmGateway.Gossip
