import Mathlib.Order.Lattice
import Mathlib.Data.Prod.Lex
import Mathlib.Order.WithBot

/-!
# Gossip messages

The records of `gossip.proto`. A protobuf `uint64` is a natural number here and an `int32` an
integer; where the code can leave the width of a field the model reduces explicitly.
-/

namespace LlmGateway.Gossip

/-- `MemberState`, declared with the numbers 0, 1, 2 that `ApplyUpdate` compares. -/
inductive MemberState
  | alive
  | suspect
  | dead
  deriving DecidableEq, Repr

namespace MemberState

/-- The wire number of a state. -/
def number : MemberState → ℕ
  | alive => 0
  | suspect => 1
  | dead => 2

theorem number_injective : Function.Injective number := by
  intro a b h
  cases a <;> cases b <;> first | rfl | cases h

/-- `ALIVE(0) < SUSPECT(1) < DEAD(2)`. -/
instance : LinearOrder MemberState := LinearOrder.lift' number number_injective

theorem alive_le (s : MemberState) : alive ≤ s := Nat.zero_le _

theorem le_dead (s : MemberState) : s ≤ dead := by cases s <;> decide

end MemberState

inductive MessageType
  | ping
  | pingReq
  | ack
  deriving DecidableEq, Repr

/-- One piggybacked membership update. -/
structure MembershipUpdate where
  memberId : String
  address : String
  state : MemberState
  incarnation : ℕ
  modelVersion : String := ""
  activeRequests : ℤ := 0
  maxCapacity : ℤ := 0
  deriving DecidableEq, Repr

structure GossipMessage where
  type : MessageType
  senderId : String
  targetId : String := ""
  sequenceNum : ℕ
  updates : List MembershipUpdate := []
  deriving DecidableEq, Repr

/-- What conflict resolution compares: the incarnation first, then the state. -/
abbrev Rank := ℕ ×ₗ MemberState

/-- The rank an update claims for its member. -/
def MembershipUpdate.rank (u : MembershipUpdate) : Rank := toLex (u.incarnation, u.state)

end LlmGateway.Gossip
