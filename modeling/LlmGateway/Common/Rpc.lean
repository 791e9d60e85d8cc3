import Mathlib.Data.Int.Notation

/-!
# The messages of the inference services

The messages of `llmgateway.proto` and the statuses a call can end with.
-/

namespace LlmGateway

inductive StatusCode
  | ok
  | cancelled
  | unavailable
  | internal
  | resourceExhausted
  deriving DecidableEq, Repr

structure Status where
  code : StatusCode
  message : String := ""
  deriving DecidableEq, Repr

def Status.ok : Status := ⟨.ok, ""⟩

def Status.cancelled : Status := ⟨.cancelled, ""⟩

/-- A status other than OK and CANCELLED. -/
def Status.IsError (s : Status) : Prop := s.code ≠ .ok ∧ s.code ≠ .cancelled

structure InferRequest where
  clientId : String
  prompt : String
  maxTokens : ℤ
  hedge : Bool
  deriving DecidableEq, Repr

structure InferResponse where
  token : String
  isFinal : Bool
  replicaId : String
  deriving DecidableEq, Repr

structure GenerateRequest where
  requestId : String
  prompt : String
  maxTokens : ℤ
  tokensAlreadyGenerated : ℤ
  deriving DecidableEq, Repr

structure GenerateResponse where
  token : String
  isFinal : Bool
  deriving DecidableEq, Repr

end LlmGateway
