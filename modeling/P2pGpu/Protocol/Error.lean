namespace P2pGpu.Protocol

inductive ErrorCode where
  | versionMismatch
  | unknownKernel
  | malformedMessage
  | orphanPayload
  | payloadTooLarge
  | checksumMismatch
  | leaseNotHeld
  | rateLimited
  | blacklisted
  | internal
deriving DecidableEq, Repr

structure Error where
  code : ErrorCode
  message : String
  fatal : Bool
deriving DecidableEq, Repr

def makeError (code : ErrorCode) (message : String) : Error :=
  ⟨code, message, false⟩

-- Success, or the error that says why not.
abbrev Status : Type := Except Error Unit

namespace Status

def isOk : Status → Bool
  | .ok _ => true
  | .error _ => false

@[simp] theorem isOk_ok : isOk (.ok ()) = true := rfl

@[simp] theorem isOk_error (e : Error) : isOk (.error e) = false := rfl

end Status

end P2pGpu.Protocol
