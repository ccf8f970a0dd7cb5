/-!
# Exceptions of the framework

An exception carries an error code and a text. Only the codes that the modelled
code throws or stores in an answer are listed.
-/

namespace Gamnet

/-- The error codes of the framework. -/
inductive ErrorCode
  | success
  | connectTimeoutError
  | invalidSessionTokenError
  | invalidAddressError
  | nullPointerError
  | messageFormatError
  | bufferOverflowError
deriving DecidableEq, Repr

/-- The number that stands for an error code on the wire. -/
def ErrorCode.value : ErrorCode → Nat
  | .success => 0
  | .connectTimeoutError => 10
  | .invalidSessionTokenError => 21
  | .invalidAddressError => 41
  | .nullPointerError => 60
  | .messageFormatError => 70
  | .bufferOverflowError => 100

/-- A thrown Gamnet::Exception. -/
structure Exception where
  errorCode : ErrorCode
  detail : String
deriving DecidableEq, Repr

end Gamnet
