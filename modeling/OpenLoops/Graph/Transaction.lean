import OpenLoops.Library.Machine
import OpenLoops.Library.Wire

/-!
# Sign-in transactions

A sign-in waits for a callback that carries its state.  There is one slot for the transaction that
is pending; its calls come in any order, each of them under the lock of the slot, and the callbacks
carry anything.
-/

namespace Graph

/-! ### Encodings -/

def base64urlAlphabet : List Char :=
  "ABCDEFGHIJKLMNOPQRSTUVWXYZabcdefghijklmnopqrstuvwxyz0123456789-_".toList

/-- The first characters of a group of 24 bits. -/
def pushGroup (n chars : ℕ) : List Char :=
  ([n / 2 ^ 18 % 64, n / 2 ^ 12 % 64, n / 2 ^ 6 % 64, n % 64].take chars).map
    fun index => base64urlAlphabet.getD index 'A'

/-- The characters of a byte string, three bytes at a time. -/
def base64urlChars : Bytes → List Char
  | first :: second :: third :: bytes =>
      pushGroup (first.toNat * 2 ^ 16 + second.toNat * 2 ^ 8 + third.toNat) 4
        ++ base64urlChars bytes
  | [first, second] => pushGroup (first.toNat * 2 ^ 16 + second.toNat * 2 ^ 8) 3
  | [first] => pushGroup (first.toNat * 2 ^ 16) 2
  | [] => []

def base64urlEncode (input : Bytes) : String :=
  String.ofList (base64urlChars input)

/-- The hexadecimal digit of four bits. -/
def hexDigit (nibble : ℕ) : Char :=
  if nibble ≤ 9 then Char.ofNat ('0'.toNat + nibble) else Char.ofNat ('A'.toNat + (nibble - 10))

/-- The byte may stand in a query as it is. -/
def isUnreserved (byte : UInt8) : Bool :=
  let c := Char.ofNat byte.toNat
  ('A' ≤ c && c ≤ 'Z') || ('a' ≤ c && c ≤ 'z') || ('0' ≤ c && c ≤ '9')
    || c = '-' || c = '.' || c = '_' || c = '~'

/-- A text as one value of a query. -/
def percentEncodeQueryValue (input : String) : String :=
  String.ofList ((Wire.utf8 input).flatMap fun byte =>
    if isUnreserved byte then [Char.ofNat byte.toNat]
    else ['%', hexDigit (byte.toNat / 16), hexDigit (byte.toNat % 16)])

/-! ### Transactions -/

/-- Why an authorization failed. -/
inductive AuthorizationErrorCode where
  | accessDenied
  | invalidRequest
  | unauthorizedClient
  | unsupportedResponseType
  | invalidScope
  | serverError
  | temporarilyUnavailable
  | other
deriving DecidableEq, Repr

/-- A well-formed callback: a code or an error, with a state. -/
inductive CallbackOutcome where
  | success (code state : String)
  | failure (error : AuthorizationErrorCode) (state : String)
deriving DecidableEq, Repr

def CallbackOutcome.state : CallbackOutcome → String
  | success _ state | failure _ state => state

/-- A transaction that is pending. -/
structure Transaction where
  state : String
  verifier : String
  /-- When it was begun. -/
  createdAt : ℕ
deriving DecidableEq, Repr

/-- Where the browser is sent to. -/
structure AuthorizationRequest where
  authorizationUrl : String
deriving DecidableEq, Repr

/-- What a successful sign-in hands out. -/
structure CompletedTransaction where
  code : String
  verifier : String
deriving DecidableEq, Repr

/-- Why a call was rejected. -/
inductive TransactionError where
  | alreadyPending
  | noPendingTransaction
  | stateMismatch
  | expired
  | rngUnavailable
deriving DecidableEq, Repr

def unresolvedAuthorityPlaceholder : String :=
  "https://authority.unresolved-pending-g-id.invalid/authorize"

def callbackPath : String := "/callback"

def buildAuthorizationUrl (state challenge : String) (redirectPort : UInt16) : String :=
  let redirectUri := "http://127.0.0.1:" ++ toString redirectPort.toNat ++ callbackPath
  unresolvedAuthorityPlaceholder
    ++ "?response_type=code&client_id=unresolved-pending-g-id&redirect_uri="
    ++ percentEncodeQueryValue redirectUri ++ "&state=" ++ percentEncodeQueryValue state
    ++ "&code_challenge=" ++ percentEncodeQueryValue challenge ++ "&code_challenge_method=S256"

/-- A text of 32 random bytes, if there are any: a state or a verifier. -/
def generate (random : Option (Vector UInt8 32)) : Except TransactionError String :=
  match random with
  | some bytes => .ok (base64urlEncode bytes.toList)
  | none => .error .rngUnavailable

/-- The challenge of a verifier. -/
def challenge (sha256 : Bytes → Vector UInt8 32) (verifier : String) : String :=
  base64urlEncode (sha256 (Wire.utf8 verifier)).toList

/-- Whether two byte strings are equal, in a time that does not depend on where they differ. -/
def constantTimeEq (a b : Bytes) : Bool :=
  if a.length ≠ b.length then false
  else (a.zip b).foldl (fun diff pair => diff ||| (pair.1 ^^^ pair.2)) 0 = 0

/-! ### The slot -/

/-- Begin a transaction, unless one is pending. -/
def begin (sha256 : Bytes → Vector UInt8 32) (pending : Option Transaction)
    (redirectPort : UInt16) (randomState randomVerifier : Option (Vector UInt8 32)) (now : ℕ) :
    Option Transaction × Except TransactionError AuthorizationRequest :=
  if pending.isSome then (pending, .error .alreadyPending)
  else
    match generate randomState with
    | .error e => (pending, .error e)
    | .ok state =>
        match generate randomVerifier with
        | .error e => (pending, .error e)
        | .ok verifier =>
            let url := buildAuthorizationUrl state (challenge sha256 verifier) redirectPort
            (some { state, verifier, createdAt := now }, .ok ⟨url⟩)

/-- What a callback makes of a transaction that it consumes. -/
def CallbackOutcome.consume (outcome : CallbackOutcome) (transaction : Transaction) :
    Except AuthorizationErrorCode CompletedTransaction :=
  match outcome with
  | success code _ => .ok ⟨code, transaction.verifier⟩
  | failure error _ => .error error

/-- Consume the transaction that is pending by a callback that carries its state, unless it is too
old. -/
def complete (pending : Option Transaction) (outcome : CallbackOutcome) (maxAge now : ℕ) :
    Option Transaction ×
      Except TransactionError (Except AuthorizationErrorCode CompletedTransaction) :=
  match pending with
  | none => (none, .error .noPendingTransaction)
  | some transaction =>
      if ¬constantTimeEq (Wire.utf8 transaction.state) (Wire.utf8 outcome.state) then
        (some transaction, .error .stateMismatch)
      -- The clock may be behind when the transaction was begun; then no time has passed.
      else if maxAge < now - transaction.createdAt then (none, .error .expired)
      else (none, .ok (outcome.consume transaction))

/-- A call on the slot, with the random bytes and the reading of the clock that it meets. -/
inductive SlotCall where
  | begin (redirectPort : UInt16) (randomState randomVerifier : Option (Vector UInt8 32)) (now : ℕ)
  | complete (outcome : CallbackOutcome) (maxAge now : ℕ)
  | cancel
deriving DecidableEq

/-- What a call on the slot returns. -/
inductive SlotResult where
  | begun (result : Except TransactionError AuthorizationRequest)
  | completed
      (result : Except TransactionError (Except AuthorizationErrorCode CompletedTransaction))
  | cancelled
deriving DecidableEq

/-- The slot for the transaction that is pending. -/
def slot (sha256 : Bytes → Vector UInt8 32) :
    Machine (Option Transaction) SlotCall SlotResult where
  step pending
    | .begin redirectPort randomState randomVerifier now =>
        let (pending, result) :=
          begin sha256 pending redirectPort randomState randomVerifier now
        (pending, .begun result)
    | .complete outcome maxAge now =>
        let (pending, result) := complete pending outcome maxAge now
        (pending, .completed result)
    | .cancel => (none, .cancelled)

end Graph
