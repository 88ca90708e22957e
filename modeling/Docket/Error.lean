import Docket.Counter
import Docket.Document

/-! # Causes of failure

Each kind of cause has one function with the words for it. What a caller sees is a
`DocumentsError`; what the store reports is a `StoreFailure`.
-/

namespace Docket

/-- Requests that are wrong by themselves. -/
inductive Violation where
  | padding (n : Nat)
  | nilDocumentType
  | patternWithoutNumber (pattern : String)
  | negativeStart (n : Int)
  | yearNotPositive (year : Int)
  | nilReference
  | untypedDocument
  | unknownStatus (text : String)
deriving DecidableEq

namespace Violation

def message : Violation → String
  | padding n => "padding_length must be between 1 and 10, got " ++ Text.ofNat n
  | nilDocumentType => "document_type_id is required"
  | patternWithoutNumber pattern =>
    "format_pattern '" ++ pattern ++ "' must contain the \x7bNUMBER\x7d placeholder"
  | negativeStart n => "starting_value must not be negative, got " ++ Text.ofInt n
  | yearNotPositive year => "year must be positive, got " ++ Text.ofInt year
  | nilReference => "document_type_id and business_party_id must not be nil"
  | untypedDocument => "Document has no document type to number it by"
  | unknownStatus text => "unknown document status '" ++ text ++ "'"

end Violation

/-- Requests that what is stored stands against. -/
inductive Clash where
  | counterExists (key : CounterKey)
  | duplicateKey (key : String)
  | finalStatus (document : Id) (status : Status)
  | alreadyNumbered (document : Id) (number : String)
deriving DecidableEq

namespace Clash

def reason : Clash → String
  | counterExists key => "Counter already exists: " ++ key.text
  | duplicateKey key => "Duplicate key: " ++ key
  | finalStatus document status =>
    "Document " ++ document.text ++ " is " ++ status.text ++ " and cannot change"
  | alreadyNumbered document number =>
    "Document " ++ document.text ++ " already has number " ++ number

end Clash

/-- Kinds of rejected status changes. -/
inductive RejectionKind where
  | invalidTransition
  | missingBusinessParty
  | missingDocumentType
  | noRows
  | zeroTotal
  | missingNumber
  | cannotCancelClosed
deriving DecidableEq

namespace RejectionKind

def all : List RejectionKind :=
  [invalidTransition, missingBusinessParty, missingDocumentType, noRows, zeroTotal, missingNumber,
   cannotCancelClosed]

def code : RejectionKind → String
  | invalidTransition => "INVALID_TRANSITION"
  | missingBusinessParty => "MISSING_BUSINESS_PARTY"
  | missingDocumentType => "MISSING_DOCUMENT_TYPE"
  | noRows => "NO_ROWS"
  | zeroTotal => "ZERO_TOTAL"
  | missingNumber => "MISSING_NUMBER"
  | cannotCancelClosed => "CANNOT_CANCEL_CLOSED"

def ofCode? (s : String) : Option RejectionKind := all.find? fun kind => kind.code == s

end RejectionKind

/-- A kind of rejection with the words for one case of it. -/
def rejectionText (kind : RejectionKind) (message : String) : String :=
  message ++ " (" ++ kind.code ++ ")"

/-- What an operation answers where it does not succeed. -/
inductive DocumentsError where
  | missingScope
  | validation (message : String)
  | notFound (resource id : String)
  | conflict (reason : String)
  | transition (kind : RejectionKind) (message : String)
  | concurrentModification (document : Id)
  | cancelled
  | persistence (message : String)
deriving DecidableEq

namespace DocumentsError

def message : DocumentsError → String
  | missingScope => "Tenant scope is missing"
  | validation message => "Validation error: " ++ message
  | notFound resource id => resource ++ " not found: " ++ id
  | conflict reason => "Conflict: " ++ reason
  | transition kind message => "Transition rejected: " ++ rejectionText kind message
  | concurrentModification document => "Document " ++ document.text ++ " was modified concurrently"
  | cancelled => "Operation cancelled"
  | persistence message => "Persistence error: " ++ message

end DocumentsError

def Violation.error (v : Violation) : DocumentsError := .validation v.message

def Clash.error (c : Clash) : DocumentsError := .conflict c.reason

/-- Stored rows that mean nothing. -/
inductive DecodeFailure where
  /-- An integer that is not in the range of its column. -/
  | column (name : String) (n : Int)
  | paddingWidth (counter : Id) (width : Int)
  | padding (n : Nat)
  | documentStatus (document : Id) (text : String)
  | status (text : String)
  | amount
deriving DecidableEq

namespace DecodeFailure

/-- Words for a number that is above or below a range around zero. -/
def unfit (n : Int) : String :=
  "number too " ++ (if n < 0 then "small" else "large") ++ " to fit in target type"

/-- The chain of causes, outermost first. -/
def causes : DecodeFailure → List String
  | column name n =>
    let cause := "error occurred while decoding column \"" ++ name ++ "\": " ++ unfit n
    ["Query Error: " ++ cause, cause, cause, unfit n]
  | paddingWidth counter width =>
    ["counter " ++ counter.text ++ " has invalid padding_length", unfit width]
  | padding n => [(Violation.padding n).error.message]
  | documentStatus document text =>
    ["document " ++ document.text ++ " has invalid status",
     (Violation.unknownStatus text).error.message]
  | status text => [(Violation.unknownStatus text).error.message]
  | amount =>
    ["Error converting `f64` into `Decimal`: Error while converting to Decimal",
     "Error while converting to Decimal"]

end DecodeFailure

def chainText (causes : List String) : String := String.intercalate ": " causes

/-- What the store answers where a request does not succeed. -/
inductive StoreFailure where
  | duplicate (key : String)
  | stale (document : Id)
  | backend (causes : List String)
  /-- The caller gave up while the request was under way. -/
  | cancelled
  | overflow (o : Overflow)
deriving DecidableEq

/-- How a call may end other than well. -/
inductive Failure where
  | error (e : DocumentsError)
  | overflow (o : Overflow)
deriving DecidableEq

namespace StoreFailure

/-- The failure of a statement, a query or another one, that the database refuses. -/
def refused (statement detail : String) : StoreFailure :=
  let cause := "error returned from database: " ++ detail
  .backend [statement ++ " Error: " ++ cause, cause, cause, detail]

def toFailure : StoreFailure → Failure
  | duplicate key => .error (Clash.duplicateKey key).error
  | stale document => .error (.concurrentModification document)
  | backend causes => .error (.persistence (chainText causes))
  | cancelled => .error .cancelled
  | overflow o => .overflow o

/-- The words of the store itself, which name the outermost cause only. -/
def message : StoreFailure → String
  | duplicate key => "Duplicate key: " ++ key
  | stale document => "Stale version for document " ++ document.text
  | backend causes => causes.headD ""
  | cancelled => DocumentsError.cancelled.message
  | overflow o => o.message

end StoreFailure

def DecodeFailure.toStoreFailure (f : DecodeFailure) : StoreFailure := .backend f.causes

end Docket
