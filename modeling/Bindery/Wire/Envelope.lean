import Bindery.Wire

/-! # Response envelopes -/

namespace Bindery

open Json Text

/-- An error that the API reports in an envelope. -/
structure ApiError where
  code : Int32
  status : String
  throttleSeconds : Int32
  message : String
deriving DecidableEq, Repr

def ApiError.describe (e : ApiError) : String :=
  "API error " ++ decimal e.code.toInt ++ " (" ++ e.status ++ "): " ++ e.message

/-- What every response of the API is wrapped in. The payload has a meaning only in a
successful envelope. -/
structure Envelope (α : Type) where
  response : Option α := none
  errorCode : Int32 := 0
  throttleSeconds : Int32 := 0
  errorStatus : String := ""
  message : String := ""
  messageData : TextDict String := .empty
  detailedErrorTrace : String := ""
  /-- The response body as received; no part of the wire form. -/
  raw : List UInt8 := []
deriving Repr

namespace Envelope

variable {α : Type}

/-- The code of endpoints that never fill it in. -/
def codeNone : Int32 := 0

def codeSuccess : Int32 := 1

def isSuccess (e : Envelope α) : Bool := e.errorCode == codeNone || e.errorCode == codeSuccess

/-- The error that an unsuccessful envelope describes. -/
def apiError? (e : Envelope α) : Option ApiError :=
  if e.isSuccess then none
  else some ⟨e.errorCode, e.errorStatus, e.throttleSeconds, e.message⟩

def decodeWith (payload : Decoder α) : Decoder (Envelope α) :=
  .struct "Envelope" {}
    [.defaulted "Response" payload.option fun x e => { e with response := x },
     .defaulted "ErrorCode" Wire.decode fun x e => { e with errorCode := x },
     .defaulted "ThrottleSeconds" Wire.decode fun x e => { e with throttleSeconds := x },
     .defaulted "ErrorStatus" .string fun x e => { e with errorStatus := x },
     .defaulted "Message" .string fun x e => { e with message := x },
     .defaulted "MessageData" (.textDict .string) fun x e => { e with messageData := x },
     .defaulted "DetailedErrorTrace" .string fun x e => { e with detailedErrorTrace := x }]

def encodeEntries (payload : α → Tree) (e : Envelope α) : List (String × Tree) :=
  [("Response", .ofOption payload e.response),
   ("ErrorCode", Wire.encode e.errorCode),
   ("ThrottleSeconds", Wire.encode e.throttleSeconds),
   ("ErrorStatus", .ofString e.errorStatus),
   ("Message", .ofString e.message),
   ("MessageData", Wire.encode e.messageData),
   ("DetailedErrorTrace", .ofString e.detailedErrorTrace)]

instance [Wire α] : Wire (Envelope α) :=
  ⟨fun e => .ofEntries (e.encodeEntries Wire.encode), decodeWith Wire.decode⟩

end Envelope
end Bindery
