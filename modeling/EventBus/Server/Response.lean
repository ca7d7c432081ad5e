import EventBus.Server.Error

/-!
Responses, and which of them need nothing but the request.
-/

namespace EventBus

/-- What a response holds: a text, or a stream of records under a number. -/
inductive Content where
  | text (body : String)
  | stream (number : Nat)
  deriving DecidableEq, Repr

structure Response where
  status : Nat
  headers : List (String × String)
  content : Content
  deriving DecidableEq, Repr

namespace Response

def ofText (status : Nat) (kind body : String) : Response :=
  ⟨status, [("content-type", kind)], .text body⟩

def plain (status : Nat) (body : String) : Response :=
  ofText status "text/plain; charset=utf-8" body

def json (status : Nat) (value : Json) : Response := ofText status "application/json" value.text

def ofError (error : ApiError) : Response := ofText error.status "application/json" error.body

def notFound : Response := ⟨404, [], .text ""⟩

/-- Something is at the path, for these methods only. -/
def notAllowed (methods : String) : Response := ⟨405, [("allow", methods)], .text ""⟩

def tooLarge : Response :=
  plain 413 "Failed to buffer the request body: length limit exceeded"

def streamHeaders : List (String × String) :=
  [("content-type", "text/event-stream"), ("cache-control", "no-cache"),
    ("access-control-allow-origin", "*"), ("access-control-allow-headers", "Content-Type")]

def stream (number : Nat) : Response := ⟨200, streamHeaders, .stream number⟩

def headOnly (response : Response) : Response := { response with content := .text "" }

end Response

end EventBus
