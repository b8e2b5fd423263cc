import Cherum.PythonJson

/-! What travels between the clients and the server: answers with a status and
a body, and the outcome of a request as `requests` reports it. -/

namespace Cherum.HttpMessages
open PythonJson

inductive Body
  | json (value : Json)
  | text (content : String)
  /-- An HTML page: the index, a redirect, or Flask's page for an error. -/
  | page

structure Response where
  status : ℕ
  body : Body

/-- The outcome of one request: an answer, or `requests.exceptions.ConnectionError`. -/
inductive Exchange
  | answered (response : Response)
  | connectionError

/-- `Response.json()` of `requests`, which does not look at the status. -/
def Response.json (r : Response) : Except PyError Json :=
  match r.body with
  | .json value => .ok value
  | _ => .error .jsonDecodeError

def unauthorized : Response := ⟨401, .json (.obj [("error", .str "Unauthorized")])⟩

/-- `request.json` on a body that does not parse, or that is not declared as JSON. -/
def badRequest : Response := ⟨400, .page⟩

def unsupportedMediaType : Response := ⟨415, .page⟩

/-- An exception that leaves a handler. -/
def internalServerError : Response := ⟨500, .page⟩

def redirectHome : Response := ⟨302, .page⟩

end Cherum.HttpMessages
