import Brainfuck.Framework.Address
import Brainfuck.Framework.Field
import Brainfuck.Text.Casing

/-!
# Dispatch

An app files handlers under places. The framework answers a `POST` request for such a place by its handler, which
reads the body first, and answers all other requests by itself. Beside the places of the app there are pages that
describe it, for `GET` requests.

Main statement: `App.respond_filed`, which request comes to which handler.
-/

namespace Brainfuck.Framework

/-! ## Requests -/

inductive Body where
  | none
  | object (fields : List (String × Field))
  | other
  deriving DecidableEq

/-- The method of a request, as far as methods are told apart. -/
inductive Method where
  | get
  /-- As `get`, but only the head of the response is wanted. -/
  | head
  | post
  | other
  deriving DecidableEq

/-- The method with a given name, whose capital form counts. -/
def Method.ofName (name : List Char) : Method :=
  let capitals := Text.capitals name
  if capitals = "POST".toList then .post
  else if capitals = "GET".toList then .get
  else if capitals = "HEAD".toList then .head
  else .other

structure Request where
  method : Method := .post
  address : List Char
  body : Body := .none
  deriving DecidableEq

/-! ## Reading a body

A field that is not given takes its default. All fields that cannot be read are reported, in the order in which the
handler names them. -/

/-- A problem with the body as a whole or with one of its fields. -/
structure Complaint where
  problem : Problem
  field : Option String := none
  deriving DecidableEq

def Body.fields : Body → Except (List Complaint) (List (String × Field))
  | none => .error [⟨.missing, Option.none⟩]
  | other => .error [⟨.notAnObject, Option.none⟩]
  | object fields => .ok fields

/-- Read a field, or take its default. -/
def readField {α : Type} (fields : List (String × Field)) (name : String)
    (read : Field → Except Problem α) (default : α) : Except Complaint α :=
  match fields.lookup name with
  | none => .ok default
  | some field =>
    match read field with
    | .ok value => .ok value
    | .error problem => .error ⟨problem, some name⟩

def complaints {α : Type} : Except Complaint α → List Complaint
  | .ok _ => []
  | .error complaint => [complaint]

/-! ## Responses -/

/-- What a request is responded to with: the answer of a handler, or what the framework says by itself. -/
inductive Response (α : Type) where
  | handled (answer : α)
  | unreadable (complaints : List Complaint)
  | notFound
  | methodNotAllowed
  /-- A page that describes the app. -/
  | page
  /-- The head of a response alone. -/
  | headOnly (status : Nat)
  deriving DecidableEq

/-- The status code of a response. That of an answer is told by the app. -/
def Response.status {α : Type} (ofAnswer : α → Nat) : Response α → Nat
  | handled answer => ofAnswer answer
  | unreadable _ => 422
  | notFound => 404
  | methodNotAllowed => 405
  | page => 200
  | headOnly status => status

/-- The places of the pages that describe an app. -/
def documentation : List (List Char) :=
  ["/docs".toList, "/docs/oauth2-redirect".toList, "/redoc".toList, "/openapi.json".toList]

/-- An app: its handlers, which refuse a body they cannot read, and the status codes of its answers. -/
structure App (α : Type) where
  handlers : List (List Char × (Body → Except (List Complaint) α))
  status : α → Nat

namespace App

variable {α : Type}

def respondWhole (app : App α) (request : Request) : Response α :=
  let place := barePlace (placeOf request.address)
  match app.handlers.lookup place with
  | some handler =>
    if request.method = .post then
      match handler request.body with
      | .ok answer => .handled answer
      | .error found => .unreadable found
    else .methodNotAllowed
  | none =>
    if documentation.contains place then
      if request.method = .get ∨ request.method = .head then .page else .methodNotAllowed
    else .notFound

/-- Respond to a request, with no more than the head if only that is wanted. -/
def respond (app : App α) (request : Request) : Response α :=
  let response := app.respondWhole request
  if request.method = .head then .headOnly (response.status app.status) else response

/-- A `POST` request for a place that a handler is filed under is answered by the handler, if it can read the
body. -/
theorem respond_filed {app : App α} {address place : List Char} {body : Body}
    {handler : Body → Except (List Complaint) α} (hplace : barePlace (placeOf address) = place)
    (hhandler : app.handlers.lookup place = some handler) :
    app.respond { address, body } =
      match handler body with
      | .ok answer => .handled answer
      | .error found => .unreadable found := by
  simp only [respond, respondWhole, hplace, hhandler]
  rfl

end App

end Brainfuck.Framework
