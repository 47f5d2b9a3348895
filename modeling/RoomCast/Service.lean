import RoomCast.Server

namespace RoomCast

structure HttpRequest where
  method : String
  target : String
  contentType : Option String
  body : String
deriving DecidableEq, Repr

structure Health where
  uptimeSeconds : Nat
  connections : Nat
  shards : Nat
deriving DecidableEq, Repr

inductive HttpBody where
  | empty
  | health (report : Health)
  | metrics (figures : List Metric)
deriving DecidableEq, Repr

structure HttpAnswer where
  status : Nat
  body : HttpBody
deriving DecidableEq, Repr

namespace HttpAnswer

def bare (status : Nat) : HttpAnswer := ⟨status, .empty⟩

/-- An answer to a `HEAD` request has no body. -/
def withoutBody (a : HttpAnswer) : HttpAnswer := { a with body := .empty }

end HttpAnswer

def HttpRequest.path (req : HttpRequest) : String :=
  String.ofList (req.target.toList.takeWhile fun c => c ≠ '?' && c ≠ '#')

def formContentType : String := "application/x-www-form-urlencoded"

/-- The most bytes that a form may have. -/
def formLimit : Nat := 2097152

/-- Whether a request says that its body is a form. A content type of other characters than visible
ASCII ones counts for nothing. -/
def HttpRequest.isForm (req : HttpRequest) : Bool :=
  match req.contentType with
  | none => false
  | some t =>
    t.toList.all (fun c => c = '\t' || (' ' ≤ c && c ≤ '~')) &&
      formContentType.toList.isPrefixOf t.toList

namespace Server

def publishForm (srv : Server) (fields : Option PublishForm) (publish? : PublishForm → Option Publish) :
    Server × HttpAnswer :=
  match fields with
  | none => (srv, .bare 422)
  | some form =>
    match publish? form with
    | none => (srv, .bare 400)
    | some publish => ({ srv with merge := (srv.merge.publish publish).1 }, .bare 200)

def answerPublish (srv : Server) (req : HttpRequest) (fields : Form → Option PublishForm)
    (publish? : PublishForm → Option Publish) : Server × HttpAnswer :=
  if req.method ≠ "POST" then (srv, .bare 405)
  else if !req.isForm then (srv, .bare 415)
  else if formLimit < req.body.utf8ByteSize then (srv, .bare 413)
  else srv.publishForm (fields (.ofString req.body)) publish?

def health (srv : Server) : Health where
  uptimeSeconds := srv.now / 1000
  connections := srv.registry.connectionCount
  shards := srv.registry.shardCount

def answerGet (req : HttpRequest) (answer : HttpAnswer) : HttpAnswer :=
  if req.method = "GET" then answer
  else if req.method = "HEAD" then answer.withoutBody
  else .bare 405

def answerService (srv : Server) (req : HttpRequest) : Server × HttpAnswer :=
  match req.path with
  | "/push/all" => srv.answerPublish req PublishForm.forAll? Publish.toAll?
  | "/push/room" => srv.answerPublish req PublishForm.forRoom? Publish.toRoom?
  | "/health" => (srv, answerGet req ⟨200, .health srv.health⟩)
  | "/metrics" =>
    (srv, answerGet req (if srv.showsFigures then ⟨200, .metrics srv.metrics⟩ else .bare 404))
  | _ => (srv, .bare 404)

def connectPath : String := "/connect"

def answerSocket (req : HttpRequest) : HttpAnswer :=
  if req.path ≠ connectPath then .bare 404
  else if req.method = "GET" then .bare 400
  else .bare 405

/-- A client asks for an upgrade. It gets a session with the next identity, unless the server is
stopping. -/
def connect (srv : Server) (target : String) : Server × Except Nat Nat :=
  if (HttpRequest.mk "GET" target none "").path ≠ connectPath then (srv, .error 404)
  else if srv.stopping then (srv, .error 503)
  else
    let (id, identities) := srv.identities.take
    let (srv, i) := { srv with identities := identities }.openSession id true .open
    (srv, .ok i)

end Server

end RoomCast
