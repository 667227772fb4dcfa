import DoWhile.Report
import DoWhile.Service.Level
import DoWhile.Service.Origins

/-!
# The service

The service has three routes: a page that introduces it, a sign of health, and the analysis of a
text. It declares them, and which requests from other origins are let in, to a web framework, which
reads requests, finds their routes and writes the responses. How it does so is not a matter of this
library, so a framework is a structure of functions (`Framework`). Around whatever the framework
does, the service logs each request that was answered (`answer`).
-/

set_option autoImplicit false

namespace DoWhile.Service

/-! ## Routes -/

/-- What a route hands over to be sent. -/
inductive Payload where
  | page (html : String)
  | json (value : Json)
  deriving Repr, Inhabited

/-- What a route hands over, and the records that it logged. -/
structure Served where
  payload : Payload
  log : List Record := []
  deriving Repr, Inhabited

/-- How a route is served: without any input, or from the text that the field `source` of a request
holds. -/
inductive Handler where
  | plain (served : Served)
  | ofSource (serve : String → Served)

/-- A route of the service. -/
structure Route where
  method : String
  path : String
  handler : Handler

/-- The page that introduces the service. -/
def introduction : Served :=
  { payload := .page ("<h2>Mini Analyzer API</h2><p>POST <code>/api/analyze</code> with JSON: "
      ++ "<code>\x7b\x22source\x22: \x22int a = 10;\x22\x7d</code></p>") }

/-- The sign of health. -/
def health : Served := { payload := .json (.object [("status", .string "ok")]) }

/-- The record of an analysis that was served. -/
def analysisRecord (a : Analysis) : Record :=
  ⟨.debug, "analyzed " ++ toString a.source.length ++ " characters: "
    ++ toString a.diagnostics.length ++ " errors"⟩

/-- The report of the analysis of a text. -/
def analysis (source : String) : Served :=
  let a := analyze defaultImplicit source
  { payload := .json a.report.toJson, log := [analysisRecord a] }

/-- The routes of the service. -/
def routes : List Route :=
  [⟨"GET", "/", .plain introduction⟩, ⟨"GET", "/health", .plain health⟩,
   ⟨"POST", "/api/analyze", .ofSource analysis⟩]

/-! ## The application -/

/-- The name of the service. -/
def title : String := "Mini Analyzer"

/-- The version of the service. -/
def version : String := "1.0.0"

/-- Which requests from other origins are let in, where a star lets in everything, and whether they
may carry credentials. -/
structure Policy where
  origins : List String
  credentials : Bool
  methods : List String
  headers : List String
  deriving DecidableEq, Repr, Inhabited

/-- What the service declares to a framework. -/
structure Application where
  title : String
  version : String
  routes : List Route
  policy : Policy

/-- The application with the given origins allowed. -/
def application (listed : List String) : Application :=
  { title := title
    version := version
    routes := routes
    policy := { origins := listed, credentials := true, methods := ["*"], headers := ["*"] } }

/-! ## Answering requests -/

/-- A web framework: what it reads of a request and of a response, and the response that it makes of
a request to an application, with the records that were logged on the way. -/
structure Framework where
  Request : Type
  Response : Type
  Failure : Type
  method : Request → String
  path : Request → String
  status : Response → Int
  respond : Application → Request → Except Failure (Response × List Record)

variable (f : Framework)

/-- The record of a request that was answered. -/
def accessRecord (r : f.Request) (response : f.Response) : Record :=
  ⟨.info, f.method r ++ " " ++ f.path r ++ " -> " ++ toString (f.status response)⟩

/-- The response to a request and the records that were logged. -/
def answer (app : Application) (r : f.Request) :
    Except f.Failure (f.Response × List Record) := do
  let (response, log) ← f.respond app r
  return (response, log ++ [accessRecord f r response])

end DoWhile.Service
