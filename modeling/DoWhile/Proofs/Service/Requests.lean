import DoWhile.Service.Application

/-!
# What the log of the service shows

Routes log below the level at which requests are logged (`not_isShown_of_serves`). So with a
framework that logs nothing of its own, what the log shows from that level on is which requests were
answered, and how, and nothing else, whatever the framework makes of them (`shown_serve`).
-/

set_option autoImplicit false

namespace DoWhile.Service

/-- Is the record shown where requests are? -/
def Record.isShown (r : Record) : Bool := Level.info.shows r.level

/-- Can the handler hand this over? -/
def Handler.Serves : Handler → Served → Prop
  | plain served, s => s = served
  | ofSource serve, s => ∃ source, s = serve source

/-- The routes log nothing that is shown where requests are. -/
theorem not_isShown_of_serves {route : Route} (hroute : route ∈ routes) {served : Served}
    (hserved : route.handler.Serves served) : ∀ r ∈ served.log, r.isShown = false := by
  have hquiet (h : served.log = []) : ∀ r ∈ served.log, r.isShown = false := by
    rw [h]
    exact fun r hr => absurd hr List.not_mem_nil
  rw [routes, List.mem_cons, List.mem_cons, List.mem_singleton] at hroute
  rcases hroute with rfl | rfl | rfl
  · exact hquiet (congrArg Served.log hserved)
  · exact hquiet (congrArg Served.log hserved)
  · obtain ⟨source, rfl⟩ := hserved
    intro r hr
    rw [List.mem_singleton.mp hr]
    rfl

variable (f : Framework)

/-- Does the framework log nothing but what a route logs that it calls? -/
def Framework.Silent : Prop :=
  ∀ app r response log, f.respond app r = .ok (response, log) →
    log = [] ∨ ∃ route ∈ app.routes, ∃ served, route.handler.Serves served ∧ log = served.log

/-- The log of requests that come one after the other. A request that fails leaves no record. -/
def serve (app : Application) : List f.Request → List Record
  | [] => []
  | r :: rs =>
    match answer f app r with
    | .ok (_, log) => log ++ serve app rs
    | .error _ => serve app rs

/-- The access records of the requests that are answered, in order. -/
def accesses (app : Application) (rs : List f.Request) : List Record :=
  rs.filterMap fun r => (f.respond app r).toOption.map fun p => accessRecord f r p.1

variable {f}

/-- Of one request, the log shows the access record alone. -/
theorem shown_answer (hsilent : f.Silent) {listed : List String} {r : f.Request}
    {response : f.Response} {log : List Record}
    (h : f.respond (application listed) r = .ok (response, log)) :
    (log ++ [accessRecord f r response]).filter Record.isShown = [accessRecord f r response] := by
  have hhidden : ∀ r ∈ log, r.isShown = false := by
    rcases hsilent _ _ _ _ h with rfl | ⟨route, hroute, served, hserved, rfl⟩
    · exact fun r hr => absurd hr List.not_mem_nil
    · exact not_isShown_of_serves hroute hserved
  rw [List.filter_append, List.filter_eq_nil_iff.mpr (by simpa using hhidden)]
  rfl

/-- **What the log shows.** With a framework that logs nothing of its own, the log of any requests
shows an access record for each request that was answered, in order, and nothing else. -/
theorem shown_serve (hsilent : f.Silent) (listed : List String) (rs : List f.Request) :
    (serve f (application listed) rs).filter Record.isShown =
      accesses f (application listed) rs := by
  induction rs with
  | nil => rfl
  | cons r rs ih =>
      rw [serve, answer, accesses, List.filterMap_cons, ← accesses]
      cases h : f.respond (application listed) r with
      | error why => exact ih
      | ok p =>
          obtain ⟨response, log⟩ := p
          have hfirst := shown_answer hsilent h
          show ((log ++ [accessRecord f r response]) ++ serve f (application listed) rs).filter
            Record.isShown = accessRecord f r response :: accesses f (application listed) rs
          rw [List.filter_append, hfirst, ih, List.singleton_append]

end DoWhile.Service
