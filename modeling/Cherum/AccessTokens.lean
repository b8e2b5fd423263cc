import Cherum.AppLifecycle

/-! The server's jwt.py in front of the routes that need a token. PyJWT is a
parameter: what it encodes to and decodes from with `HS256`. A request that needs a
token and has none that is valid could as well not have been made. -/

namespace Cherum.AccessTokens
open AppLifecycle (App Arrival createApp serve serveAll)
open HttpMessages PythonJson TelemetryRoutes TelemetryStore

structure PyJwt where
  encode : Json → String → List Char
  /-- `none` where it raises. -/
  decode : List Char → String → Option Json

structure Config where
  appName : String
  secretKey : String

def createToken (j : PyJwt) (c : Config) : List Char :=
  j.encode (.obj [("issuer", .str c.appName)]) c.secretKey

/-- The token, or None, of the header `Authorization`; `none` outside where
`header.split(' ')[1]` raises. -/
def getToken : Option (List Char) → Option (Option (List Char))
  | none => some none
  | some header => ((header.splitOn ' ')[1]?).map some

def getAndValidateToken (j : PyJwt) (c : Config) (header : Option (List Char)) : Option Json :=
  match getToken header with
  | none => none
  | some none => none
  | some (some token) =>
    match j.decode token c.secretKey with
    | none => none
    | some obj =>
      match obj.getItem "issuer" with
      | .error _ => none
      | .ok issuer => if issuer.isStr c.appName then some obj else none

/-- The header `poller.py` and `telemetry.py` send. -/
def bearer (token : List Char) : List Char := "Bearer ".toList ++ token

inductive Asked
  | other (response : Response)
  | command (form : Option String)
  | fetch (header : Option (List Char)) (query : Option CommandTable.CommandRow)
  | done (header : Option (List Char)) (id : ℕ)
  | lastTelemetry (results : LastResults)
  | getTelemetry (result : QueryResult)
  | postTelemetry (header : Option (List Char)) (body : RequestBody)

structure Incoming where
  asked : Asked
  now : ℕ
  call : Call
  closing : Call

section Routes

variable (j : PyJwt) (c : Config)

def authorised (header : Option (List Char)) : Bool := (getAndValidateToken j c header).isSome

def Asked.request : Asked → AppLifecycle.Request
  | .other response => .other response
  | .command form => .command (.command form)
  | .fetch header query => .command (.fetch (authorised j c header) query)
  | .done header id => .command (.done (authorised j c header) id)
  | .lastTelemetry results => .lastTelemetry results
  | .getTelemetry result => .getTelemetry result
  | .postTelemetry header body => .postTelemetry (authorised j c header) body

def Incoming.arrival (i : Incoming) : Arrival :=
  ⟨i.asked.request j c, i.now, i.call, i.closing⟩

def Asked.header? : Asked → Option (Option (List Char))
  | .fetch header _ => some header
  | .done header _ => some header
  | .postTelemetry header _ => some header
  | _ => none

/-- The header is a word, a blank and a token of this application, which is followed
by nothing or by another blank. -/
def Carries (header : Option (List Char)) : Prop :=
  ∃ scheme token rest payload, header = some (scheme ++ ' ' :: (token ++ rest)) ∧
    ' ' ∉ scheme ∧ ' ' ∉ token ∧ (rest = [] ∨ ∃ more, rest = ' ' :: more) ∧
    j.decode token c.secretKey = some payload ∧
    field? "issuer" payload = some (.str c.appName)

def Incoming.denied (i : Incoming) : Bool :=
  match i.asked.header? with
  | some header => !authorised j c header
  | none => false

end Routes

variable {j : PyJwt} {c : Config}

theorem splitOn_first {text token : List Char} :
    (text.splitOn ' ')[0]? = some token ↔ ∃ rest, text = token ++ rest ∧ ' ' ∉ token ∧
      (rest = [] ∨ ∃ more, rest = ' ' :: more) := by
  constructor
  · intro h
    by_cases hblank : ' ' ∈ text
    · obtain ⟨first, more, htext, hfirst⟩ := List.eq_append_cons_of_mem hblank
      rw [htext, List.splitOn_append_cons_self_of_not_mem hfirst] at h
      have htoken : first = token := Option.some.inj h
      rw [← htoken]
      exact ⟨' ' :: more, htext, hfirst, .inr ⟨more, rfl⟩⟩
    · rw [List.splitOn_eq_singleton hblank] at h
      have htoken : text = token := Option.some.inj h
      rw [← htoken]
      exact ⟨[], (List.append_nil text).symm, hblank, .inl rfl⟩
  · rintro ⟨rest, htext, htoken, hrest | ⟨more, hrest⟩⟩
    · rw [htext, hrest, List.append_nil, List.splitOn_eq_singleton htoken]
      rfl
    · rw [htext, hrest, List.splitOn_append_cons_self_of_not_mem htoken]
      rfl

theorem getToken_iff {header token : List Char} :
    getToken (some header) = some (some token) ↔
      ∃ scheme rest, header = scheme ++ ' ' :: (token ++ rest) ∧ ' ' ∉ scheme ∧ ' ' ∉ token ∧
        (rest = [] ∨ ∃ more, rest = ' ' :: more) := by
  have hget : getToken (some header) = some (some token) ↔
      (header.splitOn ' ')[1]? = some token := by
    simp [getToken]
  rw [hget]
  constructor
  · intro h
    by_cases hblank : ' ' ∈ header
    · obtain ⟨scheme, after, hheader, hscheme⟩ := List.eq_append_cons_of_mem hblank
      rw [hheader, List.splitOn_append_cons_self_of_not_mem hscheme, List.getElem?_cons_succ,
        splitOn_first] at h
      obtain ⟨rest, hafter, htoken, hrest⟩ := h
      exact ⟨scheme, rest, by rw [hheader, hafter], hscheme, htoken, hrest⟩
    · rw [List.splitOn_eq_singleton hblank] at h
      cases h
  · rintro ⟨scheme, rest, hheader, hscheme, htoken, hrest⟩
    rw [hheader, List.splitOn_append_cons_self_of_not_mem hscheme, List.getElem?_cons_succ,
      splitOn_first]
    exact ⟨rest, rfl, htoken, hrest⟩

theorem authorised_iff (header : Option (List Char)) :
    authorised j c header = true ↔ Carries j c header := by
  unfold authorised getAndValidateToken Carries
  cases header with
  | none => simp [getToken]
  | some header =>
    constructor
    · intro h
      cases hget : getToken (some header) with
      | none => simp [hget] at h
      | some token? =>
        cases token? with
        | none => simp [hget] at h
        | some token =>
          obtain ⟨scheme, rest, hheader, hscheme, htoken, hrest⟩ := getToken_iff.mp hget
          simp only [hget] at h
          cases hdecode : j.decode token c.secretKey with
          | none => simp [hdecode] at h
          | some obj =>
            cases hissuer : obj.getItem "issuer" with
            | error e => simp [hdecode, hissuer] at h
            | ok issuer =>
              simp only [hdecode, hissuer] at h
              have hname : issuer.isStr c.appName = true := by
                by_contra hname
                simp [hname] at h
              have hfield : field? "issuer" obj = some (.str c.appName) := by
                rw [getItem_eq_ok.mp hissuer, isStr_eq_true.mp hname]
              exact ⟨scheme, token, rest, obj, by rw [hheader], hscheme, htoken, hrest, hdecode,
                hfield⟩
    · rintro ⟨scheme, token, rest, obj, hheader, hscheme, htoken, hrest, hdecode, hissuer⟩
      have hget := getToken_iff.mpr ⟨scheme, rest, Option.some.inj hheader, hscheme, htoken, hrest⟩
      simp [hget, hdecode, getItem_eq_ok.mpr hissuer, Json.isStr]

/-- What PyJWT does with the token that it made for the application. -/
structure Issues (j : PyJwt) (c : Config) : Prop where
  decoded : j.decode (createToken j c) c.secretKey = some (.obj [("issuer", .str c.appName)])
  no_blank : ' ' ∉ createToken j c

theorem bearer_eq (token : List Char) :
    bearer token = ['B', 'e', 'a', 'r', 'e', 'r'] ++ ' ' :: (token ++ []) := by
  change "Bearer ".toList ++ token = _
  simp

theorem carries_created (h : Issues j c) : Carries j c (some (bearer (createToken j c))) := by
  have hissuer : field? "issuer" (.obj [("issuer", .str c.appName)]) = some (.str c.appName) := by
    simp [field?]
  exact ⟨_, _, [], _, congrArg some (bearer_eq _), by decide, h.no_blank, .inl rfl, h.decoded,
    hissuer⟩

def oneToken : PyJwt where
  encode _ _ := ['t']
  decode token _ := if token = ['t'] then some (.obj [("issuer", .str "Cherum")]) else none

def cherumConfig : Config := ⟨"Cherum", "dev"⟩

theorem carries_oneToken : Carries oneToken cherumConfig (some (bearer ['t'])) :=
  carries_created ⟨rfl, by decide⟩

theorem denied_iff (i : Incoming) :
    i.denied j c = true ↔ ∃ header, i.asked.header? = some header ∧ ¬ Carries j c header := by
  unfold Incoming.denied
  cases i.asked.header? with
  | none => simp
  | some header => simp [← authorised_iff]

/-- The request was made without a valid token, on a route that needs one. -/
def lacksToken : AppLifecycle.Request → Bool
  | .command (.fetch false _) => true
  | .command (.done false _) => true
  | .postTelemetry false _ => true
  | _ => false

theorem lacksToken_request (i : Incoming) : lacksToken (i.asked.request j c) = i.denied j c := by
  unfold Incoming.denied
  cases i.asked with
  | fetch header query =>
    cases h : authorised j c header <;> simp [Asked.request, Asked.header?, lacksToken, h]
  | done header id =>
    cases h : authorised j c header <;> simp [Asked.request, Asked.header?, lacksToken, h]
  | postTelemetry header body =>
    cases h : authorised j c header <;> simp [Asked.request, Asked.header?, lacksToken, h]
  | _ => rfl

def answers (app : App) : List (AppLifecycle.Request × Response) :=
  app.answered.filter fun p => !lacksToken p.1

structure Alike (app app' : App) : Prop where
  db : app.db = app'.db
  points : app.store.points = app'.store.points
  closed : app.store.clientClosed = true
  closed' : app'.store.clientClosed = true
  answers : answers app = answers app'

section Serve

variable {texts : Texts} {app app' : App}

theorem handle_lacksToken {a : Arrival} (h : lacksToken a.request = true)
    (db : CommandServer.Database) (s : Store) :
    AppLifecycle.handle texts a db s = (unauthorized, db, s) := by
  obtain ⟨request, now, call, closing⟩ := a
  cases request with
  | command request =>
    cases request with
    | command form => cases h
    | fetch authorised query => cases authorised <;> first | rfl | cases h
    | done authorised id => cases authorised <;> first | rfl | cases h
  | postTelemetry authorised body => cases authorised <;> first | rfl | cases h
  | _ => cases h

theorem postTelemetry_answer {s s' : Store} (authorised : Bool) (body : RequestBody) (call : Call) :
    (postTelemetry texts authorised body call s).1 =
      (postTelemetry texts authorised body call s').1 := by
  unfold postTelemetry
  cases authorised with
  | false => rfl
  | true =>
    cases body with
    | notDeclaredJson => rfl
    | malformed => rfl
    | json data =>
      simp only [if_true]
      cases lacksType data with
      | error e => rfl
      | ok lacks =>
        cases lacks with
        | true => rfl
        | false =>
          cases dispatch texts data with
          | error e => rfl
          | ok method => cases method <;> rfl

theorem handle_alike (h : Alike app app') (a : Arrival) :
    (AppLifecycle.handle texts a app.db app.store).1 =
        (AppLifecycle.handle texts a app'.db app'.store).1 ∧
      (AppLifecycle.handle texts a app.db app.store).2.1 =
        (AppLifecycle.handle texts a app'.db app'.store).2.1 ∧
      (AppLifecycle.handle texts a app.db app.store).2.2.points =
        (AppLifecycle.handle texts a app'.db app'.store).2.2.points := by
  obtain ⟨request, now, call, closing⟩ := a
  cases request with
  | other response => exact ⟨rfl, h.db, h.points⟩
  | command request => simp [AppLifecycle.handle, h.db, h.points]
  | lastTelemetry results => exact ⟨rfl, h.db, h.points⟩
  | getTelemetry result =>
    simp [AppLifecycle.handle, getTelemetry, queryRecentPositions, h.closed, h.closed', h.db,
      h.points]
  | postTelemetry authorised body =>
    refine ⟨?_, h.db, ?_⟩
    · exact postTelemetry_answer authorised body call
    · simp only [AppLifecycle.handle, postTelemetry_store]
      cases hcall : storeCall texts authorised body with
      | none => exact h.points
      | some method =>
        obtain ⟨point, hmethod⟩ := storeCall_append hcall
        simp only [hmethod, append_points, h.points]

theorem alike_removed (h : Alike app app') {a : Arrival} (hlacks : lacksToken a.request = true) :
    Alike (serve texts app a) app' := by
  have hhandle : AppLifecycle.handle texts a app.db app.store = (unauthorized, app.db, app.store) :=
    handle_lacksToken hlacks app.db app.store
  refine ⟨?_, ?_, rfl, h.closed', ?_⟩
  · rw [serve, hhandle]
    exact h.db
  · simp only [serve, hhandle, close_points]
    exact h.points
  · rw [← h.answers]
    simp [answers, serve, hlacks]

theorem alike_served (h : Alike app app') (a : Arrival) :
    Alike (serve texts app a) (serve texts app' a) := by
  obtain ⟨hresponse, hdb, hpoints⟩ := handle_alike h a
  refine ⟨hdb, ?_, rfl, rfl, ?_⟩
  · simp only [serve, close_points]
    exact hpoints
  · have hanswers := h.answers
    unfold answers at hanswers ⊢
    simp only [serve, List.filter_append, hanswers, hresponse]

theorem alike_serveAll (h : Alike app app') (arrivals : List Arrival) :
    Alike (serveAll texts app arrivals)
      (serveAll texts app' (arrivals.filter fun a => !lacksToken a.request)) := by
  induction arrivals generalizing app app' with
  | nil => exact h
  | cons a rest ih =>
    cases hlacks : lacksToken a.request with
    | true =>
      rw [List.filter_cons_of_neg (by simp [hlacks])]
      exact ih (alike_removed h hlacks)
    | false =>
      rw [List.filter_cons_of_pos (by simp [hlacks])]
      exact ih (alike_served h a)

end Serve

def permitted (j : PyJwt) (c : Config) (incoming : List Incoming) : List Incoming :=
  incoming.filter fun i => !i.denied j c

theorem permitted_arrivals (incoming : List Incoming) :
    (permitted j c incoming).map (Incoming.arrival j c) =
      (incoming.map (Incoming.arrival j c)).filter fun a => !lacksToken a.request := by
  rw [permitted, List.filter_map]
  congr 1
  exact List.filter_congr fun i _ => by simp [Incoming.arrival, lacksToken_request]

def needsToken : AppLifecycle.Request → Bool
  | .command (.fetch _ _) => true
  | .command (.done _ _) => true
  | .postTelemetry _ _ => true
  | _ => false

theorem needsToken_request (i : Incoming) :
    needsToken (i.asked.request j c) = i.asked.header?.isSome := by
  cases i.asked <;> rfl

section Answered

variable {texts : Texts}

theorem postTelemetry_status (body : RequestBody) (call : Call) (s : Store) :
    (postTelemetry texts true body call s).1.status ≠ 401 := by
  cases body with
  | notDeclaredJson => simp [postTelemetry, unsupportedMediaType]
  | malformed => simp [postTelemetry, badRequest]
  | json data =>
    simp only [postTelemetry, if_true]
    cases lacksType data with
    | error e => simp [internalServerError]
    | ok lacks =>
      cases lacks with
      | true => simp [invalidData]
      | false =>
        cases dispatch texts data with
        | error e => simp [failedToStore]
        | ok method => cases method <;> simp [received]

theorem handle_unauthorized {a : Arrival} (hneeds : needsToken a.request = true)
    (db : CommandServer.Database) (s : Store) :
    (AppLifecycle.handle texts a db s).1 = unauthorized ↔ lacksToken a.request = true := by
  refine ⟨fun h => ?_, fun h => congrArg Prod.fst (handle_lacksToken h db s)⟩
  have hstatus : (AppLifecycle.handle texts a db s).1.status = 401 := congrArg Response.status h
  obtain ⟨request, now, call, closing⟩ := a
  cases request with
  | command request =>
    cases request with
    | command form => cases hneeds
    | fetch authorised query =>
      cases authorised with
      | false => rfl
      | true => simp [AppLifecycle.handle, CommandServer.serve, CommandServer.fetch] at hstatus
    | done authorised id =>
      cases authorised with
      | false => rfl
      | true =>
        simp only [AppLifecycle.handle, CommandServer.serve, CommandServer.done, if_true] at hstatus
        split at hstatus
        · simp at hstatus
        · simp [internalServerError] at hstatus
  | postTelemetry authorised body =>
    cases authorised with
    | false => rfl
    | true => exact absurd hstatus (postTelemetry_status body call s)
  | _ => cases hneeds

theorem serveAll_answered (app : App) (arrivals : List Arrival) : ∃ given : List Response,
    given.length = arrivals.length ∧
      (serveAll texts app arrivals).answered =
        app.answered ++ (arrivals.map Arrival.request).zip given ∧
      ∀ p ∈ (arrivals.map Arrival.request).zip given, needsToken p.1 = true →
        (p.2 = unauthorized ↔ lacksToken p.1 = true) := by
  induction arrivals generalizing app with
  | nil => exact ⟨[], rfl, by simp [serveAll], by simp⟩
  | cons a rest ih =>
    obtain ⟨given, hlength, hanswered, hdenied⟩ := ih (serve texts app a)
    refine ⟨(AppLifecycle.handle texts a app.db app.store).1 :: given, by simp [hlength], ?_, ?_⟩
    · have hrest : serveAll texts app (a :: rest) = serveAll texts (serve texts app a) rest := rfl
      rw [hrest, hanswered]
      simp [serve]
    · intro p hp hneeds
      cases List.mem_cons.mp hp with
      | inl h =>
        rw [h] at hneeds ⊢
        exact handle_unauthorized hneeds app.db app.store
      | inr h => exact hdenied p h hneeds

theorem zip_requests {given : List Response} (incoming : List Incoming) :
    ((incoming.map (Incoming.arrival j c)).map Arrival.request).zip given =
      (incoming.zip given).map fun p => (p.1.asked.request j c, p.2) := by
  rw [List.map_map, ← List.map_id given, List.zip_map, List.map_id]
  rfl

theorem filter_permitted {given : List Response} (incoming : List Incoming) :
    ((((permitted j c incoming).map (Incoming.arrival j c)).map Arrival.request).zip given).filter
        (fun p => !lacksToken p.1) =
      (((permitted j c incoming).map (Incoming.arrival j c)).map Arrival.request).zip given := by
  rw [List.filter_eq_self]
  intro p hp
  obtain ⟨a, ha, hrequest⟩ := List.mem_map.mp (List.of_mem_zip hp).1
  rw [permitted_arrivals] at ha
  rw [← hrequest]
  exact (List.mem_filter.mp ha).2

/-- Once a first request is served, the requests that come without the token their route
needs are answered 401, the others are not, and all is as if only these others were made. -/
theorem tokens_required (texts : Texts) (j : PyJwt) (c : Config) (db : CommandServer.Database)
    (now : ℤ) (first : Incoming) (rest : List Incoming) :
    let app := serve texts (createApp db now) (first.arrival j c)
    let all := serveAll texts app (rest.map (Incoming.arrival j c))
    let only := serveAll texts app ((permitted j c rest).map (Incoming.arrival j c))
    all.db = only.db ∧ all.store.points = only.store.points ∧
      ∃ given : List Response, given.length = rest.length ∧
        all.answered =
          app.answered ++ (rest.zip given).map (fun p => (p.1.asked.request j c, p.2)) ∧
        only.answered = app.answered ++ ((rest.zip given).filter fun p => !p.1.denied j c).map
          (fun p => (p.1.asked.request j c, p.2)) ∧
        ∀ p ∈ rest.zip given, ∀ header, p.1.asked.header? = some header →
          (p.2 = unauthorized ↔ ¬ Carries j c header) := by
  intro app all only
  have hself : Alike app app := ⟨rfl, rfl, rfl, rfl, rfl⟩
  have halike : Alike all only := by
    simp only [all, only, permitted_arrivals]
    exact alike_serveAll hself (rest.map (Incoming.arrival j c))
  obtain ⟨given, hlength, hall, hdenied⟩ :=
    serveAll_answered app (rest.map (Incoming.arrival j c))
  obtain ⟨givenOnly, -, honly, -⟩ :=
    serveAll_answered app ((permitted j c rest).map (Incoming.arrival j c))
  have hanswers := halike.answers
  unfold answers at hanswers
  rw [hall, honly, List.filter_append, List.filter_append, List.append_cancel_left_eq,
    filter_permitted, zip_requests, List.filter_map] at hanswers
  refine ⟨halike.db, halike.points, given, ?_, ?_, ?_, ?_⟩
  · rw [hlength, List.length_map]
  · rw [hall, zip_requests]
  · rw [honly, ← hanswers]
    congr 2
    exact List.filter_congr fun p _ => by simp [lacksToken_request]
  · intro p hp header hheader
    have hmem : (p.1.asked.request j c, p.2) ∈
        ((rest.map (Incoming.arrival j c)).map Arrival.request).zip given := by
      rw [zip_requests]
      exact List.mem_map_of_mem hp
    have hneeds : needsToken (p.1.asked.request j c) = true := by
      rw [needsToken_request, hheader]
      rfl
    rw [hdenied _ hmem hneeds, lacksToken_request, denied_iff, hheader]
    exact ⟨fun ⟨_, hsome, hcarries⟩ => Option.some.inj hsome ▸ hcarries, fun h => ⟨header, rfl, h⟩⟩

end Answered

end Cherum.AccessTokens
