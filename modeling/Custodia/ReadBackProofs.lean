import Custodia.SecretsRuns

/-! # ReadBackProofs — what is stored can be read

    A PUT answered 201 has put its value in the table, and the row stays until
    a DELETE removes it. Whether a later plain GET returns the value depends
    on the value: `''` marks a container, and what is no string has no `len`.

    * `created_row`: what a PUT answered 201 has stored;
    * `get_returns_iff`: what a plain GET returns of a row;
    * `read_back_iff`: the two together, over any run in between. -/

namespace ReadBackProofs

open PosixPath SeparatedNames PyValues Unquote Messages SqliteStore SecretsConsumer SecretsCalls
open SecretsRequests SecretsRuns

/-! ## What is sent -/

/-- The value that a PUT sends: the base64 text of raw bytes, the value field
    of a `simple` message, the value claim of a `kem` message. -/
def sentValue (con : Secrets) (req : Request) : Option Json :=
  if contentTypeValue req = "application/octet-stream" then
    req.body.map (fun body => .ofText (b64encode body))
  else
    match req.body with
    | none => none
    | some body =>
        match raised (con.runtime.jsonLoads body),
          parseSetBody con req (joinSlash (segments req)) with
        | .ok (.obj fields), .ok (.simpleKey _ _) => Json.lookup fields "value"
        | _, .ok (.kemHandler _ payload _ _) => some payload
        | _, _ => none

variable {con : Secrets} {req : Request} {client : Str} {msg : Handler} {t : Table}

/-- A string that is parsed as a `simple` message is its payload. -/
theorem simpleParse_payload {s name : Str} {handler : Handler}
    (h : simpleParse (.ofText s) name = .ok handler) : handler.payload = .ofText s := by
  obtain rfl := Except.ok.inj h
  rfl

/-- What is parsed as a `simple` message is handled as one. -/
theorem simpleParse_simpleKey {value : Json} {name : Str} {handler : Handler}
    (h : simpleParse value name = .ok handler) :
    ∃ name payload, handler = .simpleKey name payload := by
  unfold simpleParse at h
  cases value with
  | null => exact ⟨_, _, (Except.ok.inj h).symm⟩
  | str s => exact ⟨_, _, (Except.ok.inj h).symm⟩
  | bool b => exact nomatch h
  | int n => exact nomatch h
  | float x => exact nomatch h
  | arr items => exact nomatch h
  | obj fields => exact nomatch h

/-- What is parsed as a `kem` message is handled as one. -/
theorem kemParse_kemHandler {rt : Runtime} {kk : Option KEMKeysStore} {value : Json} {name : Str}
    {handler : Handler} (h : kemParse rt kk value name = .ok handler) :
    ∃ payload kk' encKey, handler = .kemHandler name payload kk' encKey := by
  unfold kemParse at h
  cases kk with
  | none => exact nomatch h
  | some kk =>
      cases htok : raised (rt.jose.parseToken value) with
      | error e => simp only [htok] at h; exact nomatch h
      | ok token =>
          simp only [htok] at h
          cases hval : validate rt kk token with
          | error e => simp only [hval] at h; exact nomatch h
          | ok claims =>
              simp only [hval] at h
              obtain ⟨u, -, h⟩ := bind_ok h
              exact ⟨_, _, _, (Except.ok.inj h).symm⟩

/-- A body that is not raw bytes is parsed as JSON. -/
theorem parseSetBody_json {name : Str}
    (h : contentTypeValue req ≠ "application/octet-stream".toList)
    (hmsg : parseSetBody con req name = .ok msg) : parseBody con req name = .ok msg := by
  rw [parseSetBody, if_neg h] at hmsg
  split_ifs at hmsg with hctype
  exact hmsg

/-- A string that is sent is the payload of the message. -/
theorem payload_of_sent {s : Str} (hmsg : parseSetBody con req (joinSlash (segments req)) = .ok msg)
    (hsent : sentValue con req = some (.ofText s)) : msg.payload = .ofText s := by
  rw [sentValue] at hsent
  split_ifs at hsent with hoctet
  · have hbin : parseBinBody con req (joinSlash (segments req)) = .ok msg := by
      rw [← hmsg]
      exact (if_pos hoctet).symm
    rw [parseBinBody] at hbin
    cases hbody : req.body with
    | none => rw [hbody] at hbin; exact nomatch hbin
    | some body =>
        rw [hbody] at hsent hbin
        obtain ⟨fields, type, msgType, value, msgValue, hobj, htype, htyped, hvalue, hlisted,
          hparsed⟩ := parse_ok hbin
        obtain rfl := Json.obj.inj hobj
        obtain rfl : Json.ofText "simple" = type := Option.some.inj htype
        obtain rfl : Json.ofText "simple" = msgType := Except.ok.inj htyped
        obtain rfl : Json.ofText (b64encode body) = value := Option.some.inj hvalue
        obtain rfl : Json.ofText (b64encode body) = msgValue := Except.ok.inj hlisted
        rcases hparsed with ⟨-, -, h⟩ | ⟨hkem, -, -⟩
        · exact (simpleParse_payload h).trans (Option.some.inj hsent)
        · have htext := Json.isText_iff.mpr hkem
          exact absurd htext (by decide)
  · cases hbody : req.body with
    | none => rw [hbody] at hsent; exact nomatch hsent
    | some body =>
        have hjson := parseSetBody_json hoctet hmsg
        simp only [hbody, hmsg] at hsent
        rw [parseBody] at hjson
        rw [hbody] at hjson
        obtain ⟨document, hdoc, hjson⟩ := bind_ok hjson
        obtain ⟨fields, type, msgType, value, msgValue, rfl, -, -, hvalue, hlisted, hparsed⟩ :=
          parse_ok hjson
        simp only [hdoc] at hsent
        rcases hparsed with ⟨-, -, h⟩ | ⟨-, -, h⟩
        · -- a string is in no list
          obtain ⟨name, payload, rfl⟩ := simpleParse_simpleKey h
          obtain rfl : value = .ofText s := Option.some.inj (hvalue.symm.trans hsent)
          obtain rfl : Json.ofText s = msgValue := Except.ok.inj hlisted
          exact simpleParse_payload h
        · obtain ⟨payload, kk, encKey, rfl⟩ := kemParse_kemHandler h
          exact Option.some.inj hsent

/-! ## What a PUT has stored -/

/-- The table holds the bound payload of the message under the entry's key. This
    is what a PUT answered 201 leaves, and what a run keeps as long as no DELETE
    removes the entry. -/
structure Stored (con : Secrets) (req : Request) (msg : Handler) (v : SqlValue) (t : Table) :
    Prop where
  deep : 2 ≤ (segments req).length
  entry : ¬ namesContainer (segments req)
  message : parseSetBody con req (joinSlash (segments req)) = .ok msg
  bound : bindValue setErrorText msg.payload = .ok v
  open_end : endsInSlash (entryKey req) = false
  row : t.lookup (entryKey req) = some v

/-- **A PUT answered 201 has stored its payload** under the key of its entry,
    bound to a column as the database does it. -/
theorem created_row (hput : req.command = "PUT".toList)
    (h : (respond con req t).1.Answered 201) :
    ∃ msg v, Stored con req msg v (respond con req t).2 := by
  cases request_kind con req with
  | get client msg hk => exact absurd (hk.command.symm.trans hput) (by decide)
  | list key msg hk => exact absurd (hk.command.symm.trans hput) (by decide)
  | post msg hk => exact absurd (hk.command.symm.trans hput) (by decide)
  | destroy msg hk => exact absurd (hk.command.symm.trans hput) (by decide)
  | delete client msg hk => exact absurd (hk.command.symm.trans hput) (by decide)
  | refused o hrun hk =>
      obtain ⟨⟨e, he⟩, -⟩ := hk
      obtain ⟨response, hok, -⟩ := h
      rw [respond_refused hrun, he] at hok
      exact nomatch hok
  | put client msg hk =>
      rw [respond_put hk] at h ⊢
      cases hcheck : parentCheck t req.defaultNamespace (segments req) with
      | error e => rw [hcheck] at h; exact absurd h not_answered_error
      | ok t' =>
          rw [hcheck] at h
          simp only at h ⊢
          -- every way for `set` to fail ends in an error
          cases hend : endsInSlash (entryKey req) with
          | true =>
              obtain ⟨e, hset, -⟩ := exec_set_slash hend msg.payload false t'
              rw [hset] at h
              exact absurd h not_answered_error
          | false =>
              cases hbound : bindValue setErrorText msg.payload with
              | error e =>
                  rw [exec_set_unbound hend hbound] at h
                  exact absurd h not_answered_error
              | ok v =>
                  by_cases hmem : entryKey req ∈ t'
                  · rw [exec_set_mem hend hbound hmem] at h
                    exact absurd h not_answered_error
                  · rw [exec_set_not_mem hend hbound hmem]
                    exact ⟨msg, v, hk.deep, hk.entry, hk.message, hbound, hend,
                      AList.lookup_insert _⟩

/-! ## What a plain GET returns -/

/-- A GET without a query and without an `Accept` header, which asks for the
    trail of an entry and is answered with a `simple` message. -/
structure PlainGet (req : Request) (trail : List Str) : Prop where
  command : req.command = "GET".toList
  trail : segments req = trail
  query : req.query = []
  accept : req.header "Accept" = none

/-- The request is answered 200 with exactly this value. -/
def ReturnsValue (o : Outcome) (value : Json) : Prop :=
  ∃ response, o.result = .ok response ∧ response.code.getD 200 = 200
    ∧ response.output = .json (.obj [(.text "type", .ofText "simple"), (.text "value", value)])

/-- The message of a request without a query. -/
theorem parseQuery_plain_ok {name : Str} {handler : Handler} (hquery : req.query = [])
    (h : parseQuery con req name = .ok handler) :
    con.allowedKeytypes.allows "simple" = true ∧ handler = .simpleKey (some name) (.ofText []) := by
  rw [parseQuery, if_pos hquery] at h
  obtain ⟨fields, type, msgType, value, msgValue, hobj, htype, htyped, hvalue, hlisted,
    hparsed⟩ := parse_ok h
  obtain rfl := Json.obj.inj hobj
  obtain rfl : Json.ofText "simple" = type := Option.some.inj htype
  obtain rfl : Json.ofText "simple" = msgType := Except.ok.inj htyped
  obtain rfl : Json.ofText [] = value := Option.some.inj hvalue
  obtain rfl : Json.ofText [] = msgValue := Except.ok.inj hlisted
  rcases hparsed with ⟨-, hallow, h⟩ | ⟨hkem, -, -⟩
  · exact ⟨hallow, (Except.ok.inj h).symm⟩
  · have htext := Json.isText_iff.mpr hkem
    exact absurd htext (by decide)

/-- A request without a query stands for a `simple` message without a value,
    where these are allowed. -/
theorem parseQuery_plain_allowed {name : Str} (hquery : req.query = [])
    (hallow : con.allowedKeytypes.allows "simple" = true) :
    parseQuery con req name = .ok (.simpleKey (some name) (.ofText [])) := by
  rw [parseQuery, if_pos hquery]
  show (if con.allowedKeytypes.allows "simple" = true then _ else _ : Except Exc Handler) = _
  rw [if_pos hallow]
  rfl

/-- The reply for a stored string. -/
theorem formatReply_plain {name : Str} (haccept : req.header "Accept" = none)
    (hname : endsInSlash name = false) (s : Str) :
    formatReply con req (.simpleKey (some name) (.ofText [])) (.ofText s)
      = .ok ⟨none, some jsonContentType,
          .json (.obj [(.text "type", .ofText "simple"), (.text "value", .ofText s)])⟩ := by
  have hreply : simpleReply (some name) (.ofText s)
      = .ok (.obj [(.text "type", .ofText "simple"), (.text "value", .ofText s)]) := by
    show (if endsInSlash name = true then _ else _ : Except Exc Json) = _
    rw [hname]
    rfl
  rw [formatReply]
  simp only [Handler.reply, hreply, haccept]
  rfl

/-- **What a plain GET returns of a row**: the value, if it is a non-empty
    text, `simple` messages are allowed and the client has a name. -/
theorem get_returns_iff {trail : List Str} {value : Json} {v : SqlValue}
    (hget : PlainGet req trail) (hdeep : 2 ≤ trail.length) (hentry : ¬ namesContainer trail)
    (hname : endsInSlash (joinSlash trail) = false)
    (hrow : t.lookup (join "keys" trail) = some v) :
    ReturnsValue (respond con req t).1 value ↔
      (∃ c s, v = .text (c :: s) ∧ value = .ofText (c :: s))
      ∧ con.allowedKeytypes.allows "simple" = true ∧ ∃ client, clientName req = .ok client := by
  have htrail := hget.trail
  have hkey : entryKey req = join "keys" trail := by rw [entryKey, htrail]
  constructor
  · rintro ⟨response, hok, -, hout⟩
    cases request_kind con req with
    | put client msg hk => exact absurd (hk.command.symm.trans hget.command) (by decide)
    | post msg hk => exact absurd (hk.command.symm.trans hget.command) (by decide)
    | destroy msg hk => exact absurd (hk.command.symm.trans hget.command) (by decide)
    | delete client msg hk => exact absurd (hk.command.symm.trans hget.command) (by decide)
    | list key msg hk =>
        have hcont := hk.container
        rw [htrail] at hcont
        rcases hcont with hnil | hcont
        · rw [hnil] at hdeep
          exact absurd hdeep (by decide)
        · exact absurd hcont hentry
    | refused o hrun hk =>
        obtain ⟨⟨e, he⟩, -⟩ := hk
        rw [respond_refused hrun, he] at hok
        exact nomatch hok
    | get client msg hk =>
        have hmessage := hk.message
        rw [htrail] at hmessage
        obtain ⟨hallow, rfl⟩ := parseQuery_plain_ok hget.query hmessage
        rw [respond_get hk, hkey, hrow] at hok
        refine ⟨?_, hallow, client, hk.named⟩
        cases v with
        | null => exact nomatch hok
        | integer n => exact nomatch hok
        | real x => exact nomatch hok
        | text s =>
            cases s with
            | nil => exact nomatch hok
            | cons c s =>
                refine ⟨c, s, rfl, ?_⟩
                replace hok : ((formatReply con req
                  (.simpleKey (some (joinSlash trail)) (.ofText []))
                  (.ofText (c :: s))).mapError storeError >>= finishResponse) = .ok response := hok
                rw [formatReply_plain hget.accept hname] at hok
                obtain rfl := Except.ok.inj hok
                injection hout with hout
                injection hout with hout
                injection hout with _ hout
                injection hout with hout
                injection hout with _ hout
                exact hout.symm
  · rintro ⟨⟨c, s, rfl, rfl⟩, hallow, client, hclient⟩
    have hk : Gets con req client (.simpleKey (some (joinSlash trail)) (.ofText [])) :=
      ⟨hget.command, by rw [htrail]; exact hdeep, by rw [htrail]; exact hentry, hclient,
        by rw [htrail]; exact parseQuery_plain_allowed hget.query hallow⟩
    rw [respond_get hk, hkey, hrow]
    refine ⟨⟨none, some jsonContentType,
      .json (.obj [(.text "type", .ofText "simple"), (.text "value", .ofText (c :: s))])⟩,
      ?_, rfl, rfl⟩
    show ((formatReply con req (.simpleKey (some (joinSlash trail)) (.ofText []))
      (.ofText (c :: s))).mapError storeError >>= finishResponse) = _
    rw [formatReply_plain hget.accept hname]
    rfl

/-! ## Reading back -/

/-- A text ends as its last part does, if that is not empty. -/
theorem endsInSlash_append {s : Str} (hs : s ≠ []) (r : Str) :
    endsInSlash (r ++ s) = endsInSlash s := by
  rw [endsInSlash, endsInSlash, List.getLast?_append_of_ne_nil r hs]

/-- The key and the name of an entry end alike: in its last segment. -/
theorem endsInSlash_key {trail : List Str} (hne : trail ≠ []) (hentry : ¬ namesContainer trail) :
    endsInSlash (join "keys" trail) = endsInSlash (joinSlash trail) := by
  induction trail using List.reverseRecOn with
  | nil => exact absurd rfl hne
  | append_singleton init s _ =>
      have hs : s ≠ [] := by
        rintro rfl
        exact hentry List.getLast?_concat
      obtain ⟨r, hr⟩ : ∃ r, joinStep (join "keys" init) s = r ++ s := by
        rw [joinStep]
        split_ifs
        · exact ⟨[], rfl⟩
        · exact ⟨_, rfl⟩
        · exact ⟨join "keys" init ++ [slash], by simp⟩
      obtain ⟨r', hr'⟩ : ∃ r', joinSlash (init ++ [s]) = r' ++ s := by
        cases init with
        | nil => exact ⟨[], spell_singleton slash s⟩
        | cons a init =>
            refine ⟨joinSlash (a :: init) ++ [slash], ?_⟩
            rw [joinSlash, spell_append slash (List.cons_ne_nil a init) (List.cons_ne_nil s []),
              spell_singleton]
            simp [joinSlash]
      rw [join_append, join_cons, join_nil, hr, hr', endsInSlash_append hs,
        endsInSlash_append hs]

/-- **HEADLINE — stored secrets are readable.** After a PUT answered 201 and
    any run in which no DELETE removes the entry, a plain GET of the entry is
    answered 200 with exactly the value that was sent, if and only if that
    value is a non-empty string, the consumer of the GET allows `simple`
    messages and its client has a name. -/
theorem read_back_iff (con con' : Secrets) (t : Table) (put get : Request) (vs : List Visit)
    (hput : put.command = "PUT".toList) (hcreated : (respond con put t).1.Answered 201)
    (hkept : ∀ step ∈ steps vs (respond con put t).2, step.2.req.command = "DELETE".toList →
      entryKey put ∈ step.1 → entryKey put ∈ (step.2.respond step.1).2)
    (hget : PlainGet get (segments put)) :
    (∃ value, sentValue con put = some value
      ∧ ReturnsValue (respond con' get (tableAfter vs (respond con put t).2)).1 value) ↔
    (∃ c s, sentValue con put = some (.ofText (c :: s)))
      ∧ con'.allowedKeytypes.allows "simple" = true ∧ ∃ client, clientName get = .ok client := by
  obtain ⟨msg, v, hstored⟩ := created_row hput hcreated
  have hrow := tableAfter_row vs _ hstored.row hkept
  have hname : endsInSlash (joinSlash (segments put)) = false := by
    rw [← endsInSlash_key (ne_nil_of_deep hstored.deep) hstored.entry]
    exact hstored.open_end
  constructor
  · rintro ⟨value, hsent, hreturns⟩
    obtain ⟨⟨c, s, -, rfl⟩, hrest⟩ :=
      (get_returns_iff hget hstored.deep hstored.entry hname hrow).mp hreturns
    exact ⟨⟨c, s, hsent⟩, hrest⟩
  · rintro ⟨⟨c, s, hsent⟩, hrest⟩
    -- the string that was sent is the payload, and the payload is the row
    have hpayload := payload_of_sent hstored.message hsent
    have hbound := hstored.bound
    rw [hpayload, bindValue_ofText] at hbound
    refine ⟨_, hsent, (get_returns_iff hget hstored.deep hstored.entry hname hrow).mpr ?_⟩
    exact ⟨⟨c, s, (Except.ok.inj hbound).symm, rfl⟩, hrest⟩

/-- The status of a request that has succeeded is that of its response, or 200. -/
theorem status_of_ok {o : Outcome} {response : Response} (h : o.result = .ok response) :
    o.status = response.code.getD 200 := by
  rw [Outcome.status, h]

/-- The message that sends an empty string. -/
def emptyValueMessage : Json :=
  .obj [(.text "type", .ofText "simple"), (.text "value", .ofText [])]

/-- The PUT that sends it. -/
def putEmptyValue : Request :=
  putJson "u" ["u", "k"] "\x7b\"type\": \"simple\", \"value\": \"\"\x7d"

/-- A PUT of an empty string is answered 201, and then no GET returns it. -/
theorem empty_value_unreadable :
    (respond (documentSecrets emptyValueMessage) putEmptyValue ∅).1.Answered 201
    ∧ sentValue (documentSecrets emptyValueMessage) putEmptyValue = some (.ofText [])
    ∧ PlainGet (userRequest "GET" "u" ["u", "k"] [] none) (segments putEmptyValue)
    ∧ ¬ ReturnsValue (respond (documentSecrets emptyValueMessage)
        (userRequest "GET" "u" ["u", "k"] [] none)
        (respond (documentSecrets emptyValueMessage) putEmptyValue ∅).2).1 (.ofText []) := by
  refine ⟨⟨_, rfl, rfl⟩, rfl, ⟨rfl, rfl, rfl, rfl⟩, ?_⟩
  rintro ⟨response, hok, hcode, -⟩
  have hstatus := status_of_ok hok
  rw [hcode] at hstatus
  exact absurd hstatus (by decide)

/-- The requests on other keys that come in between. -/
def othersBetween : List Visit :=
  [⟨simpleSecrets, putBytes "u" ["u", "j"] [66]⟩,
    ⟨simpleSecrets, userRequest "DELETE" "u" ["u", "j"] [] none⟩]

/-- A byte is stored and read back, while another entry comes and goes. -/
theorem read_back_byte :
    (tableAfter (othersBetween.take 1)
      (respond simpleSecrets (putBytes "u" ["u", "k"] [65]) ∅).2).lookup "keys/u/j".toList
        = some (.text "Qg==".toList)
    ∧ ∃ value, sentValue simpleSecrets (putBytes "u" ["u", "k"] [65]) = some value
      ∧ ReturnsValue (respond simpleSecrets (userRequest "GET" "u" ["u", "k"] [] none)
          (tableAfter othersBetween
            (respond simpleSecrets (putBytes "u" ["u", "k"] [65]) ∅).2)).1 value := by
  refine ⟨by decide, (read_back_iff simpleSecrets simpleSecrets ∅ (putBytes "u" ["u", "k"] [65])
    (userRequest "GET" "u" ["u", "k"] [] none) othersBetween rfl ⟨_, rfl, rfl⟩ ?_
    ⟨rfl, rfl, rfl, rfl⟩).mpr ⟨⟨'Q', "Q==", rfl⟩, rfl, "u", rfl⟩⟩
  intro step hstep hdelete _
  rcases List.mem_cons.mp hstep with rfl | hstep
  · exact absurd hdelete (by decide)
  · obtain rfl := List.mem_singleton.mp hstep
    decide

end ReadBackProofs
