import Custodia.ReadBackProofs
import Custodia.MigrationProofs
import Custodia.MigratedReads
import Custodia.TransparencyProofs

/-! # RawSecretsProofs — raw bytes in, raw bytes out

    A PUT of raw bytes stores their base64 text. A GET decodes the text again
    if its `Accept` header asks for raw bytes and does not mention JSON, and
    otherwise replies with the text.

    * `b64decode_b64encode`: decoding undoes encoding;
    * `acceptsBinary_iff`: what the loop over the accepted types decides;
    * `reads_back`: what a GET finds, over a table and over an overlay;
    * `raw_round_trip_iff`: what a GET returns. -/

namespace RawSecretsProofs

open Interaction PosixPath PyValues Unquote Messages SqliteStore SecretsConsumer SecretsCalls
open SecretsRequests SecretsRuns ReadBackProofs EncryptedStores EncryptedStores.StorePlugin
open WriteOnceProofs TransparencyProofs

/-! ## Base64 -/

/-- Every base 64 digit has the value that it was written for. -/
theorem base64Value_digit : ∀ n < 64, base64Value (base64Digit n) = some n := by decide

/-- No digit is the character of the padding. -/
theorem base64Digit_ne_pad : ∀ n < 64, base64Digit n ≠ '=' := by decide

/-- Every digit is ASCII. -/
theorem base64Digit_ascii : ∀ n < 64, (base64Digit n).toNat < 0x80 := by decide

section Digits

variable {n : Nat} (hn : n < 64) (left pads : Nat) (s : Str)

include hn

/-- The four digits of a group, one after the other. -/
theorem decode_digit₀ :
    b64decodeFrom 0 left pads (base64Digit n :: s) = b64decodeFrom 1 n 0 s := by
  simp only [b64decodeFrom, if_neg (base64Digit_ne_pad n hn), base64Value_digit n hn]

/-- The second digit of a quantum completes its first octet. -/
theorem decode_digit₁ :
    b64decodeFrom 1 left pads (base64Digit n :: s)
      = (b64decodeFrom 2 (n % 16) 0 s).map ((left * 4 + n / 16) :: ·) := by
  simp only [b64decodeFrom, if_neg (base64Digit_ne_pad n hn), base64Value_digit n hn]

/-- The third digit completes the second octet. -/
theorem decode_digit₂ :
    b64decodeFrom 2 left pads (base64Digit n :: s)
      = (b64decodeFrom 3 (n % 4) 0 s).map ((left * 16 + n / 4) :: ·) := by
  simp only [b64decodeFrom, if_neg (base64Digit_ne_pad n hn), base64Value_digit n hn]

/-- The fourth digit completes the third octet, and a new quantum begins. -/
theorem decode_digit₃ :
    b64decodeFrom 3 left pads (base64Digit n :: s)
      = (b64decodeFrom 0 0 0 s).map ((left * 64 + n) :: ·) := by
  simp only [b64decodeFrom, if_neg (base64Digit_ne_pad n hn), base64Value_digit n hn]

end Digits

section Groups

variable {a b c : Nat} (ha : a < 256) (hb : b < 256) (hc : c < 256)

include ha

/-- A quantum of two digits and two pads is one octet. -/
theorem decode_one :
    b64decodeFrom 0 0 0 [base64Digit (a / 4), base64Digit (a % 4 * 16), '=', '='] = .ok [a] := by
  have hbyte : a / 4 * 4 + a % 4 * 16 / 16 = a := by omega
  rw [decode_digit₀ (by omega), decode_digit₁ (by omega), hbyte]
  rfl

include hb

/-- A quantum of three digits and one pad is two octets. -/
theorem decode_two :
    b64decodeFrom 0 0 0 [base64Digit (a / 4), base64Digit (a % 4 * 16 + b / 16),
      base64Digit (b % 16 * 4), '='] = .ok [a, b] := by
  have hfirst : a / 4 * 4 + (a % 4 * 16 + b / 16) / 16 = a := by omega
  have hsecond : (a % 4 * 16 + b / 16) % 16 * 16 + b % 16 * 4 / 4 = b := by omega
  rw [decode_digit₀ (by omega), decode_digit₁ (by omega), decode_digit₂ (by omega), hfirst,
    hsecond]
  rfl

include hc

/-- A quantum of four digits is three octets, and the rest is decoded behind it. -/
theorem decode_three (s : Str) :
    b64decodeFrom 0 0 0 (base64Digit (a / 4) :: base64Digit (a % 4 * 16 + b / 16)
        :: base64Digit (b % 16 * 4 + c / 64) :: base64Digit (c % 64) :: s)
      = (b64decodeFrom 0 0 0 s).map (fun rest => a :: b :: c :: rest) := by
  have hfirst : a / 4 * 4 + (a % 4 * 16 + b / 16) / 16 = a := by omega
  have hsecond : (a % 4 * 16 + b / 16) % 16 * 16 + (b % 16 * 4 + c / 64) / 4 = b := by omega
  have hthird : (b % 16 * 4 + c / 64) % 4 * 64 + c % 64 = c := by omega
  rw [decode_digit₀ (by omega), decode_digit₁ (by omega), decode_digit₂ (by omega),
    decode_digit₃ (by omega), hfirst, hsecond, hthird]
  cases b64decodeFrom 0 0 0 s <;> rfl

end Groups

/-- Every number is that of a byte. -/
def Bytes (data : List Nat) : Prop := ∀ x ∈ data, x < 256

instance (data : List Nat) : Decidable (Bytes data) := inferInstanceAs (Decidable (∀ _ ∈ _, _))

/-- **The digits of each group give its bytes back**, three bytes for four
    digits, and the padding says how many are missing. -/
theorem b64decodeFrom_encode (data : List Nat) (h : Bytes data) :
    b64decodeFrom 0 0 0 (b64encode data) = .ok data := by
  induction data using b64encode.induct with
  | case1 => rfl
  | case2 a => exact decode_one (h a (by simp))
  | case3 a b => exact decode_two (h a (by simp)) (h b (by simp))
  | case4 a b c rest ih =>
      rw [b64encode, decode_three (h a (by simp)) (h b (by simp)) (h c (by simp)),
        ih (fun x hx => h x (by simp [hx]))]
      rfl

/-- Base 64 is ASCII. -/
theorem b64encode_ascii (data : List Nat) (h : Bytes data) :
    ∀ c ∈ b64encode data, c.toNat < 0x80 := by
  have hpad : '='.toNat < 0x80 := by decide
  induction data using b64encode.induct with
  | case1 => intro c hc; cases hc
  | case2 a =>
      have ha : @LT.lt Nat _ a 256 := h a (by simp)
      simp only [b64encode, List.forall_mem_cons]
      exact ⟨base64Digit_ascii _ (by omega), base64Digit_ascii _ (by omega), hpad, hpad,
        fun c hc => by cases hc⟩
  | case3 a b =>
      have ha : @LT.lt Nat _ a 256 := h a (by simp)
      have hb : @LT.lt Nat _ b 256 := h b (by simp)
      simp only [b64encode, List.forall_mem_cons]
      exact ⟨base64Digit_ascii _ (by omega), base64Digit_ascii _ (by omega),
        base64Digit_ascii _ (by omega), hpad, fun c hc => by cases hc⟩
  | case4 a b c rest ih =>
      have ha : @LT.lt Nat _ a 256 := h a (by simp)
      have hb : @LT.lt Nat _ b 256 := h b (by simp)
      have hc : @LT.lt Nat _ c 256 := h c (by simp)
      simp only [b64encode, List.forall_mem_cons]
      exact ⟨base64Digit_ascii _ (by omega), base64Digit_ascii _ (by omega),
        base64Digit_ascii _ (by omega), base64Digit_ascii _ (by omega),
        ih (fun x hx => h x (by simp [hx]))⟩

/-- **Decoding undoes encoding**, for bytes of any number. By induction on the
    groups of three. -/
theorem b64decode_b64encode {data : List Nat} (h : Bytes data) :
    b64decode (b64encode data) = .ok data := by
  have hascii : (b64encode data).all (fun c => decide (c.toNat < 0x80)) = true :=
    List.all_eq_true.mpr (fun c hc => decide_eq_true (b64encode_ascii data h c hc))
  rw [b64decode, if_pos hascii, b64decodeFrom_encode data h]

/-- Only no data at all is written as an empty text. -/
theorem b64encode_ne_nil {data : List Byte} (h : data ≠ []) : b64encode data ≠ [] := by
  match data, h with
  | [], h => exact absurd rfl h
  | [a], _ => exact List.cons_ne_nil _ _
  | [a, b], _ => exact List.cons_ne_nil _ _
  | a :: b :: c :: rest, _ => exact List.cons_ne_nil _ _

/-! ## The accepted types -/

/-- **What the loop over the accepted types decides**: raw bytes are asked for
    or were before, and JSON is not mentioned. -/
theorem acceptsBinary_iff (types : List Str) (binary : Bool) :
    acceptsBinary binary types = true
      ↔ (binary = true ∨ "application/octet-stream".toList ∈ types.map strip)
        ∧ "application/json".toList ∉ types.map strip := by
  induction types generalizing binary with
  | nil => simp [acceptsBinary]
  | cons t types ih =>
      rw [acceptsBinary]
      by_cases hjson : strip t = "application/json".toList
      · rw [if_pos hjson]
        refine iff_of_false Bool.false_ne_true (fun h => h.2 ?_)
        rw [List.map_cons, hjson]
        exact List.mem_cons_self
      · rw [if_neg hjson, List.map_cons, List.mem_cons, List.mem_cons, not_or]
        have hno : ("application/json".toList ≠ strip t) := fun h => hjson h.symm
        by_cases hoctet : strip t = "application/octet-stream".toList
        · rw [if_pos hoctet, ih]
          exact and_congr (iff_of_true (Or.inl rfl) (Or.inr (Or.inl hoctet.symm)))
            (and_iff_right hno).symm
        · rw [if_neg hoctet, ih]
          have hother : "application/octet-stream".toList ≠ strip t := fun h => hoctet h.symm
          exact and_congr (or_congr_right (or_iff_right hother).symm) (and_iff_right hno).symm

/-- The `Accept` header lists raw bytes and not JSON. -/
def AsksRaw (req : Request) : Prop :=
  ∃ accept, req.header "Accept" = some accept
    ∧ "application/octet-stream".toList ∈ (accept.splitOn ',').map strip
    ∧ "application/json".toList ∉ (accept.splitOn ',').map strip

/-! ## What is stored and found -/

/-- A store that gives the texts back: a stack whose tokens can be opened, or
    an overlay that migrates. -/
def Faithful (plugin : StorePlugin) : Prop :=
  (plugin.NotMigrating ∧ plugin.RoundTrips)
    ∨ ∃ jwe enctype, plugin = MigrationProofs.migrating jwe enctype
      ∧ ∀ key, Opens jwe (overlayHeader enctype (some "migrate".toList) key)

/-- A plain `SqliteStore` keeps texts as they are. -/
theorem faithful_sqlite : Faithful .sqlite := Or.inl ⟨trivial, trivial⟩

/-- An overlay with an ideal cipher is one, in every mode. -/
theorem faithful_overlay {jwe : Jwe} {enctype : Str} {protection : Option Str}
    (h : ∀ key, Opens jwe (overlayHeader enctype protection key)) :
    Faithful (overlay jwe enctype protection) := by
  by_cases hmode : protection = some "migrate".toList
  · subst hmode
    exact Or.inr ⟨jwe, enctype, rfl, h⟩
  · exact Or.inl ⟨⟨hmode, trivial⟩, h, trivial⟩

/-- The table holds the encoded payload of the message under the entry's key:
    encoded by every layer of the store, from the top, and bound as a text at
    the bottom. -/
structure StoredOver (plugin : StorePlugin) (job : Job) (msg : Handler) (row : SqlValue)
    (t : Table) : Prop where
  deep : 2 ≤ (segments job.req).length
  entry : ¬ namesContainer (segments job.req)
  message : parseSetBody job.con job.req (joinSlash (segments job.req)) = .ok msg
  encoded : ∃ encoded, plugin.encode job.nonce (entryKey job.req) msg.payload = .ok encoded
    ∧ bindValue setErrorText encoded = .ok row
  open_end : endsInSlash (entryKey job.req) = false
  row : t.lookup (entryKey job.req) = some row

variable {plugin : StorePlugin} {job : Job} {t : Table}

/-- **A PUT answered 201 has stored its payload**, over any store. -/
theorem created_over (hput : job.req.command = "PUT".toList)
    (h : (respondOver plugin job t).1.Answered 201) :
    ∃ msg row, StoredOver plugin job msg row (respondOver plugin job t).2 := by
  cases request_kind job.con job.req with
  | get client msg hk => exact absurd (hk.command.symm.trans hput) (by decide)
  | list key msg hk => exact absurd (hk.command.symm.trans hput) (by decide)
  | post msg hk => exact absurd (hk.command.symm.trans hput) (by decide)
  | destroy msg hk => exact absurd (hk.command.symm.trans hput) (by decide)
  | delete client msg hk => exact absurd (hk.command.symm.trans hput) (by decide)
  | refused o hrun hk =>
      obtain ⟨⟨e, he⟩, -⟩ := hk
      obtain ⟨response, hok, -⟩ := h
      rw [respondOver, Job.program, hrun] at hok
      cases he.symm.trans hok
  | put client msg hk =>
      rw [respondOver_put plugin hk] at h ⊢
      cases hcheck : parentCheck t job.req.defaultNamespace (segments job.req) with
      | error e => rw [hcheck] at h; exact absurd h not_answered_error
      | ok t' =>
          cases hencode : plugin.encode job.nonce (entryKey job.req) msg.payload with
          | error e =>
              simp only [hcheck, hencode] at h
              exact absurd h not_answered_error
          | ok encoded =>
              simp only [hcheck, hencode] at h ⊢
              -- every way for `set` to fail ends in an error
              cases hend : endsInSlash (entryKey job.req) with
              | true =>
                  obtain ⟨e, hset, -⟩ := exec_set_slash hend encoded false t'
                  rw [hset] at h
                  exact absurd h not_answered_error
              | false =>
                  cases hbound : bindValue setErrorText encoded with
                  | error e =>
                      rw [exec_set_unbound hend hbound] at h
                      exact absurd h not_answered_error
                  | ok row =>
                      by_cases hmem : entryKey job.req ∈ t'
                      · rw [exec_set_mem hend hbound hmem] at h
                        exact absurd h not_answered_error
                      · rw [exec_set_not_mem hend hbound hmem]
                        exact ⟨msg, row, hk.deep, hk.entry, hk.message, ⟨encoded, hencode, hbound⟩,
                          hend, AList.lookup_insert _⟩

/-- **What a GET finds** of an encoded text is the text: every layer of the
    store decodes what it has encoded. -/
theorem reads_back (hfaithful : Faithful plugin) {nonce : Nat} {s : Str} {encoded : Json}
    {row : SqlValue} (hencode : plugin.encode nonce (entryKey job.req) (.ofText s) = .ok encoded)
    (hbound : bindValue setErrorText encoded = .ok row)
    (hrow : t.lookup (entryKey job.req) = some row) {client : Str} {handler : Handler}
    (hget : Gets job.con job.req client handler) :
    respondOver plugin job t = (recorded auditGetAllowed auditGetDenied client (segments job.req)
      (getFinish job.con job.req handler (.ok (.text s))), t) := by
  rcases hfaithful with ⟨hmode, hround⟩ | ⟨jwe, enctype, rfl, hopens⟩
  · obtain ⟨v, hv, hdecode⟩ := decode_encode hround hencode hbound
    obtain rfl := Except.ok.inj hv
    rw [respondOver_get plugin hmode hget, hrow, Option.getD_some, hdecode]
  · obtain ⟨token, htoken, hencode⟩ := bind_ok hencode
    obtain rfl := Except.ok.inj hencode
    obtain rfl := Except.ok.inj hbound
    -- the token is pinned to its key, so nothing is written back
    have hpinned := MigratedReads.pinnedTo_fresh (hopens (entryKey job.req)) (raised_ok htoken)
    rw [respondOver_conclude (MigrationProofs.program_get hget), Prog.run_call, exec_get, hrow,
      Option.getD_some, Prog.ofExcept_ok, Prog.ret_bind,
      MigratedReads.overlayOpen_pinned hpinned, Prog.run_ret]

/-! ## The reply -/

/-- The request is answered with these bytes. -/
def ReturnsRaw (o : Outcome) (data : List Byte) : Prop :=
  ∃ response, o.result = .ok response ∧ response.code.getD 200 = 200
    ∧ response.contentType = some "application/octet-stream" ∧ response.output = .bytes data

/-- The request is answered with this text, in a JSON reply of type
    `simple`. -/
def ReturnsText (o : Outcome) (s : Str) : Prop :=
  ∃ response, o.result = .ok response ∧ response.code.getD 200 = 200
    ∧ response.contentType = some jsonContentType
    ∧ response.output
      = .json (.obj [(.text "type", .ofText "simple"), (.text "value", .ofText s)])

/-- The bytes are returned as they are if the request asks for that, and else
    as their base64 text. -/
def ReturnsData (o : Outcome) (req : Request) (data : List Byte) : Prop :=
  (AsksRaw req → ReturnsRaw o data) ∧ (¬ AsksRaw req → ReturnsText o (b64encode data))

/-- The client of the GET has a name, and its message is a `simple` one. -/
def ReadsSimple (job : Job) : Prop :=
  (∃ client, clientName job.req = .ok client)
    ∧ ∃ handler, parseQuery job.con job.req (joinSlash (segments job.req)) = .ok handler
      ∧ handler.isSimple = true

variable {con : Secrets} {req : Request} {name : Str} {data : List Byte}

/-- `_format_reply` has decided that raw bytes are asked for. -/
def accepted (req : Request) : Bool :=
  match req.header "Accept" with
  | none => false
  | some accept => acceptsBinary false (accept.splitOn ',')

/-- The loop over the accepted types asks for raw bytes exactly if the condition
    on the header holds. -/
theorem accepted_iff : accepted req = true ↔ AsksRaw req := by
  rw [accepted]
  cases haccept : req.header "Accept" with
  | none =>
      refine iff_of_false Bool.false_ne_true ?_
      rintro ⟨accept, hsome, -⟩
      cases haccept.symm.trans hsome
  | some accept =>
      show acceptsBinary false (accept.splitOn ',') = true ↔ _
      rw [acceptsBinary_iff]
      constructor
      · rintro ⟨hoctet, hjson⟩
        exact ⟨accept, haccept, hoctet.resolve_left Bool.false_ne_true, hjson⟩
      · rintro ⟨accept', hsome, hoctet, hjson⟩
        obtain rfl := Option.some.inj (haccept.symm.trans hsome)
        exact ⟨Or.inr hoctet, hjson⟩

/-- The reply of a `simple` message with the name of a secret is the document
    with the value. -/
theorem simpleReply_text (hname : endsInSlash name = false) (s : Str) :
    simpleReply (some name) (.ofText s)
      = .ok (.obj [(.text "type", .ofText "simple"), (.text "value", .ofText s)]) := by
  show (if endsInSlash name = true then _ else _ : Except Exc Json) = _
  rw [hname]
  rfl

/-- The reply with raw bytes. -/
theorem formatReply_raw (hname : endsInSlash name = false) (hdata : Bytes data)
    (hasks : AsksRaw req) (payload : Json) :
    formatReply con req (.simpleKey (some name) payload) (.ofText (b64encode data))
      = .ok ⟨none, some "application/octet-stream", .bytes data⟩ := by
  have hdecode : decodeReplyValue (.obj [(.text "type", .ofText "simple"),
      (.text "value", .ofText (b64encode data))]) = .ok data := b64decode_b64encode hdata
  have hbinary := accepted_iff.mpr hasks
  rw [accepted] at hbinary
  rw [formatReply]
  simp only [Handler.reply, simpleReply_text hname, bind, Except.bind]
  rw [if_pos ⟨rfl, hbinary⟩, hdecode]
  rfl

/-- The reply with their base64 text. -/
theorem formatReply_text (hname : endsInSlash name = false) (hasks : ¬ AsksRaw req)
    (payload : Json) :
    formatReply con req (.simpleKey (some name) payload) (.ofText (b64encode data))
      = .ok ⟨none, some jsonContentType, .json (.obj [(.text "type", .ofText "simple"),
          (.text "value", .ofText (b64encode data))])⟩ := by
  have hbinary := mt accepted_iff.mp hasks
  rw [accepted] at hbinary
  rw [formatReply]
  simp only [Handler.reply, simpleReply_text hname, bind, Except.bind]
  rw [if_neg (fun hand => hbinary hand.2)]
  rfl

/-- A `simple` message carries the name that it was read with. -/
theorem parseQuery_simple {handler : Handler} (h : parseQuery con req name = .ok handler)
    (hsimple : handler.isSimple = true) :
    ∃ payload, handler = .simpleKey (some name) payload := by
  have hparsed : ∃ msg, parseMessage con req msg name = .ok handler := by
    rw [parseQuery] at h
    split_ifs at h
    · exact ⟨_, h⟩
    · exact ⟨_, h⟩
  obtain ⟨msg, hmsg⟩ := hparsed
  obtain ⟨-, -, msgType, -, value, -, -, -, -, -, hparsed⟩ := parse_ok hmsg
  rcases hparsed with ⟨-, -, hkey⟩ | ⟨-, -, hkem⟩
  · cases value with
    | null =>
        obtain rfl := Except.ok.inj hkey
        cases hsimple
    | str s => exact ⟨_, (Except.ok.inj hkey).symm⟩
    | bool b => cases hkey
    | int n => cases hkey
    | float x => cases hkey
    | arr items => cases hkey
    | obj fields => cases hkey
  · obtain ⟨payload, kk, encKey, rfl⟩ := kemParse_kemHandler hkem
    cases hsimple

/-- The reply of a `kem` message is a document of that type. -/
theorem kemReply_type {rt : Runtime} {kk : KEMKeysStore} {encKey : Jwk} {output reply : Json}
    (h : kemReply rt name kk encKey output = .ok reply) :
    ∃ value, reply = .obj [(.text "type", .ofText "kem"), (.text "value", value)] := by
  rw [kemReply] at h
  split_ifs at h
  obtain ⟨keys, -, h⟩ := bind_ok h
  obtain ⟨alg, -, h⟩ := bind_ok h
  obtain ⟨value, -, h⟩ := bind_ok h
  exact ⟨_, (Except.ok.inj h).symm⟩

/-- A request that ends with an exception returns no data. -/
theorem not_returnsData_error {e : Exc} {audit : List AuditRecord} :
    ¬ ReturnsData ⟨.error e, audit⟩ req data := by
  rintro ⟨hraw, htext⟩
  by_cases hasks : AsksRaw req
  · obtain ⟨response, hok, -⟩ := hraw hasks
    cases hok
  · obtain ⟨response, hok, -⟩ := htext hasks
    cases hok

/-- A `kem` message is answered in its own format. -/
theorem not_returnsData_kem {reply : Response} {value : Json} {audit : List AuditRecord}
    (hreply : reply.output = .json (.obj [(.text "type", .ofText "kem"), (.text "value", value)])) :
    ¬ ReturnsData ⟨.ok reply, audit⟩ req data := by
  rintro ⟨hraw, htext⟩
  by_cases hasks : AsksRaw req
  · obtain ⟨response, hok, -, -, hout⟩ := hraw hasks
    obtain rfl := Except.ok.inj hok
    cases hreply.symm.trans hout
  · obtain ⟨response, hok, -, -, hout⟩ := htext hasks
    obtain rfl := Except.ok.inj hok
    have hobj := Output.json.inj (hreply.symm.trans hout)
    have hpair := (List.cons.inj (Json.obj.inj hobj)).1
    have htype := PyStr.text.inj (Json.str.inj (Prod.mk.inj hpair).2)
    exact absurd htype (by decide)

/-- Another message is not answered with the data. -/
theorem not_returnsData_other {handler : Handler} (hother : handler.isSimple ≠ true)
    {audit : List AuditRecord} {c : Char} {s : Str} :
    ¬ ReturnsData ⟨(formatReply con req handler (.ofText (c :: s))).mapError storeError
      >>= finishResponse, audit⟩ req data := by
  cases handler with
  | simpleKey name payload =>
      cases name with
      | some name => exact absurd rfl hother
      | none => exact not_returnsData_error
  | kemHandler name payload kk encKey =>
      rw [formatReply]
      simp only [Handler.reply]
      cases hreply : kemReply con.runtime name kk encKey (.ofText (c :: s)) with
      | error e => exact not_returnsData_error
      | ok reply =>
          obtain ⟨value, rfl⟩ := kemReply_type hreply
          have hkem : (⟨none, some jsonContentType, .json (.obj [(.text "type", .ofText "kem"),
              (.text "value", value)])⟩ : Response).output = .json (.obj
                [(.text "type", .ofText "kem"), (.text "value", value)]) := rfl
          exact not_returnsData_kem hkem

/-! ## The round trip -/

section RoundTrip

variable {put get : Job} {t' : Table}

/-- **HEADLINE — raw secrets come back.** Over a table or an overlay, once a
    PUT of raw bytes has been answered 201 and while the row is there, a GET of
    the same trail returns the bytes, or their base64 text, as its `Accept`
    header says, exactly if its client has a name and its message is a `simple`
    one. -/
theorem raw_round_trip_iff (hfaithful : Faithful plugin)
    (hput : put.req.command = "PUT".toList)
    (hoctet : contentTypeValue put.req = "application/octet-stream".toList)
    (hbody : put.req.body = some data) (hbytes : Bytes data) (hne : data ≠ [])
    (hcreated : (respondOver plugin put t).1.Answered 201)
    (hkept : t'.lookup (entryKey put.req)
      = (respondOver plugin put t).2.lookup (entryKey put.req))
    (hget : get.req.command = "GET".toList) (htrail : segments get.req = segments put.req) :
    ReturnsData (respondOver plugin get t').1 get.req data ↔ ReadsSimple get := by
  obtain ⟨msg, row, hstored⟩ := created_over hput hcreated
  have hname : endsInSlash (joinSlash (segments get.req)) = false := by
    rw [htrail, ← endsInSlash_key (ne_nil_of_deep hstored.deep) hstored.entry]
    exact hstored.open_end
  have hpayload : msg.payload = .ofText (b64encode data) := by
    refine payload_of_sent hstored.message ?_
    rw [sentValue, if_pos hoctet, hbody]
    rfl
  obtain ⟨encoded, hencode, hbound⟩ := hstored.encoded
  have hkey : entryKey get.req = entryKey put.req := by rw [entryKey, htrail, entryKey]
  rw [hpayload, ← hkey] at hencode
  rw [← hkey, hkey, hstored.row, ← hkey] at hkept
  obtain ⟨c, s, htext⟩ := List.exists_cons_of_ne_nil (b64encode_ne_nil hne)
  -- what a GET of this trail makes of the text
  have hanswer {client : Str} {handler : Handler} (h : Gets get.con get.req client handler) :
      (respondOver plugin get t').1 = ⟨(formatReply get.con get.req handler
          (.ofText (b64encode data))).mapError storeError >>= finishResponse,
        (recorded auditGetAllowed auditGetDenied client (segments get.req)
          (getFinish get.con get.req handler (.ok (.text (b64encode data))))).audit⟩ := by
    rw [reads_back hfaithful hencode hbound hkept h, htext]
    rfl
  have hdeep : 2 ≤ (segments get.req).length := htrail ▸ hstored.deep
  have hentry : ¬ namesContainer (segments get.req) := htrail ▸ hstored.entry
  constructor
  · intro hreturns
    cases request_kind get.con get.req with
    | put client msg hk => exact absurd (hk.command.symm.trans hget) (by decide)
    | post msg hk => exact absurd (hk.command.symm.trans hget) (by decide)
    | destroy msg hk => exact absurd (hk.command.symm.trans hget) (by decide)
    | delete client msg hk => exact absurd (hk.command.symm.trans hget) (by decide)
    | list key msg hk =>
        rcases hk.container with hnil | hcont
        · exact absurd hnil (ne_nil_of_deep hdeep)
        · exact absurd hcont hentry
    | refused o hrun hk =>
        obtain ⟨⟨e, he⟩, -⟩ := hk
        have hrefused : (respondOver plugin get t').1 = ⟨.error e, o.audit⟩ := by
          rw [respondOver, Job.program, hrun, ← he]
          rfl
        rw [hrefused] at hreturns
        exact absurd hreturns not_returnsData_error
    | get client handler hk =>
        refine ⟨⟨client, hk.named⟩, handler, hk.message, ?_⟩
        by_contra hother
        rw [hanswer hk, htext] at hreturns
        exact not_returnsData_other hother hreturns
  · rintro ⟨⟨client, hclient⟩, handler, hmessage, hsimple⟩
    have hk : Gets get.con get.req client handler := ⟨hget, hdeep, hentry, hclient, hmessage⟩
    obtain ⟨payload, rfl⟩ := parseQuery_simple hmessage hsimple
    rw [hanswer hk]
    constructor
    · intro hasks
      rw [formatReply_raw hname hbytes hasks]
      exact ⟨_, rfl, rfl, rfl, rfl⟩
    · intro hasks
      rw [formatReply_text hname hasks]
      exact ⟨_, rfl, rfl, rfl, rfl⟩

end RoundTrip

/-- A GET without a query is a `simple` one, if those are allowed. -/
theorem readsSimple_plain {get : Job} (hquery : get.req.query = [])
    (hallow : get.con.allowedKeytypes.allows "simple" = true) :
    ReadsSimple get ↔ ∃ client, clientName get.req = .ok client :=
  and_iff_left ⟨_, parseQuery_plain_allowed hquery hallow, rfl⟩

/-- A PUT of one byte. -/
def putByte : Job := ⟨simpleSecrets, putBytes "u" ["u", "k"] [65], 0⟩

/-- A GET of it that asks for raw bytes. -/
def getByte : Job :=
  ⟨simpleSecrets, userRequest "GET" "u" ["u", "k"]
    [("Accept", "text/plain, application/octet-stream")] none, 0⟩

/-- A GET of it with a message of an unknown type. -/
def getUnknown : Job :=
  ⟨simpleSecrets, { userRequest "GET" "u" ["u", "k"] [] none with
    query := [("type", ["other"]), ("value", ["x"])] }, 0⟩

/-- Only GETs with a `simple` message return the data. -/
theorem not_returnsData_unknown :
    ¬ ∀ (plugin : StorePlugin) (put get : Job) (t t' : Table) (data : List Byte),
        Faithful plugin → put.req.command = "PUT".toList →
        contentTypeValue put.req = "application/octet-stream".toList →
        put.req.body = some data → Bytes data → data ≠ [] →
        (respondOver plugin put t).1.Answered 201 →
        t'.lookup (entryKey put.req) = (respondOver plugin put t).2.lookup (entryKey put.req) →
        get.con = put.con → get.req.command = "GET".toList →
        segments get.req = segments put.req →
        ReturnsData (respondOver plugin get t').1 get.req data := by
  intro hall
  have hreturns := hall .sqlite putByte getUnknown ∅ (respondOver .sqlite putByte ∅).2 [65]
    faithful_sqlite rfl rfl rfl (by decide) (by decide) ⟨_, rfl, rfl⟩ rfl rfl rfl rfl
  exact not_returnsData_error hreturns

/-- One octet is stored through an encrypted overlay, and read back as raw
    bytes. -/
theorem raw_round_trip_byte :
    Faithful (overlay PinningProofs.spelledJwe "A256CBC-HS512" (some "pinning".toList))
    ∧ ReturnsData (respondOver (overlay PinningProofs.spelledJwe "A256CBC-HS512"
        (some "pinning".toList)) getByte (respondOver (overlay PinningProofs.spelledJwe
          "A256CBC-HS512" (some "pinning".toList)) putByte ∅).2).1 getByte.req [65] := by
  have hfaithful : Faithful (overlay PinningProofs.spelledJwe "A256CBC-HS512"
      (some "pinning".toList)) :=
    faithful_overlay (fun key => PinningProofs.spelledJwe_opens _ _ key)
  have hput : putByte.req.command = "PUT".toList := rfl
  have hoctet : contentTypeValue putByte.req = "application/octet-stream".toList := by decide
  have hcreated : (respondOver (overlay PinningProofs.spelledJwe "A256CBC-HS512"
      (some "pinning".toList)) putByte ∅).1.Answered 201 := ⟨_, rfl, rfl⟩
  have hget : getByte.req.command = "GET".toList := rfl
  have htrail : segments getByte.req = segments putByte.req := rfl
  refine ⟨hfaithful, (raw_round_trip_iff hfaithful hput hoctet rfl (by decide) (by decide) hcreated
    rfl hget htrail).mpr ?_⟩
  exact (readsSimple_plain rfl rfl).mpr ⟨"u", rfl⟩

end RawSecretsProofs
